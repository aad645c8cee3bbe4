import GameServer.Scripts.BoxRoom
import Mathlib.Tactic.IntervalCases

namespace GameServer.Scripts.BatchUse
open ItemBoxes

section uses
variable {β : Type}

-- How much of one thing the grants of a list come to.
structure Key where
  call : Call
  id : Nat
  bind : Bool
  deriving DecidableEq

def key (g : Grant) : Key := ⟨g.call,g.id,g.bind⟩

def total (thing : Key) (grants : List Grant) : Nat := Stacks.total thing (grants.map fun g => (key g,g.count))

theorem total_append (thing : Key) (first second : List Grant) : total thing (first ++ second) = total thing first + total thing second := by
  simp [total,Stacks.total]

-- A number of single uses, one after the other.
def uses (single : Lua β Answer) (num : Nat) (s : Stock β) : Stock β := (fun s => (single s).2)^[num] s

def Short (answer : Answer) : Prop := answer = .zero ∨ answer = .full

-- Room for everything: neither the use of all nor the single uses are refused
-- for want of room, and nothing they add is lost.
structure Roomy (batch single : Lua β Answer) (num : Nat) (s : Stock β) : Prop where
  found : ¬ Short (batch s).1
  added : (batch s).2.lost = s.lost
  singles : ∀ k < num, ¬ Short (single (uses single k s)).1
  addedAll : (uses single num s).lost = s.lost

-- A use that returns a count grants what so many single uses do.
def Repeated (batch single : Lua β Answer) (s : Stock β) : Prop :=
  ∀ c, (batch s).1 = .used c → ∀ thing, total thing (batch s).2.granted = total thing (uses single c s).granted

end uses

section law
variable {β : Type} {ops : Packages β}

-- A use that finds room grants a fixed amount of a thing.
def Gives (ops : Packages β) (run : Lua β Answer) (thing : Key) (amount : Nat) : Prop :=
  ∀ s, ¬ Short (run s).1 → ∃ grants draws, (run s).2 = {issue ops grants s with draws} ∧ total thing grants = amount

theorem gives_lost {run : Lua β Answer} {thing : Key} {amount : Nat} {s : Stock β} (gives : Gives ops run thing amount) (enough : ¬ Short (run s).1) :
    s.lost <+: (run s).2.lost ∧ ((run s).2.lost = s.lost → total thing (run s).2.granted = total thing s.granted + amount) := by
  obtain ⟨grants,draws,same,amounts⟩ := gives s enough
  rw [same]
  refine ⟨lost_grows ops grants s,?_⟩
  intro kept
  dsimp only at kept ⊢
  rw [issue_granted (issue_room.mp kept),total_append,amounts]

theorem gives_uses {single : Lua β Answer} {thing : Key} {amount : Nat} (gives : Gives ops single thing amount) (num : Nat) {s : Stock β}
    (enough : ∀ k < num, ¬ Short (single (uses single k s)).1) :
    s.lost <+: (uses single num s).lost ∧
      ((uses single num s).lost = s.lost → total thing (uses single num s).granted = total thing s.granted + num*amount) := by
  induction num generalizing s with
  | zero => exact ⟨List.prefix_rfl,fun _ => by simp [uses]⟩
  | succ num ih =>
      obtain ⟨first,firstTotal⟩ := gives_lost gives (enough 0 (Nat.succ_pos _))
      obtain ⟨later,laterTotal⟩ := ih (s := (single s).2) fun k less => enough (k + 1) (Nat.succ_lt_succ less)
      have same : uses single (num + 1) s = uses single num (single s).2 := rfl
      have start : uses single 0 s = s := rfl
      rw [start] at first firstTotal
      rw [same]
      refine ⟨first.trans later,?_⟩
      intro kept
      rw [kept] at later
      have once : (single s).2.lost = s.lost := later.eq_of_length_le first.length_le
      rw [laterTotal (kept.trans once.symm),firstTotal once,Nat.add_mul]
      omega

-- Giving as much for all as for each one by one.
theorem repeated_of_gives {batch single : Lua β Answer} {num : Nat} {s : Stock β} {amount : Key → Nat}
    (room : Roomy batch single num s) (counted : ∀ c, (batch s).1 = .used c → c = num)
    (each : ∀ thing, Gives ops single thing (amount thing)) (all : ∀ thing, Gives ops batch thing (num*amount thing)) : Repeated batch single s := by
  intro c used thing
  rw [counted c used]
  rw [(gives_lost (all thing) room.found).2 room.added,(gives_uses (each thing) num room.singles).2 room.addedAll]

-- Giving the same for all as for one.
theorem repeated_iff_one {batch single : Lua β Answer} {num : Nat} {s : Stock β} {thing : Key} {amount : Nat}
    (room : Roomy batch single num s) (used : (batch s).1 = .used num) (positive : 0 < amount)
    (each : Gives ops single thing amount) (all : Gives ops batch thing amount) (repeated : Repeated batch single s) : num = 1 := by
  have same := repeated num used thing
  rw [(gives_lost all room.found).2 room.added,(gives_uses each num room.singles).2 room.addedAll] at same
  have once : 1*amount = num*amount := by omega
  exact (Nat.eq_of_mul_eq_mul_right positive once).symm

end law

section loops
variable {β : Type} {short : Nat → β → Bool} {refusal : Answer} {body : Lua β Unit} {num : Nat} {s : Stock β}

theorem openAll_enough (refused : Short refusal) (enough : ¬ Short (openAll (short num) refusal body num s).1) :
    openAll (short num) refusal body num s = (.used num,(times num body s).2) := by
  by_cases without : short num s.package = true
  · rw [openAll_short without] at enough
    exact absurd refused enough
  · exact unlessShort_enough without

theorem uses_times (refused : Short refusal) (num : Nat) {s : Stock β}
    (enough : ∀ k < num, ¬ Short (openAll (short 1) refusal body 1 (uses (openAll (short 1) refusal body 1) k s)).1) :
    uses (openAll (short 1) refusal body 1) num s = (times num body s).2 := by
  induction num generalizing s with
  | zero => rfl
  | succ num ih =>
      have one := openAll_enough refused (enough 0 (Nat.succ_pos _))
      have single : (openAll (short 1) refusal body 1 s).2 = (body s).2 := congrArg Prod.snd one
      have later := ih (s := (body s).2)
      rw [← single] at later
      have rest := later fun k less => enough (k + 1) (Nat.succ_lt_succ less)
      rw [single] at rest
      show uses (openAll (short 1) refusal body 1) num (openAll (short 1) refusal body 1 s).2 = (times num body (body s).2).2
      rw [single]
      exact rest

-- Boxes that are opened one by one are as good as so many uses.
theorem openAll_repeated (short : Nat → β → Bool) (refused : Short refusal)
    (room : Roomy (openAll (short num) refusal body num) (openAll (short 1) refusal body 1) num s) :
    Repeated (openAll (short num) refusal body num) (openAll (short 1) refusal body 1) s := by
  intro c used thing
  rw [openAll_enough refused room.found] at used ⊢
  cases used
  rw [uses_times refused num room.singles]

end loops

section gifts
variable {β : Type} {ops : Packages β} {w : World} {thing : Key}

-- A gift adds a fixed amount of a thing, whatever it draws.
def GiftBody (ops : Packages β) (body : Lua β Unit) (thing : Key) (amount : Nat) : Prop :=
  ∃ round taken, Issues ops body round taken ∧ ∀ i, total thing (round i) = amount

def item (one : Nat × Nat) : Grant := ⟨.AddItem,one.1,one.2,true⟩

theorem items_issues (items : List (Nat × Nat)) : Issues ops (AddItems ops items) (fun _ => items.map item) (fun _ => 0) := by
  induction items with
  | nil => exact issues_pure
  | cons one rest ih => exact issues_then (issues_give (item one)) ih

theorem gift_items (items : List (Nat × Nat)) (thing : Key) : GiftBody ops (AddItems ops items) thing (total thing (items.map item)) :=
  ⟨_,_,items_issues items,fun _ => rfl⟩

theorem gift_then {body next : Lua β Unit} {amount more : Nat} (first : GiftBody ops body thing amount) (second : GiftBody ops next thing more) :
    GiftBody ops (do body; next) thing (amount + more) := by
  obtain ⟨_,_,issues,amounts⟩ := first
  obtain ⟨_,_,issues',amounts'⟩ := second
  refine ⟨_,_,issues_then issues issues',?_⟩
  intro i
  rw [total_append,amounts,amounts']

theorem gift_give (g : Grant) (thing : Key) : GiftBody ops (give ops g) thing (if key g = thing then g.count else 0) :=
  ⟨_,_,issues_give g,fun _ => by simp [total,Stacks.total]⟩

theorem gift_other {g : Grant} (other : key g ≠ thing) : GiftBody ops (give ops g) thing 0 := by
  have gift : GiftBody ops (give ops g) thing _ := gift_give g thing
  rw [if_neg other] at gift
  exact gift

theorem gift_drawing (f : Nat → Nat × Nat) {body : Nat → Lua β Unit} {amount : Nat} (each : ∀ value, GiftBody ops (body value) thing amount) :
    GiftBody ops (do body (← drawing f)) thing amount := by
  choose round taken issues amounts using each
  exact ⟨_,_,issues_drawing f issues,fun i => amounts _ _⟩

-- What a handler of gifts does: nothing while it is closed, and then the same
-- for every number of gifts.
structure GiftLaw (ops : Packages β) (trigger : Nat → Lua β Answer) (closed : Prop) : Prop where
  refuses : closed → ∀ num s c, (trigger num s).1 ≠ .used c
  gives : ¬ closed → ∃ thing amount, 0 < amount ∧ ∀ num, Gives ops (trigger num) thing amount
  uses : ¬ closed → ∀ num s, ¬ Short (trigger num s).1 → (trigger num s).1 = .used num

theorem gift_repeated_iff {trigger : Nat → Lua β Answer} {closed : Prop} {num : Nat} {s : Stock β} (law : GiftLaw ops trigger closed)
    (room : Roomy (trigger num) (trigger 1) num s) : Repeated (trigger num) (trigger 1) s ↔ num = 1 ∨ closed := by
  constructor
  · intro repeated
    by_cases shut : closed
    · exact Or.inr shut
    · obtain ⟨thing,amount,positive,gives⟩ := law.gives shut
      exact Or.inl (repeated_iff_one room (law.uses shut num s room.found) positive (gives 1) (gives num) repeated)
  · intro either c used thing
    by_cases shut : closed
    · exact absurd used (law.refuses shut num s c)
    · rcases either with rfl | impossible
      · cases used.symm.trans (law.uses shut 1 s room.found)
        rfl
      · exact absurd impossible shut

-- A handler that is closed, short of room, or gives the gift of a body.
theorem law_of_body {trigger : Nat → Lua β Answer} {closed : Prop} {body : Lua β Unit} {amount : Nat} (positive : 0 < amount)
    (gift : GiftBody ops body thing amount) (refuses : closed → ∀ num s c, (trigger num s).1 ≠ .used c)
    (runs : ¬ closed → ∀ num s, (trigger num s).1 = .full ∨ trigger num s = (.used num,(body s).2)) : GiftLaw ops trigger closed := by
  have given : ¬ closed → ∀ num s, ¬ Short (trigger num s).1 → trigger num s = (.used num,(body s).2) := by
    intro shut num s enough
    rcases runs shut num s with full | ran
    · exact absurd (Or.inr full) enough
    · exact ran
  refine ⟨refuses,?_,?_⟩
  · intro shut
    refine ⟨thing,amount,positive,?_⟩
    intro num s enough
    obtain ⟨round,taken,issues,amounts⟩ := gift
    rw [given shut num s enough,issues.run]
    exact ⟨round s.draws,_,rfl,amounts _⟩
  · intro shut num s enough
    rw [given shut num s enough]

def factor (w : World) (start : Nat) : Nat := if w.now < start + 86400 then 2 else 1

theorem factor_pos (w : World) (start : Nat) : 0 < factor w start := by
  unfold factor
  split <;> decide

theorem dated_early {start : Nat} {gift : Nat → Lua β Answer} (early : w.now < start) (s : Stock β) : dated w start gift s = (.early,s) := by
  unfold dated
  rw [if_neg (Nat.not_le.mpr early)]
  rfl

theorem dated_late {start : Nat} (gift : Nat → Lua β Answer) (late : ¬ w.now < start) : dated w start gift = gift (factor w start) := by
  unfold dated
  rw [if_pos (Nat.not_lt.mp late)]
  rfl

theorem checkedGift_run (ops : Packages β) (w : World) (sizes : List (Nat × Nat)) (start num : Nat) (gift : Nat → Lua β Unit) (s : Stock β) :
    checkedGift ops w sizes start num gift s = (.full,s) ∨
      checkedGift ops w sizes start num gift s = dated w start (fun factor => do gift factor; return .used num) s := by
  by_cases short : (sizes.any fun size => decide (ops.rest s.package size.1 < size.2)) = true
  · exact Or.inl (unlessShort_short short)
  · exact Or.inr (unlessShort_enough short)

theorem checkedGift_law (sizes : List (Nat × Nat)) {start : Nat} {gift : Nat → Lua β Unit} {amount : Nat} (positive : 0 < amount)
    (body : GiftBody ops (gift (factor w start)) thing amount) :
    GiftLaw ops (fun num => checkedGift ops w sizes start num gift) (w.now < start) := by
  apply law_of_body positive body
  · intro early num s c used
    rcases checkedGift_run ops w sizes start num gift s with full | ran
    · rw [full] at used
      cases used
    · rw [ran,dated_early early] at used
      cases used
  · intro late num s
    rcases checkedGift_run ops w sizes start num gift s with full | ran
    · exact Or.inl (congrArg Prod.fst full)
    · rw [ran,dated_late _ late]
      exact Or.inr rfl

theorem giftWithin_run (ops : Packages β) (size num : Nat) (gift : Lua β Unit) (s : Stock β) :
    (giftWithin ops size num gift s).1 = .full ∨ giftWithin ops size num gift s = (.used num,(gift s).2) := by
  by_cases short : decide (ops.rest s.package 0 < size) = true
  · exact Or.inl (congrArg Prod.fst (unlessShort_short short))
  · exact Or.inr (unlessShort_enough short)

theorem datedGift_law {start : Nat} {gift : Nat → Lua β Unit} {amount : Nat} (positive : 0 < amount)
    (body : GiftBody ops (gift (factor w start)) thing amount) :
    GiftLaw ops (fun num => datedGift ops w start num gift) (w.now < start) := by
  apply law_of_body positive body
  · intro early num s c used
    unfold datedGift at used
    rw [dated_early early] at used
    cases used
  · intro late num s
    unfold datedGift
    rw [dated_late _ late]
    exact giftWithin_run ops _ num (gift (factor w start)) s

theorem gift_drawn {draw : Lua β Unit} (f : Nat) (drawn : GiftBody ops draw thing 0) :
    GiftBody ops (drawnGift ops draw f) thing (total thing ([(56,6*f),(57,6*f)].map item)) := by
  have second : GiftBody ops (if f = 2 then draw else pure ()) thing 0 := by
    split
    · exact drawn
    · exact ⟨_,_,issues_pure,fun _ => rfl⟩
  have both := gift_then (gift_items [(56,6*f),(57,6*f)] thing) (gift_then drawn second)
  rw [Nat.add_zero] at both
  exact both

end gifts

section table
variable {β : Type} (ops : Packages β) (w : World)

-- The handlers that open their boxes one by one, or count them.
def Looping (id : Nat) : Prop := (405 ≤ id ∧ id ≤ 416) ∨ (429 ≤ id ∧ id ≤ 432)

def Boxed (id : Nat) : Prop := (405 ≤ id ∧ id ≤ 432) ∨ (449 ≤ id ∧ id ≤ 464)

def giftDay : Nat → Option Nat
  | 417 => some (w.time 2012 1 21)
  | 418 => some (w.time 2012 1 22)
  | 419 => some (w.time 2012 1 23)
  | 420 => some (w.time 2012 1 24)
  | 421 => some (w.time 2012 1 25)
  | 422 => some (w.time 2012 1 26)
  | 423 => some (w.time 2012 1 27)
  | 424 => some (w.time 2012 1 28)
  | 425 => some (w.time 2012 1 29)
  | 426 => some (w.time 2012 1 30)
  | 427 => some (w.time 2012 2 4)
  | 428 => some (w.time 2012 2 6)
  | _ => none

-- The gifts that are refused for the date, or the first VIP gift for want of a recharge.
def Closed (id : Nat) : Prop := (∃ start, giftDay w id = some start ∧ w.now < start) ∨ (id = 449 ∧ w.recharge = 0)

def AlwaysRepeated (trigger : Nat → Lua β Answer) : Prop :=
  ∀ num s, Roomy (trigger num) (trigger 1) num s → Repeated (trigger num) (trigger 1) s

theorem baseBox_repeated (base checked given : Nat) (prob items : List Nat) : AlwaysRepeated (baseBox ops w base checked given prob items) :=
  fun _ _ room => openAll_repeated
    (fun num package => decide (99*ops.rest package 0 < 99*(ops.used package base (checked*num) true + 1) + num)) (Or.inl rfl) room

theorem xinfaBox_repeated (last : Nat) : AlwaysRepeated (xinfaBox ops w last) :=
  fun _ _ room => openAll_repeated (fun num package => decide (99*ops.rest package 0 < 99*2 + 2*num)) (Or.inl rfl) room

theorem luckyBox_repeated (sections : List Nat) (items : List (Nat × Nat)) (bind : Bool) (luck : Nat) :
    AlwaysRepeated (luckyBox ops w sections items bind luck) :=
  fun _ _ room => openAll_repeated (fun num package => sections.any fun part => decide (99*ops.rest package part < 99*2 + 2*num*2))
    (Or.inr rfl) room

theorem i432_repeated : AlwaysRepeated (ItemNormal_00000432 ops w) :=
  fun _ _ room => openAll_repeated (fun num package => [0,3].any fun part => decide (99*ops.rest package part < 99*2 + 2*num*6))
    (Or.inr rfl) room

theorem i406_gives (num : Nat) (thing : Key) :
    Gives ops (ItemNormal_00000406 ops num) thing (num*total thing [⟨.AddItem,29,10,true⟩,⟨.AddItem,15,1,true⟩]) := by
  intro s enough
  by_cases room : ops.used s.package 29 (10*num) true + ops.used s.package 15 num true ≤ ops.rest s.package 0
  · rw [i406_run room]
    refine ⟨[⟨.AddItem,29,10*num,true⟩,⟨.AddItem,15,num,true⟩],_,rfl,?_⟩
    simp only [total,Stacks.total,key,List.map_cons,List.map_nil,List.sum_cons,List.sum_nil,Nat.mul_add]
    by_cases base : (⟨.AddItem,29,true⟩ : Key) = thing
    · by_cases more : (⟨.AddItem,15,true⟩ : Key) = thing
      · cases base.trans more.symm
      · simp [base,more,Nat.mul_comm]
    · by_cases more : (⟨.AddItem,15,true⟩ : Key) = thing
      · simp [base,more]
      · simp [base,more]
  · rw [i406_short room] at enough
    exact absurd (Or.inl rfl) enough

theorem i406_repeated : AlwaysRepeated (ItemNormal_00000406 ops) := by
  intro num s room
  refine repeated_of_gives room ?_ (fun thing => ?_) (i406_gives ops num)
  · intro c used
    by_cases enough : ops.used s.package 29 (10*num) true + ops.used s.package 15 num true ≤ ops.rest s.package 0
    · rw [i406_run enough] at used
      cases used
      rfl
    · rw [i406_short enough] at used
      cases used
  · have one := i406_gives ops 1 thing
    rw [Nat.one_mul] at one
    exact one

section laws
variable {ops w}

def wine : Key := ⟨.AddItem,56,true⟩

theorem wine_pos (start : Nat) (rest : List (Nat × Nat)) : 0 < total wine (((56,6*factor w start) :: rest).map item) := by
  have positive := factor_pos w start
  simp only [total,Stacks.total,List.map_cons,List.sum_cons]
  rw [if_pos (show key (item (56,6*factor w start)) = wine from rfl)]
  show 0 < 6*factor w start + _
  omega

theorem items_law (sizes : List (Nat × Nat)) (start : Nat) (rest : Nat → List (Nat × Nat)) :
    GiftLaw ops (fun num => checkedGift ops w sizes start num fun factor => AddItems ops ((56,6*factor) :: rest factor)) (w.now < start) :=
  checkedGift_law sizes (wine_pos start _) (gift_items _ wine)

theorem added_law (start id : Nat) (rest : Nat → List (Nat × Nat)) :
    GiftLaw ops
      (fun num => datedGift ops w start num fun factor => do
        AddItems ops ((56,6*factor) :: rest factor)
        Add ops id (6*factor) true)
      (w.now < start) :=
  datedGift_law (Nat.add_pos_left (wine_pos start (rest _)) _) (gift_then (gift_items _ wine) (gift_give ⟨.Add,id,_,true⟩ wine))

theorem drawn_law (sizes : List (Nat × Nat)) (start : Nat) {draw : Lua β Unit} (drawn : GiftBody ops draw wine 0) :
    GiftLaw ops (fun num => checkedGift ops w sizes start num (drawnGift ops draw)) (w.now < start) :=
  checkedGift_law sizes (wine_pos start _) (gift_drawn _ drawn)

theorem i426_drawn : GiftBody ops (do AddEquip ops (← randOEquip w) 1 false) wine 0 := by
  apply gift_drawing
  intro equip
  apply gift_other
  intro same
  cases congrArg Key.call same

theorem gem_other (g : Nat) : gem.getD g 0 ≠ 56 := by
  have all : ∀ id ∈ gem, id ≠ 56 := by decide
  rw [List.getD_eq_getElem?_getD]
  cases found : gem[g]? with
  | none => exact Nat.noConfusion
  | some id => exact all id (List.mem_of_getElem? found)

theorem i427_drawn : GiftBody ops (do let g ← random w 1 gem.length; AddItem ops (gem.getD (g - 1) 0) 1 true) wine 0 := by
  apply gift_drawing
  intro g
  apply gift_other
  intro same
  exact gem_other (g - 1) (congrArg Key.id same)

theorem i428_drawn (items : List Nat) : GiftBody ops (do let m ← random w 1 items.length; Add ops (items.getD (m - 1) 0) 1 true) wine 0 := by
  apply gift_drawing
  intro m
  apply gift_other
  intro same
  cases congrArg Key.call same

-- The first entry of each row of the VIP gifts.
def vipThing (lvl : Nat) : Key := ⟨.AddItem,((vipitems.getD lvl []).headD (0,0)).1,true⟩

def vipRow (lvl : Nat) : List (Nat × Nat) := (vipitems.getD lvl []).takeWhile fun item => item.1 ≠ 0

theorem vip_pos : ∀ lvl < 16, 0 < total (vipThing lvl) ((vipRow lvl).map item) := by decide

def vipBody (ops : Packages β) (w : World) (lvl : Nat) : Lua β Unit := do
  AddItems ops (vipRow (lvl - 1))
  if lvl ≥ 6 then AddEquip ops (← randOEquip w) 1 false

theorem vip_gift (lvl : Nat) (thing : Key) (plain : thing.call = .AddItem) :
    GiftBody ops (vipBody ops w lvl) thing (total thing ((vipRow (lvl - 1)).map item)) := by
  have equip : GiftBody ops (if lvl ≥ 6 then do AddEquip ops (← randOEquip w) 1 false else pure ()) thing 0 := by
    split
    · apply gift_drawing
      intro equip
      apply gift_other
      intro same
      rw [← same] at plain
      cases plain
    · exact ⟨_,_,issues_pure,fun _ => rfl⟩
  have both := gift_then (gift_items (vipRow (lvl - 1)) thing) equip
  rw [Nat.add_zero] at both
  exact both

theorem vip_law {iid : Nat} (low : 449 ≤ iid) (high : iid ≤ 464) : GiftLaw ops (ItemNormal_VIP ops w iid) (iid = 449 ∧ w.recharge = 0) := by
  have positive := vip_pos (iid - 449 + 1 - 1) (by omega)
  apply law_of_body positive (vip_gift (iid - 449 + 1) _ rfl)
  · intro closed num s c used
    unfold ItemNormal_VIP at used
    rw [if_pos closed] at used
    cases used
  · intro opened num s
    unfold ItemNormal_VIP
    rw [if_neg opened]
    generalize iid - 449 + 1 = lvl
    exact giftWithin_run ops _ num (vipBody ops w lvl) s

end laws

theorem looping_law (id : Nat) (looping : Looping id) : ∃ trigger, (ItemNormal_Table ops w).lookup id = some trigger ∧ AlwaysRepeated trigger := by
  rcases looping with ⟨low,high⟩ | ⟨low,high⟩
  · interval_cases id
    · exact ⟨_,rfl,baseBox_repeated ops w _ _ _ _ _⟩
    · exact ⟨_,rfl,i406_repeated ops⟩
    · exact ⟨_,rfl,baseBox_repeated ops w _ _ _ _ _⟩
    · exact ⟨_,rfl,baseBox_repeated ops w _ _ _ _ _⟩
    · exact ⟨_,rfl,baseBox_repeated ops w _ _ _ _ _⟩
    · exact ⟨_,rfl,baseBox_repeated ops w _ _ _ _ _⟩
    · exact ⟨_,rfl,baseBox_repeated ops w _ _ _ _ _⟩
    · exact ⟨_,rfl,baseBox_repeated ops w _ _ _ _ _⟩
    · exact ⟨_,rfl,xinfaBox_repeated ops w _⟩
    · exact ⟨_,rfl,xinfaBox_repeated ops w _⟩
    · exact ⟨_,rfl,xinfaBox_repeated ops w _⟩
    · exact ⟨_,rfl,xinfaBox_repeated ops w _⟩
  · interval_cases id
    · exact ⟨_,rfl,luckyBox_repeated ops w _ _ _ _⟩
    · exact ⟨_,rfl,luckyBox_repeated ops w _ _ _ _⟩
    · exact ⟨_,rfl,luckyBox_repeated ops w _ _ _ _⟩
    · exact ⟨_,rfl,i432_repeated ops w⟩

theorem dated_law (id : Nat) (low : 417 ≤ id) (high : id ≤ 428) :
    ∃ trigger start, (ItemNormal_Table ops w).lookup id = some trigger ∧ giftDay w id = some start ∧ GiftLaw ops trigger (w.now < start) := by
  interval_cases id
  · exact ⟨_,_,rfl,rfl,items_law _ _ fun factor => [(57,6*factor),(503,6*factor),(500,6*factor)]⟩
  · exact ⟨_,_,rfl,rfl,added_law _ _ fun factor => [(57,6*factor),(514,6*factor)]⟩
  · exact ⟨_,_,rfl,rfl,added_law _ _ fun factor => [(57,6*factor),(515,3*factor)]⟩
  · exact ⟨_,_,rfl,rfl,items_law _ _ fun factor => [(57,6*factor),(511,6*factor)]⟩
  · exact ⟨_,_,rfl,rfl,items_law _ _ fun factor => [(57,6*factor),(512,6*factor)]⟩
  · exact ⟨_,_,rfl,rfl,items_law _ _ fun factor => [(57,6*factor),(508,6*factor)]⟩
  · exact ⟨_,_,rfl,rfl,items_law _ _ fun factor => [(57,6*factor),(506,6*factor)]⟩
  · exact ⟨_,_,rfl,rfl,items_law _ _ fun factor => [(57,6*factor),(30,6*factor)]⟩
  · exact ⟨_,_,rfl,rfl,items_law _ _ fun factor => [(57,6*factor),(507,3*factor),(509,3*factor)]⟩
  · exact ⟨_,_,rfl,rfl,drawn_law _ _ i426_drawn⟩
  · exact ⟨_,_,rfl,rfl,drawn_law _ _ i427_drawn⟩
  · exact ⟨_,_,rfl,rfl,drawn_law _ _ (i428_drawn _)⟩

theorem vip_found (id : Nat) (low : 449 ≤ id) (high : id ≤ 464) :
    (ItemNormal_Table ops w).lookup id = some (ItemNormal_VIP ops w id) ∧ giftDay w id = none := by
  interval_cases id <;> exact ⟨rfl,rfl⟩

-- Every handler of the table: boxes that are always as good, or a law of gifts.
theorem table_law (id : Nat) (boxed : Boxed id) : ∃ trigger, (ItemNormal_Table ops w).lookup id = some trigger ∧
    ((Looping id ∧ AlwaysRepeated trigger) ∨ (¬ Looping id ∧ GiftLaw ops trigger (Closed w id))) := by
  by_cases looping : Looping id
  · obtain ⟨trigger,found,always⟩ := looping_law ops w id looping
    exact ⟨trigger,found,Or.inl ⟨looping,always⟩⟩
  · unfold Looping at looping
    rcases boxed with ⟨low,high⟩ | ⟨low,high⟩
    · obtain ⟨trigger,start,found,day,law⟩ := dated_law ops w id (by omega) (by omega)
      have closed : Closed w id ↔ w.now < start := by
        simp only [Closed,day,Option.some.injEq,exists_eq_left']
        omega
      rw [← closed] at law
      exact ⟨trigger,found,Or.inr ⟨looping,law⟩⟩
    · obtain ⟨found,day⟩ := vip_found ops w id low high
      have law : GiftLaw ops (ItemNormal_VIP ops w id) (id = 449 ∧ w.recharge = 0) := vip_law low high
      have closed : Closed w id ↔ id = 449 ∧ w.recharge = 0 := by
        simp [Closed,day]
      rw [← closed] at law
      exact ⟨_,found,Or.inr ⟨looping,law⟩⟩

theorem run_handler {id num : Nat} {trigger : Nat → Lua β Answer} (found : (ItemNormal_Table ops w).lookup id = some trigger) (positive : 1 ≤ num) :
    RunItemNormalUse ops w id num = trigger num := by
  unfold RunItemNormalUse
  rw [if_neg (by omega),found]
  rfl

end table

-- A use of many is as good as many uses: for the boxes, which are opened one by
-- one, and otherwise for one item or for a gift that is refused.
theorem batch_repeated_iff {β : Type} (ops : Packages β) (w : World) (id num : Nat) (s : Stock β) (boxed : Boxed id) (positive : 1 ≤ num)
    (room : Roomy (RunItemNormalUse ops w id num) (RunItemNormalUse ops w id 1) num s) :
    Repeated (RunItemNormalUse ops w id num) (RunItemNormalUse ops w id 1) s ↔ Looping id ∨ num = 1 ∨ Closed w id := by
  obtain ⟨trigger,found,law⟩ := table_law ops w id boxed
  have one : RunItemNormalUse ops w id 1 = trigger 1 := run_handler ops w found (Nat.le_refl 1)
  rw [run_handler ops w found positive,one] at room ⊢
  rcases law with ⟨looping,always⟩ | ⟨plain,gift⟩
  · exact ⟨fun _ => Or.inl looping,fun _ => always num s room⟩
  · rw [gift_repeated_iff gift room]
    exact ⟨Or.inr,fun either => either.resolve_left plain⟩

-- An empty package of a hundred grids, on the day of every gift.
def giftDays : World where
  random _ low _ := low
  drawn _ _ _ ordered := ⟨Nat.le_refl _,ordered⟩
  now := 0
  time _ _ _ := 0
  level := 40
  recharge := 0
  getRandOEquip _ i := (2544,i + 1)

def empty : Stock BoxRoom.Package := ⟨.bare 100,[],[],0⟩

theorem used_enough (num : Nat) : ¬ Short (.used num) := by
  intro short
  rcases short with impossible | impossible
  · cases impossible
  · cases impossible

theorem empty_roomy (id : Nat) (boxes : id = 405 ∨ id = 417) :
    Roomy (RunItemNormalUse BoxRoom.packages giftDays id 2) (RunItemNormalUse BoxRoom.packages giftDays id 1) 2 empty := by
  rcases boxes with rfl | rfl
  · refine ⟨used_enough 2,rfl,?_,rfl⟩
    intro k less
    interval_cases k
    · exact used_enough 1
    · exact used_enough 1
  · refine ⟨used_enough 2,rfl,?_,rfl⟩
    intro k less
    interval_cases k
    · exact used_enough 1
    · exact used_enough 1

theorem two_boxes : Repeated (RunItemNormalUse BoxRoom.packages giftDays 405 2) (RunItemNormalUse BoxRoom.packages giftDays 405 1) empty ↔
    Looping 405 ∨ 2 = 1 ∨ Closed giftDays 405 :=
  batch_repeated_iff BoxRoom.packages giftDays 405 2 empty (Or.inl ⟨by decide,by decide⟩) (by decide) (empty_roomy 405 (Or.inl rfl))

-- Two gifts 417 are used up for the contents of one.
theorem second_gift_lost : Roomy (RunItemNormalUse BoxRoom.packages giftDays 417 2) (RunItemNormalUse BoxRoom.packages giftDays 417 1) 2 empty ∧
    (RunItemNormalUse BoxRoom.packages giftDays 417 2 empty).1 = .used 2 ∧
    ¬ Repeated (RunItemNormalUse BoxRoom.packages giftDays 417 2) (RunItemNormalUse BoxRoom.packages giftDays 417 1) empty := by
  refine ⟨empty_roomy 417 (Or.inr rfl),rfl,?_⟩
  intro repeated
  have same : (12 : Nat) = 24 := repeated 2 rfl wine
  cases same

end GameServer.Scripts.BatchUse
