import GameServer.Library.Stacks
import GameServer.Scripts.ItemBoxes

namespace GameServer.Scripts.BoxRoom
open ItemBoxes Stacks

-- A package of stacks of at most 99 equal items, bound and unbound ones apart.
abbrev Package := Bag (Nat × Bool) 99

def packages : Packages Package where
  rest package _ := free package
  used package id num bind := used package (id,bind) num
  add package g := add (by decide) package (g.id,g.bind) g.count

inductive Box where
  | i405 | i406 | i407 | i408 | i409 | i410 | i411 | i412 | i413 | i414 | i415 | i416

variable (w : World)

def handler : Box → Nat → Lua Package Answer
  | .i405 => ItemNormal_00000405 packages w
  | .i406 => ItemNormal_00000406 packages
  | .i407 => ItemNormal_00000407 packages w
  | .i408 => ItemNormal_00000408 packages w
  | .i409 => ItemNormal_00000409 packages w
  | .i410 => ItemNormal_00000410 packages w
  | .i411 => ItemNormal_00000411 packages w
  | .i412 => ItemNormal_00000412 packages w
  | .i413 => ItemNormal_00000413 packages w
  | .i414 => ItemNormal_00000414 packages w
  | .i415 => ItemNormal_00000415 packages w
  | .i416 => ItemNormal_00000416 packages w

def entry (g : Grant) : (Nat × Bool) × Nat := ((g.id,g.bind),g.count)

-- What one box of each sort adds with the draws from the i-th on.
def baseRound (base given : Nat) (prob items : List Nat) (i : Nat) : List Grant :=
  [⟨.AddItem,base,given,true⟩,⟨.AddItem,items.getD (pick (w.random i 1 100) prob) 0,1,true⟩]

def xinfaRound (last i : Nat) : List Grant :=
  [⟨.AddItem,w.random i 6000 last,1,true⟩,⟨.AddItem,[515,507,509].getD (pick (w.random (i + 1) 1 100) [33,66,100]) 0,1,true⟩]

theorem baseRound_issues {β : Type} (ops : Packages β) (base given : Nat) (prob items : List Nat) :
    Issues ops
      (do
        let p ← random w 1 100
        AddItem ops base given true
        AddItem ops (items.getD (pick p prob) 0) 1 true)
      (baseRound w base given prob items) (fun _ => 1) :=
  issues_drawing _ fun _ => issues_then (issues_give _) (issues_give _)

theorem xinfaRound_issues {β : Type} (ops : Packages β) (last : Nat) :
    Issues ops
      (do
        let xinfa ← random w 6000 last
        let p ← random w 1 100
        AddItem ops xinfa 1 true
        AddItem ops ([515,507,509].getD (pick p [33,66,100]) 0) 1 true)
      (xinfaRound w last) (fun _ => 2) :=
  issues_drawing _ fun _ => issues_drawing _ fun _ => issues_then (issues_give _) (issues_give _)

theorem room_fits (package : Package) (grants : List Grant) :
    Room packages package grants ↔ Fits (by decide) package (grants.map entry) := by
  induction grants generalizing package with
  | nil => exact Iff.rfl
  | cons g rest ih =>
      constructor
      · intro ⟨package',found,later⟩
        exact ⟨package',found,(ih package').mp later⟩
      · intro ⟨package',found,later⟩
        exact ⟨package',found,(ih package').mpr later⟩

-- The check of each box, in parts of 99.
def baseCheck (base checked num : Nat) (package : Package) : Prop :=
  99*(used package (base,true) (checked*num) + 1) + num ≤ 99*free package

def xinfaCheck (num : Nat) (package : Package) : Prop := 99*2 + 2*num ≤ 99*free package

def Passes : Box → Nat → Package → Prop
  | .i405 => baseCheck 29 5
  | .i406 => fun num package => used package (29,true) (10*num) + used package (15,true) num ≤ free package
  | .i407 => baseCheck 29 15
  | .i408 => baseCheck 29 20
  | .i409 => baseCheck 133 2
  | .i410 => baseCheck 133 3
  | .i411 => baseCheck 133 4
  | .i412 => baseCheck 133 6
  | .i413 | .i414 | .i415 | .i416 => xinfaCheck

def drawn : Box → Nat → Nat → List Grant
  | .i405 => rounds (baseRound w 29 5 [50,100] [55,510]) (fun _ => 1)
  | .i406 => fun num _ => [⟨.AddItem,29,10*num,true⟩,⟨.AddItem,15,num,true⟩]
  | .i407 => rounds (baseRound w 29 15 [50,100] [56,57]) (fun _ => 1)
  | .i408 => rounds (baseRound w 29 15 [50,100] [503,500]) (fun _ => 1)
  | .i409 => rounds (baseRound w 133 2 [33,66,100] [55,510,502]) (fun _ => 1)
  | .i410 => rounds (baseRound w 133 3 [33,66,100] [56,511,15]) (fun _ => 1)
  | .i411 => rounds (baseRound w 133 4 [33,66,100] [503,514,512]) (fun _ => 1)
  | .i412 => rounds (baseRound w 133 6 [33,66,100] [515,507,509]) (fun _ => 1)
  | .i413 => rounds (xinfaRound w 6001) (fun _ => 2)
  | .i414 => rounds (xinfaRound w 6002) (fun _ => 2)
  | .i415 => rounds (xinfaRound w 6003) (fun _ => 2)
  | .i416 => rounds (xinfaRound w 6005) (fun _ => 2)

theorem baseBox_run {base checked given : Nat} {prob items : List Nat} {num : Nat} {s : Stock Package} (passes : baseCheck base checked num s.package) :
    ∃ draws, baseBox packages w base checked given prob items num s =
      (.used num,{issue packages (rounds (baseRound w base given prob items) (fun _ => 1) num s.draws) s with draws}) := by
  apply openAll_issues (baseRound_issues w packages base given prob items)
  intro short
  exact Nat.not_lt.mpr passes (of_decide_eq_true short)

theorem baseBox_short {base checked given : Nat} {prob items : List Nat} {num : Nat} {s : Stock Package} (fails : ¬ baseCheck base checked num s.package) :
    baseBox packages w base checked given prob items num s = (.zero,s) := by
  unfold baseBox
  exact openAll_short (decide_eq_true (Nat.not_le.mp fails))

theorem xinfaBox_run {last num : Nat} {s : Stock Package} (passes : xinfaCheck num s.package) :
    ∃ draws, xinfaBox packages w last num s = (.used num,{issue packages (rounds (xinfaRound w last) (fun _ => 2) num s.draws) s with draws}) := by
  apply openAll_issues (xinfaRound_issues w packages last)
  intro short
  exact Nat.not_lt.mpr passes (of_decide_eq_true short)

theorem xinfaBox_short {last num : Nat} {s : Stock Package} (fails : ¬ xinfaCheck num s.package) : xinfaBox packages w last num s = (.zero,s) := by
  unfold xinfaBox
  exact openAll_short (decide_eq_true (Nat.not_le.mp fails))

-- What a box does: all of its draws, or nothing.
theorem handler_run (box : Box) {num : Nat} {s : Stock Package} (passes : Passes box num s.package) :
    ∃ draws, handler w box num s = (.used num,{issue packages (drawn w box num s.draws) s with draws}) := by
  cases box with
  | i406 => exact ⟨_,i406_run passes⟩
  | i405 | i407 | i408 | i409 | i410 | i411 | i412 => exact baseBox_run w passes
  | i413 | i414 | i415 | i416 => exact xinfaBox_run w passes

theorem handler_short (box : Box) {num : Nat} {s : Stock Package} (fails : ¬ Passes box num s.package) : handler w box num s = (.zero,s) := by
  cases box with
  | i406 => exact i406_short fails
  | i405 | i407 | i408 | i409 | i410 | i411 | i412 => exact baseBox_short w fails
  | i413 | i414 | i415 | i416 => exact xinfaBox_short w fails

def kind (g : Grant) : Nat × Bool := (g.id,g.bind)

-- The new grids that all of some grants need together, kind by kind.
def grids (package : Package) (grants : List Grant) : Nat :=
  ∑ item ∈ (grants.map kind).toFinset, used package item (total item (grants.map entry))

theorem room_iff (package : Package) (grants : List Grant) : Room packages package grants ↔ grids package grants ≤ free package := by
  rw [room_fits]
  apply fits_iff
  intro one member
  obtain ⟨g,there,same⟩ := List.mem_map.mp member
  rw [List.mem_toFinset,← same]
  exact List.mem_map_of_mem there

section two
variable {base given a b : Nat}

theorem two_drawn (p a b : Nat) : [a,b].getD (pick p [50,100]) 0 = a ∨ [a,b].getD (pick p [50,100]) 0 = b := by
  unfold pick
  by_cases low : p ≤ 50
  · simp [List.findIdx?_cons,low]
  · by_cases high : p ≤ 100
    · simp [List.findIdx?_cons,low,high]
    · simp [List.findIdx?_cons,low,high]

def twoAdds (w : World) (base given a b num i : Nat) : List ((Nat × Bool) × Nat) :=
  (rounds (baseRound w base given [50,100] [a,b]) (fun _ => 1) num i).map entry

theorem twoAdds_step (base given a b num i : Nat) : ∃ drawn, (drawn = a ∨ drawn = b) ∧
    twoAdds w base given a b (num + 1) i = ((base,true),given) :: ((drawn,true),1) :: twoAdds w base given a b num (i + 1) :=
  ⟨_,two_drawn (w.random i 1 100) a b,rfl⟩

theorem two_base (given : Nat) (otherA : base ≠ a) (otherB : base ≠ b) (num i : Nat) : total (base,true) (twoAdds w base given a b num i) = given*num := by
  induction num generalizing i with
  | zero => rfl
  | succ num ih =>
      obtain ⟨drawn,either,step⟩ := twoAdds_step w base given a b num i
      have other : ¬ (drawn,true) = (base,true) := by
        intro same
        rcases either with rfl | rfl
        · exact otherA (Prod.mk.inj same).1.symm
        · exact otherB (Prod.mk.inj same).1.symm
      rw [step,total_cons,total_cons,if_pos rfl,if_neg other,ih,Nat.mul_succ]
      omega

theorem two_total (given : Nat) (otherA : base ≠ a) (otherB : base ≠ b) (apart : a ≠ b) (num i : Nat) :
    total (a,true) (twoAdds w base given a b num i) + total (b,true) (twoAdds w base given a b num i) = num := by
  induction num generalizing i with
  | zero => rfl
  | succ num ih =>
      obtain ⟨drawn,either,step⟩ := twoAdds_step w base given a b num i
      have tail := ih (i + 1)
      rw [step,total_cons,total_cons,total_cons,total_cons]
      rcases either with rfl | rfl
      · simp [otherA,otherB,apart]
        omega
      · simp [otherA,otherB,Ne.symm apart]
        omega

theorem two_within (num i : Nat) : ∀ one ∈ twoAdds w base given a b num i, one.1 ∈ ({(base,true),(a,true),(b,true)} : Finset (Nat × Bool)) := by
  induction num generalizing i with
  | zero => simp [twoAdds,rounds]
  | succ num ih =>
      obtain ⟨drawn,either,step⟩ := twoAdds_step w base given a b num i
      rw [step]
      intro one member
      rcases List.mem_cons.mp member with rfl | later
      · simp
      · rcases List.mem_cons.mp later with rfl | rest
        · rcases either with rfl | rfl
          · simp
          · simp
        · exact ih (i + 1) one rest

-- With two sorts of draws the check is always enough.
theorem two_room {package : Package} {num i : Nat} {checked : Nat} (otherA : base ≠ a) (otherB : base ≠ b) (apart : a ≠ b) (less : given ≤ checked)
    (passes : baseCheck base checked num package) :
    Room packages package (rounds (baseRound w base given [50,100] [a,b]) (fun _ => 1) num i) := by
  have totals := two_total w given otherA otherB apart num i
  have bases := two_base w given otherA otherB num i
  rw [room_fits]
  apply (fits_iff _ _ _ _ (two_within w num i)).mpr
  rw [Finset.sum_insert (by simp [otherA,otherB]),Finset.sum_insert (by simp [apart]),Finset.sum_singleton,bases]
  generalize total (a,true) (twoAdds w base given a b num i) = n at totals ⊢
  generalize total (b,true) (twoAdds w base given a b num i) = m at totals ⊢
  have first : used package (base,true) (given*num) ≤ used package (base,true) (checked*num) :=
    used_mono (by decide) package _ (Nat.mul_le_mul_right num less)
  have second : used package (a,true) n ≤ n ⌈/⌉ 99 := ceil_mono (by decide) (Nat.sub_le ..)
  have third : used package (b,true) m ≤ m ⌈/⌉ 99 := ceil_mono (by decide) (Nat.sub_le ..)
  have both := ceil_two (show 0 < 99 by decide) n m
  have rest : num ⌈/⌉ 99 ≤ free package - (used package (base,true) (checked*num) + 1) := by
    rw [ceilDiv_le_iff_le_mul (by decide)]
    unfold baseCheck at passes
    omega
  rw [totals] at both
  unfold baseCheck at passes
  omega

end two

-- The check of item 406 counts the grids of both its items.
theorem i406_room {package : Package} {num i : Nat} (passes : Passes .i406 num package) : Room packages package (drawn w .i406 num i) := by
  have within : ∀ one ∈ (drawn w .i406 num i).map entry, one.1 ∈ ({(29,true),(15,true)} : Finset (Nat × Bool)) := by
    simp [drawn,entry]
  rw [room_fits,fits_iff _ _ _ _ within,Finset.sum_insert (by simp),Finset.sum_singleton]
  simpa [drawn,entry,total] using (show used package (29,true) (10*num) + used package (15,true) num ≤ free package from passes)

-- A box that passes its check adds all of its items, and one that fails it
-- leaves the package and returns 0.
def RoomKept (box : Box) (num : Nat) (s : Stock Package) : Prop :=
  let (answer,s') := handler w box num s
  (Passes box num s.package → answer = .used num ∧ s'.lost = s.lost) ∧ (¬ Passes box num s.package → answer = .zero ∧ s' = s)

def Ample : Box → Prop
  | .i405 | .i406 | .i407 | .i408 => True
  | _ => False

-- The boxes of at most two sorts of draws, a failed check, or room for the
-- draws kind by kind.
def Enough (box : Box) (num : Nat) (s : Stock Package) : Prop :=
  Ample box ∨ ¬ Passes box num s.package ∨ grids s.package (drawn w box num s.draws) ≤ free s.package

theorem roomKept_iff (box : Box) (num : Nat) (s : Stock Package) :
    RoomKept w box num s ↔ (Passes box num s.package → Room packages s.package (drawn w box num s.draws)) := by
  unfold RoomKept
  by_cases passes : Passes box num s.package
  · obtain ⟨draws,ran⟩ := handler_run w box passes
    rw [ran,← issue_room]
    simp [passes]
  · rw [handler_short w box passes]
    simp [passes]

theorem ample_room {box : Box} {num : Nat} {package : Package} (ample : Ample box) (passes : Passes box num package) (i : Nat) :
    Room packages package (drawn w box num i) := by
  cases box with
  | i405 => exact two_room w (by decide) (by decide) (by decide) (by decide) passes
  | i406 => exact i406_room w passes
  | i407 => exact two_room w (by decide) (by decide) (by decide) (by decide) passes
  | i408 => exact two_room w (by decide) (by decide) (by decide) (by decide) passes
  | i409 | i410 | i411 | i412 | i413 | i414 | i415 | i416 => cases ample

theorem box_room_iff (box : Box) (num : Nat) (s : Stock Package) : RoomKept w box num s ↔ Enough w box num s := by
  rw [roomKept_iff]
  constructor
  · intro room
    by_cases passes : Passes box num s.package
    · exact Or.inr (Or.inr ((room_iff _ _).mp (room passes)))
    · exact Or.inr (Or.inl passes)
  · intro enough passes
    rcases enough with ample | fails | within
    · exact ample_room w ample passes s.draws
    · exact absurd passes fails
    · exact (room_iff _ _).mpr within

-- Three boxes 409 with three empty grids: each draws another item, and the
-- last finds no room.
def threeDraws : World where
  random i low high := min high (max low ([1,50,100].getD i 1))
  drawn i low high ordered := by omega
  now := 0
  time _ _ _ := 0
  level := 0
  recharge := 0
  getRandOEquip _ _ := (0,0)

def threeGrids : Stock Package := ⟨.bare 3,[],[],0⟩

theorem third_item_lost : Passes .i409 3 threeGrids.package ∧
    (handler threeDraws .i409 3 threeGrids).2.lost = [⟨.AddItem,502,1,true⟩] ∧ ¬ RoomKept threeDraws .i409 3 threeGrids := by
  have passes : Passes .i409 3 threeGrids.package := by
    show 99*(used threeGrids.package (133,true) (2*3) + 1) + 3 ≤ 99*free threeGrids.package
    decide
  have lost : (handler threeDraws .i409 3 threeGrids).2.lost = [⟨.AddItem,502,1,true⟩] := by rfl
  refine ⟨passes,lost,?_⟩
  intro kept
  have none : (handler threeDraws .i409 3 threeGrids).2.lost = [] := (kept.1 passes).2
  rw [lost] at none
  cases none

end GameServer.Scripts.BoxRoom
