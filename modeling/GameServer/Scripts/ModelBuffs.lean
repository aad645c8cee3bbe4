import GameServer.Library.History
import Mathlib.Logic.Function.Basic

namespace GameServer.Scripts.ModelBuffs
open History

-- getBuffData of a fighter: until when each of its buffs lasts.
abbrev Buffs := Nat → Nat

def setBuffData (fgt : Buffs) (idx value : Nat) : Buffs := Function.update fgt idx value

def ItemNormal_AddBuff (obj : Buffs) (now idx num count max_num : Nat) : Bool × Buffs :=
  let num2 := obj idx
  if num2 > now ∧ num2 - now ≥ max_num then (false,obj)
  else
    let num2 := (if num2 > now then num2 - now else 0) + num * count
    let num2 := if num2 ≥ max_num then max_num else num2
    (true,setBuffData obj idx (num2 + now))

def buffers : List Nat := [5,7,8,9,0xa,0xb,0xc,0xe,0xf,0x10,0x11,0x12]

def fixModelConflict (fgt : Buffs) (bufid : Nat) : Buffs :=
  buffers.foldl (fun fgt n => if bufid ≠ n then setBuffData fgt n 0 else fgt) fgt

-- A model item sets its buff for a time per item; `none` is the answer false.
def modelItem (buf seconds : Nat) (now num : Nat) (fgt : Option Buffs) : Option Nat × Option Buffs :=
  match fgt with
  | none => (none,fgt)
  | some fgt =>
    let (added,fgt) := ItemNormal_AddBuff (fixModelConflict fgt buf) now buf seconds num 356400
    (if added then some num else none,some fgt)

def ItemNormal_00000401 := modelItem 5 3600
def ItemNormal_00009306 := modelItem 0x12 3600
def ItemNormal_00000438 := modelItem 7 7200
def ItemNormal_00000439 := modelItem 8 7200
def ItemNormal_00009139 := modelItem 0xf (3600*24)
def ItemNormal_00009140 := modelItem 0x10 (3600*24)
def ItemNormal_00009160 := modelItem 0x11 (3600*24)

-- What the redrawing of item 480 ends with: any of 0 to 5 but the fighter's own.
structure Redrawn (own : Nat) where
  b : Nat
  range : b ≤ 5
  other : b ≠ own

def ItemNormal_00000480 (april : Bool) (cls sex : Nat) (drawn : Redrawn (2*(cls-1) + sex % 2)) (now num : Nat) (fgt : Option Buffs) :
    Option Nat × Option Buffs :=
  if ¬ april then (none,fgt)
  else
    match fgt with
    | none => (none,fgt)
    | some fgt =>
      if cls = 0 then (none,some fgt)
      else
        let fgt := (List.range 6).foldl (fun fgt i => setBuffData fgt (i+9) 0) fgt
        let fgt := fixModelConflict fgt 0
        (some num,some (setBuffData fgt (drawn.b+9) (now + 24*60*60*num)))

inductive ModelItem where
  | i401 | i9306 | i438 | i439 | i9139 | i9140 | i9160
  | i480 (april : Bool) (cls sex : Nat) (drawn : Redrawn (2*(cls-1) + sex % 2))

def handler : ModelItem → Nat → Nat → Option Buffs → Option Nat × Option Buffs
  | .i401 => ItemNormal_00000401
  | .i9306 => ItemNormal_00009306
  | .i438 => ItemNormal_00000438
  | .i439 => ItemNormal_00000439
  | .i9139 => ItemNormal_00009139
  | .i9140 => ItemNormal_00009140
  | .i9160 => ItemNormal_00009160
  | .i480 april cls sex drawn => ItemNormal_00000480 april cls sex drawn

def RunItemNormalUse (item : ModelItem) (num : Int) (now : Nat) (fgt : Option Buffs) : Option Nat × Option Buffs :=
  if num ≤ 0 then (none,fgt) else handler item now num.toNat fgt

-- The fighter and the time of its last use.
structure State where
  clock : Nat
  buffs : Buffs

-- A use some time after the last one, with this fighter found or with none.
structure Use where
  item : ModelItem
  num : Int
  wait : Nat
  found : Bool

def step (s : State) (use : Use) : Option (Option Nat × State) :=
  let now := s.clock + use.wait
  let (answer,fgt) := RunItemNormalUse use.item use.num now (if use.found then some s.buffs else none)
  some (answer,⟨now,fgt.getD s.buffs⟩)

def modelBuff (i : Nat) : Prop := i = 5 ∨ i = 7 ∨ i = 8 ∨ (9 ≤ i ∧ i ≤ 18)

def active (s : State) (i : Nat) : Prop := s.buffs i > s.clock

def Exclusive (s : State) : Prop := ∀ i j, modelBuff i → modelBuff j → active s i → active s j → i = j

def Fine (s : State) (_ : Use) (answer : Option Nat) (next : State) : Prop :=
  Exclusive next ∧ (answer = none → next.buffs = s.buffs)

-- Buff 13, which only item 480 sets, is not on the list of conflicts: no other
-- item is used while it lasts.
def Clear (s : State) (use : Use) : Prop :=
  match use.item with
  | .i480 .. => True
  | _ => use.num > 0 → use.found = true → ¬ s.buffs 13 > s.clock + use.wait

-- The listed buffs are cleared with every one that is set.
structure Settled (s : State) : Prop where
  exclusive : Exclusive s
  cleared : ∀ x ∈ buffers, active s x → ∀ y ∈ buffers, y ≠ x → s.buffs y = 0

theorem conflict_at (l : List Nat) (fgt : Buffs) (bufid i : Nat) :
    l.foldl (fun fgt n => if bufid ≠ n then setBuffData fgt n 0 else fgt) fgt i = if i ∈ l ∧ i ≠ bufid then 0 else fgt i := by
  induction l generalizing fgt with
  | nil => simp
  | cons n rest ih =>
      rw [List.foldl_cons,ih]
      by_cases same : bufid = n
      · subst same
        by_cases here : i = bufid <;> simp [here]
      · by_cases here : i = n
        · subst here
          simp [same,setBuffData,Ne.symm same]
        · simp [same,here,setBuffData]

theorem fixModelConflict_at (fgt : Buffs) (bufid i : Nat) :
    fixModelConflict fgt bufid i = if i ∈ buffers ∧ i ≠ bufid then 0 else fgt i := conflict_at buffers fgt bufid i

theorem mem_buffers (i : Nat) : i ∈ buffers ↔ modelBuff i ∧ i ≠ 13 := by
  unfold buffers modelBuff
  simp only [List.mem_cons,List.not_mem_nil,or_false]
  omega

theorem settled_later (settled : Settled s) (wait : Nat) : Settled ⟨s.clock + wait,s.buffs⟩ := by
  have still : ∀ i, active ⟨s.clock + wait,s.buffs⟩ i → active s i := by
    intro i lasts
    unfold active at lasts ⊢
    dsimp only at lasts
    omega
  constructor
  · intro i j first second one other
    exact settled.exclusive i j first second (still i one) (still j other)
  · intro x member lasts
    exact settled.cleared x member (still x lasts)

-- A model item either finds its buff full, or sets it to last.
theorem AddBuff_cases (obj : Buffs) (now idx count : Nat) (filled : 0 < num * count) :
    (ItemNormal_AddBuff obj now idx num count 356400 = (false,obj) ∧ obj idx > now) ∨
      ∃ value, ItemNormal_AddBuff obj now idx num count 356400 = (true,setBuffData obj idx value) ∧ value > now := by
  unfold ItemNormal_AddBuff
  dsimp only
  split
  · rename_i full
    exact Or.inl ⟨rfl,full.1⟩
  · refine Or.inr ⟨_,rfl,?_⟩
    generalize (if obj idx > now then obj idx - now else 0) = rest
    split
    · omega
    · omega

theorem conflict_self (fgt : Buffs) (buf : Nat) : fixModelConflict fgt buf buf = fgt buf := by
  rw [fixModelConflict_at,if_neg (by simp)]

theorem conflict_thirteen (fgt : Buffs) (buf : Nat) : fixModelConflict fgt buf 13 = fgt 13 := by
  rw [fixModelConflict_at,if_neg (by rw [mem_buffers]; simp)]

theorem conflict_clears (fgt : Buffs) {buf i : Nat} (member : i ∈ buffers) (other : i ≠ buf) : fixModelConflict fgt buf i = 0 := by
  rw [fixModelConflict_at,if_pos ⟨member,other⟩]

-- Only one model buff may last, and the other listed ones are clear.
theorem settled_of_one {fgt : Buffs} (buf now : Nat) (ended : ∀ i, modelBuff i → i ≠ buf → ¬ fgt i > now)
    (clear : ∀ i ∈ buffers, i ≠ buf → fgt i = 0) : Settled ⟨now,fgt⟩ := by
  have alone : ∀ i, modelBuff i → active ⟨now,fgt⟩ i → i = buf := by
    intro i model lasts
    by_contra other
    exact ended i model other lasts
  constructor
  · intro i j first second one other
    rw [alone i first one,alone j second other]
  · intro x listed lasts y there other
    rw [alone x ((mem_buffers x).mp listed).1 lasts] at other
    exact clear y there other

section uses
variable {fgt : Buffs} {now buf seconds : Nat}

theorem set_settled {value : Nat} (quiet : ¬ fgt 13 > now) : Settled ⟨now,setBuffData (fixModelConflict fgt buf) buf value⟩ := by
  have other_at : ∀ i, i ≠ buf → setBuffData (fixModelConflict fgt buf) buf value i = fixModelConflict fgt buf i :=
    fun i other => Function.update_of_ne other ..
  refine settled_of_one buf now ?_ ?_
  · intro i model other
    rw [other_at i other]
    by_cases thirteen : i = 13
    · rw [thirteen,conflict_thirteen]
      exact quiet
    · rw [conflict_clears fgt ((mem_buffers i).mpr ⟨model,thirteen⟩) other]
      exact Nat.not_lt_zero _
  · intro i listed other
    rw [other_at i other,conflict_clears fgt listed other]

-- A full buff: the listed ones were clear already.
theorem conflict_full (settled : Settled ⟨now,fgt⟩) (member : buf ∈ buffers) (lasts : fgt buf > now) : fixModelConflict fgt buf = fgt := by
  funext i
  rw [fixModelConflict_at]
  split
  · rename_i other
    exact (settled.cleared buf member lasts i other.1 other.2).symm
  · rfl

theorem modelItem_sound (num : Nat) (settled : Settled ⟨now,fgt⟩) (member : buf ∈ buffers) (filled : 0 < seconds * num) (quiet : ¬ fgt 13 > now) :
    ∃ answer next, modelItem buf seconds now num (some fgt) = (answer,some next) ∧ Settled ⟨now,next⟩ ∧ (answer = none → next = fgt) := by
  unfold modelItem
  dsimp only
  rcases AddBuff_cases (fixModelConflict fgt buf) now buf num filled with ⟨full,lasts⟩ | ⟨value,set,_⟩
  · rw [conflict_self] at lasts
    rw [full,conflict_full settled member lasts]
    exact ⟨none,fgt,rfl,settled,fun _ => rfl⟩
  · rw [set]
    refine ⟨some num,_,rfl,set_settled quiet,?_⟩
    intro none
    cases none

theorem modelItem_exact (num : Nat) (settled : Settled ⟨now,fgt⟩) (member : buf ∈ buffers) (filled : 0 < seconds * num)
    (made : modelItem buf seconds now num (some fgt) = (answer,some next)) (exclusive : Exclusive ⟨now,next⟩) : ¬ fgt 13 > now := by
  intro lasts
  have model := (mem_buffers buf).mp member
  have thirteen : modelBuff 13 := Or.inr (Or.inr (Or.inr ⟨by omega,by omega⟩))
  unfold modelItem at made
  dsimp only at made
  rcases AddBuff_cases (fixModelConflict fgt buf) now buf num filled with ⟨_,full⟩ | ⟨value,set,later⟩
  · rw [conflict_self] at full
    exact model.2 (settled.exclusive buf 13 model.1 thirteen full lasts)
  · rw [set] at made
    obtain ⟨_,same⟩ := Prod.mk.inj made
    cases Option.some.inj same
    refine model.2 (exclusive buf 13 model.1 thirteen ?_ ?_)
    · unfold active
      dsimp only
      rw [setBuffData,Function.update_self]
      exact later
    · unfold active
      dsimp only
      rw [setBuffData,Function.update_of_ne (Ne.symm model.2),conflict_thirteen]
      exact lasts

end uses

-- Item 480 clears every model buff before it sets its own.
theorem joke_clears (fgt : Buffs) {i : Nat} (model : modelBuff i) :
    fixModelConflict ((List.range 6).foldl (fun fgt i => setBuffData fgt (i+9) 0) fgt) 0 i = 0 := by
  by_cases thirteen : i = 13
  · subst thirteen
    rw [conflict_thirteen]
    simp [List.range_succ,setBuffData]
  · have member := (mem_buffers i).mpr ⟨model,thirteen⟩
    refine conflict_clears _ member ?_
    intro zero
    subst zero
    simp [buffers] at member

theorem joke_settled (fgt : Buffs) (now b value : Nat) :
    Settled ⟨now,setBuffData (fixModelConflict ((List.range 6).foldl (fun fgt i => setBuffData fgt (i+9) 0) fgt) 0) b value⟩ := by
  have cleared : ∀ i, modelBuff i → i ≠ b →
      setBuffData (fixModelConflict ((List.range 6).foldl (fun fgt i => setBuffData fgt (i+9) 0) fgt) 0) b value i = 0 := by
    intro i model other
    rw [setBuffData,Function.update_of_ne other]
    exact joke_clears fgt model
  refine settled_of_one b now ?_ ?_
  · intro i model other
    rw [cleared i model other]
    exact Nat.not_lt_zero _
  · intro i listed other
    exact cleared i ((mem_buffers i).mp listed).1 other

theorem joke_sound (april : Bool) (cls sex : Nat) (drawn : Redrawn (2*(cls-1) + sex % 2)) (num : Nat) {fgt : Buffs} (settled : Settled ⟨now,fgt⟩) :
    ∃ answer next, ItemNormal_00000480 april cls sex drawn now num (some fgt) = (answer,some next) ∧ Settled ⟨now,next⟩ ∧
      (answer = none → next = fgt) := by
  unfold ItemNormal_00000480
  split
  · exact ⟨none,fgt,rfl,settled,fun _ => rfl⟩
  · dsimp only
    split
    · exact ⟨none,fgt,rfl,settled,fun _ => rfl⟩
    · refine ⟨some num,_,rfl,joke_settled fgt now _ _,?_⟩
      intro none
      cases none

-- The handlers of the seven plain items, with the buff and the time of each.
inductive Plain : ModelItem → Nat → Nat → Prop where
  | i401 : Plain .i401 5 3600
  | i9306 : Plain .i9306 0x12 3600
  | i438 : Plain .i438 7 7200
  | i439 : Plain .i439 8 7200
  | i9139 : Plain .i9139 0xf (3600*24)
  | i9140 : Plain .i9140 0x10 (3600*24)
  | i9160 : Plain .i9160 0x11 (3600*24)

theorem plain_handler {item : ModelItem} (plain : Plain item buf seconds) :
    handler item = modelItem buf seconds ∧ buf ∈ buffers ∧ 0 < seconds := by
  cases plain <;> exact ⟨rfl,by decide,by decide⟩

theorem plain_or_joke (item : ModelItem) :
    (∃ buf seconds, Plain item buf seconds) ∨ ∃ april cls sex drawn, item = .i480 april cls sex drawn := by
  cases item with
  | i401 => exact Or.inl ⟨_,_,.i401⟩
  | i9306 => exact Or.inl ⟨_,_,.i9306⟩
  | i438 => exact Or.inl ⟨_,_,.i438⟩
  | i439 => exact Or.inl ⟨_,_,.i439⟩
  | i9139 => exact Or.inl ⟨_,_,.i9139⟩
  | i9140 => exact Or.inl ⟨_,_,.i9140⟩
  | i9160 => exact Or.inl ⟨_,_,.i9160⟩
  | i480 april cls sex drawn => exact Or.inr ⟨april,cls,sex,drawn,rfl⟩

theorem clear_plain {s : State} {use : Use} (plain : Plain use.item buf seconds) :
    Clear s use ↔ (use.num > 0 → use.found = true → ¬ s.buffs 13 > s.clock + use.wait) := by
  unfold Clear
  generalize use.item = item at plain
  cases plain <;> exact Iff.rfl

theorem clear_joke {s : State} {use : Use} (joke : use.item = .i480 april cls sex drawn) : Clear s use := by
  unfold Clear
  rw [joke]
  trivial

-- A use that ends before the fighter is touched.
theorem idle_step {s : State} {use : Use} (settled : Settled s)
    (idle : RunItemNormalUse use.item use.num (s.clock + use.wait) (if use.found then some s.buffs else none) =
      (none,if use.found then some s.buffs else none)) :
    ∃ answer next, step s use = some (answer,next) ∧ Fine s use answer next ∧ Settled next := by
  have kept : (if use.found then some s.buffs else none).getD s.buffs = s.buffs := by
    cases use.found <;> rfl
  have later := settled_later settled use.wait
  refine ⟨none,⟨s.clock + use.wait,s.buffs⟩,?_,⟨later.exclusive,fun _ => rfl⟩,later⟩
  simp only [step,idle,kept]

theorem step_sound {s : State} {use : Use} (settled : Settled s) (clear : Clear s use) :
    ∃ answer next, step s use = some (answer,next) ∧ Fine s use answer next ∧ Settled next := by
  have later := settled_later settled use.wait
  by_cases num : use.num ≤ 0
  · exact idle_step settled (if_pos num)
  · cases found : use.found with
    | false =>
        refine idle_step settled ?_
        rw [RunItemNormalUse,if_neg num,found]
        rcases plain_or_joke use.item with ⟨buf,seconds,plain⟩ | ⟨april,cls,sex,drawn,joke⟩
        · rw [(plain_handler plain).1]
          rfl
        · rw [joke]
          cases april <;> rfl
    | true =>
        rcases plain_or_joke use.item with ⟨buf,seconds,plain⟩ | ⟨april,cls,sex,drawn,joke⟩
        · obtain ⟨same,member,positive⟩ := plain_handler plain
          have quiet := (clear_plain plain).mp clear (by omega) found
          obtain ⟨answer,next,used,kept,stays⟩ := modelItem_sound use.num.toNat later member
            (Nat.mul_pos positive (by omega)) quiet
          refine ⟨answer,⟨s.clock + use.wait,next⟩,?_,⟨kept.exclusive,stays⟩,kept⟩
          simp only [step,RunItemNormalUse,found,if_neg num,same,if_true,used,Option.getD_some]
        · obtain ⟨answer,next,used,kept,stays⟩ := joke_sound april cls sex drawn use.num.toNat later
          refine ⟨answer,⟨s.clock + use.wait,next⟩,?_,⟨kept.exclusive,stays⟩,kept⟩
          simp only [step,RunItemNormalUse,found,if_neg num,joke,handler,if_true,used,Option.getD_some]

theorem step_exact {s : State} {use : Use} (settled : Settled s) (moved : step s use = some (answer,next)) (fine : Fine s use answer next) :
    Clear s use := by
  have later := settled_later settled use.wait
  rcases plain_or_joke use.item with ⟨buf,seconds,plain⟩ | ⟨april,cls,sex,drawn,joke⟩
  · refine (clear_plain plain).mpr ?_
    intro positive found
    obtain ⟨same,member,time⟩ := plain_handler plain
    have num : ¬ use.num ≤ 0 := by omega
    have filled : 0 < seconds * use.num.toNat := Nat.mul_pos time (by omega)
    cases used : modelItem buf seconds (s.clock + use.wait) use.num.toNat (some s.buffs) with
    | mk given fgt =>
        cases fgt with
        | none =>
            unfold modelItem at used
            cases used
        | some fgt =>
            simp only [step,RunItemNormalUse,found,if_neg num,same,if_true,used,Option.getD_some,Option.some.injEq,Prod.mk.injEq] at moved
            obtain ⟨_,rfl⟩ := moved
            exact modelItem_exact use.num.toNat later member filled used fine.1
  · exact clear_joke joke

-- The uses of a history keep at most one model buff and spare the buffs where
-- they fail, exactly when none but item 480 is used while buff 13 lasts.
theorem model_buffs_exclusive_iff (clock : Nat) (buffs : Buffs) (uses : List Use) (bare : ∀ i, modelBuff i → ¬ active ⟨clock,buffs⟩ i) :
    Along step Fine ⟨clock,buffs⟩ uses ↔ Guarded step Clear ⟨clock,buffs⟩ uses := by
  have settled : Settled ⟨clock,buffs⟩ := by
    constructor
    · intro i _ model _ lasts
      exact absurd lasts (bare i model)
    · intro x member lasts
      exact absurd lasts (bare x ((mem_buffers x).mp member).1)
  exact along_iff_guarded settled (fun _ _ => step_sound) (fun _ _ _ _ => step_exact)

-- Item 401, on April 1 the buff 13 of item 480, and item 438 when its day is over.
def afterBuffs : List Use := [⟨.i401,2,5,true⟩,⟨.i480 true 1 0 ⟨4,by decide,by decide⟩,1,100,true⟩,⟨.i438,1,24*60*60,true⟩]

theorem one_model_after_another : Along step Fine ⟨1000,fun _ => 0⟩ afterBuffs := by
  refine (model_buffs_exclusive_iff 1000 (fun _ => 0) afterBuffs ?_).mpr ⟨fun _ _ => Nat.not_lt_zero _,?_⟩
  · intro i _ lasts
    exact Nat.not_lt_zero _ lasts
  · intro _ _ first
    cases Option.some.inj first
    refine ⟨trivial,?_⟩
    intro _ _ second
    cases Option.some.inj second
    exact ⟨fun _ _ => by decide,fun _ _ _ => trivial⟩

-- On April 1 item 480 draws buff 13; then item 401 is used.
def bothBuffs : List Use := [⟨.i480 true 1 0 ⟨4,by decide,by decide⟩,1,0,true⟩,⟨.i401,1,0,true⟩]

theorem both_models : ¬ Along step Fine ⟨1000,fun _ => 0⟩ bothBuffs := by
  intro ⟨_,_,first,_,_,_,second,fine,_⟩
  cases Option.some.inj first
  cases Option.some.inj second
  exact absurd (fine.1 5 13 (by unfold modelBuff; omega) (by unfold modelBuff; omega) (by unfold active; decide) (by unfold active; decide)) (by decide)

end GameServer.Scripts.ModelBuffs
