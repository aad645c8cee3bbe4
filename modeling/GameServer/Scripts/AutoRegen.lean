import Mathlib.Algebra.GroupWithZero.Nat
import Mathlib.Algebra.BigOperators.Group.List.Basic
import Mathlib.Algebra.Order.Group.Nat

namespace GameServer.Scripts.AutoRegen

-- HP after healing: capped at the maximum, which is kept as 0.
def filled (maxHP currHP amount : Nat) : Nat :=
  if currHP = 0 then 0 else if maxHP ≤ currHP+amount then 0 else currHP+amount

-- A fighter (φ) and a package (π) as the script sees them.
structure Engine (φ π : Type _) where
  getMaxHP : φ → Nat
  getCurrentHP : φ → Nat
  regenHP : φ → Nat → φ
  GetItemNum : π → Nat → Nat → Nat
  DelItem : π → Nat → Nat → Nat → π
  within : ∀ f, getCurrentHP f ≤ getMaxHP f
  max_regen : ∀ f amount, getMaxHP (regenHP f amount) = getMaxHP f
  current_regen : ∀ f amount, getCurrentHP (regenHP f amount) = filled (getMaxHP f) (getCurrentHP f) amount
  num_del : ∀ p itemId num bind, num ≤ GetItemNum p itemId bind → ∀ id b,
    GetItemNum (DelItem p itemId num bind) id b =
      if id = itemId ∧ b = bind then GetItemNum p itemId bind - num else GetItemNum p id b

structure Kind where
  itemId : Nat
  bind : Nat
  hpEach : Nat
  deriving DecidableEq, Repr

-- What one attempt passes to regenHP and to DelItem.
structure Use where
  kind : Kind
  amount : Nat
  num : Nat
  deriving DecidableEq, Repr

structure Result (φ π : Type _) where
  answer : Bool
  fighter : φ
  package : π
  uses : List Use

section source
variable {φ π : Type _} (E : Engine φ π)

def _TryUseToRegen (f : φ) (p : π) (kind : Kind) (maxHP : Nat) : Result φ π :=
  let currHP := E.getCurrentHP f
  if currHP = 0 then ⟨true,f,p,[]⟩
  else
    let hpToFull := maxHP - currHP
    let num := E.GetItemNum p kind.itemId kind.bind
    let num := if hpToFull < kind.hpEach*num then (hpToFull+kind.hpEach-1)/kind.hpEach else num
    let f := E.regenHP f (kind.hpEach*num)
    let p := E.DelItem p kind.itemId num kind.bind
    ⟨E.getCurrentHP f = 0,f,p,[⟨kind,kind.hpEach*num,num⟩]⟩

-- Attempts joined by `or`.
def attempts (maxHP : Nat) : List Kind → φ → π → Result φ π
  | [],f,p => ⟨false,f,p,[]⟩
  | kind :: rest,f,p =>
    let first := _TryUseToRegen E f p kind maxHP
    if first.answer then first
    else
      let more := attempts maxHP rest first.fighter first.package
      {more with uses := first.uses ++ more.uses}

def kinds : List Kind :=
  [⟨8900,1,300⟩,⟨8900,0,300⟩,⟨8901,1,1200⟩,⟨8901,0,1200⟩,⟨8902,1,1200⟩,⟨8902,0,1200⟩,⟨8903,1,2000⟩,⟨8903,0,2000⟩]

def DoAutoRegen (f : φ) (p : π) : Result φ π := attempts E (E.getMaxHP f) kinds f p

end source

def total (uses : List Use) : Nat := (uses.map Use.amount).sum

-- The potions of one kind that were removed.
def taken (uses : List Use) (itemId bind : Nat) : Nat :=
  ((uses.filter fun u => u.kind.itemId = itemId ∧ u.kind.bind = bind).map Use.num).sum

-- What the attempts for some kinds do to a fighter and a package.
structure Regenerated {φ π : Type _} (E : Engine φ π) (order : List Kind) (f : φ) (p : π) (r : Result φ π) : Prop where
  healing : ∀ u ∈ r.uses, u.kind ∈ order ∧ u.amount = u.kind.hpEach*u.num
  healed : E.getCurrentHP r.fighter = filled (E.getMaxHP f) (E.getCurrentHP f) (total r.uses)
  removed : ∀ itemId bind, E.GetItemNum r.package itemId bind + taken r.uses itemId bind = E.GetItemNum p itemId bind
  exhausted : ∀ before kind after, order = before ++ kind :: after → 0 < taken r.uses kind.itemId kind.bind →
    ∀ earlier ∈ before, E.GetItemNum r.package earlier.itemId earlier.bind = 0
  waste : ∀ before u after, r.uses = before ++ u :: after → 0 < u.num → (∀ later ∈ after, later.num = 0) →
    total r.uses < E.getMaxHP f - E.getCurrentHP f + u.kind.hpEach
  returned : r.answer = true ↔ E.getCurrentHP r.fighter = 0

theorem filled_more (maxHP currHP a b : Nat) : filled maxHP (filled maxHP currHP a) b = filled maxHP currHP (a+b) := by
  unfold filled
  split
  · rfl
  · split
    · rw [if_pos rfl,if_pos (by omega)]
    · rw [if_neg (by omega),Nat.add_assoc]

-- The potions that are needed, by rounding up.
theorem rounded (need : Nat) {each : Nat} (some : 0 < each) :
    need ≤ each*((need+each-1)/each) ∧ each*((need+each-1)/each) < need+each := by
  have parts := Nat.div_add_mod (need+each-1) each
  have rest := Nat.mod_lt (need+each-1) some
  omega

section attempts
variable {φ π : Type _} {E : Engine φ π} {f : φ} {p : π} {kind : Kind}

-- One attempt on a fighter that is not full: it fills him with less than one
-- potion to spare, or uses up the kind.
structure Tried (E : Engine φ π) (f : φ) (p : π) (kind : Kind) (r : Result φ π) (num : Nat) : Prop where
  uses : r.uses = [⟨kind,kind.hpEach*num,num⟩]
  held : num ≤ E.GetItemNum p kind.itemId kind.bind
  fighter : r.fighter = E.regenHP f (kind.hpEach*num)
  package : r.package = E.DelItem p kind.itemId num kind.bind
  returned : r.answer = true ↔ E.getCurrentHP r.fighter = 0
  spare : kind.hpEach*num < E.getMaxHP f - E.getCurrentHP f + kind.hpEach
  short : r.answer = false → num = E.GetItemNum p kind.itemId kind.bind

theorem tried (some : 0 < kind.hpEach) (hurt : E.getCurrentHP f ≠ 0) :
    ∃ num, Tried E f p kind (_TryUseToRegen E f p kind (E.getMaxHP f)) num := by
  have most := E.within f
  obtain ⟨enough,spare⟩ := rounded (E.getMaxHP f - E.getCurrentHP f) some
  rw [_TryUseToRegen]
  dsimp only
  rw [if_neg hurt]
  by_cases less : E.getMaxHP f - E.getCurrentHP f < kind.hpEach*E.GetItemNum p kind.itemId kind.bind
  · rw [if_pos less]
    refine ⟨(E.getMaxHP f - E.getCurrentHP f + kind.hpEach - 1)/kind.hpEach,rfl,?_,rfl,rfl,by simp,spare,?_⟩
    · refine Nat.le_of_lt_succ ((Nat.div_lt_iff_lt_mul some).mpr ?_)
      rw [Nat.succ_mul,Nat.mul_comm]
      omega
    · intro short
      have full : E.getCurrentHP (E.regenHP f (kind.hpEach*((E.getMaxHP f - E.getCurrentHP f + kind.hpEach - 1)/kind.hpEach))) = 0 := by
        rw [E.current_regen,filled,if_neg hurt,if_pos (by omega)]
      simp [full] at short
  · rw [if_neg less]
    exact ⟨_,rfl,Nat.le_refl _,rfl,rfl,by simp,by omega,fun _ => rfl⟩

end attempts

section uses
variable {u : Use} {uses : List Use} {itemId bind : Nat}

theorem total_cons : total (u :: uses) = u.amount + total uses := by
  rw [total,List.map_cons,List.sum_cons]
  rfl

theorem taken_cons : taken (u :: uses) itemId bind =
    (if u.kind.itemId = itemId ∧ u.kind.bind = bind then u.num else 0) + taken uses itemId bind := by
  unfold taken
  rw [List.filter_cons]
  by_cases here : u.kind.itemId = itemId ∧ u.kind.bind = bind
  · rw [if_pos (decide_eq_true here),if_pos here,List.map_cons,List.sum_cons]
  · rw [if_neg (by simpa using here),if_neg here,Nat.zero_add]

theorem total_unused (healing : ∀ u ∈ uses, u.amount = u.kind.hpEach*u.num) (unused : ∀ u ∈ uses, u.num = 0) : total uses = 0 := by
  induction uses with
  | nil => rfl
  | cons u uses ih =>
      rw [total_cons,healing u List.mem_cons_self,unused u List.mem_cons_self,Nat.mul_zero,Nat.zero_add]
      exact ih (fun v member => healing v (List.mem_cons_of_mem _ member)) fun v member => unused v (List.mem_cons_of_mem _ member)

end uses

-- Kinds by item and binding.
def Apart (order : List Kind) : Prop := order.Pairwise fun a b => ¬(a.itemId = b.itemId ∧ a.bind = b.bind)

section run
variable {φ π : Type _} {E : Engine φ π} {f : φ} {p : π} {kind : Kind} {rest : List Kind} {first more : Result φ π} {num : Nat}

theorem tried_removed (attempt : Tried E f p kind first num) (itemId bind : Nat) :
    E.GetItemNum first.package itemId bind + (if kind.itemId = itemId ∧ kind.bind = bind then num else 0) = E.GetItemNum p itemId bind := by
  have held := attempt.held
  rw [attempt.package,E.num_del p kind.itemId num kind.bind held]
  by_cases here : kind.itemId = itemId ∧ kind.bind = bind
  · obtain ⟨rfl,rfl⟩ := here
    rw [if_pos ⟨rfl,rfl⟩,if_pos ⟨rfl,rfl⟩]
    omega
  · rw [if_neg fun same => here ⟨same.1.symm,same.2.symm⟩,if_neg here,Nat.add_zero]

-- The attempt that fills the fighter is the last.
theorem regenerated_last (attempt : Tried E f p kind first num) (apart : Apart (kind :: rest)) : Regenerated E (kind :: rest) f p first where
  healing u member := by
    rw [attempt.uses,List.mem_singleton] at member
    subst member
    exact ⟨List.mem_cons_self,rfl⟩
  healed := by
    rw [attempt.fighter,E.current_regen,attempt.uses]
    rfl
  removed itemId bind := by
    rw [attempt.uses,taken_cons]
    exact tried_removed attempt itemId bind
  exhausted before last after parts some earlier member := by
    cases before with
    | nil => cases member
    | cons front before =>
        cases parts
        have other : ¬(kind.itemId = last.itemId ∧ kind.bind = last.bind) := (List.pairwise_cons.mp apart).1 last (by simp)
        rw [attempt.uses,taken_cons,if_neg other] at some
        cases some
  waste before u after parts _ _ := by
    rw [attempt.uses] at parts
    obtain ⟨rfl,rfl,rfl⟩ : before = [] ∧ u = ⟨kind,kind.hpEach*num,num⟩ ∧ after = [] := by
      cases before with
      | nil =>
          cases parts
          exact ⟨rfl,rfl,rfl⟩
      | cons b before => cases before <;> cases parts
    rw [attempt.uses]
    exact attempt.spare
  returned := attempt.returned

theorem tried_max (attempt : Tried E f p kind first num) : E.getMaxHP first.fighter = E.getMaxHP f := by
  rw [attempt.fighter,E.max_regen]

theorem tried_short (attempt : Tried E f p kind first num) (hurt : E.getCurrentHP f ≠ 0) (short : first.answer = false) :
    E.getCurrentHP first.fighter = E.getCurrentHP f + kind.hpEach*num ∧ E.getCurrentHP first.fighter ≠ 0 ∧
      E.getCurrentHP first.fighter < E.getMaxHP first.fighter := by
  have still : E.getCurrentHP first.fighter ≠ 0 := fun full => by
    rw [attempt.returned.mpr full] at short
    cases short
  rw [tried_max attempt]
  rw [attempt.fighter,E.current_regen] at still ⊢
  unfold filled at still ⊢
  rw [if_neg hurt] at still ⊢
  split at still
  · exact absurd rfl still
  · rename_i below
    rw [if_neg below]
    exact ⟨rfl,still,Nat.lt_of_not_le below⟩

-- After an attempt that uses up its kind the rest goes on.
theorem regenerated_next (attempt : Tried E f p kind first num) (hurt : E.getCurrentHP f ≠ 0) (short : first.answer = false)
    (apart : Apart (kind :: rest)) (regenerated : Regenerated E rest first.fighter first.package more) :
    Regenerated E (kind :: rest) f p {more with uses := first.uses ++ more.uses} := by
  obtain ⟨healed,_,below⟩ := tried_short attempt hurt short
  have most := tried_max attempt
  have front : first.uses ++ more.uses = ⟨kind,kind.hpEach*num,num⟩ :: more.uses := by rw [attempt.uses]; rfl
  obtain ⟨others,_⟩ := List.pairwise_cons.mp apart
  rw [front]
  refine ⟨?_,?_,?_,?_,?_,regenerated.returned⟩
  · intro u member
    rcases List.mem_cons.mp member with rfl | later
    · exact ⟨List.mem_cons_self,rfl⟩
    · exact ⟨List.mem_cons_of_mem _ (regenerated.healing u later).1,(regenerated.healing u later).2⟩
  · rw [total_cons,regenerated.healed,most,attempt.fighter,E.current_regen,filled_more]
  · intro itemId bind
    have later := regenerated.removed itemId bind
    have here := tried_removed attempt itemId bind
    rw [taken_cons]
    dsimp only
    omega
  · intro before last after parts some earlier member
    cases before with
    | nil => cases member
    | cons k before =>
        cases parts
        rw [taken_cons,if_neg (others last (by simp)),Nat.zero_add] at some
        rcases List.mem_cons.mp member with rfl | inner
        · have gone := tried_removed attempt earlier.itemId earlier.bind
          have later := regenerated.removed earlier.itemId earlier.bind
          rw [if_pos ⟨rfl,rfl⟩,attempt.short short] at gone
          dsimp only
          omega
        · exact regenerated.exhausted before last after rfl some earlier inner
  · intro before u after parts some unused
    rw [total_cons]
    cases before with
    | nil =>
        cases parts
        rw [total_unused (fun v member => (regenerated.healing v member).2) unused,Nat.add_zero]
        exact attempt.spare
    | cons v before =>
        have later := regenerated.waste before u after (List.cons.inj parts).2 some unused
        dsimp only
        rw [healed,most] at later
        rw [healed,most] at below
        omega

theorem attempts_regenerated (order : List Kind) (some : ∀ kind ∈ order, 0 < kind.hpEach) (apart : Apart order)
    (hurt : E.getCurrentHP f ≠ 0) (left : order = [] → E.getCurrentHP f < E.getMaxHP f) :
    Regenerated E order f p (attempts E (E.getMaxHP f) order f p) := by
  induction order generalizing f p with
  | nil =>
      have below := left rfl
      refine ⟨fun _ member => (List.not_mem_nil member).elim,?_,fun _ _ => rfl,?_,?_,?_⟩
      · change E.getCurrentHP f = filled (E.getMaxHP f) (E.getCurrentHP f) 0
        rw [filled,if_neg hurt,if_neg (by omega),Nat.add_zero]
      · intro before _ _ parts
        cases before <;> cases parts
      · intro before _ _ parts
        cases before <;> cases parts
      · exact iff_of_false Bool.false_ne_true hurt
  | cons kind rest ih =>
      obtain ⟨num,attempt⟩ := tried (p := p) (some kind List.mem_cons_self) hurt
      rw [attempts]
      dsimp only
      cases answer : (_TryUseToRegen E f p kind (E.getMaxHP f)).answer with
      | true =>
          rw [if_pos rfl]
          exact regenerated_last attempt apart
      | false =>
          obtain ⟨_,still,below⟩ := tried_short attempt hurt answer
          obtain ⟨_,apartRest⟩ := List.pairwise_cons.mp apart
          rw [if_neg Bool.false_ne_true]
          have more := ih (p := (_TryUseToRegen E f p kind (E.getMaxHP f)).package)
            (fun other member => some other (List.mem_cons_of_mem _ member)) apartRest still fun _ => below
          rw [tried_max attempt] at more
          exact regenerated_next attempt hurt answer apart more

end run

-- What is asked of the whole call.
theorem autoRegen_regenerated {φ π : Type _} (E : Engine φ π) (f : φ) (p : π) : Regenerated E kinds f p (DoAutoRegen E f p) := by
  by_cases full : E.getCurrentHP f = 0
  · have answered : DoAutoRegen E f p = ⟨true,f,p,[]⟩ := by
      rw [DoAutoRegen,kinds,attempts,_TryUseToRegen]
      dsimp only
      rw [if_pos full,if_pos rfl]
    rw [answered]
    refine ⟨fun _ member => (List.not_mem_nil member).elim,?_,fun _ _ => rfl,?_,?_,iff_of_true rfl full⟩
    · rw [filled,if_pos full]
      exact full
    · intro _ _ _ _ some
      exact absurd some (Nat.lt_irrefl 0)
    · intro before _ _ parts
      cases before <;> cases parts
  · exact attempts_regenerated kinds (by decide) (by unfold Apart; decide) full fun none => by cases none

structure Health where
  maxHP : Nat
  currHP : Nat
  within : currHP ≤ maxHP

theorem filled_le {maxHP currHP : Nat} (amount : Nat) : filled maxHP currHP amount ≤ maxHP := by
  unfold filled
  split
  · exact Nat.zero_le _
  · split <;> omega

def plain : Engine Health (Nat → Nat → Nat) where
  getMaxHP f := f.maxHP
  getCurrentHP f := f.currHP
  regenHP f amount := ⟨f.maxHP,filled f.maxHP f.currHP amount,filled_le amount⟩
  GetItemNum p := p
  DelItem p itemId num bind := fun id b => if id = itemId ∧ b = bind then p itemId bind - num else p id b
  within f := f.within
  max_regen _ _ := rfl
  current_regen _ _ := rfl
  num_del _ _ _ _ _ _ _ := rfl

def wounded : Health := ⟨5000,4000,by decide⟩

def pouch (_ bind : Nat) : Nat := if bind = 1 then 2 else 0

-- 1000 points are missing: two small potions and the first of the next kind.
theorem autoRegen_regenerated_wounded : Regenerated plain kinds wounded pouch (DoAutoRegen plain wounded pouch) ∧
    (DoAutoRegen plain wounded pouch).uses.map Use.num = [2,0,1] ∧ (DoAutoRegen plain wounded pouch).answer = true :=
  ⟨autoRegen_regenerated plain wounded pouch,by decide,by decide⟩

end GameServer.Scripts.AutoRegen
