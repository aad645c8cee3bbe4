import Mathlib.Data.List.Sort
import Mathlib.Order.RelClasses

namespace GameServer.Sorting

variable {α : Type _} {less : α → α → Prop} {sort : List α → List α} {V W : List α} {t : α}

-- What a comparator owes a sort, on the elements it is given.
def Ordered (less : α → α → Prop) (V : List α) : Prop := IsStrictWeakOrder {a // a ∈ V} fun a b => less a b

-- What a sort promises: the same elements, and in order when the comparator
-- keeps its side.
structure Sorts (less : α → α → Prop) (sort : List α → List α) : Prop where
  perm : ∀ V, (sort V).Perm V
  sorted : ∀ V, Ordered less V → (sort V).Pairwise fun a b => ¬less b a

theorem ordered_mono (part : ∀ a ∈ W, a ∈ V) (ordered : Ordered less V) : Ordered less W where
  irrefl a := ordered.irrefl ⟨a,part a a.2⟩
  trans a b c := ordered.trans ⟨a,part a a.2⟩ ⟨b,part b b.2⟩ ⟨c,part c c.2⟩
  incomp_trans a b c := ordered.incomp_trans ⟨a,part a a.2⟩ ⟨b,part b b.2⟩ ⟨c,part c c.2⟩

theorem ordered_asymm (ordered : Ordered less V) (one : a ∈ V) (two : b ∈ V) (before : less a b) : ¬less b a :=
  fun after => ordered.irrefl ⟨a,one⟩ (ordered.trans ⟨a,one⟩ ⟨b,two⟩ ⟨a,one⟩ before after)

theorem not_less_trans {r : α → α → Prop} (order : IsStrictWeakOrder α r) (first : ¬r b a) (second : ¬r c b) : ¬r c a := by
  intro before
  by_cases up : r a b
  · exact second (order.trans _ _ _ before up)
  · by_cases up' : r b c
    · exact first (order.trans _ _ _ up' before)
    · exact (order.incomp_trans a b c ⟨up,first⟩ ⟨up',second⟩).2 before

-- Nothing that was sorted comes before the front.
theorem front_least (sorts : Sorts less sort) (ordered : Ordered less V) (front : (sort V).head? = some t) :
    t ∈ V ∧ ∀ u ∈ V, ¬less u t := by
  obtain ⟨rest,whole⟩ := List.head?_eq_some_iff.mp front
  have perm := sorts.perm V
  have sorted := sorts.sorted V ordered
  rw [whole] at perm sorted
  have member : t ∈ V := perm.mem_iff.mp (List.mem_cons_self ..)
  refine ⟨member,fun u inside => ?_⟩
  rcases List.mem_cons.mp (perm.mem_iff.mpr inside) with rfl | later
  · exact ordered.irrefl ⟨u,inside⟩
  · exact (List.pairwise_cons.mp sorted).1 u later

open Classical in
-- Some sort keeps the promise, whatever it is given.
theorem exists_sorts (less : α → α → Prop) : ∃ sort : List α → List α, Sorts less sort := by
  refine ⟨fun V => if Ordered less V then
    (V.attach.insertionSort fun a b : {a // a ∈ V} => ¬less b a).map Subtype.val else V,?_,?_⟩
  · intro V
    split
    · have perm := (List.perm_insertionSort (fun a b : {a // a ∈ V} => ¬less b a) V.attach).map Subtype.val
      rwa [List.attach_map_subtype_val] at perm
    · exact .refl V
  · intro V ordered
    rw [if_pos ordered,List.pairwise_map]
    have total : Std.Total fun a b : {a // a ∈ V} => ¬less b a := ⟨fun a b => by
      by_cases before : less b a
      · exact .inr (ordered_asymm ordered b.2 a.2 before)
      · exact .inl before⟩
    have trans : IsTrans {a // a ∈ V} fun a b => ¬less b a := ⟨fun _ _ _ =>
      not_less_trans (r:=fun a b : {a // a ∈ V} => less a b) ordered⟩
    exact List.pairwise_insertionSort _ _

open Classical in
-- Given a comparator that fails its side, a sort may put anything in front.
theorem exists_front (broken : ¬Ordered less V) (member : t ∈ V) :
    ∃ sort, Sorts less sort ∧ (sort V).head? = some t := by
  obtain ⟨sort,sorts⟩ := exists_sorts less
  refine ⟨Function.update sort V (t :: V.erase t),⟨?_,?_⟩,by rw [Function.update_self]; rfl⟩
  · intro W
    by_cases same : W = V
    · subst same
      rw [Function.update_self]
      exact (List.perm_cons_erase member).symm
    · rw [Function.update_of_ne same]
      exact sorts.perm W
  · intro W ordered
    have apart : W ≠ V := fun same => broken (same ▸ ordered)
    rw [Function.update_of_ne apart]
    exact sorts.sorted W ordered

end GameServer.Sorting
