import Mathlib.Data.List.Nodup
import Mathlib.Logic.Function.Basic

namespace GameServer

variable {ο κ : Type _}

-- Objects lie in stocks: each where it is placed, once, and nowhere else.
structure Custody (place : ο → Option κ) (stock : κ → List ο) : Prop where
  once : ∀ k, (stock k).Nodup
  here : ∀ k x, x ∈ stock k ↔ place x = some k

namespace Custody
variable {place : ο → Option κ} {stock : κ → List ο}

variable [DecidableEq κ]

-- A whole stock goes to one that is empty.
theorem drain (custody : Custody place stock) (empty : stock b = []) (apart : b ≠ a) :
    Custody (fun x => if place x = some a then some b else place x) (Function.update (Function.update stock a []) b (stock a)) := by
  have nobody (x : ο) : place x ≠ some b := by
    intro placed
    have member := (custody.here b x).mpr placed
    rw [empty] at member
    cases member
  constructor
  · intro k
    by_cases at_ : k = b
    · subst at_
      rw [Function.update_self]
      exact custody.once a
    · rw [Function.update_of_ne at_]
      by_cases from_ : k = a
      · subst from_
        rw [Function.update_self]
        exact List.nodup_nil
      · rw [Function.update_of_ne from_]
        exact custody.once k
  · intro k x
    by_cases at_ : k = b
    · subst at_
      rw [Function.update_self,custody.here]
      split
      · simp [*]
      · simp [*,nobody x]
    · rw [Function.update_of_ne at_]
      by_cases from_ : k = a
      · subst from_
        rw [Function.update_self]
        split
        · simp [Ne.symm at_]
        · simp [*]
      · rw [Function.update_of_ne from_,custody.here]
        split
        · simp [*,Ne.symm from_,Ne.symm at_]
        · rfl

variable [DecidableEq ο]

-- An object that is nowhere comes to the end of a stock.
theorem put (custody : Custody place stock) (new : place x = none) (k : κ) :
    Custody (Function.update place x (some k)) (Function.update stock k (stock k++[x])) := by
  have absent (a : κ) : x ∉ stock a := fun member => nomatch new.symm.trans ((custody.here a x).mp member)
  constructor
  · intro a
    by_cases at_ : a = k
    · subst at_
      rw [Function.update_self]
      refine List.Nodup.append (custody.once a) (List.nodup_singleton x) ?_
      intro y old last
      exact absent a (List.mem_singleton.mp last ▸ old)
    · rw [Function.update_of_ne at_]
      exact custody.once a
  · intro a y
    by_cases same : y = x
    · subst same
      rw [Function.update_self]
      by_cases at_ : a = k
      · subst at_
        simp
      · rw [Function.update_of_ne at_]
        simp [absent a,Ne.symm at_]
    · rw [Function.update_of_ne same]
      by_cases at_ : a = k
      · subst at_
        simp [same,custody.here]
      · rw [Function.update_of_ne at_]
        exact custody.here a y

-- The first of a stock leaves.
theorem take (custody : Custody place stock) (first : stock k = x :: rest) :
    Custody (Function.update place x none) (Function.update stock k rest) := by
  have list := custody.once k
  rw [first] at list
  obtain ⟨other,once⟩ := List.nodup_cons.mp list
  have placed : place x = some k := (custody.here k x).mp (first ▸ List.mem_cons_self)
  constructor
  · intro a
    by_cases at_ : a = k
    · subst at_
      rw [Function.update_self]
      exact once
    · rw [Function.update_of_ne at_]
      exact custody.once a
  · intro a y
    by_cases same : y = x
    · subst same
      rw [Function.update_self]
      by_cases at_ : a = k
      · subst at_
        simp [other]
      · rw [Function.update_of_ne at_,custody.here,placed]
        simp [Ne.symm at_]
    · rw [Function.update_of_ne same]
      by_cases at_ : a = k
      · subst at_
        rw [Function.update_self,← custody.here,first]
        simp [same]
      · rw [Function.update_of_ne at_]
        exact custody.here a y

-- The first of a stock goes to the end of another one.
theorem pass (custody : Custody place stock) (first : stock a = x :: rest) (apart : b ≠ a) :
    Custody (Function.update place x (some b)) (Function.update (Function.update stock a rest) b (stock b++[x])) := by
  have moved := (custody.take first).put (Function.update_self x none place) b
  rw [Function.update_idem,Function.update_of_ne apart] at moved
  exact moved

end Custody

end GameServer
