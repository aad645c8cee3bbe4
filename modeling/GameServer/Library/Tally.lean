import Mathlib.Algebra.GroupWithZero.Nat
import Mathlib.Data.List.AList

namespace GameServer.Tally

variable {α β : Type _}

-- A finite map weighed entry by entry. With weight 1 it is the number of keys.
def weight (f : β → Nat) (m : AList fun _ : α => β) : Nat := (m.entries.map fun entry => f entry.2).sum

variable [DecidableEq α]

def old (f : β → Nat) (m : AList fun _ : α => β) (a : α) : Nat := (m.lookup a).elim 0 f

theorem sum_kerase (f : β → Nat) (a : α) (l : List (Sigma fun _ : α => β)) :
    ((l.kerase a).map fun entry => f entry.2).sum + (l.dlookup a).elim 0 f = (l.map fun entry => f entry.2).sum := by
  induction l with
  | nil => rfl
  | cons entry rest ih =>
      obtain ⟨key,value⟩ := entry
      by_cases here : a = key
      · subst here
        simp [Nat.add_comm]
      · simp [List.kerase_cons_ne,List.dlookup_cons_ne,here,← ih,Nat.add_assoc]

theorem weight_erase (f : β → Nat) (m : AList fun _ : α => β) (a : α) : weight f (m.erase a) + old f m a = weight f m :=
  sum_kerase f a m.entries

theorem weight_insert (f : β → Nat) (m : AList fun _ : α => β) (a : α) (b : β) :
    weight f (m.insert a b) + old f m a = weight f m + f b := by
  have rest := weight_erase f m a
  have new : weight f (m.insert a b) = f b + weight f (m.erase a) := by
    simp only [weight,AList.entries_insert,List.map_cons,List.sum_cons]
    rfl
  omega

theorem old_le (f : β → Nat) (m : AList fun _ : α => β) (a : α) : old f m a ≤ weight f m := by
  have rest := weight_erase f m a
  omega

end GameServer.Tally
