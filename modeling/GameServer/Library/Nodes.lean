import Mathlib.Data.List.Nodup

namespace GameServer.Nodes

-- A node-based container: its nodes in iteration order, each under the number
-- it was made with. An iterator names a node or stands past the last one, and
-- is valid as long as its node is there.
structure Container (α : Type _) where
  items : List (Nat × α)
  made : Nat
  below : ∀ n ∈ items, n.1 < made
  once : (items.map Prod.fst).Nodup

inductive Iterator where
  | node (n : Nat)
  | past
  deriving DecidableEq, Repr

variable {α : Type _}

namespace Container

def empty : Container α := ⟨[],0,by simp,by simp⟩

def values (c : Container α) : List α := c.items.map Prod.snd

def valid (c : Container α) : Iterator → Bool
  | .node n => c.items.any fun item => item.1 == n
  | .past => true

-- Comparing needs both iterators valid.
def differ (c : Container α) (a b : Iterator) : Option Bool :=
  if c.valid a && c.valid b then some (decide (a ≠ b)) else none

def first : List (Nat × α) → Iterator
  | [] => .past
  | item :: _ => .node item.1

def find [DecidableEq α] (c : Container α) (a : α) : Iterator := first (c.items.dropWhile fun item => decide (item.2 ≠ a))

def without (n : Nat) (items : List (Nat × α)) : List (Nat × α) := items.eraseP fun item => item.1 == n

-- Erases the node of a valid iterator and gives the one behind it.
def erase (c : Container α) : Iterator → Option (Iterator × Container α)
  | .past => none
  | .node n =>
    if c.valid (.node n) then
      some (first (c.items.dropWhile fun item => item.1 != n).tail,⟨without n c.items,c.made,
        fun item member => c.below item (List.mem_of_mem_eraseP member),
        List.Sublist.nodup (List.Sublist.map _ (List.eraseP_sublist ..)) c.once⟩)
    else none

-- A new node at the given place.
def insert (c : Container α) (place : Nat) (a : α) : Container α :=
  ⟨c.items.take place ++ (c.made,a) :: c.items.drop place,c.made+1,by
    intro item member
    rcases List.mem_append.mp member with front | back
    · exact Nat.lt_succ_of_lt (c.below item (List.mem_of_mem_take front))
    · rcases List.mem_cons.mp back with new | old
      · subst new
        exact Nat.lt_succ_self _
      · exact Nat.lt_succ_of_lt (c.below item (List.mem_of_mem_drop old)),by
    rw [List.map_append,List.map_cons,List.nodup_middle,← List.map_append,List.take_append_drop]
    refine List.nodup_cons.mpr ⟨?_,c.once⟩
    intro member
    obtain ⟨item,inside,same⟩ := List.mem_map.mp member
    exact absurd (same ▸ c.below item inside) (Nat.lt_irrefl _)⟩

end Container

open Container

theorem values_insert (c : Container α) (place : Nat) (a : α) : (c.insert place a).values.Perm (a :: c.values) := by
  simp only [values,Container.insert,List.map_append,List.map_cons]
  refine List.perm_middle.trans ?_
  rw [← List.map_append,List.take_append_drop]

theorem differ_gone (c : Container α) (gone : c.valid a = false) : c.differ a b = none := by simp [differ,gone]

variable [DecidableEq α] {c : Container α} {a : α}

-- Where a value is found: in front of it nothing equals it.
theorem find_split (c : Container α) (a : α) : (c.find a = .past ∧ a ∉ c.values) ∨
    ∃ front n back, c.items = front ++ (n,a) :: back ∧ c.find a = .node n ∧ ∀ item ∈ front, item.2 ≠ a := by
  unfold find values
  generalize c.items = items
  induction items with
  | nil => exact Or.inl ⟨rfl,List.not_mem_nil⟩
  | cons item rest ih =>
      by_cases here : item.2 = a
      · exact Or.inr ⟨[],item.1,rest,by simp [← here],by simp [here,first],by simp⟩
      rcases ih with ⟨past,absent⟩ | ⟨front,n,back,split,found,before⟩
      · exact Or.inl ⟨by simpa [here] using past,by simpa [Ne.symm here] using absent⟩
      · exact Or.inr ⟨item :: front,n,back,by simp [split],by simpa [here] using found,by simpa [here] using before⟩

theorem find_past : c.find a = .past ↔ a ∉ c.values := by
  rcases find_split c a with ⟨past,absent⟩ | ⟨front,n,back,split,found,_⟩
  · exact iff_of_true past absent
  · refine iff_of_false (by simp [found]) ?_
    simp [values,split]

-- Erasing what find gives takes one copy of the value away, and the iterator
-- is invalid afterwards.
theorem erase_find (present : a ∈ c.values) :
    ∃ next left, c.erase (c.find a) = some (next,left) ∧ c.values.Perm (a :: left.values) ∧ left.valid (c.find a) = false := by
  rcases find_split c a with ⟨_,absent⟩ | ⟨front,n,back,split,found,_⟩
  · exact absurd present absent
  have alone := c.once
  rw [split,List.map_append,List.map_cons,List.nodup_middle,List.nodup_cons,← List.map_append] at alone
  have apart : ∀ item ∈ front ++ back, item.1 ≠ n := by
    intro item member same
    exact alone.1 (List.mem_map.mpr ⟨item,member,same⟩)
  have gone : without n c.items = front ++ back := by
    rw [without,split,List.eraseP_append_right _ (fun item member => by simpa using apart item (List.mem_append_left _ member))]
    simp
  have there : c.valid (.node n) = true := by simp [valid,split]
  refine ⟨_,_,by rw [found,erase,if_pos there],?_,?_⟩
  · simp only [values,gone]
    rw [split,List.map_append,List.map_append]
    exact List.perm_middle
  · simp only [found,valid,gone,List.any_eq_false]
    intro item member
    simpa using apart item member

end GameServer.Nodes
