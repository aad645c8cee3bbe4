import Mathlib.Data.List.Basic

namespace GameServer

variable {α : Type _}

-- Objects by address; none where one was. Addresses are given out in order and
-- never again.
structure Objects (α : Type _) where
  slots : List (Option α) := []
  deriving DecidableEq, Repr

namespace Objects

def next (h : Objects α) : Nat := h.slots.length

def get (h : Objects α) (n : Nat) : Option α := h.slots[n]?.join

-- The new object is at the address that was next.
def alloc (h : Objects α) (a : α) : Objects α := ⟨h.slots ++ [some a]⟩

def set (h : Objects α) (n : Nat) (a : α) : Objects α := ⟨h.slots.set n (some a)⟩

def free (h : Objects α) (n : Nat) : Objects α := ⟨h.slots.set n none⟩

-- There was an object, and it is gone.
def Freed (h : Objects α) (n : Nat) : Prop := n < h.next ∧ h.get n = none

variable {h : Objects α} {n m : Nat} {a b : α}

theorem get_lt (here : h.get n = some a) : n < h.next := by
  rcases Nat.lt_or_ge n h.next with inside | outside
  · exact inside
  · rw [get,List.getElem?_eq_none outside] at here
    cases here

@[simp] theorem next_alloc (h : Objects α) (a : α) : (h.alloc a).next = h.next + 1 := List.length_append

@[simp] theorem next_set (h : Objects α) (n : Nat) (a : α) : (h.set n a).next = h.next := List.length_set

@[simp] theorem next_free (h : Objects α) (n : Nat) : (h.free n).next = h.next := List.length_set

theorem get_alloc (h : Objects α) (a : α) (m : Nat) : (h.alloc a).get m = if m = h.next then some a else h.get m := by
  unfold get alloc next
  split
  · rename_i here
    rw [here,List.getElem?_append_right (Nat.le_refl _),Nat.sub_self]
    rfl
  · rename_i other
    rcases Nat.lt_or_ge m h.slots.length with inside | outside
    · rw [List.getElem?_append_left inside]
    · rw [List.getElem?_eq_none (by rw [List.length_append,List.length_singleton]; omega),List.getElem?_eq_none outside]

theorem get_set (live : h.get n = some b) (a : α) (m : Nat) : (h.set n a).get m = if m = n then some a else h.get m := by
  unfold get set
  split
  · rename_i here
    rw [here,List.getElem?_set_self (get_lt live)]
    rfl
  · rename_i other
    rw [List.getElem?_set_ne (fun same => other same.symm)]

theorem get_free (h : Objects α) (n m : Nat) : (h.free n).get m = if m = n then none else h.get m := by
  unfold get free
  split
  · rename_i here
    subst here
    rcases Nat.lt_or_ge m h.slots.length with inside | outside
    · rw [List.getElem?_set_self inside]
      rfl
    · rw [List.getElem?_eq_none (by rw [List.length_set]; exact outside)]
      rfl
  · rename_i other
    rw [List.getElem?_set_ne (fun same => other same.symm)]

theorem get_next (h : Objects α) : h.get h.next = none := by
  rw [get,next,List.getElem?_eq_none (Nat.le_refl _)]
  rfl

-- An object that goes as it came leaves nothing behind.
theorem get_alloc_free (h : Objects α) (a : α) (n : Nat) : ((h.alloc a).free h.next).get n = h.get n := by
  rw [get_free,get_alloc]
  split
  · rename_i here
    rw [here,get_next]
  · rfl

theorem get_alloc_set (h : Objects α) (a b : α) (n : Nat) : ((h.alloc a).set h.next b).get n = (h.alloc b).get n := by
  rw [get_set (by rw [get_alloc,if_pos rfl]),get_alloc,get_alloc]
  split <;> rfl

theorem freed_free (live : h.get n = some a) : (h.free n).Freed n := by
  refine ⟨by rw [next_free]; exact get_lt live,?_⟩
  rw [get_free,if_pos rfl]

-- What is freed stays freed.
def Keeps (h h' : Objects α) : Prop := ∀ n, h.Freed n → h'.Freed n

theorem keeps_refl (h : Objects α) : h.Keeps h := fun _ => id

theorem keeps_trans {h₁ h₂ h₃ : Objects α} (one : h₁.Keeps h₂) (other : h₂.Keeps h₃) : h₁.Keeps h₃ :=
  fun n freed => other n (one n freed)

theorem keeps_get {h h' : Objects α} (more : h.next ≤ h'.next) (same : ∀ n, h'.get n = h.get n) : h.Keeps h' :=
  fun n freed => ⟨Nat.lt_of_lt_of_le freed.1 more,(same n).trans freed.2⟩

theorem keeps_alloc (h : Objects α) (a : α) : h.Keeps (h.alloc a) := by
  intro n freed
  refine ⟨by rw [next_alloc]; exact Nat.lt_succ_of_lt freed.1,?_⟩
  rw [get_alloc,if_neg (Nat.ne_of_lt freed.1)]
  exact freed.2

theorem keeps_set (live : h.get m = some b) (a : α) : h.Keeps (h.set m a) := by
  intro n freed
  refine ⟨by rw [next_set]; exact freed.1,?_⟩
  have apart : n ≠ m := by
    rintro rfl
    have gone := freed.2
    rw [live] at gone
    cases gone
  rw [get_set live,if_neg apart]
  exact freed.2

theorem keeps_free (h : Objects α) (m : Nat) : h.Keeps (h.free m) := by
  intro n freed
  refine ⟨by rw [next_free]; exact freed.1,?_⟩
  rw [get_free]
  split
  · rfl
  · exact freed.2

-- The objects alive, each with the address it holds, are just these.
def Linked (member : Nat → Nat → Prop) (h : Objects α) (link : α → Nat) : Prop :=
  ∀ n m, member n m ↔ ∃ a, h.get n = some a ∧ link a = m

section links
variable {member member' : Nat → Nat → Prop} {link : α → Nat}

theorem linked_empty (bare : ∀ n m, ¬member n m) : Linked member {} link := by
  intro n m
  refine iff_of_false (bare n m) ?_
  rintro ⟨a,here,_⟩
  rw [get,List.getElem?_nil] at here
  cases here

theorem linked_iff (linked : Linked member h link) (same : ∀ n m, member' n m ↔ member n m) : Linked member' h link :=
  fun n m => (same n m).trans (linked n m)

theorem linked_only (linked : Linked member h link) (one : member n m) (other : member n k) : m = k := by
  obtain ⟨a,here,rfl⟩ := (linked n m).mp one
  obtain ⟨b,there,rfl⟩ := (linked n k).mp other
  cases here.symm.trans there
  rfl

theorem linked_get (linked : Linked member h link) (same : ∀ n, h'.get n = h.get n) : Linked member h' link := by
  intro n m
  rw [same]
  exact linked n m

theorem linked_set (linked : Linked member h link) (live : h.get k = some a) (same : link b = link a) :
    Linked member (h.set k b) link := by
  intro n m
  rw [linked,get_set live]
  split
  · rename_i here
    rw [here,live]
    simp only [Option.some.injEq,exists_eq_left',same]
  · exact Iff.rfl

theorem linked_alloc (linked : Linked member h link) (a : α) :
    Linked (fun n m => (n = h.next ∧ link a = m) ∨ member n m) (h.alloc a) link := by
  intro n m
  dsimp only
  rw [linked,get_alloc]
  split
  · rename_i here
    rw [here,get_next]
    simp
  · rename_i old
    exact ⟨fun either => either.resolve_left fun new => old new.1,.inr⟩

theorem linked_free (linked : Linked member h link) (k : Nat) : Linked (fun n m => n ≠ k ∧ member n m) (h.free k) link := by
  intro n m
  dsimp only
  rw [linked,get_free]
  split
  · rename_i here
    simp [here]
  · rename_i other
    simp [other]

end links

end Objects
end GameServer
