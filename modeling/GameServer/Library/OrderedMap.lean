import Mathlib.Data.List.Basic

namespace GameServer.OrderedMap

variable {κ β : Type _} [LT κ]

section entries
variable [DecidableEq κ]

-- An ordered map is the list of its entries in key order.
def find (key : κ) : List (κ × β) → Option β
  | [] => none
  | (k,v) :: rest => if key = k then some v else find key rest

theorem mem_iff_find [Std.Irrefl (α := κ) (· < ·)] {m : List (κ × β)} (ordered : m.Pairwise fun a b => a.1 < b.1) (k : κ) (v : β) :
    (k,v) ∈ m ↔ find k m = some v := by
  induction m with
  | nil => simp [find]
  | cons first rest ih =>
      obtain ⟨least,tail⟩ := List.pairwise_cons.mp ordered
      obtain ⟨first,w⟩ := first
      by_cases here : k = first
      · subst here
        rw [find,if_pos rfl,List.mem_cons]
        constructor
        · intro member
          rcases member with same | later
          · cases same
            rfl
          · exact absurd (least _ later) (Std.Irrefl.irrefl k)
        · intro same
          cases Option.some.inj same
          exact Or.inl rfl
      · rw [find,if_neg here,←ih tail,List.mem_cons]
        simp [here]

-- In an ordered map a key has one entry to erase.
theorem erase_perm [Std.Irrefl (α := κ) (· < ·)] {key : κ} {v : β} {m : List (κ × β)} (ordered : m.Pairwise fun a b => a.1 < b.1)
    (member : (key,v) ∈ m) : m.Perm ((key,v) :: m.filter fun entry => entry.1 ≠ key) := by
  induction m with
  | nil => cases member
  | cons first rest ih =>
      obtain ⟨least,tail⟩ := List.pairwise_cons.mp ordered
      rcases List.mem_cons.mp member with rfl | later
      · have others : rest.filter (fun entry => entry.1 ≠ key) = rest := by
          rw [List.filter_eq_self]
          intro entry inside
          have more := least entry inside
          refine decide_eq_true fun same => ?_
          rw [same] at more
          exact Std.Irrefl.irrefl key more
        rw [List.filter_cons,if_neg (by simp),others]
      · have apart : first.1 ≠ key := by
          intro same
          have more := least _ later
          rw [same] at more
          exact Std.Irrefl.irrefl key more
        rw [List.filter_cons,if_pos (decide_eq_true apart)]
        exact ((ih tail later).cons _).trans (.swap ..)

end entries

variable [DecidableLT κ] [DecidableEq κ]

-- `upsert` gives the entry of a key a new value, made from the old one or from
-- its absence.
def upsert (key : κ) (make : Option β → β) : List (κ × β) → List (κ × β)
  | [] => [(key,make none)]
  | (k,v) :: rest =>
      if key < k then (key,make none) :: (k,v) :: rest
      else if key = k then (k,make (some v)) :: rest
      else (k,v) :: upsert key make rest

theorem upsert_ne_nil (key : κ) (make : Option β → β) (m : List (κ × β)) : upsert key make m ≠ [] := by
  cases m with
  | nil => exact List.cons_ne_nil _ _
  | cons entry rest =>
      unfold upsert
      split
      · exact List.cons_ne_nil _ _
      · split <;> exact List.cons_ne_nil _ _

-- In a map of lists only the key's own list is replaced.
theorem upsert_flat (key : κ) (make : Option (List α) → List α) (m : List (κ × List α)) :
    ∃ pre old post, m.flatMap (fun entry => entry.2) = pre ++ old.getD [] ++ post ∧
      (upsert key make m).flatMap (fun entry => entry.2) = pre ++ make old ++ post := by
  induction m with
  | nil => exact ⟨[],none,[],rfl,by simp [upsert]⟩
  | cons first rest ih =>
      obtain ⟨k,v⟩ := first
      unfold upsert
      split
      · exact ⟨[],none,((k,v) :: rest).flatMap fun entry => entry.2,rfl,by simp⟩
      · split
        · exact ⟨[],some v,rest.flatMap fun entry => entry.2,by simp,by simp⟩
        · obtain ⟨pre,old,post,before,after⟩ := ih
          refine ⟨v ++ pre,old,post,?_,?_⟩
          · simp only [List.flatMap_cons,before,List.append_assoc]
          · simp only [List.flatMap_cons,after,List.append_assoc]

theorem mem_upsert {key : κ} {make : Option β → β} {m : List (κ × β)} {entry : κ × β} (member : entry ∈ upsert key make m) :
    entry ∈ m ∨ entry = (key,make none) ∨ ∃ v, (key,v) ∈ m ∧ entry = (key,make (some v)) := by
  induction m with
  | nil => exact Or.inr (Or.inl (List.mem_singleton.mp member))
  | cons first rest ih =>
      obtain ⟨k,v⟩ := first
      unfold upsert at member
      split at member
      · obtain new | old := List.mem_cons.mp member
        · exact Or.inr (Or.inl new)
        · exact Or.inl old
      · split at member
        · rename_i same
          subst same
          obtain new | old := List.mem_cons.mp member
          · exact Or.inr (Or.inr ⟨v,List.mem_cons_self,new⟩)
          · exact Or.inl (List.mem_cons_of_mem _ old)
        · obtain head | later := List.mem_cons.mp member
          · exact Or.inl (head ▸ List.mem_cons_self)
          · obtain old | new | ⟨w,there,new⟩ := ih later
            · exact Or.inl (List.mem_cons_of_mem _ old)
            · exact Or.inr (Or.inl new)
            · exact Or.inr (Or.inr ⟨w,List.mem_cons_of_mem _ there,new⟩)

theorem upsert_ordered [Std.Trichotomous (α := κ) (· < ·)] [Trans (α := κ) (· < ·) (· < ·) (· < ·)] (key : κ) (make : Option β → β)
    {m : List (κ × β)} (ordered : m.Pairwise fun a b => a.1 < b.1) : (upsert key make m).Pairwise fun a b => a.1 < b.1 := by
  induction m with
  | nil => exact List.pairwise_singleton _ _
  | cons first rest ih =>
      obtain ⟨k,v⟩ := first
      obtain ⟨least,tail⟩ := List.pairwise_cons.mp ordered
      unfold upsert
      split
      · rename_i less
        refine List.pairwise_cons.mpr ⟨?_,ordered⟩
        intro entry member
        obtain head | later := List.mem_cons.mp member
        · exact head ▸ less
        · exact Trans.trans less (least entry later)
      · split
        · rename_i same
          subst same
          exact List.pairwise_cons.mpr ⟨least,tail⟩
        · rename_i above apart
          refine List.pairwise_cons.mpr ⟨?_,ih tail⟩
          have more : k < key := Classical.byContradiction fun below => apart (Std.Trichotomous.trichotomous key k above below)
          intro entry member
          obtain old | new | ⟨w,there,new⟩ := mem_upsert member
          · exact least entry old
          · exact new ▸ more
          · exact new ▸ more

theorem upsert_last [Std.Asymm (α := κ) (· < ·)] (key : κ) (make : Option β → β) {m : List (κ × β)} (above : ∀ entry ∈ m, entry.1 < key) :
    upsert key make m = m ++ [(key,make none)] := by
  induction m with
  | nil => rfl
  | cons first rest ih =>
      obtain ⟨k,v⟩ := first
      have more : k < key := above (k,v) List.mem_cons_self
      have less : ¬ key < k := Std.Asymm.asymm k key more
      have apart : key ≠ k := fun same => less (same ▸ more)
      rw [upsert,if_neg less,if_neg apart,ih fun entry member => above entry (List.mem_cons_of_mem _ member)]
      rfl

theorem find_upsert (key : κ) (make : Option β → β) (new : β) (always : ∀ old, make old = new) (m : List (κ × β)) (k : κ) :
    find k (upsert key make m) = if k = key then some new else find k m := by
  induction m with
  | nil => simp [upsert,find,always]
  | cons first rest ih =>
      obtain ⟨first,v⟩ := first
      unfold upsert
      split
      · simp [find,always]
      · split
        · rename_i same
          subst same
          by_cases here : k = key <;> simp [find,here,always]
        · rename_i apart
          by_cases here : k = first
          · have other : k ≠ key := fun same => apart (same ▸ here)
            simp [find,here,here ▸ other]
          · simp [find,here,ih]

theorem find_upsert_self [Std.Irrefl (α := κ) (· < ·)] [Std.Asymm (α := κ) (· < ·)] (key : κ) (make : Option β → β) {m : List (κ × β)}
    (ordered : m.Pairwise fun a b => a.1 < b.1) : find key (upsert key make m) = some (make (find key m)) := by
  induction m with
  | nil => simp [upsert,find]
  | cons first rest ih =>
      obtain ⟨k,v⟩ := first
      obtain ⟨least,tail⟩ := List.pairwise_cons.mp ordered
      unfold upsert
      split
      · rename_i below
        have apart : key ≠ k := fun same => Std.Irrefl.irrefl k (same ▸ below)
        have absent : find key rest = none := by
          cases found : find key rest with
          | none => rfl
          | some w => exact absurd (least _ ((mem_iff_find tail key w).mpr found)) (Std.Asymm.asymm key k below)
        simp [find,apart,absent]
      · split
        · rename_i same
          simp [find,same]
        · rename_i apart
          simp [find,apart,ih tail]

-- A key the map does not have yet gets an entry of its own.
theorem upsert_perm (key : κ) (make : Option β → β) {m : List (κ × β)} (new : ∀ v, (key,v) ∉ m) :
    (upsert key make m).Perm ((key,make none) :: m) := by
  induction m with
  | nil => exact .refl _
  | cons first rest ih =>
      obtain ⟨k,v⟩ := first
      unfold upsert
      split
      · exact .refl _
      · have apart : key ≠ k := fun same => new v (by rw [same]; exact List.mem_cons_self)
        rw [if_neg apart]
        exact ((ih fun w later => new w (List.mem_cons_of_mem _ later)).cons _).trans (.swap ..)

end GameServer.OrderedMap
