import Mathlib.Data.List.Basic

namespace GameServer.FeedbackRing

variable {α : Type _}

-- A ring of so many cells whose next turn is at the front: it holds a stretch of a
-- sequence, the oldest entry at the front and the others behind it in turn.
structure Unrolled (deg : Nat) (cells : List α) (front : Nat) (r : Nat → α) (n : Nat) : Prop where
  room : deg ≤ cells.length
  inside : front < deg
  window : ∀ j < deg, cells[(front+j) % deg]? = some (r (n+j))

variable {deg : Nat} {cells : List α} {front n : Nat} {r : Nat → α}

theorem unrolled_front (unrolled : Unrolled deg cells front r n) : cells[front]? = some (r n) := by
  have first := unrolled.window 0 (Nat.lt_of_le_of_lt (Nat.zero_le _) unrolled.inside)
  rwa [Nat.add_zero,Nat.mod_eq_of_lt unrolled.inside] at first

-- A turn: the cell at the front takes the entry that comes after the stretch.
theorem unrolled_turn (unrolled : Unrolled deg cells front r n) :
    Unrolled deg (cells.set front (r (n+deg))) ((front+1) % deg) r (n+1) := by
  have inside := unrolled.inside
  have room := unrolled.room
  refine ⟨by rwa [List.length_set],Nat.mod_lt _ (by omega),?_⟩
  intro j small
  rw [Nat.mod_add_mod]
  by_cases last : j+1 = deg
  · have here : (front+1+j) % deg = front := by
      rw [show front+1+j = front + deg by omega,Nat.add_mod_right]
      exact Nat.mod_eq_of_lt inside
    rw [here,List.getElem?_set_self (by omega),show n+1+j = n+deg by omega]
  · have apart : front ≠ (front+1+j) % deg := by
      intro same
      have wraps : ¬front+1+j < deg := by
        intro low
        rw [Nat.mod_eq_of_lt low] at same
        omega
      rw [Nat.mod_eq_sub_mod (by omega),Nat.mod_eq_of_lt (by omega)] at same
      omega
    rw [List.getElem?_set_ne apart,show front+1+j = front+(j+1) by omega,show n+1+j = n+(j+1) by omega]
    exact unrolled.window (j+1) (by omega)

-- Read from a place on, the cells are a stretch of the sequence that begins with them and
-- goes on with those before the place again.
theorem unrolled_start {gap : Nat} (room : deg ≤ cells.length) (inside : gap < deg)
    (first : ∀ i < deg, cells[i]? = some (r i)) (again : ∀ i < gap, r (deg+i) = r i) : Unrolled deg cells gap r gap := by
  refine ⟨room,inside,?_⟩
  intro j small
  by_cases low : gap+j < deg
  · rw [Nat.mod_eq_of_lt low]
    exact first _ low
  · rw [Nat.mod_eq_sub_mod (by omega),Nat.mod_eq_of_lt (by omega),first _ (by omega),←again _ (by omega)]
    congr 2
    omega

end GameServer.FeedbackRing
