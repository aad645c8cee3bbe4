import GameServer.Common.Framing
import GameServer.Library.History

namespace GameServer.Common.Cursor
open Bytes History

-- The operations of a Stream. What is extracted into a variable keeps there what
-- was not read, so a length read from too few bytes is anything. A vector of bytes is read
-- as so many bytes; there is no extraction of any other vector, since the one that is
-- declared compiles for none.
inductive StreamOp where
  | init (cmd magic : UInt8)
  | append (bytes : List UInt8)
  | append_zero (len : UInt64)
  | prepend (bytes : List UInt8)
  | read (len : UInt64)
  | extract (width : Fin (2^63))
  | extractString (junk : Nat → UInt8)
  | pop_front (n : UInt64)
  | remove (s n : UInt64)
  | clear
  | reset
  | advance (n : UInt32)
  | retreat (n : UInt32)
  | eos

def taken {α : Type} (st : Stream) (r : Taken α) : Option (List (Nat × Nat) × Stream) :=
  some (r.copies,{st with _pos := r.pos})

-- It answers the ranges it copies out of the buffer; an insertion that throws leaves the Stream.
def streamStep (st : Stream) : StreamOp → Option (List (Nat × Nat) × Stream)
  | .init cmd magic => some ([],st.init cmd magic)
  | .append bytes => some ([],(st.append bytes).getD st)
  | .append_zero len => some ([],(st.append_zero len.toNat).getD st)
  | .prepend bytes => some ([],(st.prepend bytes).getD st)
  | .read len => taken st (st.read len.toNat)
  | .extract width => taken st (st.read width)
  | .extractString junk => taken st (st.string junk)
  | .pop_front n => some ([],st.pop_front n.toNat)
  | .remove s n => (st.remove s.toNat n.toNat).map ([],·)
  | .clear => some ([],st.clear)
  | .reset => some ([],st.reset)
  | .advance n => some ([],st.advance n)
  | .retreat n => some ([],st.retreat n)
  | .eos => some ([],st.eos)

-- The cursor stays in the buffer, left() is what is left, and nothing is copied from beyond.
def Confined (st : Stream) (_ : StreamOp) (copies : List (Nat × Nat)) (next : Stream) : Prop :=
  next._pos ≤ next.size ∧ (next.left : Int) = (next.size : Int)-(next._pos : Int) ∧
    ∀ c ∈ copies, c.1+c.2 ≤ st.size

-- What shrinks or restarts the buffer has to leave it as long as the cursor is
-- far, and a size that is added to another must not wrap.
def CursorFits (st : Stream) : StreamOp → Prop
  | .init _ _ => st._pos ≤ 4
  | .append_zero len => st._pos ≤ wrap64 (st.size+len.toNat)
  | .read len => st._pos+len.toNat < 2^64
  | .pop_front n => st._pos ≤ st.size-n.toNat
  | .remove s n => s.toNat < st.size → s.toNat+n.toNat < 2^64 ∧ st._pos ≤ st.size-min n.toNat (st.size-s.toNat)
  | _ => True

instance (st : Stream) : (op : StreamOp) → Decidable (CursorFits st op)
  | .init _ _ | .append_zero _ | .pop_front _ => Nat.decLe ..
  | .read _ => Nat.decLt ..
  | .remove s n => inferInstanceAs (Decidable (s.toNat < st.size →
    s.toNat+n.toNat < 2^64 ∧ st._pos ≤ st.size-min n.toNat (st.size-s.toNat)))
  | .append _ | .prepend _ | .extract _ | .extractString _ | .clear | .reset | .advance _
  | .retreat _ | .eos => .isTrue trivial

def Valid (st : Stream) : Prop := st._pos ≤ st.size ∧ st.size ≤ maxSize

variable {st next : Stream} {buf : List UInt8} {pos len : Nat}

-- What was taken lies in the buffer and the cursor stays there.
def Inside {α : Type} (size : Nat) (r : Taken α) : Prop := r.pos ≤ size ∧ ∀ c ∈ r.copies, c.1+c.2 ≤ size

theorem top : maxSize < 2^63 := by decide

theorem wrap64_sub (bound : size ≤ maxSize) (inside : pos ≤ size) : wrap64 ((size : Int)-(pos : Int)) = size-pos := by
  have top := top
  unfold wrap64
  omega

theorem wrap64_left (cursor : st._pos ≤ st.size) (bound : st.size ≤ maxSize) :
    (st.left : Int) = (st.size : Int)-(st._pos : Int) := by
  unfold Stream.left
  rw [wrap64_sub bound cursor]
  omega

theorem wrap64_add (pos len : Nat) (bound : pos ≤ maxSize) (small : len < 2^64) :
    wrap64 ((pos : Int)+(len : Int)) = if pos+len < 2^64 then pos+len else pos+len-2^64 := by
  have top := top
  unfold wrap64
  split <;> omega

theorem piece_inside (bound : buf.length ≤ maxSize) (fits : pos+len ≤ buf.length) (value : List UInt8) :
    let r : Taken (List UInt8) := if len = 0 then ⟨[],[],pos⟩ else ⟨value,[(pos,len)],wrap64 (pos+len)⟩
    Inside buf.length r ∧ pos ≤ r.pos := by
  have top := top
  have ahead := wrap64_add pos len (by omega) (by omega)
  rw [if_pos (by omega)] at ahead
  intro r
  by_cases none : len = 0
  · have eq : r = ⟨[],[],pos⟩ := if_pos none
    rw [eq]
    exact ⟨⟨Nat.le_trans (Nat.le_add_right ..) fits,fun _ bare => absurd bare List.not_mem_nil⟩,Nat.le_refl _⟩
  · have eq : r = ⟨value,[(pos,len)],wrap64 (pos+len)⟩ := if_neg none
    rw [eq,ahead]
    refine ⟨⟨fits,?_⟩,Nat.le_add_right ..⟩
    intro c member
    cases List.mem_singleton.mp member
    exact fits

theorem read_inside (len : Nat) (bound : buf.length ≤ maxSize) (inside : pos ≤ buf.length) (short : pos+len < 2^64) :
    Inside buf.length (readAt buf pos len) ∧ pos ≤ (readAt buf pos len).pos := by
  have ahead := wrap64_add _ _ (Nat.le_trans inside bound) (Nat.lt_of_le_of_lt (Nat.le_add_left len pos) short)
  rw [if_pos short] at ahead
  unfold readAt
  rw [ahead,wrap64_sub bound inside]
  by_cases cut : pos+len > buf.length
  · rw [if_pos cut]
    exact piece_inside bound (by omega) _
  · rw [if_neg cut]
    exact piece_inside bound (Nat.le_of_not_lt cut) _

-- A length that wraps around is not cut and reaches beyond every buffer.
theorem read_escapes (bound : buf.length ≤ maxSize) (inside : pos ≤ buf.length) (size : len < 2^64)
    (long : ¬ pos+len < 2^64) : ¬ Inside buf.length (readAt buf pos len) := by
  have top := top
  have ahead := wrap64_add _ _ (Nat.le_trans inside bound) size
  rw [if_neg long] at ahead
  have small : ¬ pos+len-2^64 > buf.length := by omega
  have some : ¬ len = 0 := by omega
  intro claim
  unfold readAt at claim
  dsimp only at claim
  rw [ahead,if_neg small,if_neg some] at claim
  have reach := claim.2 (pos,len) (List.mem_singleton.mpr rfl)
  omega

theorem cut_le (l left : Nat) : (if l > left % 2^32 then left % 2^32 else l) ≤ left := by
  split <;> omega

theorem string_inside (valid : Valid st) (junk : Nat → UInt8) : Inside st.size (st.string junk) := by
  obtain ⟨inside,bound⟩ := valid
  have top := top
  obtain ⟨⟨after,copied⟩,_⟩ := read_inside 2 bound inside (by omega)
  have left : Stream.left ⟨(wordAt junk st._buf st._pos 2).pos,st._buf⟩ = st.size-(wordAt junk st._buf st._pos 2).pos :=
    wrap64_sub bound after
  have kept : (wordAt junk st._buf st._pos 2).pos ≤ st.size := after
  unfold Stream.string
  dsimp only
  rw [left]
  have less := cut_le (wordAt junk st._buf st._pos 2).value (st.size-(wordAt junk st._buf st._pos 2).pos)
  generalize cut : (if (wordAt junk st._buf st._pos 2).value > _ then _ else _) = n at less ⊢
  have ahead := wrap64_add (wordAt junk st._buf st._pos 2).pos n (by omega) (by omega)
  rw [if_pos (by omega)] at ahead
  refine ⟨?_,?_⟩
  · dsimp only
    rw [ahead]
    omega
  · intro c member
    rcases List.mem_append.mp member with first | second
    · exact copied c first
    · cases List.mem_singleton.mp second
      dsimp only
      omega

theorem inside_taken {α : Type} {r : Taken α} (valid : Valid st) (inside : Inside st.size r) :
    ∃ copies next, taken st r = some (copies,next) ∧ Confined st op copies next ∧ Valid next :=
  ⟨r.copies,{st with _pos := r.pos},rfl,⟨inside.1,wrap64_left inside.1 valid.2,inside.2⟩,inside.1,valid.2⟩

theorem confined_quiet (op : StreamOp) (cursor : next._pos ≤ next.size) (bound : next.size ≤ maxSize) :
    ∃ copies after, some (([] : List (Nat × Nat)),next) = some (copies,after) ∧ Confined st op copies after ∧ Valid after :=
  ⟨[],next,rfl,⟨cursor,wrap64_left cursor bound,fun _ none => absurd none List.not_mem_nil⟩,cursor,bound⟩

theorem pop_front_size (st : Stream) (n : Nat) : (st.pop_front n).size = st.size-n := by
  unfold Stream.pop_front Stream.size
  split
  · rename_i all
    exact (Nat.sub_eq_zero_of_le all).symm
  · exact List.length_drop

-- The operations that rebuild the buffer leave the cursor where it is.
theorem append_zero_keeps (valid : Valid st) (len : UInt64) (eq : (st.append_zero len.toNat).getD st = next) :
    next._pos = st._pos ∧ next.size ≤ maxSize ∧ (st._pos ≤ next.size ↔ st._pos ≤ wrap64 (st.size+len.toNat)) := by
  have top := top
  obtain ⟨cursor,bound⟩ := valid
  have ahead := wrap64_add _ _ bound len.toNat_lt
  subst eq
  unfold Stream.append_zero
  dsimp only
  rw [ahead]
  split
  · generalize sum : (if st.size+len.toNat < 2^64 then st.size+len.toNat else st.size+len.toNat-2^64) = n
    split
    · rename_i room
      have size : (st._buf.take n ++ List.replicate (n-st.size) 0).length = n := by
        rw [List.length_append,List.length_take,List.length_replicate]
        unfold Stream.size
        omega
      exact ⟨rfl,Nat.le_trans (Nat.le_of_eq size) room,by rw [Option.getD_some,Stream.size,size]⟩
    · rename_i full
      refine ⟨rfl,bound,?_⟩
      dsimp only [Option.getD_none]
      constructor
      · intro _
        omega
      · intro _
        exact cursor
  · rename_i none
    have zero : len.toNat = 0 := Nat.le_zero.mp (Nat.le_of_not_lt none)
    rw [zero,Nat.add_zero,if_pos (by omega)]
    exact ⟨rfl,bound,Iff.rfl⟩

-- An insertion that throws leaves everything as it is.
theorem grown_keeps (valid : Valid st) {grown : List UInt8} (size : grown.length = st.size+n) :
    ((if st.size+n ≤ maxSize then some {st with _buf := grown} else none).getD st)._pos = st._pos ∧
      Valid ((if st.size+n ≤ maxSize then some {st with _buf := grown} else none).getD st) := by
  obtain ⟨cursor,bound⟩ := valid
  split
  · rename_i room
    refine ⟨rfl,?_,Nat.le_trans (Nat.le_of_eq size) room⟩
    exact Nat.le_trans cursor (Nat.le_trans (Nat.le_add_right ..) (Nat.le_of_eq size.symm))
  · exact ⟨rfl,cursor,bound⟩

theorem append_keeps (valid : Valid st) (bytes : List UInt8) :
    ((st.append bytes).getD st)._pos = st._pos ∧ Valid ((st.append bytes).getD st) :=
  grown_keeps valid List.length_append

theorem prepend_keeps (valid : Valid st) (bytes : List UInt8) :
    ((st.prepend bytes).getD st)._pos = st._pos ∧ Valid ((st.prepend bytes).getD st) :=
  grown_keeps valid (List.length_append.trans (Nat.add_comm ..))

theorem remove_some (bound : st.size ≤ maxSize) {s n : UInt64} (inside : s.toNat < st.size) :
    st.remove s.toNat n.toNat = if s.toNat+n.toNat < 2^64
      then some {st with _buf := st._buf.take s.toNat ++ st._buf.drop (s.toNat+min n.toNat (st.size-s.toNat))}
      else none := by
  have top := top
  have ahead := wrap64_add _ _ (Nat.le_of_lt (Nat.lt_of_lt_of_le inside bound)) n.toNat_lt
  have less := n.toNat_lt
  unfold Stream.remove
  dsimp only
  rw [if_neg (Nat.not_le_of_lt inside),ahead]
  split
  · rename_i short
    split
    · rename_i cut
      rw [if_pos (by omega),Nat.min_eq_right (by omega)]
    · rename_i kept
      rw [if_pos (by omega),Nat.min_eq_left (by omega)]
  · rename_i long
    have kept : ¬ s.toNat+n.toNat-2^64 > st.size := by omega
    rw [if_neg kept,if_neg (by omega)]

theorem remove_size {s n : Nat} (inside : s < st.size) :
    (st._buf.take s ++ st._buf.drop (s+min n (st.size-s))).length = st.size-min n (st.size-s) := by
  rw [List.length_append,List.length_take,List.length_drop]
  unfold Stream.size at *
  omega

theorem eos_size (st : Stream) : st.eos.size = st.size := by
  unfold Stream.eos
  split
  · rfl
  · rename_i two
    exact Framing.header_length _ _ (Nat.le_of_not_lt two)

theorem advance_cursor (st : Stream) (n : UInt32) : (st.advance n)._pos ≤ st.size := by
  unfold Stream.advance
  dsimp only
  split
  · exact Nat.le_refl _
  · rename_i kept
    exact Nat.le_of_not_lt kept

theorem retreat_cursor (cursor : st._pos ≤ st.size) (n : UInt32) : (st.retreat n)._pos ≤ st.size := by
  unfold Stream.retreat
  dsimp only
  split
  · exact Nat.zero_le _
  · exact Nat.le_trans (Nat.sub_le ..) cursor

theorem step_confined (valid : Valid st) (op : StreamOp) (fits : CursorFits st op) :
    ∃ copies next, streamStep st op = some (copies,next) ∧ Confined st op copies next ∧ Valid next := by
  have top := top
  obtain ⟨cursor,bound⟩ := valid
  cases op with
  | init cmd magic => exact confined_quiet _ fits (show 4 ≤ maxSize by decide)
  | append bytes =>
      have kept := append_keeps ⟨cursor,bound⟩ bytes
      exact confined_quiet _ kept.2.1 kept.2.2
  | append_zero len =>
      obtain ⟨kept,room,inside⟩ := append_zero_keeps ⟨cursor,bound⟩ len rfl
      exact confined_quiet _ (kept.symm ▸ inside.mpr fits) room
  | prepend bytes =>
      have kept := prepend_keeps ⟨cursor,bound⟩ bytes
      exact confined_quiet _ kept.2.1 kept.2.2
  | read len => exact inside_taken ⟨cursor,bound⟩ (read_inside _ bound cursor fits).1
  | extract width =>
      have size := width.isLt
      exact inside_taken ⟨cursor,bound⟩ (read_inside _ bound cursor (by omega)).1
  | extractString junk => exact inside_taken ⟨cursor,bound⟩ (string_inside ⟨cursor,bound⟩ junk)
  | pop_front n =>
      have size := pop_front_size st n.toNat
      exact confined_quiet _ (size ▸ fits) (size ▸ Nat.le_trans (Nat.sub_le ..) bound)
  | remove s n =>
      rw [streamStep]
      by_cases inside : s.toNat < st.size
      · obtain ⟨short,before⟩ := fits inside
        have size := remove_size (n := n.toNat) inside
        rw [remove_some bound inside,if_pos short]
        exact confined_quiet _ (Nat.le_trans before (Nat.le_of_eq size.symm))
          (Nat.le_trans (Nat.le_of_eq size) (Nat.le_trans (Nat.sub_le ..) bound))
      · rw [Stream.remove,if_pos (Nat.le_of_not_lt inside)]
        exact confined_quiet _ cursor bound
  | clear => exact confined_quiet _ (Nat.zero_le _) (Nat.zero_le _)
  | reset => exact confined_quiet _ (Nat.zero_le _) bound
  | advance n => exact confined_quiet _ (advance_cursor st n) bound
  | retreat n => exact confined_quiet _ (retreat_cursor cursor n) bound
  | eos =>
      have size := eos_size st
      have kept : st.eos._pos = st._pos := by
        unfold Stream.eos
        split <;> rfl
      exact confined_quiet _ (by omega) (by omega)

theorem confined_fits (valid : Valid st) (op : StreamOp) (moved : streamStep st op = some (copies,next))
    (confined : Confined st op copies next) : CursorFits st op := by
  obtain ⟨cursor,bound⟩ := valid
  obtain ⟨kept,_,inside⟩ := confined
  cases op with
  | init cmd magic =>
      cases moved
      exact kept
  | append_zero len =>
      cases moved
      obtain ⟨pos,_,same⟩ := append_zero_keeps ⟨cursor,bound⟩ len rfl
      exact same.mp (pos ▸ kept)
  | read len =>
      cases moved
      apply Classical.not_not.mp
      intro long
      exact read_escapes bound cursor len.toNat_lt long ⟨kept,inside⟩
  | pop_front n =>
      cases moved
      have size := pop_front_size st n.toNat
      exact Nat.le_trans kept (Nat.le_of_eq size)
  | remove s n =>
      intro before
      rw [streamStep,remove_some bound before] at moved
      split at moved
      · rename_i short
        cases moved
        exact ⟨short,Nat.le_trans kept (Nat.le_of_eq (remove_size before))⟩
      · cases moved
  | _ => trivial

-- The cursor keeps its place over a whole history exactly when every operation
-- that shrinks or restarts the buffer finds it low enough and no size wraps.
theorem cursor_exact (bytes : List UInt8) (bound : bytes.length ≤ maxSize) (history : List StreamOp) :
    Along streamStep Confined ⟨0,bytes⟩ history ↔ Guarded streamStep CursorFits ⟨0,bytes⟩ history := by
  have start : Valid ⟨0,bytes⟩ := ⟨Nat.zero_le _,bound⟩
  exact along_iff_guarded start (fun _ op valid fits => step_confined valid op fits)
    (fun _ op _ _ valid moved confined => confined_fits valid op moved confined)

theorem cursor_exact_read : Along streamStep Confined ⟨0,[1,2,3]⟩ [.read 2,.append [4],.remove 2 5,.reset,.pop_front 1] := by
  apply (cursor_exact [1,2,3] (by decide) _).mpr
  rw [guarded_cons (by rfl),guarded_cons (by rfl),guarded_cons (by rfl),guarded_cons (by rfl),guarded_cons (by rfl)]
  exact ⟨by decide,by decide,by decide,by decide,by decide,trivial⟩

-- Two bytes are read and the front goes: the cursor stands two behind the end.
theorem front_lost : ¬ ∀ bytes history, bytes.length ≤ maxSize → Along streamStep Confined ⟨0,bytes⟩ history := by
  intro claim
  obtain ⟨_,next,moved,_,_,after,popped,confined,_⟩ := claim [1,2] [.read 2,.pop_front 2] (by decide)
  cases moved
  cases popped
  exact absurd confined.1 (by decide)

end GameServer.Common.Cursor
