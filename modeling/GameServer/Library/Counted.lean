import GameServer.Library.Bytes

namespace GameServer.Counted
open Bytes

variable {α β : Type _} {read : List UInt8 → Option (β × List UInt8)} {write : α → List UInt8} {view : α → β}

-- A reader that takes n records, one behind the other.
def follow (read : List UInt8 → Option (β × List UInt8)) : Nat → List UInt8 → Option (List β × List UInt8)
  | 0,bytes => some ([],bytes)
  | n+1,bytes =>
    match read bytes with
    | none => none
    | some (value,rest) => (follow read n rest).map fun (values,rest) => (value :: values,rest)

-- A reader of a sequence behind a byte that counts it.
def counted (read : List UInt8 → Option (β × List UInt8)) : List UInt8 → Option (List β × List UInt8)
  | [] => none
  | count :: body => follow read count.toNat body

-- The reader takes what was written of a record and nothing behind it.
def Reads (read : List UInt8 → Option (β × List UInt8)) (write : α → List UInt8) (view : α → β) (a : α) : Prop :=
  ∀ rest, read (write a ++ rest) = some (view a,rest)

theorem follow_length (followed : follow read n bytes = some (values,rest)) : values.length = n := by
  induction n generalizing bytes values rest with
  | zero =>
      cases Option.some.inj followed
      rfl
  | succ n ih =>
      unfold follow at followed
      split at followed
      · cases followed
      · rename_i value after _
        cases later : follow read n after with
        | none => simp [later] at followed
        | some pair =>
            simp only [later,Option.map_some,Option.some.injEq,Prod.mk.injEq] at followed
            rw [←followed.1,List.length_cons,ih later]

theorem follow_written {l : List α} (reads : ∀ a ∈ l, Reads read write view a) (rest : List UInt8) :
    follow read l.length (l.flatMap write ++ rest) = some (l.map view,rest) := by
  induction l with
  | nil => rfl
  | cons a l ih =>
      have first := reads a List.mem_cons_self (l.flatMap write ++ rest)
      have later := ih fun b member => reads b (List.mem_cons_of_mem _ member)
      simp [follow,first,later]

theorem byte_count (n : Nat) : (UInt8.ofNat n).toNat = n ↔ n < 256 := by
  rw [UInt8.toNat_ofNat']
  omega

theorem counted_iff {l : List α} (reads : ∀ a ∈ l, Reads read write view a) (rest : List UInt8) :
    counted read (UInt8.ofNat l.length :: (l.flatMap write ++ rest)) = some (l.map view,rest) ↔ l.length < 256 := by
  constructor
  · intro followed
    have length := follow_length followed
    rw [List.length_map] at length
    exact (byte_count _).mp length.symm
  · intro small
    rw [counted,(byte_count _).mpr small]
    exact follow_written reads rest

-- The byte in front is the number of the records behind it, and a reader that
-- goes by it reads them and comes to the end.
def Exact (read : List UInt8 → Option (β × List UInt8)) (bytes : List UInt8) (values : List β) : Prop :=
  ∃ count body, bytes = count :: body ∧ count.toNat = values.length ∧ counted read bytes = some (values,[])

theorem exact_iff {l : List α} (reads : ∀ a ∈ l, Reads read write view a) :
    Exact read (UInt8.ofNat l.length :: l.flatMap write) (l.map view) ↔ l.length < 256 := by
  have whole := counted_iff reads []
  rw [List.append_nil] at whole
  constructor
  · intro ⟨_,_,_,_,followed⟩
    exact whole.mp followed
  · intro small
    refine ⟨_,_,rfl,?_,whole.mpr small⟩
    rw [List.length_map]
    exact (byte_count _).mpr small

section words

def takeWord (width : Nat) (bytes : List UInt8) : Option (Nat × List UInt8) :=
  if width ≤ bytes.length then some (ofBytes (bytes.take width),bytes.drop width) else none

-- A text behind the two bytes of its length.
def takeChars (bytes : List UInt8) : Option (List UInt8 × List UInt8) :=
  match takeWord 2 bytes with
  | none => none
  | some (n,rest) => if n ≤ rest.length then some (rest.take n,rest.drop n) else none

theorem takeWord_put (width n : Nat) (rest : List UInt8) : takeWord width (toBytes width n ++ rest) = some (n % 256 ^ width,rest) := by
  have size := toBytes_length width n
  rw [takeWord,if_pos (by simp),List.take_left' size,List.drop_left' size,ofBytes_toBytes]

theorem takeChars_put (chars : List UInt8) (short : chars.length < 2 ^ 16) (rest : List UInt8) :
    takeChars (toBytes 2 chars.length ++ (chars ++ rest)) = some (chars,rest) := by
  have number : chars.length % 65536 = chars.length := Nat.mod_eq_of_lt short
  simp [takeChars,takeWord_put,number]

end words

end GameServer.Counted
