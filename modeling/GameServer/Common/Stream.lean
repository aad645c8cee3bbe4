import GameServer.Library.Bytes

namespace GameServer.Common
open Bytes

-- size_t, and the most bytes a std::vector<UInt8> holds.
def wrap64 (n : Int) : Nat := (n % 2^64).toNat
def maxSize : Nat := 2^63-1

-- What an extraction puts into its target, the ranges it copies from the buffer
-- (offset, length) and where it leaves the cursor.
structure Taken (α : Type) where
  value : α
  copies : List (Nat × Nat)
  pos : Nat

-- read() of Stream and of BinaryReader.
def readAt (buf : List UInt8) (pos len : Nat) : Taken (List UInt8) :=
  let len := if wrap64 (pos+len) > buf.length then wrap64 (buf.length-pos) else len
  if len = 0 then ⟨[],[],pos⟩
  else ⟨(buf.drop pos).take len,[(pos,len)],wrap64 (pos+len)⟩

-- A memcpy over a variable: what is not copied keeps what was there.
def overlay (junk : Nat → UInt8) (width : Nat) (copied : List UInt8) : List UInt8 :=
  copied ++ window junk copied.length (width-copied.length)

-- operator>>(T&) of both.
def wordAt (junk : Nat → UInt8) (buf : List UInt8) (pos width : Nat) : Taken Nat :=
  let r := readAt buf pos width
  ⟨ofBytes (overlay junk width r.value),r.copies,r.pos⟩

structure Stream where
  _pos : Nat
  _buf : List UInt8
  deriving DecidableEq, Repr

namespace Stream

def empty : Stream := ⟨0,[]⟩
def init (st : Stream) (cmd magic : UInt8) : Stream := {st with _buf := [0,0,magic,cmd]}
def size (st : Stream) : Nat := st._buf.length
def left (st : Stream) : Nat := wrap64 (st.size-st._pos)
def reset (st : Stream) : Stream := {st with _pos := 0}
def clear (st : Stream) : Stream := reset {st with _buf := []}

def pop_front (st : Stream) (n : Nat) : Stream :=
  {st with _buf := if n ≥ st.size then [] else st._buf.drop n}

-- `none`: erase() of a range that is none.
def remove (st : Stream) (s n : Nat) : Option Stream :=
  if s ≥ st.size then some st
  else
    let n := if wrap64 (s+n) > st.size then st.size-s else n
    if s+n ≤ st.size then some {st with _buf := st._buf.take s ++ st._buf.drop (s+n)} else none

-- `none`: the vector throws and stays as it is.
def append (st : Stream) (bytes : List UInt8) : Option Stream :=
  if st.size+bytes.length ≤ maxSize then some {st with _buf := st._buf ++ bytes} else none

-- The new size is a size_t and wraps.
def append_zero (st : Stream) (len : Nat) : Option Stream :=
  if len > 0 then
    let n := wrap64 (st.size+len)
    if n ≤ maxSize then some {st with _buf := st._buf.take n ++ List.replicate (n-st.size) 0} else none
  else some st

def prepend (st : Stream) (bytes : List UInt8) : Option Stream :=
  if st.size+bytes.length ≤ maxSize then some {st with _buf := bytes ++ st._buf} else none

def advance (st : Stream) (n : UInt32) : Stream :=
  {st with _pos := if wrap64 (st._pos+n.toNat) > st.size then st.size else wrap64 (st._pos+n.toNat)}

def retreat (st : Stream) (n : UInt32) : Stream :=
  {st with _pos := if st._pos < n.toNat then 0 else st._pos-n.toNat}

def read (st : Stream) (len : Nat) : Taken (List UInt8) := readAt st._buf st._pos len

-- operator>>(std::string&)
def string (junk : Nat → UInt8) (st : Stream) : Taken (List UInt8) :=
  let l := wordAt junk st._buf st._pos 2
  let lft := {st with _pos := l.pos}.left % 2^32
  let n := if l.value > lft then lft else l.value
  ⟨(st._buf.drop l.pos).take n,l.copies ++ [(l.pos,n)],wrap64 (l.pos+n)⟩

-- operator<<
def word (st : Stream) (width n : Nat) : Option Stream := st.append (toBytes width n)

def putString (st : Stream) (v : List UInt8) : Option Stream := (st.word 2 v.length).bind (·.append v)

def strlen (v : List UInt8) : Nat := (v.takeWhile (· ≠ 0)).length

def putChars (st : Stream) : Option (List UInt8) → Option Stream
  | none => st.word 2 0
  | some v =>
    let len := strlen v % 2^16
    (st.word 2 len).bind (·.append (v.take len))

def putVector (st : Stream) (width : Nat) (v : List Nat) : Option Stream :=
  let n := v.length % 2^32
  (st.word 4 n).bind (·.append ((v.take n).flatMap (toBytes width)))

-- data<UInt16>() is the front of the buffer, or a static where that is too short.
def eos (st : Stream) : Stream :=
  if 2 > st.size then st else {st with _buf := toBytes 2 (wrap64 (st.size-4)) ++ st._buf.drop 2}

end Stream

structure BinaryReader where
  _pos : Nat
  _buf : List UInt8
  deriving DecidableEq, Repr

namespace BinaryReader

def left (r : BinaryReader) : Nat := wrap64 (r._buf.length-r._pos)

def string (junk : Nat → UInt8) (r : BinaryReader) : Taken (List UInt8) :=
  let l := wordAt junk r._buf r._pos 2
  let lft := {r with _pos := l.pos}.left % 2^32
  let n := if l.value > lft then lft else l.value
  if n > 0 then ⟨(r._buf.drop l.pos).take n,l.copies ++ [(l.pos,n)],wrap64 (l.pos+n)⟩
  else ⟨[],l.copies,l.pos⟩

end BinaryReader

end GameServer.Common
