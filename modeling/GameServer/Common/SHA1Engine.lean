import Mathlib.Data.List.Basic

namespace GameServer.Common.SHA1Engine

-- Core/Common/SHA1Engine.cpp, on a little-endian machine.

def BLOCK_SIZE : Nat := 64
def DIGEST_SIZE : Nat := 20

-- Five words: what transform works on and what it adds to `_context.digest`.
structure Words where
  A : UInt32
  B : UInt32
  C : UInt32
  D : UInt32
  E : UInt32
  deriving DecidableEq, Repr

-- `_context`; the sixteen words of the data are held as the bytes they lie in.
structure Context where
  digest : Words
  countLo : UInt32
  countHi : UInt32
  data : List UInt8
  slop : Nat
  deriving DecidableEq, Repr

-- A word of the data as it is read and written through a UInt32 pointer.
def word (data : List UInt8) (i : Nat) : UInt32 :=
  (data.getD (4*i) 0).toUInt32 ||| ((data.getD (4*i+1) 0).toUInt32 <<< 8) ||| ((data.getD (4*i+2) 0).toUInt32 <<< 16) |||
    ((data.getD (4*i+3) 0).toUInt32 <<< 24)

def setWord (data : List UInt8) (i : Nat) (value : UInt32) : List UInt8 :=
  (((data.set (4*i) value.toUInt8).set (4*i+1) (value >>> 8).toUInt8).set (4*i+2) (value >>> 16).toUInt8).set (4*i+3)
    (value >>> 24).toUInt8

def reversed (value : UInt32) : UInt32 :=
  let value := (value <<< 16) ||| (value >>> 16)
  ((value &&& 0xFF00FF00) >>> 8) ||| ((value &&& 0x00FF00FF) <<< 8)

def byteReverse (buffer : List UInt8) (byteCount : Nat) : List UInt8 :=
  (List.range (byteCount/4)).foldl (fun buffer count => setWord buffer count (reversed (word buffer count))) buffer

def f1 (x y z : UInt32) : UInt32 := (x &&& y) ||| (~~~x &&& z)
def f2 (x y z : UInt32) : UInt32 := x ^^^ y ^^^ z
def f3 (x y z : UInt32) : UInt32 := (x &&& y) ||| (x &&& z) ||| (y &&& z)
def f4 (x y z : UInt32) : UInt32 := x ^^^ y ^^^ z

def K1 : UInt32 := 0x5A827999
def K2 : UInt32 := 0x6ED9EBA1
def K3 : UInt32 := 0x8F1BBCDC
def K4 : UInt32 := 0xCA62C1D6

def S (n X : UInt32) : UInt32 := (X <<< n) ||| (X >>> (32 - n))

-- The words are put behind each other in order, so W[count] is the next one.
def expand (W : List UInt32) (count : Nat) : List UInt32 :=
  W ++ [S 1 (W.getD (count-3) 0 ^^^ W.getD (count-8) 0 ^^^ W.getD (count-14) 0 ^^^ W.getD (count-16) 0)]

-- subRound1 to subRound4 differ in the function and the constant.
def subRound (f : UInt32 → UInt32 → UInt32 → UInt32) (K : UInt32) (W : List UInt32) (r : Words) (count : Nat) : Words :=
  let temp := S 5 r.A + f r.B r.C r.D + r.E + W.getD count 0 + K
  {A := temp, B := r.A, C := S 30 r.B, D := r.C, E := r.D}

def transform (context : Context) : Context :=
  let W := (List.range' 16 64).foldl expand ((List.range 16).map (word context.data))
  let r := (List.range' 0 20).foldl (subRound f1 K1 W) context.digest
  let r := (List.range' 20 20).foldl (subRound f2 K2 W) r
  let r := (List.range' 40 20).foldl (subRound f3 K3 W) r
  let r := (List.range' 60 20).foldl (subRound f4 K4 W) r
  let H := context.digest
  {context with digest := {A := H.A + r.A, B := H.B + r.B, C := H.C + r.C, D := H.D + r.D, E := H.E + r.E}}

def reset : Context where
  digest := {A := 0x67452301, B := 0xEFCDAB89, C := 0x98BADCFE, D := 0x10325476, E := 0xC3D2E1F0}
  countLo := 0
  countHi := 0
  data := List.replicate BLOCK_SIZE 0
  slop := 0

-- One turn of the loop of updateImpl.
def put (context : Context) (byte : UInt8) : Context :=
  let context := {context with data := context.data.set context.slop byte, slop := context.slop+1}
  if context.slop = BLOCK_SIZE then
    {transform {context with data := byteReverse context.data BLOCK_SIZE} with slop := 0}
  else context

-- The count in bits, a word at a time.
def counted (context : Context) (count : UInt32) : Context :=
  let carry := if context.countLo + (count <<< 3) < context.countLo then context.countHi+1 else context.countHi
  {context with countLo := context.countLo + (count <<< 3), countHi := carry + (count >>> 29)}

def updateImpl (context : Context) (buffer : List UInt8) (count : UInt32) : Context :=
  (buffer.take count.toNat).foldl put (counted context count)

-- memset on the bytes of the data.
def zeroed (data : List UInt8) (first last : Nat) : List UInt8 :=
  (List.range' first (last-first)).foldl (fun data i => data.set i 0) data

-- The digest and the engine behind it; the last byteReverse of the data is left out, reset clears them.
def digest (context : Context) : List UInt8 × Context :=
  let lowBitcount := context.countLo
  let highBitcount := context.countHi
  let count := ((context.countLo >>> 3) &&& 0x3F).toNat
  let context := {context with data := context.data.set count 0x80}
  let count := count+1
  let context :=
    if count > 56 then
      let context := transform {context with data := byteReverse (zeroed context.data count 64) BLOCK_SIZE}
      {context with data := zeroed context.data 0 56}
    else {context with data := zeroed context.data count 56}
  let data := setWord (setWord (byteReverse context.data BLOCK_SIZE) 14 highBitcount) 15 lowBitcount
  let words := (transform {context with data := data}).digest
  let hash := (List.range DIGEST_SIZE).map fun count =>
    ([words.A,words.B,words.C,words.D,words.E].getD (count >>> 2) 0 >>> UInt32.ofNat (8*(3-(count &&& 0x3)))).toUInt8 &&& 0xff
  (hash,reset)

-- The calls a user of the engine makes; the count does not go past the buffer.
inductive Call where
  | data (buffer : List UInt8) (length : UInt32) (inside : length.toNat ≤ buffer.length)
  | char (byte : UInt8)
  | string (bytes : List UInt8)
  | reset
  | digest

-- DigestEngine::update in its three forms; the string's size is cast to an unsigned.
def call (context : Context) : Call → Context
  | .data buffer length _ => updateImpl context buffer length
  | .char byte => updateImpl context [byte] 1
  | .string bytes => updateImpl context bytes (UInt32.ofNat bytes.length)
  | .reset => reset
  | .digest => (digest context).2

end GameServer.Common.SHA1Engine
