import Mathlib.Algebra.Group.Nat.Defs
import Mathlib.Algebra.Ring.Int.Defs
import Mathlib.Data.List.Basic

namespace GameServer.Common.Random

-- Core/Common/Random.cpp. None where the source reads or writes outside of the
-- buffer or a signed number overflows.

def TYPE_0 : Nat := 0
def TYPE_1 : Nat := 1
def TYPE_2 : Nat := 2
def TYPE_3 : Nat := 3
def TYPE_4 : Nat := 4
def BREAK_0 : Int := 8
def BREAK_1 : Int := 32
def BREAK_2 : Int := 64
def BREAK_3 : Int := 128
def BREAK_4 : Int := 256
def DEG_0 : Nat := 0
def SEP_0 : Nat := 0
def DEG_1 : Nat := 7
def SEP_1 : Nat := 3
def DEG_2 : Nat := 15
def SEP_2 : Nat := 1
def DEG_3 : Nat := 31
def SEP_3 : Nat := 3
def DEG_4 : Nat := 63
def SEP_4 : Nat := 1
def MAX_TYPES : Nat := 5
def NSHUFF : Nat := 50

-- The words of the buffer behind its first one are the state; the pointers into them are offsets.
structure Generator where
  randType : Nat
  randDeg : Nat
  randSep : Nat
  intArgState : UInt32
  state : List UInt32
  fptr : Nat
  rptr : Nat
  deriving DecidableEq, Repr

def int32 (x : Int) : Option Int := if -2^31 ≤ x ∧ x < 2^31 then some x else none

-- An unsigned word as the signed parameter it is passed to.
def signed (x : UInt32) : Int := if x.toNat < 2^31 then x.toNat else x.toNat - 2^32

def goodRand (x : Int) : Option UInt32 := do
  let x := if x = 0 then 123459876 else x
  let hi := x.tdiv 127773
  let lo := x.tmod 127773
  let left ← int32 (16807*lo)
  let right ← int32 (2836*hi)
  let x ← int32 (left - right)
  let x ← if x < 0 then int32 (x + 0x7FFFFFFF) else some x
  return UInt32.ofInt x

def store (state : List UInt32) (i : Nat) (x : UInt32) : Option (List UInt32) :=
  if i < state.length then some (state.set i x) else none

def next (r : Generator) : Option (UInt32 × Generator) :=
  if r.randType = TYPE_0 then do
    let i ← r.state[0]?
    let i ← goodRand (signed i)
    let i := i &&& 0x7FFFFFFF
    let state ← store r.state 0 i
    return (i,{r with state := state})
  else do
    let f ← r.state[r.fptr]?
    let b ← r.state[r.rptr]?
    let state ← store r.state r.fptr (f + b)
    let i := ((f + b) >>> 1) &&& 0x7FFFFFFF
    let (fptr,rptr) :=
      if r.fptr+1 ≥ r.randDeg then (0,r.rptr+1)
      else if r.rptr+1 ≥ r.randDeg then (r.fptr+1,0)
      else (r.fptr+1,r.rptr+1)
    return (i,{r with state := state, fptr := fptr, rptr := rptr})

-- for (i = 0; i < lim; i++) next();
def cycle : Nat → Generator → Option Generator
  | 0,r => some r
  | lim+1,r => do
    let (_,r) ← next r
    cycle lim r

-- The words from the second on, each from the one before.
def fill (state : List UInt32) : List Nat → Option (List UInt32)
  | [] => some state
  | i :: rest => do
    let before ← state[i-1]?
    let x ← goodRand (signed before)
    let state ← store state i x
    fill state rest

def seed (r : Generator) (x : UInt32) : Option Generator := do
  let state ← store r.state 0 x
  if r.randType = TYPE_0 then cycle NSHUFF {r with state := state}
  else
    let state ← fill state (List.range' 1 (r.randDeg-1))
    cycle (10*r.randDeg) {r with state := state, fptr := r.randSep, rptr := 0}

-- seed() from the random device: the bytes it read over the state, whose pointers stay.
def seedDevice (r : Generator) (words : List UInt32) : Option Generator :=
  let len := if r.randType = TYPE_0 then 1 else r.randDeg
  if len ≤ r.state.length then some {r with state := words.take len ++ r.state.drop (words.take len).length} else none

-- The type, degree and separation the size of the state buys.
def kind (n : Int) : Nat × Nat × Nat :=
  if n < BREAK_1 then (TYPE_0,DEG_0,SEP_0)
  else if n < BREAK_2 then (TYPE_1,DEG_1,SEP_1)
  else if n < BREAK_3 then (TYPE_2,DEG_2,SEP_2)
  else if n < BREAK_4 then (TYPE_3,DEG_3,SEP_3)
  else (TYPE_4,DEG_4,SEP_4)

-- The words of the buffer are what they are; below eight bytes nothing is set up.
def initState (s : UInt32) (argState : List UInt32) (n : Int) : Option Generator :=
  if n < BREAK_0 then none
  else do
    let (randType,randDeg,randSep) := kind n
    let intArgState ← argState[0]?
    let r ← seed {randType, randDeg, randSep, intArgState, state := argState.drop 1, fptr := 0, rptr := 0} s
    if randType = TYPE_0 then return {r with intArgState := UInt32.ofNat randType}
    else return {r with intArgState := UInt32.ofNat (MAX_TYPES*r.rptr + randType)}

inductive Call where
  | next
  | seed (x : UInt32)
  | device (words : List UInt32)

-- What the calls in turn return.
def run (r : Generator) : List Call → Option (List UInt32 × Generator)
  | [] => some ([],r)
  | .next :: rest => do
    let (i,r) ← next r
    let (told,r) ← run r rest
    return (i :: told,r)
  | .seed x :: rest => do
    let r ← seed r x
    run r rest
  | .device words :: rest => do
    let r ← seedDevice r words
    run r rest

end GameServer.Common.Random
