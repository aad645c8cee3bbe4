import GameServer.Library.Readers

namespace GameServer.Common.TInf
open Readers

-- TINF_TREE
structure Tree where
  table : Vector Nat 16
  trans : Vector Nat 288
  deriving DecidableEq

-- What TINF_DATA holds of the source: the bytes from *source on and the bits of
-- the byte before them that are not read yet.
structure Source where
  source : List UInt8
  tag : Nat
  bitcount : Nat
  small : bitcount < 8

-- TINF_DATA. Past what has been written, dest is the caller's memory.
structure Data extends Source where
  dest : List UInt8
  destLen : UInt32
  ltree : Tree
  dtree : Tree

-- The static tables: extra bits and bases of lengths and distances, fixed trees.
structure Tables where
  lengthBits : List Nat
  lengthBase : List Nat
  distBits : List Nat
  distBase : List Nat
  sltree : Tree
  sdtree : Tree

def TINF_OK : Int := 0

def TINF_DATA_ERROR : Int := -3

abbrev Read (α : Type) := Reader Source α

def clcidx : List Nat := [16,17,18,0,8,7,9,6,10,5,11,4,12,3,13,2,14,1,15]

def buildBits (delta : Nat) : List Nat := List.replicate delta 0 ++ (List.range (30-delta)).map (· / delta)

def buildBase : List Nat → Nat → List Nat
  | [],_ => []
  | bits :: rest,sum => sum :: buildBase rest (sum + 2^bits)

def emptyTree : Tree := ⟨Vector.replicate 16 0,Vector.replicate 288 0⟩

-- for(i = 0; i < n; ++i) trans[at + i] = first + i
def fill (trans : Vector Nat 288) (place first n : Nat) : Vector Nat 288 :=
  (List.range n).foldl (fun trans i => trans.setIfInBounds (place+i) (first+i)) trans

-- Both are global: what the loops leave alone is 0.
def buildFixedTrees : Tree × Tree :=
  (⟨((Vector.replicate 16 0).set 7 24 |>.set 8 152 |>.set 9 112),
    fill (fill (fill (fill (Vector.replicate 288 0) 0 256 24) 24 0 144) (24+144) 280 8) (24+144+8) 144 112⟩,
   ⟨(Vector.replicate 16 0).set 5 32,fill (Vector.replicate 288 0) 0 0 32⟩)

def init : Tables where
  lengthBits := (buildBits 4).set 28 0
  lengthBase := (buildBase (buildBits 4) 3).set 28 258
  distBits := buildBits 2
  distBase := buildBase (buildBits 2) 1
  sltree := buildFixedTrees.1
  sdtree := buildFixedTrees.2

-- table[l]++, outside the table for lengths from 16 on
def bump (table : Vector Nat 16) (l : Nat) : Option (Vector Nat 16) :=
  if inside : l < 16 then some (table.set l (table[l]+1)) else none

def offsets : List Nat → Nat → List Nat
  | [],_ => []
  | count :: counts,sum => sum :: offsets counts (sum+count)

-- trans[offs[lengths[i]]++] = i for the symbols from i on
def distribute : List Nat → Nat → List Nat → Vector Nat 288 → Option (Vector Nat 288)
  | [],_,_,symbols => some symbols
  | l :: lengths,i,offs,symbols =>
    if l = 0 then distribute lengths (i+1) offs symbols
    else match offs[l]? with
      | none => none
      | some place =>
        if inside : place < 288 then distribute lengths (i+1) (offs.set l (place+1)) (symbols.set place i) else none

-- The symbols it does not reach keep what t held before.
def buildTree (t : Tree) (lengths : List Nat) : Option Tree := do
  let table ← lengths.foldlM bump (Vector.replicate 16 0)
  let table := table.set 0 0
  let trans ← distribute lengths 0 (offsets table.toList 0) t.trans
  return ⟨table,trans⟩

-- `none` reads past the end of the source.
def getbit : Read Nat := fun d =>
  if d.bitcount = 0 then
    match d.source with
    | [] => none
    | byte :: source => some (byte.toNat % 2,⟨source,byte.toNat / 2,7,by decide⟩)
  else some (d.tag % 2,⟨d.source,d.tag / 2,d.bitcount - 1,Nat.lt_of_le_of_lt (Nat.sub_le _ _) d.small⟩)

def readMasks : Nat → Nat → Nat → Read Nat
  | 0,_,val => pure val
  | num+1,mask,val => do
    let bit ← getbit
    readMasks num (mask*2) (if bit = 0 then val else val+mask)

def readBits (num base : Nat) : Read Nat := do
  let val ← readMasks num 1 0
  return val + base

-- The loop with the counts of the lengths that are left: past them it would
-- leave the table.
def decodeFrom (t : Tree) : List Nat → Int → Int → Read Nat
  | [],_,_ => fun _ => none
  | count :: counts,sum,cur => do
    let bit ← getbit
    let cur := 2*cur + bit - count
    let sum := sum + count
    if 0 ≤ cur then decodeFrom t counts sum cur else StateT.lift t.trans[(sum+cur).toNat]?

def decodeSymbol (t : Tree) : Read Nat := decodeFrom t t.table.toList.tail 0 0

-- lengths[clcidx[i]] = clen for each of these indices
def readClens : List Nat → List Nat → Read (List Nat)
  | [],lengths => pure lengths
  | idx :: rest,lengths => do
    let clen ← readBits 3 0
    readClens rest (lengths.set idx clen)

-- lengths[num++] = value, so many times, in an array of 288+32.
def store (lengths : List Nat) (value times : Nat) : Option (List Nat) :=
  if lengths.length + times ≤ 288+32 then some (lengths ++ List.replicate times value) else none

-- What a symbol of the code length alphabet stores.
def storeSymbol (lengths : List Nat) (sym : Nat) : Read (List Nat) :=
  if sym = 16 then do
    let prev ← StateT.lift lengths.getLast?
    let length ← readBits 2 3
    StateT.lift (store lengths prev length)
  else if sym = 17 then do
    let length ← readBits 3 3
    StateT.lift (store lengths 0 length)
  else if sym = 18 then do
    let length ← readBits 7 11
    StateT.lift (store lengths 0 length)
  else StateT.lift (store lengths sym 1)

-- for(num = 0; num < hlit + hdist; ): the lengths so far stand for num.
def lengthsRound (codeTree : Tree) (total : Nat) (lengths : List Nat) : Read (List Nat ⊕ List Nat) :=
  if lengths.length < total then do
    let sym ← decodeSymbol codeTree
    let lengths ← storeSymbol lengths sym
    return .inl lengths
  else return .inr lengths

-- Every round stores a length at least.
def decodeLengths (codeTree : Tree) (total : Nat) : Read (List Nat) := loop (lengthsRound codeTree total) (total+1) []

-- codeTree is what code_tree finds on the stack.
def decodeTrees (codeTree lt dt : Tree) : Read (Tree × Tree) := do
  let hlit ← readBits 5 257
  let hdist ← readBits 5 1
  let hclen ← readBits 4 4
  let clens ← readClens (clcidx.take hclen) (List.replicate 19 0)
  let codeTree ← StateT.lift (buildTree codeTree clens)
  let lengths ← decodeLengths codeTree (hlit+hdist)
  let lt ← StateT.lift (buildTree lt (lengths.take hlit))
  let dt ← StateT.lift (buildTree dt ((lengths.drop hlit).take hdist))
  return (lt,dt)

-- d->dest[i] = d->dest[i - offs], one byte after the other; `none` reads in
-- front of dest or what is not written yet.
def copyMatch : Nat → Nat → List UInt8 → Option (List UInt8)
  | 0,_,dest => some dest
  | length+1,offs,dest =>
    if offs ≤ dest.length then
      match dest[dest.length - offs]? with
      | none => none
      | some byte => copyMatch length offs (dest ++ [byte])
    else none

def lookup (bits base : List Nat) (sym : Nat) : Option (Nat × Nat) := do
  let b ← bits[sym]?
  let first ← base[sym]?
  return (b,first)

-- A round of the loop of tinf_inflate_block_data.
def blockRound (t : Tables) (lt dt : Tree) (dest : List UInt8) : Read (List UInt8 ⊕ List UInt8) := do
  let sym ← decodeSymbol lt
  if sym = 256 then return .inr dest
  else if sym < 256 then return .inl (dest ++ [UInt8.ofNat sym])
  else do
    let entry ← StateT.lift (lookup t.lengthBits t.lengthBase (sym-257))
    let length ← readBits entry.1 entry.2
    let dist ← decodeSymbol dt
    let entry ← StateT.lift (lookup t.distBits t.distBase dist)
    let offs ← readBits entry.1 entry.2
    let dest ← StateT.lift (copyMatch length offs dest)
    return .inl dest

def bitsLeft (d : Source) : Nat := d.bitcount + 8*d.source.length

-- Every round takes a bit at least.
def inflateBlockData (t : Tables) (lt dt : Tree) : Reader Data Int := fun d => do
  let (dest,s) ← loop (blockRound t lt dt) (bitsLeft d.toSource) d.dest d.toSource
  return (TINF_OK,{d with toSource := s,dest,destLen := d.destLen + UInt32.ofNat (dest.length - d.dest.length)})

def inflateUncompressedBlock : Reader Data Int := fun d =>
  match d.source with
  | s0 :: s1 :: s2 :: s3 :: source =>
    let length := 256*s1.toUInt32 + s0.toUInt32
    let invlength := 256*s3.toUInt32 + s2.toUInt32
    if length ≠ (~~~invlength &&& 0x0000ffff) then some (TINF_DATA_ERROR,d)
    else if source.length < length.toNat then none
    else some (TINF_OK,{d with
      source := source.drop length.toNat,bitcount := 0,small := by decide
      dest := d.dest ++ source.take length.toNat,destLen := d.destLen + length})
  | _ => none

def inflateFixedBlock (t : Tables) : Reader Data Int := inflateBlockData t t.sltree t.sdtree

def inflateDynamicBlock (t : Tables) (codeTree : Tree) : Reader Data Int := fun d => do
  let (trees,s) ← decodeTrees codeTree d.ltree d.dtree d.toSource
  inflateBlockData t trees.1 trees.2 {d with toSource := s,ltree := trees.1,dtree := trees.2}

-- What is read of the source alone.
def fromSource (f : Read α) : Reader Data α := fun d => do
  let (x,s) ← f d.toSource
  return (x,{d with toSource := s})

def inflateBlock (t : Tables) (codeTree : Tree) (btype : Nat) : Reader Data Int :=
  if btype = 0 then inflateUncompressedBlock
  else if btype = 1 then inflateFixedBlock t
  else if btype = 2 then inflateDynamicBlock t codeTree
  else return TINF_DATA_ERROR

-- A round of the loop of tinf_uncompress.
def uncompressRound (t : Tables) (codeTree : Tree) (_ : Unit) : Reader Data (Unit ⊕ Int) := do
  let bfinal ← fromSource getbit
  let btype ← fromSource (readBits 2 0)
  let res ← inflateBlock t codeTree btype
  if res ≠ TINF_OK then return .inr TINF_DATA_ERROR
  else if bfinal = 0 then return .inl () else return .inr TINF_OK

-- The trees are what the stack holds when TINF_DATA is made. The length of the
-- source is not looked at, and every block takes a bit at least. The result and
-- what destLen and dest are left with.
def uncompress (t : Tables) (codeTree ltree dtree : Tree) (source : List UInt8) : Option (Int × UInt32 × List UInt8) := do
  let d : Data := {source,tag := 0,bitcount := 0,small := by decide,dest := [],destLen := 0,ltree,dtree}
  let (res,d) ← loop (uncompressRound t codeTree) (8*source.length) () d
  return (res,d.destLen,d.dest)

def A32_BASE : UInt32 := 65521

def A32_NMAX : Nat := 5552

-- s1 += *buf++; s2 += s1
def adlerByte (s : UInt32 × UInt32) (byte : UInt8) : UInt32 × UInt32 :=
  let s1 := s.1 + byte.toUInt32
  (s1,s.2 + s1)

-- So many of them; `none` reads past the data.
def adlerBytes : Nat → List UInt8 → UInt32 × UInt32 → Option (List UInt8 × (UInt32 × UInt32))
  | 0,buf,s => some (buf,s)
  | _+1,[],_ => none
  | i+1,byte :: buf,s => adlerBytes i buf (adlerByte s byte)

def adlerSixteens : Nat → List UInt8 → UInt32 × UInt32 → Option (List UInt8 × (UInt32 × UInt32))
  | 0,buf,s => some (buf,s)
  | i+1,buf,s => do
    let (buf,s) ← adlerBytes 16 buf s
    adlerSixteens i buf s

-- One round over k bytes: sixteen at a time, then what is left, then both modulo.
def adlerRound (k : Nat) (buf : List UInt8) (s : UInt32 × UInt32) : Option (List UInt8 × (UInt32 × UInt32)) := do
  let (buf,s) ← adlerSixteens (k/16) buf s
  let (buf,s) ← adlerBytes (k % 16) buf s
  return (buf,(s.1 % A32_BASE,s.2 % A32_BASE))

-- Every round takes a byte at least.
def adlerLoop : Nat → List UInt8 → Nat → UInt32 × UInt32 → Option (UInt32 × UInt32)
  | 0,_,_,s => some s
  | rounds+1,buf,length,s =>
    if length = 0 then some s
    else do
      let k := if length < A32_NMAX then length else A32_NMAX
      let (buf,s) ← adlerRound k buf s
      adlerLoop rounds buf (length-k) s

def adler32 (data : List UInt8) (length : UInt32) : Option UInt32 := do
  let s ← adlerLoop length.toNat data length.toNat (1,0)
  return (s.2 <<< 16) ||| s.1

def zlibUncompress (t : Tables) (codeTree ltree dtree : Tree) (source : List UInt8) (sourceLen : UInt32) :
    Option (Int × UInt32 × List UInt8) := do
  let cmf : UInt8 ← source[0]?
  let flg : UInt8 ← source[1]?
  let failed : Int × UInt32 × List UInt8 := (TINF_DATA_ERROR,0,[])
  if (256*cmf.toUInt32 + flg.toUInt32) % 31 ≠ 0 then return failed
  if cmf &&& 0x0f ≠ 8 then return failed
  if cmf >>> 4 > 7 then return failed
  if flg &&& 0x20 ≠ 0 then return failed
  let b3 : UInt8 ← source[(sourceLen - 4).toNat]?
  let b2 : UInt8 ← source[(sourceLen - 3).toNat]?
  let b1 : UInt8 ← source[(sourceLen - 2).toNat]?
  let b0 : UInt8 ← source[(sourceLen - 1).toNat]?
  let a32 := 256*(256*(256*b3.toUInt32 + b2.toUInt32) + b1.toUInt32) + b0.toUInt32
  let (res,destLen,dest) ← uncompress t codeTree ltree dtree (source.drop 2)
  if res ≠ TINF_OK then return (TINF_DATA_ERROR,destLen,dest)
  let sum ← adler32 dest destLen
  if a32 ≠ sum then return (TINF_DATA_ERROR,destLen,dest)
  return (TINF_OK,destLen,dest)

end GameServer.Common.TInf
