import GameServer.Common.Huffman

-- The compressed format: what a stream of bits says, apart from how it is read.
namespace GameServer.Common.Deflate
open TInf CanonicalCodes Huffman

inductive Token where
  | literal (byte : UInt8)
  | copy (length offs : Nat)

-- A copy repeats the last `offs` bytes as often as it takes.
def Token.write (out : List UInt8) : Token → Option (List UInt8)
  | .literal byte => some (out ++ [byte])
  | .copy length offs =>
    if 0 < offs ∧ offs ≤ out.length then
      some (out ++ (List.range length).map fun i => out.getD (out.length - offs + i % offs) 0)
    else none

-- A number given by a symbol of a table and the extra bits the table asks for.
def Extra (bits base : List Nat) (sym n : Nat) (w : List Bool) : Prop :=
  ∃ entry, lookup bits base sym = some entry ∧ bitField entry.1 entry.2 n w

-- What the format leaves to say: which symbol is the last one of a length, how many codes
-- for literals and lengths a dynamic block may have, with how many code lengths runs may end
-- where so many were to come, and which code lengths are those of a code.
structure Rules where
  lastLength : Nat
  mostLiterals : Nat
  ends : Nat → Nat → Prop
  codes : List Nat → Prop

-- Deflate itself.
def deflate : Rules := ⟨285,286,fun total n => n = total,fun lengths => Kraft lengths 15⟩

-- What is read here: the thirtieth entry of the tables is a length too (323 to 386), all the
-- code lengths that five bits can ask for are taken, and neither a last run that says more of
-- them nor lengths that are too short to go together are looked at.
def taken : Rules := ⟨286,288,fun _ _ => True,fun _ => True⟩

-- ll and dl are the code lengths of the literals and lengths and of the distances.
inductive TokenBits (rules : Rules) (ll dl : List Nat) : Token → List Bool → Prop where
  | literal {byte w} : Codeword ll byte.toNat w → TokenBits rules ll dl (.literal byte) w
  | copy {sym length dist offs w e w' e'} : 256 < sym → sym ≤ rules.lastLength → Codeword ll sym w →
      Extra init.lengthBits init.lengthBase (sym-257) length e → Codeword dl dist w' →
      Extra init.distBits init.distBase dist offs e' → TokenBits rules ll dl (.copy length offs) (w ++ (e ++ (w' ++ e')))

inductive Tokens (rules : Rules) (ll dl : List Nat) : List Token → List Bool → Prop where
  | finish {w} : Codeword ll 256 w → Tokens rules ll dl [] w
  | more {token tokens w w'} : TokenBits rules ll dl token w → Tokens rules ll dl tokens w' →
      Tokens rules ll dl (token :: tokens) (w ++ w')

-- Code lengths come run by run.
inductive Run where
  | one (l : Nat)
  | again (times : Nat)
  | zeros (times : Nat)

def Run.write (lengths : List Nat) : Run → Option (List Nat)
  | .one l => some (lengths ++ [l])
  | .again times => lengths.getLast?.map fun prev => lengths ++ List.replicate times prev
  | .zeros times => some (lengths ++ List.replicate times 0)

inductive RunBits (cl : List Nat) : Run → List Bool → Prop where
  | one {l w} : l < 16 → Codeword cl l w → RunBits cl (.one l) w
  | again {times w e} : Codeword cl 16 w → bitField 2 3 times e → RunBits cl (.again times) (w ++ e)
  | zeros {times w e} : Codeword cl 17 w → bitField 3 3 times e → RunBits cl (.zeros times) (w ++ e)
  | manyZeros {times w e} : Codeword cl 18 w → bitField 7 11 times e → RunBits cl (.zeros times) (w ++ e)

-- Runs are read until there are enough lengths, within the 320 that there is room for.
inductive Runs (rules : Rules) (cl : List Nat) (total : Nat) : List Nat → List Nat → List Bool → Prop where
  | enough {lengths} : total ≤ lengths.length → rules.ends total lengths.length → Runs rules cl total lengths lengths []
  | more {lengths next final run w w'} : lengths.length < total → RunBits cl run w → run.write lengths = some next →
      next.length ≤ 320 → Runs rules cl total next final w' → Runs rules cl total lengths final (w ++ w')

-- Three bits for each code length of the run symbols.
inductive Clens : List Nat → List Bool → Prop where
  | nil : Clens [] []
  | cons {l clens w w'} : bitField 3 0 l w → Clens clens w' → Clens (l :: clens) (w ++ w')

def scatter (clens : List Nat) : List Nat :=
  (clcidx.zip clens).foldl (fun lengths entry => lengths.set entry.1 entry.2) (List.replicate 19 0)

-- What a dynamic block says of its code lengths.
structure Header where
  hlit : Nat
  hdist : Nat
  clens : List Nat
  lengths : List Nat

def Header.ll (h : Header) : List Nat := h.lengths.take h.hlit

def Header.dl (h : Header) : List Nat := (h.lengths.drop h.hlit).take h.hdist

inductive HeaderBits (rules : Rules) (h : Header) : List Bool → Prop where
  | intro {a b c d e} : bitField 5 257 h.hlit a → bitField 5 1 h.hdist b → bitField 4 4 h.clens.length c → Clens h.clens d →
      Runs rules (scatter h.clens) (h.hlit+h.hdist) [] h.lengths e → h.hlit ≤ rules.mostLiterals → rules.codes (scatter h.clens) →
      rules.codes h.ll → rules.codes h.dl → HeaderBits rules h (a ++ (b ++ (c ++ (d ++ e))))

def fixedLengths : List Nat := List.replicate 144 8 ++ List.replicate 112 9 ++ List.replicate 24 7 ++ List.replicate 8 8

def fixedDistances : List Nat := List.replicate 32 5

-- The output so far and the bits that are still to come.
abbrev Progress := List UInt8 × List Bool

-- A stored block begins with the next byte, and its length stands there twice, the
-- second time with every bit the other way.
inductive Block (rules : Rules) : Nat → Progress → Progress → Prop where
  | stored {out input pad w w'} (bytes rest) : pad.length = input.length % 8 → bitField 16 0 bytes.length w →
      bitField 16 0 (65535-bytes.length) w' → input = pad ++ (w ++ (w' ++ (byteBits bytes ++ rest))) →
      Block rules 0 (out,input) (out ++ bytes,rest)
  | fixed {out out' tokens w rest} : Tokens rules fixedLengths fixedDistances tokens w → tokens.foldlM Token.write out = some out' →
      Block rules 1 (out,w ++ rest) (out',rest)
  | dynamic {out out' h tokens w' w rest} : HeaderBits rules h w' → Tokens rules h.ll h.dl tokens w →
      tokens.foldlM Token.write out = some out' → Block rules 2 (out,w' ++ (w ++ rest)) (out',rest)

-- Blocks up to one that says it is the last.
inductive Blocks (rules : Rules) : Progress → Progress → Prop where
  | last {out b b' input after} : Block rules (value [b,b']) (out,input) after → Blocks rules (out,true :: b :: b' :: input) after
  | more {out b b' input between after} : Block rules (value [b,b']) (out,input) between → Blocks rules between after →
      Blocks rules (out,false :: b :: b' :: input) after

-- What a block shows to be no block: a type there is none of, two lengths that do not fit.
inductive Damaged : Nat → Progress → Prop where
  | unknown {btype} (before) : 2 < btype → Damaged btype before
  | lengths {out input pad w w' rest len invlen} : pad.length = input.length % 8 → bitField 16 0 len w → bitField 16 0 invlen w' →
      input = pad ++ (w ++ (w' ++ rest)) → len + invlen ≠ 65535 → Damaged 0 (out,input)

-- Blocks up to one that is damaged.
inductive Corrupt (rules : Rules) : Progress → Progress → Prop where
  | here {out bfinal b b' input} : Damaged (value [b,b']) (out,input) → Corrupt rules (out,bfinal :: b :: b' :: input) (out,input)
  | more {out b b' input between after} : Block rules (value [b,b']) (out,input) between → Corrupt rules between after →
      Corrupt rules (out,false :: b :: b' :: input) after

section rules
variable {rules wider : Rules}

-- Every stream by the first rules is one by the second.
structure Within (rules wider : Rules) : Prop where
  lastLength : rules.lastLength ≤ wider.lastLength
  mostLiterals : rules.mostLiterals ≤ wider.mostLiterals
  ends : ∀ total n, rules.ends total n → wider.ends total n
  codes : ∀ lengths, rules.codes lengths → wider.codes lengths

theorem deflate_taken : Within deflate taken := ⟨by decide,by decide,fun _ _ _ => trivial,fun _ _ => trivial⟩

theorem tokens_within (within : Within rules wider) (list : Tokens rules ll dl tokens w) : Tokens wider ll dl tokens w := by
  induction list with
  | finish codeword => exact .finish codeword
  | more bits _ ih =>
      refine .more ?_ ih
      cases bits with
      | literal codeword => exact .literal codeword
      | copy low high codeword one codeword' two =>
          exact .copy low (Nat.le_trans high within.lastLength) codeword one codeword' two

theorem runs_within (within : Within rules wider) (runs : Runs rules cl total lengths final w) : Runs wider cl total lengths final w := by
  induction runs with
  | enough enough ends => exact .enough enough (within.ends _ _ ends)
  | more less bits written fits _ ih => exact .more less bits written fits ih

theorem header_within (within : Within rules wider) {h : Header} (bits : HeaderBits rules h w) : HeaderBits wider h w := by
  cases bits with
  | intro hlit hdist hclen clens runs few run_codes literals distances =>
      exact .intro hlit hdist hclen clens (runs_within within runs) (Nat.le_trans few within.mostLiterals)
        (within.codes _ run_codes) (within.codes _ literals) (within.codes _ distances)

theorem block_within (within : Within rules wider) (block : Block rules btype before after) : Block wider btype before after := by
  cases block with
  | stored bytes rest long first second input => exact .stored bytes rest long first second input
  | fixed list written => exact .fixed (tokens_within within list) written
  | dynamic bits list written => exact .dynamic (header_within within bits) (tokens_within within list) written

theorem blocks_within (within : Within rules wider) (blocks : Blocks rules before after) : Blocks wider before after := by
  induction blocks with
  | last block => exact .last (block_within within block)
  | more block _ ih => exact .more (block_within within block) ih

end rules

end GameServer.Common.Deflate
