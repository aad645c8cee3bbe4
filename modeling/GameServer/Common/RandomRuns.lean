import GameServer.Common.Random
import GameServer.Library.FeedbackRing
import Mathlib.Logic.Function.Iterate

namespace GameServer.Common.RandomRuns
open GameServer.Common.Random FeedbackRing

-- The generator of Park and Miller, zero counted as another seed.
def park (x : UInt32) : UInt32 := UInt32.ofInt (16807 * (if signed x = 0 then 123459876 else signed x) % 2147483647)

theorem tdiv_sign (x : Int) : (0 ≤ x ∧ x.tdiv 127773 = x / 127773 ∧ x.tmod 127773 = x % 127773) ∨
    (x < 0 ∧ x.tdiv 127773 = -(-x / 127773) ∧ x.tmod 127773 = -(-x % 127773)) := by
  by_cases sign : 0 ≤ x
  · exact Or.inl ⟨sign,Int.tdiv_eq_ediv_of_nonneg sign,Int.tmod_eq_emod_of_nonneg sign⟩
  · refine Or.inr ⟨by omega,?_,?_⟩
    · rw [←Int.tdiv_eq_ediv_of_nonneg (by omega),Int.neg_tdiv,Int.neg_neg]
    · rw [←Int.tmod_eq_emod_of_nonneg (by omega),Int.neg_tmod,Int.neg_neg]

theorem int32_fits {v : Int} (lower : -2^31 ≤ v) (upper : v < 2^31) : int32 v = some v := if_pos ⟨lower,upper⟩

-- Schrage: the two products do not overflow, and the difference is the residue up to the modulus.
theorem schrage (z : Int) (lower : -2^31 ≤ z) (upper : z < 2^31) :
    ∃ left right, int32 (16807*z.tmod 127773) = some left ∧ int32 (2836*z.tdiv 127773) = some right ∧
      int32 (left-right) = some (left-right) ∧
      (left-right < 0 → int32 (left-right+0x7FFFFFFF) = some (left-right+0x7FFFFFFF)) ∧
      (if left-right < 0 then left-right+0x7FFFFFFF else left-right) = 16807*z % 2147483647 := by
  refine ⟨16807*z.tmod 127773,2836*z.tdiv 127773,?_⟩
  rcases tdiv_sign z with ⟨sign,quotient,rest⟩ | ⟨sign,quotient,rest⟩
  · rw [quotient,rest]
    refine ⟨int32_fits (by omega) (by omega),int32_fits (by omega) (by omega),int32_fits (by omega) (by omega),
      fun negative => int32_fits (by omega) (by omega),?_⟩
    split
    · omega
    · omega
  · rw [quotient,rest]
    refine ⟨int32_fits (by omega) (by omega),int32_fits (by omega) (by omega),int32_fits (by omega) (by omega),
      fun negative => int32_fits (by omega) (by omega),?_⟩
    split
    · omega
    · omega

theorem goodRand_park (x : UInt32) : goodRand (signed x) = some (park x) := by
  have range : -2^31 ≤ signed x ∧ signed x < 2^31 := by
    have := x.toNat_lt
    unfold signed
    split <;> omega
  unfold goodRand park
  generalize signed x = y at range
  have inside : -2^31 ≤ (if y = 0 then 123459876 else y) ∧ (if y = 0 then 123459876 else y) < 2^31 := by
    split
    · decide
    · exact range
  dsimp only
  generalize (if y = 0 then 123459876 else y) = z at inside
  obtain ⟨left,right,one,two,three,four,residue⟩ := schrage z inside.1 inside.2
  rw [one,two,←residue]
  simp only [Option.bind_eq_bind,Option.bind_some,three]
  split
  · rename_i negative
    rw [four negative]
    rfl
  · rfl

theorem low_bits (x : UInt32) (small : x.toNat < 2^31) : x &&& 0x7FFFFFFF = x := by
  apply UInt32.toNat_inj.mp
  rw [UInt32.toNat_and,show (0x7FFFFFFF : UInt32).toNat = 2^31-1 from rfl,Nat.and_two_pow_sub_one_eq_mod]
  exact Nat.mod_eq_of_lt small

theorem park_small (x : UInt32) : (park x).toNat < 2^31 := by
  unfold park
  generalize (16807 * (if signed x = 0 then 123459876 else signed x)) = y
  have := Int.emod_nonneg y (show (2147483647 : Int) ≠ 0 by decide)
  have := Int.emod_lt_of_pos y (show (0 : Int) < 2147483647 by decide)
  rw [UInt32.ofInt,UInt32.toNat_ofNat']
  omega

theorem half_small (x : UInt32) : (x >>> 1).toNat < 2^31 := by
  have := x.toNat_lt
  rw [UInt32.toNat_shiftRight,show (1 : UInt32).toNat % 32 = 1 from rfl,Nat.shiftRight_eq_div_pow]
  omega

theorem store_inside {state : List UInt32} {i : Nat} (inside : i < state.length) (x : UInt32) :
    store state i x = some (state.set i x) := if_pos inside

section turns

-- A generator with a ring: what it holds is a stretch of the sequence, the rear behind the front.
structure Turning (g : Generator) (r : Nat → UInt32) (n : Nat) : Prop where
  ringed : g.randType ≠ TYPE_0
  apart : 0 < g.randSep
  within : g.randSep < g.randDeg
  ring : Unrolled g.randDeg g.state g.fptr r n
  rear : g.rptr = (g.fptr + (g.randDeg-g.randSep)) % g.randDeg

-- What a turn leaves as it is.
structure Kept (g g' : Generator) : Prop where
  randType : g'.randType = g.randType
  randDeg : g'.randDeg = g.randDeg
  randSep : g'.randSep = g.randSep
  size : g'.state.length = g.state.length

variable {g g' g'' : Generator} {r : Nat → UInt32} {n : Nat}

theorem kept_trans (first : Kept g g') (second : Kept g' g'') : Kept g g'' :=
  ⟨second.randType.trans first.randType,second.randDeg.trans first.randDeg,second.randSep.trans first.randSep,
    second.size.trans first.size⟩

theorem next_turning (turning : Turning g r n) (added : r (n+g.randDeg) = r n + r (n+(g.randDeg-g.randSep))) :
    ∃ g', next g = some (r (n+g.randDeg) >>> 1,g') ∧ Turning g' r (n+1) ∧ Kept g g' := by
  have apart := turning.apart
  have within := turning.within
  have inside := turning.ring.inside
  have room := turning.ring.room
  have front := unrolled_front turning.ring
  have behind := turning.ring.window (g.randDeg-g.randSep) (by omega)
  rw [←turning.rear] at behind
  have turned := unrolled_turn turning.ring
  have rearInside : g.rptr < g.randDeg := by
    rw [turning.rear]
    exact Nat.mod_lt _ (by omega)
  have onward : (if g.fptr+1 ≥ g.randDeg then (0,g.rptr+1)
      else if g.rptr+1 ≥ g.randDeg then (g.fptr+1,0) else (g.fptr+1,g.rptr+1)) =
      ((g.fptr+1) % g.randDeg,(g.rptr+1) % g.randDeg) := by
    have wrapped : ∀ k, k < g.randDeg → ¬k+1 < g.randDeg → (k+1) % g.randDeg = 0 := by
      intro k low high
      rw [show k+1 = g.randDeg by omega,Nat.mod_self]
    by_cases frontLast : g.fptr+1 ≥ g.randDeg
    · have rear := turning.rear
      rw [show g.fptr + (g.randDeg-g.randSep) = g.randDeg + (g.fptr-g.randSep) by omega,Nat.add_mod_left,
        Nat.mod_eq_of_lt (by omega)] at rear
      rw [if_pos frontLast,wrapped _ inside (by omega),Nat.mod_eq_of_lt (by omega)]
    · rw [if_neg frontLast,Nat.mod_eq_of_lt (show g.fptr+1 < g.randDeg by omega)]
      by_cases rearLast : g.rptr+1 ≥ g.randDeg
      · rw [if_pos rearLast,wrapped _ rearInside (by omega)]
      · rw [if_neg rearLast,Nat.mod_eq_of_lt (by omega)]
  refine ⟨{g with state := g.state.set g.fptr (r (n+g.randDeg)), fptr := (g.fptr+1) % g.randDeg,
                  rptr := (g.rptr+1) % g.randDeg},?_,⟨turning.ringed,apart,within,turned,?_⟩,rfl,rfl,rfl,List.length_set⟩
  · unfold next
    rw [if_neg turning.ringed]
    simp only [front,behind,Option.bind_eq_bind,Option.bind_some,store_inside (Nat.lt_of_lt_of_le inside room),←added,onward,
      low_bits _ (half_small _)]
    rfl
  · dsimp only
    rw [turning.rear,Nat.mod_add_mod,Nat.mod_add_mod]
    congr 1
    omega

theorem next_single (single : g.randType = TYPE_0) {x : UInt32} (held : g.state[0]? = some x) :
    next g = some (park x,{g with state := g.state.set 0 (park x)}) := by
  have inside := (List.getElem?_eq_some_iff.mp held).1
  unfold next
  rw [if_pos single]
  simp only [held,Option.bind_eq_bind,Option.bind_some,goodRand_park,low_bits _ (park_small x),store_inside inside]
  rfl

end turns

section cycles

variable {g : Generator} {r : Nat → UInt32} {n : Nat}

-- The outputs of so many turns.
theorem nexts_turning (turning : Turning g r n) (count : Nat)
    (added : ∀ k < count, r (n+k+g.randDeg) = r (n+k) + r (n+k+(g.randDeg-g.randSep))) :
    ∃ g', run g (List.replicate count .next) = some ((List.range count).map (fun k => r (n+k+g.randDeg) >>> 1),g') ∧
      cycle count g = some g' ∧ Turning g' r (n+count) ∧ Kept g g' := by
  induction count generalizing g n with
  | zero => exact ⟨g,rfl,rfl,turning,rfl,rfl,rfl,rfl⟩
  | succ count ih =>
      obtain ⟨g₁,first,turned,kept⟩ := next_turning turning (added 0 (by omega))
      have later : ∀ k < count, r (n+1+k+g₁.randDeg) = r (n+1+k) + r (n+1+k+(g₁.randDeg-g₁.randSep)) := by
        intro k low
        rw [kept.randDeg,kept.randSep,show n+1+k = n+(k+1) by omega]
        exact added (k+1) (by omega)
      obtain ⟨g₂,rest,cycled,last,kept'⟩ := ih turned later
      refine ⟨g₂,?_,?_,?_,kept_trans kept kept'⟩
      · rw [List.replicate_succ,run,first]
        simp only [Option.bind_eq_bind,Option.bind_some,rest]
        rw [List.range_succ_eq_map,List.map_cons,List.map_map,kept.randDeg]
        refine congrArg (fun told => some (_ :: told,g₂)) ?_
        apply List.map_congr_left
        intro k _
        rw [Function.comp,show n+1+k = n+(k+1) by omega]
      · rw [cycle,first]
        exact cycled
      · rw [show n+(count+1) = n+1+count by omega]
        exact last

theorem nexts_single (single : g.randType = TYPE_0) {x : UInt32} (held : g.state[0]? = some x) (count : Nat) :
    ∃ g', run g (List.replicate count .next) = some ((List.range count).map (fun k => park^[k+1] x),g') ∧
      cycle count g = some g' ∧ g'.state[0]? = some (park^[count] x) ∧ Kept g g' := by
  induction count generalizing g x with
  | zero => exact ⟨g,rfl,rfl,held,rfl,rfl,rfl,rfl⟩
  | succ count ih =>
      have inside := (List.getElem?_eq_some_iff.mp held).1
      have first := next_single single held
      obtain ⟨g₂,rest,cycled,last,kept⟩ := @ih {g with state := g.state.set 0 (park x)} single (park x)
        (List.getElem?_set_self inside)
      refine ⟨g₂,?_,?_,last,kept.randType,kept.randDeg,kept.randSep,kept.size.trans List.length_set⟩
      · rw [List.replicate_succ,run,first]
        simp only [Option.bind_eq_bind,Option.bind_some,rest]
        rw [List.range_succ_eq_map,List.map_cons,List.map_map]
        rfl
      · rw [cycle,first]
        exact cycled

end cycles

section seeds

-- What the seed determines: the words grown from it one after the other, the first of them
-- again, and from there on the sum of two earlier words.
def sequence (deg sep : Nat) (x : UInt32) (i : Nat) : UInt32 :=
  if _ : sep = 0 ∨ deg ≤ sep then 0
  else if _ : i = 0 then x
  else if i < deg then park (sequence deg sep x (i-1))
  else if i < deg+sep then sequence deg sep x (i-deg)
  else sequence deg sep x (i-deg) + sequence deg sep x (i-sep)
termination_by i
decreasing_by all_goals omega

variable {deg sep : Nat} {x : UInt32}

theorem sequence_zero (apart : 0 < sep) (within : sep < deg) : sequence deg sep x 0 = x := by
  rw [sequence,dif_neg (by omega),dif_pos rfl]

theorem sequence_grown (apart : 0 < sep) (within : sep < deg) {i : Nat} (some : 0 < i) (low : i < deg) :
    sequence deg sep x i = park (sequence deg sep x (i-1)) := by
  rw [sequence,dif_neg (by omega),dif_neg (by omega),if_pos low]

theorem sequence_again (apart : 0 < sep) (within : sep < deg) {i : Nat} (low : i < sep) :
    sequence deg sep x (deg+i) = sequence deg sep x i := by
  rw [sequence,dif_neg (by omega),dif_neg (by omega),if_neg (by omega),if_pos (by omega),Nat.add_sub_cancel_left]

theorem sequence_added (apart : 0 < sep) (within : sep < deg) {i : Nat} (high : sep ≤ i) :
    sequence deg sep x (i+deg) = sequence deg sep x i + sequence deg sep x (i+(deg-sep)) := by
  rw [sequence,dif_neg (by omega),dif_neg (by omega),if_neg (by omega),if_neg (by omega),Nat.add_sub_cancel,
    show i+deg-sep = i+(deg-sep) by omega]

theorem fill_grown (apart : 0 < sep) (within : sep < deg) (count first : Nat) (some : 0 < first) (whole : first+count ≤ deg)
    {state : List UInt32} (room : deg ≤ state.length) (grown : ∀ i < first, state[i]? = Option.some (sequence deg sep x i)) :
    ∃ state', fill state (List.range' first count) = Option.some state' ∧ state'.length = state.length ∧
      ∀ i < first+count, state'[i]? = Option.some (sequence deg sep x i) := by
  induction count generalizing first state with
  | zero => exact ⟨state,rfl,rfl,grown⟩
  | succ count ih =>
      have before := grown (first-1) (by omega)
      have next : ∀ i < first+1, (state.set first (sequence deg sep x first))[i]? = Option.some (sequence deg sep x i) := by
        intro i low
        by_cases here : first = i
        · rw [←here,List.getElem?_set_self (by omega)]
        · rw [List.getElem?_set_ne here]
          exact grown i (by omega)
      obtain ⟨state',filled,length,last⟩ := ih (first+1) (by omega) (by omega) (by rwa [List.length_set]) next
      refine ⟨state',?_,length.trans List.length_set,?_⟩
      · rw [List.range'_succ,fill]
        simp only [before,Option.bind_eq_bind,Option.bind_some,goodRand_park,←sequence_grown apart within some (by omega),
          store_inside (show first < state.length by omega)]
        exact filled
      · intro i low
        exact last i (by omega)

end seeds

section seeded

variable {g : Generator} {r : Nat → UInt32} {n : Nat}

-- A generator that was set up: one word, or a ring with room for it.
inductive Ready (g : Generator) : Prop where
  | single (one : g.randType = TYPE_0) (some : 0 < g.state.length)
  | ring (r : Nat → UInt32) (n : Nat) (turning : Turning g r n)

-- Before it is seeded the pointers do not matter.
structure Sized (g : Generator) : Prop where
  single : g.randType = TYPE_0 → 0 < g.state.length
  ring : g.randType ≠ TYPE_0 → 0 < g.randSep ∧ g.randSep < g.randDeg ∧ g.randDeg ≤ g.state.length

theorem ready_sized (ready : Ready g) : Sized g := by
  cases ready with
  | single one some => exact ⟨fun _ => some,fun ringed => absurd one ringed⟩
  | ring r n turning =>
      exact ⟨fun single => absurd single turning.ringed,fun _ => ⟨turning.apart,turning.within,turning.ring.room⟩⟩

-- What a generator of some type, degree and separation puts out after a seed.
def outputs (randType deg sep : Nat) (x : UInt32) (count : Nat) : List UInt32 :=
  if randType = TYPE_0 then (List.range count).map fun k => park^[51+k] x
  else (List.range count).map fun k => sequence deg sep x (11*deg+sep+k) >>> 1

theorem seed_outputs (sized : Sized g) (x : UInt32) :
    ∃ g', seed g x = some g' ∧ Ready g' ∧ Kept g g' ∧ ∀ count, ∃ g'', run g' (List.replicate count .next) =
      some (outputs g.randType g.randDeg g.randSep x count,g'') := by
  by_cases single : g.randType = TYPE_0
  · have some := sized.single single
    obtain ⟨g',_,cycled,held,kept⟩ := nexts_single (g := {g with state := g.state.set 0 x}) single
      (List.getElem?_set_self some) NSHUFF
    have single' := kept.randType.trans single
    refine ⟨g',?_,.single single' (List.getElem?_eq_some_iff.mp held).1,
      ⟨kept.randType,kept.randDeg,kept.randSep,kept.size.trans List.length_set⟩,?_⟩
    · unfold seed
      simp only [store_inside some,Option.bind_eq_bind,Option.bind_some]
      rw [if_pos single]
      exact cycled
    · intro count
      obtain ⟨g'',ran,_⟩ := nexts_single single' held count
      refine ⟨g'',ran.trans ?_⟩
      unfold outputs
      rw [single,if_pos rfl]
      refine congrArg (fun told => Option.some (told,g'')) ?_
      apply List.map_congr_left
      intro k _
      rw [←Function.iterate_add_apply,show k+1+NSHUFF = 51+k by unfold NSHUFF; omega]
  · obtain ⟨apart,within,room⟩ := sized.ring single
    have start : ∀ i < 1, (g.state.set 0 x)[i]? = some (sequence g.randDeg g.randSep x i) := by
      intro i low
      rw [show i = 0 by omega,List.getElem?_set_self (by omega),sequence_zero apart within]
    have kept : g.randDeg ≤ (g.state.set 0 x).length := by rwa [List.length_set]
    obtain ⟨state,filled,length,grown⟩ := fill_grown apart within (g.randDeg-1) 1 (by omega) (by omega) kept start
    rw [List.length_set] at length
    have ring : Unrolled g.randDeg state g.randSep (sequence g.randDeg g.randSep x) g.randSep :=
      unrolled_start (by omega) within (fun i low => grown i (by omega)) (fun i low => sequence_again apart within low)
    have turning : Turning {g with state := state, fptr := g.randSep, rptr := 0} (sequence g.randDeg g.randSep x) g.randSep := by
      refine ⟨single,apart,within,ring,?_⟩
      dsimp only
      rw [show g.randSep + (g.randDeg-g.randSep) = g.randDeg by omega,Nat.mod_self]
    obtain ⟨g',_,cycled,turned,kept⟩ := nexts_turning turning (10*g.randDeg)
      (fun k _ => sequence_added apart within (by omega))
    refine ⟨g',?_,.ring _ _ turned,⟨kept.randType,kept.randDeg,kept.randSep,kept.size.trans length⟩,?_⟩
    · unfold seed
      simp only [store_inside (show 0 < g.state.length by omega),Option.bind_eq_bind,Option.bind_some]
      rw [if_neg single,filled]
      exact cycled
    · intro count
      have deg : g'.randDeg = g.randDeg := kept.randDeg
      have sep : g'.randSep = g.randSep := kept.randSep
      obtain ⟨g'',ran,_⟩ := nexts_turning turned count (fun k _ => by
        rw [deg,sep]
        exact sequence_added apart within (by omega))
      refine ⟨g'',ran.trans ?_⟩
      unfold outputs
      rw [if_neg single,deg]
      refine congrArg (fun told => some (told,g'')) ?_
      apply List.map_congr_left
      intro k _
      rw [show g.randSep+10*g.randDeg+k+g.randDeg = 11*g.randDeg+g.randSep+k by omega]

-- Whatever words a ring holds, they are a stretch of some sequence.
theorem ring_turning (ringed : g.randType ≠ TYPE_0) (apart : 0 < g.randSep) (within : g.randSep < g.randDeg)
    (room : g.randDeg ≤ g.state.length) (inside : g.fptr < g.randDeg)
    (rear : g.rptr = (g.fptr + (g.randDeg-g.randSep)) % g.randDeg) :
    ∃ r n, Turning g r n ∧ r (n+g.randDeg) = r n + r (n+(g.randDeg-g.randSep)) := by
  have cell : ∀ j, g.state[(g.fptr+j) % g.randDeg]? = some (g.state.getD ((g.fptr+j) % g.randDeg) 0) := by
    intro j
    have low : (g.fptr+j) % g.randDeg < g.state.length := Nat.lt_of_lt_of_le (Nat.mod_lt _ (by omega)) room
    rw [List.getD_eq_getElem?_getD,List.getElem?_eq_getElem low,Option.getD_some]
  refine ⟨fun k => if k < g.randDeg then g.state.getD ((g.fptr+k) % g.randDeg) 0 else
    g.state.getD ((g.fptr+0) % g.randDeg) 0 + g.state.getD ((g.fptr+(g.randDeg-g.randSep)) % g.randDeg) 0,0,
    ⟨ringed,apart,within,⟨room,inside,?_⟩,rear⟩,?_⟩
  · intro j low
    rw [Nat.zero_add,if_pos low]
    exact cell j
  · dsimp only
    rw [Nat.zero_add,Nat.zero_add,if_neg (Nat.lt_irrefl _),if_pos (by omega),if_pos (by omega)]

theorem next_ready (ready : Ready g) : ∃ i g', next g = some (i,g') ∧ Ready g' ∧ Kept g g' := by
  cases ready with
  | single one some =>
      refine ⟨_,_,next_single one (List.getElem?_eq_getElem some),.single one ?_,rfl,rfl,rfl,List.length_set⟩
      rw [List.length_set]
      exact some
  | ring r n turning =>
      obtain ⟨r',n',turning',added⟩ := ring_turning turning.ringed turning.apart turning.within turning.ring.room
        turning.ring.inside turning.rear
      obtain ⟨g',ran,turned,kept⟩ := next_turning turning' added
      exact ⟨_,g',ran,.ring _ _ turned,kept⟩

theorem device_ready (ready : Ready g) (words : List UInt32) : ∃ g', seedDevice g words = some g' ∧ Ready g' ∧ Kept g g' := by
  have sized := ready_sized ready
  have inside : (if g.randType = TYPE_0 then 1 else g.randDeg) ≤ g.state.length := by
    split
    · rename_i single
      exact sized.single single
    · rename_i ringed
      exact (sized.ring ringed).2.2
  unfold seedDevice
  dsimp only
  generalize (if g.randType = TYPE_0 then 1 else g.randDeg) = len at inside
  have size : (words.take len ++ g.state.drop (words.take len).length).length = g.state.length := by
    rw [List.length_append,List.length_drop,List.length_take]
    omega
  rw [if_pos inside]
  refine ⟨_,rfl,?_,rfl,rfl,rfl,size⟩
  cases ready with
  | single one some => exact .single one (by rwa [size])
  | ring r n turning =>
      obtain ⟨r',n',turning',_⟩ := ring_turning (g := {g with state := words.take len ++ g.state.drop (words.take len).length})
        turning.ringed turning.apart turning.within (by rw [size]; exact turning.ring.room) turning.ring.inside turning.rear
      exact .ring r' n' turning'

theorem run_ready (ready : Ready g) (calls : List Call) : ∃ told g', run g calls = some (told,g') ∧ Ready g' ∧ Kept g g' := by
  induction calls generalizing g with
  | nil => exact ⟨[],g,rfl,ready,rfl,rfl,rfl,rfl⟩
  | cons c calls ih =>
      cases c with
      | next =>
          obtain ⟨i,g₁,first,ready₁,kept⟩ := next_ready ready
          obtain ⟨told,g₂,rest,ready₂,kept₂⟩ := ih ready₁
          refine ⟨i :: told,g₂,?_,ready₂,kept_trans kept kept₂⟩
          rw [run,first]
          simp only [Option.bind_eq_bind,Option.bind_some,rest]
          rfl
      | seed x =>
          obtain ⟨g₁,first,ready₁,kept,_⟩ := seed_outputs (ready_sized ready) x
          obtain ⟨told,g₂,rest,ready₂,kept₂⟩ := ih ready₁
          refine ⟨told,g₂,?_,ready₂,kept_trans kept kept₂⟩
          rw [run,first]
          exact rest
      | device words =>
          obtain ⟨g₁,first,ready₁,kept⟩ := device_ready ready words
          obtain ⟨told,g₂,rest,ready₂,kept₂⟩ := ih ready₁
          refine ⟨told,g₂,?_,ready₂,kept_trans kept kept₂⟩
          rw [run,first]
          exact rest

theorem run_append {g' : Generator} {calls calls' : List Call} {told told' : List UInt32} {g'' : Generator}
    (first : run g calls = some (told,g')) (second : run g' calls' = some (told',g'')) :
    run g (calls ++ calls') = some (told ++ told',g'') := by
  induction calls generalizing g told with
  | nil =>
      cases first
      exact second
  | cons c calls ih =>
      cases c with
      | next =>
          obtain ⟨⟨i,g₁⟩,called,later⟩ := Option.bind_eq_some_iff.mp first
          obtain ⟨⟨rest,g₂⟩,ran,same⟩ := Option.bind_eq_some_iff.mp later
          cases same
          rw [List.cons_append,run,called]
          simp only [Option.bind_eq_bind,Option.bind_some,ih ran]
          rfl
      | seed x =>
          obtain ⟨g₁,called,ran⟩ := Option.bind_eq_some_iff.mp first
          rw [List.cons_append,run,called]
          exact ih ran
      | device words =>
          obtain ⟨g₁,called,ran⟩ := Option.bind_eq_some_iff.mp first
          rw [List.cons_append,run,called]
          exact ih ran

-- No call reads the first word of the buffer.
theorem next_marked {i : UInt32} {g' : Generator} (w : UInt32) (called : next g = some (i,g')) :
    next {g with intArgState := w} = some (i,{g' with intArgState := w}) := by
  unfold next at called ⊢
  dsimp only
  split
  · rename_i single
    rw [if_pos single] at called
    obtain ⟨a,held,called⟩ := Option.bind_eq_some_iff.mp called
    obtain ⟨b,random,called⟩ := Option.bind_eq_some_iff.mp called
    obtain ⟨state,stored,called⟩ := Option.bind_eq_some_iff.mp called
    cases called
    simp only [held,random,stored,Option.bind_eq_bind,Option.bind_some]
    rfl
  · rename_i ringed
    rw [if_neg ringed] at called
    obtain ⟨a,held,called⟩ := Option.bind_eq_some_iff.mp called
    obtain ⟨b,behind,called⟩ := Option.bind_eq_some_iff.mp called
    obtain ⟨state,stored,called⟩ := Option.bind_eq_some_iff.mp called
    cases called
    simp only [held,behind,stored,Option.bind_eq_bind,Option.bind_some]
    rfl

theorem nexts_marked (w : UInt32) (count : Nat) {told : List UInt32} {g' : Generator}
    (ran : run g (List.replicate count .next) = some (told,g')) :
    run {g with intArgState := w} (List.replicate count .next) = some (told,{g' with intArgState := w}) := by
  induction count generalizing g told with
  | zero =>
      cases ran
      rfl
  | succ count ih =>
      obtain ⟨⟨i,g₁⟩,called,later⟩ := Option.bind_eq_some_iff.mp ran
      obtain ⟨⟨rest,g₂⟩,ran,same⟩ := Option.bind_eq_some_iff.mp later
      cases same
      rw [List.replicate_succ,run,next_marked w called]
      simp only [Option.bind_eq_bind,Option.bind_some,ih ran]
      rfl

theorem ready_marked (ready : Ready g) (w : UInt32) : Ready {g with intArgState := w} := by
  cases ready with
  | single one some => exact .single one some
  | ring r n turning => exact .ring r n ⟨turning.ringed,turning.apart,turning.within,turning.ring,turning.rear⟩

-- A buffer of so many bytes, in whole words.
structure Buffer where
  size : Int
  words : List UInt32
  enough : BREAK_0 ≤ size
  whole : words.length = size.toNat / 4

theorem kind_sized (buffer : Buffer) : ((kind buffer.size).1 = TYPE_0 → 0 < (buffer.words.drop 1).length) ∧
    ((kind buffer.size).1 ≠ TYPE_0 → 0 < (kind buffer.size).2.2 ∧ (kind buffer.size).2.2 < (kind buffer.size).2.1 ∧
      (kind buffer.size).2.1 ≤ (buffer.words.drop 1).length) := by
  have enough := buffer.enough
  have whole := buffer.whole
  rw [List.length_drop]
  unfold BREAK_0 at enough
  have room : ∀ deg : Nat, 4*(deg+1) ≤ buffer.size → deg ≤ buffer.words.length-1 := by
    intro deg lower
    omega
  unfold kind
  unfold BREAK_1 BREAK_2 BREAK_3 BREAK_4
  split
  · exact ⟨fun _ => by omega,fun ringed => absurd rfl ringed⟩
  · split
    · exact ⟨fun single => absurd single (by decide),fun _ => ⟨by decide,by decide,room DEG_1 (by unfold DEG_1; omega)⟩⟩
    · split
      · exact ⟨fun single => absurd single (by decide),fun _ => ⟨by decide,by decide,room DEG_2 (by unfold DEG_2; omega)⟩⟩
      · split
        · exact ⟨fun single => absurd single (by decide),fun _ => ⟨by decide,by decide,room DEG_3 (by unfold DEG_3; omega)⟩⟩
        · exact ⟨fun single => absurd single (by decide),fun _ => ⟨by decide,by decide,room DEG_4 (by unfold DEG_4; omega)⟩⟩

theorem initState_outputs (buffer : Buffer) (s : UInt32) :
    ∃ made, initState s buffer.words buffer.size = some made ∧ Ready made ∧ made.randType = (kind buffer.size).1 ∧
      made.randDeg = (kind buffer.size).2.1 ∧ made.randSep = (kind buffer.size).2.2 ∧
      ∀ count, ∃ g, run made (List.replicate count .next) =
        some (outputs (kind buffer.size).1 (kind buffer.size).2.1 (kind buffer.size).2.2 s count,g) := by
  have enough := buffer.enough
  have whole := buffer.whole
  obtain ⟨single,ring⟩ := kind_sized buffer
  have some : 0 < buffer.words.length := by
    unfold BREAK_0 at enough
    omega
  have first := List.getElem?_eq_getElem some
  unfold initState
  rw [if_neg (Int.not_lt.mpr enough),first]
  generalize kind buffer.size = chosen at single ring
  obtain ⟨randType,randDeg,randSep⟩ := chosen
  have sized : Sized {randType, randDeg, randSep, intArgState := buffer.words[0], state := buffer.words.drop 1,
                      fptr := 0, rptr := 0} := ⟨single,ring⟩
  obtain ⟨g,seeded,ready,kept,after⟩ := seed_outputs sized s
  have made : ∀ w, Ready {g with intArgState := w} ∧ ∀ count, ∃ g', run {g with intArgState := w} (List.replicate count .next) =
      Option.some (outputs randType randDeg randSep s count,g') := by
    intro w
    refine ⟨ready_marked ready w,?_⟩
    intro count
    obtain ⟨g',ran⟩ := after count
    exact ⟨_,nexts_marked w count ran⟩
  simp only [Option.bind_eq_bind,Option.bind_some,seeded]
  split
  · exact ⟨_,rfl,(made _).1,kept.randType,kept.randDeg,kept.randSep,(made _).2⟩
  · exact ⟨_,rfl,(made _).1,kept.randType,kept.randDeg,kept.randSep,(made _).2⟩

-- Whatever the generator was asked before, what it puts out after a seed is what the seed
-- determines, and it stays within its buffer.
theorem random_outputs (buffer : Buffer) (s : UInt32) :
    ∃ made, initState s buffer.words buffer.size = some made ∧
      (∀ count, ∃ g, run made (List.replicate count .next) =
        some (outputs (kind buffer.size).1 (kind buffer.size).2.1 (kind buffer.size).2.2 s count,g)) ∧
      ∀ before x count, ∃ told g, run made (before ++ .seed x :: List.replicate count .next) =
        some (told ++ outputs (kind buffer.size).1 (kind buffer.size).2.1 (kind buffer.size).2.2 x count,g) := by
  obtain ⟨made,set,ready,randType,randDeg,randSep,first⟩ := initState_outputs buffer s
  refine ⟨made,set,first,?_⟩
  intro before x count
  obtain ⟨told,g,ran,ready',kept⟩ := run_ready ready before
  obtain ⟨g',seeded,_,_,after⟩ := seed_outputs (ready_sized ready') x
  obtain ⟨g'',last⟩ := after count
  rw [kept.randType,kept.randDeg,kept.randSep,randType,randDeg,randSep] at last
  refine ⟨told,g'',run_append ran ?_⟩
  rw [run,seeded]
  exact last

-- The smallest buffer with a ring of seven words.
def eightWords : Buffer := ⟨32,List.replicate 8 0,by decide,by decide⟩

-- Its first outputs after seed 1, also where it was used under another seed before.
theorem random_outputs_eight : ∃ made, initState 1 eightWords.words eightWords.size = some made ∧
    (∃ g, run made [.next,.next,.next] = some ([964237963,406111040,156505215],g)) ∧
    ∃ told g, run made ([.next,.seed 2,.next] ++ [.seed 1,.next,.next,.next]) = some (told ++ [964237963,406111040,156505215],g) := by
  obtain ⟨made,set,first,again⟩ := random_outputs eightWords 1
  obtain ⟨g,three⟩ := first 3
  have seen : ((initState 1 eightWords.words eightWords.size).bind fun g => run g (List.replicate 3 .next)).map Prod.fst =
      some [964237963,406111040,156505215] := by decide +kernel
  rw [set,Option.bind_some,three] at seen
  have told := Option.some.inj seen
  dsimp only at told
  have later := again [.next,.seed 2,.next] 1 3
  rw [told] at three later
  exact ⟨made,set,⟨g,three⟩,later⟩

end seeded

end GameServer.Common.RandomRuns
