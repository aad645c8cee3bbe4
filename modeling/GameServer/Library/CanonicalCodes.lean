import Mathlib.Algebra.Order.Ring.Nat
import Mathlib.Data.List.Induction

-- Canonical prefix codes: symbols numbered from 0, each with the length of its
-- code (0 for a symbol that has none), codes in order of length and symbol.
namespace GameServer.CanonicalCodes

-- Bits read on from a number, the most significant first.
def extend (c : Nat) (w : List Bool) : Nat := w.foldl (fun c b => 2*c + b.toNat) c

def number (w : List Bool) : Nat := extend 0 w

def count (lengths : List Nat) (l : Nat) : Nat := if l = 0 then 0 else lengths.count l

-- The codes shorter than l.
def below (lengths : List Nat) : Nat → Nat
  | 0 => 0
  | l+1 => below lengths l + count lengths l

def firstCode (lengths : List Nat) : Nat → Nat
  | 0 => 0
  | l+1 => 2*(firstCode lengths l + count lengths l)

-- The symbols before s with a code as long as l.
def rank (lengths : List Nat) (l s : Nat) : Nat := (lengths.take s).count l

structure Codeword (lengths : List Nat) (s : Nat) (w : List Bool) : Prop where
  length : lengths[s]? = some w.length
  used : 0 < w.length
  code : number w = firstCode lengths w.length + rank lengths w.length s

variable {lengths : List Nat}

section numbers

theorem extend_cons (c : Nat) (b : Bool) (w : List Bool) : extend c (b :: w) = extend (2*c + b.toNat) w := rfl

theorem extend_append (c : Nat) (w v : List Bool) : extend c (w ++ v) = extend (extend c w) v := List.foldl_append

theorem extend_number (c : Nat) (w : List Bool) : extend c w = c * 2^w.length + number w := by
  unfold number
  induction w generalizing c with
  | nil => rw [List.length_nil,Nat.pow_zero,Nat.mul_one]; rfl
  | cons b w ih =>
      rw [extend_cons,extend_cons,ih,ih (2*0 + b.toNat),List.length_cons,Nat.pow_succ,Nat.add_mul,Nat.mul_zero,Nat.zero_add]
      rw [show 2*c*2^w.length = c*(2^w.length*2) by rw [Nat.mul_comm 2 c,Nat.mul_assoc,Nat.mul_comm 2],Nat.add_assoc]

theorem number_cons (b : Bool) (w : List Bool) : number (b :: w) = b.toNat * 2^w.length + number w := by
  unfold number
  rw [extend_cons,extend_number,Nat.mul_zero,Nat.zero_add]
  rfl

theorem number_lt (w : List Bool) : number w < 2^w.length := by
  induction w with
  | nil => exact Nat.one_pos
  | cons b w ih =>
      rw [number_cons,List.length_cons,Nat.pow_succ]
      cases b <;> simp <;> omega

theorem number_inj {w v : List Bool} (long : w.length = v.length) (same : number w = number v) : w = v := by
  induction w generalizing v with
  | nil => exact (List.length_eq_zero_iff.mp long.symm).symm
  | cons b w ih =>
      cases v with
      | nil => cases long
      | cons c v =>
          rw [List.length_cons,List.length_cons,Nat.succ.injEq] at long
          rw [number_cons,number_cons,long] at same
          have small := number_lt w
          have small' := number_lt v
          rw [long] at small
          cases b <;> cases c <;> simp at same
          · rw [ih long same]
          · omega
          · omega
          · rw [ih long same]

theorem number_prefix {w v : List Bool} (part : w <+: v) :
    number w * 2^(v.length - w.length) ≤ number v ∧ number v < (number w + 1) * 2^(v.length - w.length) := by
  obtain ⟨u,rfl⟩ := part
  have split : number (w ++ u) = number w * 2^u.length + number u := by
    unfold number
    rw [extend_append,extend_number]
    rfl
  have small := number_lt u
  rw [List.length_append,Nat.add_sub_cancel_left,split,Nat.succ_mul]
  omega

-- Every number of so many bits.
def bitsOf : Nat → Nat → List Bool
  | 0,_ => []
  | n+1,c => bitsOf n (c/2) ++ [decide (c % 2 = 1)]

theorem bitsOf_length (n c : Nat) : (bitsOf n c).length = n := by
  induction n generalizing c with
  | zero => rfl
  | succ n ih => rw [bitsOf,List.length_append,ih,List.length_singleton]

theorem number_bitsOf (small : c < 2^n) : number (bitsOf n c) = c := by
  induction n generalizing c with
  | zero => rw [Nat.pow_zero,Nat.lt_one_iff] at small; rw [small]; rfl
  | succ n ih =>
      unfold number bitsOf
      rw [extend_append]
      change 2*number (bitsOf n (c/2)) + (decide (c % 2 = 1)).toNat = c
      rw [ih (by rw [Nat.pow_succ] at small; omega)]
      rcases Nat.mod_two_eq_zero_or_one c with even | odd
      · rw [even]; show 2*(c/2) + 0 = c; omega
      · rw [odd]; show 2*(c/2) + 1 = c; omega

end numbers

section places

theorem count_pos (used : 0 < l) : count lengths l = lengths.count l := if_neg (by omega)

theorem rank_lt (here : lengths[s]? = some l) : rank lengths l s < lengths.count l := by
  obtain ⟨inside,same⟩ := List.getElem?_eq_some_iff.mp here
  have split : lengths = lengths.take s ++ lengths[s] :: lengths.drop (s+1) := by
    rw [List.getElem_cons_drop,List.take_append_drop]
  unfold rank
  conv_rhs => rw [split]
  rw [List.count_append,same,List.count_cons_self]
  omega

theorem rank_succ (here : lengths[s]? = some l) (k : Nat) :
    rank lengths k (s+1) = rank lengths k s + if l = k then 1 else 0 := by
  unfold rank
  rw [List.take_add_one,here,Option.toList_some,List.count_append,List.count_singleton]
  simp only [beq_iff_eq]

variable (lengths) in
theorem rank_mono (l : Nat) (le : s ≤ t) : rank lengths l s ≤ rank lengths l t :=
  (List.take_sublist_take_left le).count_le l

theorem rank_inj (one : lengths[s]? = some l) (two : lengths[t]? = some l) (same : rank lengths l s = rank lengths l t) : s = t := by
  have later : ∀ {s t : Nat}, lengths[s]? = some l → rank lengths l s = rank lengths l t → ¬s < t := by
    intro s t here same lt
    have step := rank_succ here l
    have := rank_mono lengths l (show s+1 ≤ t from lt)
    rw [if_pos rfl] at step
    omega
  have := later one same
  have := later two same.symm
  omega

-- The k-th symbol of a length.
variable (lengths) in
theorem rank_exists (l k : Nat) (few : k < lengths.count l) : ∃ s, lengths[s]? = some l ∧ rank lengths l s = k := by
  induction lengths using List.reverseRecOn with
  | nil => rw [List.count_nil] at few; omega
  | append_singleton front x ih =>
      have early : ∀ s < front.length, (front ++ [x])[s]? = front[s]? ∧ rank (front ++ [x]) l s = rank front l s := by
        intro s inside
        refine ⟨List.getElem?_append_left inside,?_⟩
        unfold rank
        rw [List.take_append_of_le_length (Nat.le_of_lt inside)]
      by_cases already : k < front.count l
      · obtain ⟨s,here,ranked⟩ := ih already
        have inside := (List.getElem?_eq_some_iff.mp here).1
        exact ⟨s,(early s inside).1.trans here,(early s inside).2.trans ranked⟩
      · rw [List.count_append,List.count_singleton] at few
        have last : x = l ∧ k = front.count l := by
          split at few
          · exact ⟨by simpa using ‹(x == l) = true›,by omega⟩
          · omega
        obtain ⟨rfl,rfl⟩ := last
        refine ⟨front.length,by simp,?_⟩
        unfold rank
        rw [List.take_left']
        rfl

variable (lengths) in
theorem below_mono (le : l ≤ m) : below lengths l ≤ below lengths m := by
  induction le with
  | refl => exact Nat.le_refl _
  | step _ ih => exact Nat.le_trans ih (Nat.le_add_right _ _)

-- Every place of a length lies between the places of shorter and of longer codes.
theorem place_lt (here : lengths[s]? = some l) (used : 0 < l) (le : l < m) : below lengths l + rank lengths l s < below lengths m := by
  have ranked := rank_lt here
  have step : below lengths (l+1) = below lengths l + lengths.count l := by rw [below,count_pos used]
  have := below_mono lengths (show l+1 ≤ m from le)
  omega

theorem place_inj (one : lengths[s]? = some l) (two : lengths[t]? = some m) (used : 0 < l) (used' : 0 < m)
    (same : below lengths l + rank lengths l s = below lengths m + rank lengths m t) : s = t := by
  rcases Nat.lt_trichotomy l m with lt | rfl | gt
  · have := place_lt one used lt
    omega
  · exact rank_inj one two (by omega)
  · have := place_lt two used' gt
    omega

theorem below_le (m : Nat) : below lengths m ≤ lengths.length := by
  have parts : below lengths m ≤ (lengths.filter fun l => decide (l < m)).length := by
    induction m with
    | zero => exact Nat.zero_le _
    | succ m ih =>
        have grows : ∀ front : List Nat, (front.filter fun l => decide (l < m)).length + front.count m =
            (front.filter fun l => decide (l < m+1)).length := by
          intro front
          induction front with
          | nil => rfl
          | cons x front ih' =>
              rw [List.filter_cons,List.filter_cons,List.count_cons]
              simp only [decide_eq_true_eq,beq_iff_eq]
              by_cases lt : x < m
              · rw [if_pos lt,if_pos (show x < m+1 by omega),if_neg (show ¬x = m by omega),List.length_cons,List.length_cons]
                omega
              · by_cases same : x = m
                · rw [if_neg lt,if_pos (show x < m+1 by omega),if_pos same,List.length_cons]
                  omega
                · rw [if_neg lt,if_neg (show ¬x < m+1 by omega),if_neg same]
                  omega
        have : count lengths m ≤ lengths.count m := by unfold count; split <;> omega
        have := grows lengths
        rw [below]
        omega
  exact Nat.le_trans parts (List.length_filter_le _ _)

end places

section codes

-- Going on from the last code of a length leaves at least the room of all of them.
variable (lengths) in
theorem firstCode_far (le : l < m) : (firstCode lengths l + count lengths l) * 2^(m-l) ≤ firstCode lengths m := by
  induction m with
  | zero => omega
  | succ m ih =>
      rw [firstCode]
      rcases Nat.lt_or_eq_of_le (show l ≤ m by omega) with lt | rfl
      · have := ih lt
        rw [Nat.succ_sub (Nat.le_of_lt lt),Nat.pow_succ,←Nat.mul_assoc]
        omega
      · rw [show l+1-l = 1 by omega,Nat.pow_one]
        omega

theorem codeword_unique (one : Codeword lengths s w) (two : Codeword lengths s v) : w = v := by
  have long : w.length = v.length := Option.some.inj (one.length.symm.trans two.length)
  refine number_inj long ?_
  rw [one.code,two.code,long]

-- No code begins another one, whatever the lengths.
theorem prefix_free (one : Codeword lengths s w) (two : Codeword lengths t v) (part : w <+: v) : s = t := by
  rcases Nat.lt_or_eq_of_le part.length_le with lt | long
  · have far := firstCode_far lengths lt
    have ranked := rank_lt one.length
    have code := two.code
    have beyond := ( number_prefix part).2
    rw [one.code] at beyond
    rw [count_pos one.used] at far
    have : (firstCode lengths w.length + rank lengths w.length s + 1) * 2^(v.length - w.length) ≤
        (firstCode lengths w.length + lengths.count w.length) * 2^(v.length - w.length) := Nat.mul_le_mul_right _ (by omega)
    omega
  · have same := part.eq_of_length long
    subst same
    have := one.code
    have := two.code
    exact rank_inj one.length two.length (by omega)

-- A number between the first code of a length and the last is the code of a symbol.
theorem code_symbol (from_first : firstCode lengths w.length ≤ number w)
    (to_last : number w < firstCode lengths w.length + count lengths w.length) :
    ∃ s, Codeword lengths s w ∧ number w = firstCode lengths w.length + rank lengths w.length s := by
  have used : 0 < w.length := by
    by_contra none
    rw [show w.length = 0 by omega,count,if_pos rfl] at to_last
    rw [show w.length = 0 by omega] at from_first
    omega
  rw [count_pos used] at to_last
  obtain ⟨s,here,ranked⟩ := rank_exists lengths w.length (number w - firstCode lengths w.length) (by omega)
  have code : number w = firstCode lengths w.length + rank lengths w.length s := by omega
  exact ⟨s,⟨here,used,code⟩,code⟩

theorem codeword_range (codeword : Codeword lengths s w) :
    firstCode lengths w.length ≤ number w ∧ number w < firstCode lengths w.length + count lengths w.length := by
  have ranked := rank_lt codeword.length
  have code := codeword.code
  rw [count_pos codeword.used]
  omega

end codes

section kraft

-- What the codes of the lengths below n take of 2^m.
def weightBelow (lengths : List Nat) (m n : Nat) : Nat :=
  (lengths.map fun l => if 0 < l ∧ l < n then 2^(m-l) else 0).sum

-- The inequality of Kraft for codes of at most m bits.
def Kraft (lengths : List Nat) (m : Nat) : Prop := weightBelow lengths m (m+1) ≤ 2^m

instance (lengths : List Nat) (m : Nat) : Decidable (Kraft lengths m) := inferInstanceAs (Decidable (_ ≤ _))

theorem weight_succ (lengths : List Nat) (m n : Nat) :
    weightBelow lengths m (n+1) = weightBelow lengths m n + count lengths n * 2^(m-n) := by
  unfold weightBelow
  rcases Nat.eq_zero_or_pos n with rfl | used
  · have same : ∀ l, (0 < l ∧ l < 0+1) ↔ 0 < l ∧ l < 0 := by omega
    rw [count,if_pos rfl,Nat.zero_mul]
    simp only [same,Nat.add_zero]
  · rw [count_pos used]
    induction lengths with
    | nil => simp
    | cons l rest ih =>
        rw [List.map_cons,List.sum_cons,List.map_cons,List.sum_cons,ih,List.count_cons]
        by_cases same : l = n
        · subst same
          rw [if_pos ⟨used,by omega⟩,if_neg (by omega),if_pos (by simp),Nat.add_mul,Nat.one_mul]
          omega
        · have unequal : (0 < l ∧ l < n+1) ↔ 0 < l ∧ l < n := by omega
          rw [if_neg (show ¬(l == n) = true by simpa using same)]
          simp only [unequal,Nat.add_zero]
          omega

theorem weight_first (le : n ≤ m) : weightBelow lengths m n = firstCode lengths n * 2^(m-n) := by
  induction n with
  | zero =>
      have none : ∀ l, ¬(0 < l ∧ l < 0) := by omega
      simp only [weightBelow,none,if_false,firstCode,Nat.zero_mul]
      induction lengths with
      | nil => rfl
      | cons l rest ih => rw [List.map_cons,List.sum_cons,ih]
  | succ n ih =>
      rw [weight_succ,ih (by omega),firstCode,show m-n = (m-(n+1))+1 by omega,Nat.pow_succ,←Nat.add_mul,Nat.mul_comm _ 2,
        ←Nat.mul_assoc,Nat.mul_comm _ 2]

variable (lengths) in
theorem weight_mono (m : Nat) (le : k ≤ n) : weightBelow lengths m k ≤ weightBelow lengths m n := by
  induction le with
  | refl => exact Nat.le_refl _
  | step _ ih => exact Nat.le_trans ih (by rw [weight_succ]; exact Nat.le_add_right _ _)

-- With the inequality, every symbol that is to have a code has one.
theorem kraft_codeword (kraft : Kraft lengths m) (here : lengths[s]? = some l) (used : 0 < l) (le : l ≤ m) :
    ∃ w, Codeword lengths s w := by
  have ranked := rank_lt here
  have weight := weight_mono lengths m (show l+1 ≤ m+1 by omega)
  rw [weight_succ,weight_first le,←Nat.add_mul,count_pos used] at weight
  have room : (firstCode lengths l + lengths.count l) * 2^(m-l) ≤ 2^l * 2^(m-l) := by
    rw [←Nat.pow_add,show l+(m-l) = m by omega]
    exact Nat.le_trans weight kraft
  have fits := Nat.le_of_mul_le_mul_right room (Nat.two_pow_pos _)
  refine ⟨bitsOf l (firstCode lengths l + rank lengths l s),?_⟩
  constructor
  case length => rw [bitsOf_length]; exact here
  case used => rw [bitsOf_length]; exact used
  case code => rw [bitsOf_length,number_bitsOf (by omega)]

end kraft

end GameServer.CanonicalCodes
