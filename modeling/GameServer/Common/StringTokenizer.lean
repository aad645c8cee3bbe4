import Mathlib.Algebra.GroupWithZero.Nat
import Mathlib.Algebra.Ring.Int.Defs
import Mathlib.Data.List.TakeWhile

namespace GameServer

-- StringTokenizer with no options. `token` is what is read of the next token,
-- backwards; behind a last separator there is no token.
def StringTokenizer.scan (separator : Char) (token : List Char) : List Char → List (List Char)
  | [] => if token = [] then [] else [token.reverse]
  | c :: str => if c = separator then token.reverse :: scan separator [] str else scan separator (c :: token) str

def StringTokenizer (str : List Char) (separator : Char) : List (List Char) := StringTokenizer.scan separator [] str

def isSpace (c : Char) : Bool := c = ' ' || '\t'.toNat ≤ c.toNat && c.toNat ≤ '\r'.toNat

-- strtoll in base 10: spaces, a sign and digits, up to the bounds of 64 bits.
def strtoll (str : List Char) : Int :=
  let digits (str : List Char) : Int := Nat.ofDigitChars 10 (str.takeWhile Char.isDigit) 0
  let value := match str.dropWhile isSpace with
    | '-' :: str => -digits str
    | '+' :: str => digits str
    | str => digits str
  max (-2^63) (min (2^63-1) value)

def atoll (str : List Char) : Int := strtoll str
def atoi (str : List Char) : Int := (strtoll str).bmod (2^32)

-- %u
def decimal (n : UInt32) : List Char := Nat.toDigits 10 n.toNat

namespace StringTokenizer

theorem scan_token (token : List Char) {segment : List Char} (rest : List Char) (plain : separator ∉ segment) :
    scan separator token (segment++rest) = scan separator (segment.reverse++token) rest := by
  induction segment generalizing token with
  | nil => rfl
  | cons c segment ih =>
      have other : c ≠ separator := fun same => plain (same ▸ List.mem_cons_self)
      have later : separator ∉ segment := fun member => plain (List.mem_cons_of_mem _ member)
      rw [List.cons_append,scan,if_neg other,ih _ later]
      simp

theorem token_then {segment : List Char} (rest : List Char) (plain : separator ∉ segment) :
    StringTokenizer (segment++separator :: rest) separator = segment :: StringTokenizer rest separator := by
  rw [StringTokenizer,scan_token [] _ plain,scan,if_pos rfl]
  simp [StringTokenizer]

theorem last_token {segment : List Char} (some : segment ≠ []) (plain : separator ∉ segment) :
    StringTokenizer segment separator = [segment] := by
  have all := scan_token [] [] plain
  rw [List.append_nil,List.append_nil] at all
  rw [StringTokenizer,all,scan,if_neg (by simpa using some),List.reverse_reverse]

theorem tokens_front {segments : List (List Char)} (rest : List Char) (plain : ∀ segment ∈ segments, separator ∉ segment) :
    StringTokenizer ((segments.flatMap fun segment => segment++[separator])++rest) separator = segments++StringTokenizer rest separator := by
  induction segments with
  | nil => rfl
  | cons segment segments ih =>
      rw [List.flatMap_cons,List.append_assoc,List.append_assoc,List.singleton_append,token_then _ (plain _ List.mem_cons_self),
        ih fun other member => plain other (List.mem_cons_of_mem _ member)]
      rfl

end StringTokenizer

theorem decimal_digits (n : UInt32) : ∀ c ∈ decimal n, c.isDigit = true := fun _ member => Nat.isDigit_of_mem_toDigits (by decide) (by decide) member

theorem decimal_some (n : UInt32) : decimal n ≠ [] := Nat.toDigits_ne_nil

theorem digit_plain {c : Char} (digit : c.isDigit = true) : isSpace c = false ∧ c ≠ '-' ∧ c ≠ '+' ∧ c ≠ ',' ∧ c ≠ '|' := by
  have other (mark : Char) (no : mark.isDigit = false) : c ≠ mark := by
    intro same
    rw [same,no] at digit
    cases digit
  refine ⟨?_,other _ rfl,other _ rfl,other _ rfl,other _ rfl⟩
  have least : 48 ≤ c.toNat := by
    simp only [Char.isDigit,Bool.and_eq_true,decide_eq_true_eq] at digit
    exact digit.1
  have last : '\r'.toNat = 13 := rfl
  simp only [isSpace,Bool.or_eq_false_iff,decide_eq_false_iff_not,Bool.and_eq_false_iff,decide_eq_false_iff_not,last]
  exact ⟨other _ rfl,Or.inr (by omega)⟩

theorem strtoll_digits {str : List Char} (some : str ≠ []) (digits : ∀ c ∈ str, c.isDigit = true) (small : Nat.ofDigitChars 10 str 0 < 2^63) :
    strtoll str = Nat.ofDigitChars 10 str 0 := by
  have whole := List.takeWhile_eq_self_iff.mpr digits
  cases shown : str with
  | nil => exact absurd shown some
  | cons c rest =>
      rw [shown] at digits whole small
      obtain ⟨space,minus,plus,_⟩ := digit_plain (digits c List.mem_cons_self)
      unfold strtoll
      simp only [List.dropWhile_cons,space,Bool.false_eq_true,↓reduceIte]
      split
      · rename_i same
        exact absurd (List.cons.inj same).1 minus
      · rename_i same
        exact absurd (List.cons.inj same).1 plus
      · rw [whole]
        omega

theorem strtoll_decimal (n : UInt32) : strtoll (decimal n) = n.toNat := by
  have few := n.toNat_lt
  have value : Nat.ofDigitChars 10 (decimal n) 0 = n.toNat := Nat.ofDigitChars_ten_toDigits
  rw [strtoll_digits (decimal_some n) (decimal_digits n) (by omega),value]

theorem atoi_decimal (n : UInt32) (small : n.toNat < 2^31) : atoi (decimal n) = n.toNat := by
  rw [atoi,strtoll_decimal,Int.bmod_eq_of_le] <;> omega

end GameServer
