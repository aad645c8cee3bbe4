import Mathlib.Data.List.Infix
import Mathlib.Data.List.TakeWhile

-- Strings that end with a stop symbol in a buffer of limited size, and the
-- search for a part of them up to a folding of symbols.
namespace GameServer.CStrings

section search
variable {α β : Type _} [DecidableEq α] [DecidableEq β]

-- Symbol by symbol, up to the end of the needle or the first difference.
def compare (fold : α → β) : List α → List α → Bool
  | [],_ => true
  | _ :: _,[] => false
  | n :: needle,c :: rest => fold n = fold c && compare fold needle rest

-- The rest of the buffer from the first place that the needle starts at, or
-- nothing if the stop comes before.
def scan (fold : α → β) (stop : α) (needle : List α) : List α → Option (List α)
  | [] => none
  | c :: rest =>
    if c = stop then none
    else if compare fold needle (c :: rest) then some (c :: rest)
    else scan fold stop needle rest

-- A search is one in a string: `none` is a buffer without a stop, which may be read
-- on behind its end wherever the needle is.
def find (fold : α → β) (stop : α) (needle buffer : List α) : Option (Option (List α)) :=
  if stop ∈ buffer then some (scan fold stop needle buffer) else none

-- Whether the second needle is at or behind the first place of the first one.
def ask (fold : α → β) (stop : α) (first second buffer : List α) : Option Bool :=
  (find fold stop first buffer).bind fun found => match found with
    | none => some false
    | some rest => (find fold stop second rest).map Option.isSome

def text (stop : α) (buffer : List α) : List α := buffer.takeWhile (· ≠ stop)

end search

section specification
variable {α β : Type _} (fold : α → β) (needle first second : List α)

def Starts (s : List α) : Prop := needle.map fold <+: s.map fold

def Within (s : List α) : Prop := needle.map fold <:+: s.map fold

-- If the second is behind some place of the first, it is behind the first such
-- place.
def Tells (s : List α) : Prop := ∃ front rest, front++rest = s ∧ Starts fold first rest ∧ Within fold second rest

-- The letters of the needle one by one from place i on, in whatever has a symbol at
-- each place.
def Spelled (symbol : Nat → Option α) (i : Nat) : Prop := ∀ k n, needle[k]? = some n → ∃ c, symbol (i+k) = some c ∧ fold n = fold c

end specification

section words
variable {α β : Type _} {fold : α → β} {needle first second : List α}

theorem starts_cons {n c : α} {s : List α} : Starts fold (n :: needle) (c :: s) ↔ fold n = fold c ∧ Starts fold needle s := by
  rw [Starts,List.map_cons,List.map_cons,List.cons_prefix_cons]
  rfl

theorem starts_length {s : List α} (starts : Starts fold needle s) : needle.length ≤ s.length := by
  have short := List.IsPrefix.length_le starts
  rwa [List.length_map,List.length_map] at short

theorem within_cons {c : α} {s : List α} : Within fold needle (c :: s) ↔ Starts fold needle (c :: s) ∨ Within fold needle s := by
  rw [Within,Starts,List.map_cons,List.infix_cons_iff]
  rfl

theorem within_length {s : List α} (within : Within fold needle s) : needle.length ≤ s.length := by
  have short := List.IsInfix.length_le within
  rwa [List.length_map,List.length_map] at short

theorem within_behind {front rest : List α} (within : Within fold needle rest) : Within fold needle (front++rest) := by
  rw [Within,List.map_append]
  exact List.IsInfix.trans within (List.suffix_append ..).isInfix

theorem tells_within {s : List α} (tells : Tells fold first second s) : Within fold second s := by
  obtain ⟨front,rest,rfl,_,within⟩ := tells
  exact within_behind within

theorem tells_length {s : List α} (tells : Tells fold first second s) : first.length ≤ s.length := by
  obtain ⟨front,rest,rfl,starts,_⟩ := tells
  rw [List.length_append]
  exact Nat.le_trans (starts_length starts) (Nat.le_add_left ..)

theorem tells_cons {c : α} {s : List α} :
    Tells fold first second (c :: s) ↔ Starts fold first (c :: s) ∧ Within fold second (c :: s) ∨ Tells fold first second s := by
  constructor
  · rintro ⟨front,rest,whole,starts,within⟩
    cases front with
    | nil =>
        cases whole
        exact .inl ⟨starts,within⟩
    | cons d front =>
        cases whole
        exact .inr ⟨front,rest,rfl,starts,within⟩
  · rintro (⟨starts,within⟩ | ⟨front,rest,rfl,starts,within⟩)
    · exact ⟨[],c :: s,rfl,starts,within⟩
    · exact ⟨c :: front,rest,rfl,starts,within⟩

-- The first place of the first needle is the best one.
theorem tells_first {c : α} {s : List α} (starts : Starts fold first (c :: s)) :
    Tells fold first second (c :: s) ↔ Within fold second (c :: s) :=
  ⟨tells_within,fun within => tells_cons.mpr (.inl ⟨starts,within⟩)⟩

theorem starts_spelled (s : List α) (i : Nat) : Starts fold needle (s.drop i) ↔ Spelled fold needle (s[·]?) i := by
  unfold Starts Spelled
  rw [List.prefix_iff_getElem?]
  constructor
  · intro starts k n there
    obtain ⟨inside,rfl⟩ := List.getElem?_eq_some_iff.mp there
    have letter := starts k (by rwa [List.length_map])
    rw [List.getElem?_map,List.getElem?_drop,List.getElem_map] at letter
    obtain ⟨c,here,same⟩ := Option.map_eq_some_iff.mp letter
    exact ⟨c,here,same.symm⟩
  · intro spelled k inside
    rw [List.length_map] at inside
    obtain ⟨c,here,same⟩ := spelled k _ (List.getElem?_eq_getElem inside)
    change s[i+k]? = some c at here
    rw [List.getElem?_map,List.getElem?_drop,here,List.getElem_map,same]
    rfl

theorem within_drop (s : List α) : Within fold needle s ↔ ∃ i, Starts fold needle (s.drop i) := by
  unfold Within Starts
  rw [List.infix_iff_prefix_suffix]
  constructor
  · rintro ⟨rest,starts,suffix⟩
    refine ⟨(s.map fold).length-rest.length,?_⟩
    rw [List.map_drop,←List.suffix_iff_eq_drop.mp suffix]
    exact starts
  · rintro ⟨i,starts⟩
    exact ⟨(s.drop i).map fold,starts,by rw [List.map_drop]; exact List.drop_suffix _ _⟩

-- By places: the second one not before the first.
theorem tells_spelled (s : List α) : Tells fold first second s ↔
    ∃ i j, i ≤ j ∧ Spelled fold first (s[·]?) i ∧ Spelled fold second (s[·]?) j := by
  constructor
  · rintro ⟨front,rest,rfl,starts,within⟩
    obtain ⟨k,later⟩ := (within_drop rest).mp within
    have whole : (front ++ rest).drop front.length = rest := List.drop_left
    refine ⟨front.length,front.length+k,Nat.le_add_right _ _,?_,?_⟩
    · rw [←starts_spelled,whole]
      exact starts
    · rw [←starts_spelled,←List.drop_drop,whole]
      exact later
  · rintro ⟨i,j,before,one,two⟩
    refine ⟨s.take i,s.drop i,List.take_append_drop i s,(starts_spelled s i).mpr one,(within_drop _).mpr ⟨j-i,?_⟩⟩
    rw [List.drop_drop,Nat.add_sub_cancel' before]
    exact (starts_spelled s j).mpr two

end words

section scan
variable {α β : Type _} [DecidableEq α] [DecidableEq β] {fold : α → β} {stop : α} {needle first second : List α}

theorem text_stop {rest : List α} : text stop (stop :: rest) = [] := List.takeWhile_cons_of_neg (by simp)

theorem text_cons {c : α} {rest : List α} (other : c ≠ stop) : text stop (c :: rest) = c :: text stop rest :=
  List.takeWhile_cons_of_pos (by simpa using other)

theorem text_free {s : List α} (free : stop ∉ s) : text stop s = s :=
  List.takeWhile_eq_self_iff.mpr fun c member => by simpa using fun equal : c = stop => free (equal ▸ member)

-- A buffer filled up with stops.
theorem text_padded (s : List α) (n : Nat) : text stop (s ++ List.replicate n stop) = text stop s := by
  induction s with
  | nil =>
      cases n with
      | zero => rfl
      | succ n => exact text_stop
  | cons c s ih =>
      by_cases stopped : c = stop
      · subst stopped
        rw [List.cons_append,text_stop,text_stop]
      · rw [List.cons_append,text_cons stopped,text_cons stopped,ih]

-- Comparing with a needle that knows no stop is comparing with the text.
theorem compare_text (apart : ∀ n ∈ needle, fold n ≠ fold stop) (s : List α) :
    compare fold needle s = true ↔ Starts fold needle (text stop s) := by
  induction needle generalizing s with
  | nil => exact iff_of_true rfl List.nil_prefix
  | cons n needle ih =>
      have short : ¬Starts fold (n :: needle) [] := fun starts => Nat.not_succ_le_zero _ (starts_length starts)
      cases s with
      | nil => exact iff_of_false Bool.false_ne_true short
      | cons c rest =>
          rw [compare,Bool.and_eq_true,decide_eq_true_iff]
          by_cases stopped : c = stop
          · subst stopped
            rw [text_stop]
            exact iff_of_false (fun both => apart n List.mem_cons_self both.1) short
          · rw [text_cons stopped,starts_cons,ih fun m member => apart m (List.mem_cons_of_mem _ member)]

-- One scan: where it finds the needle, and that it finds it where it is.
theorem scan_text (filled : needle ≠ []) (apart : ∀ n ∈ needle, fold n ≠ fold stop) (s : List α) :
    (scan fold stop needle s).isSome = true ↔ Within fold needle (text stop s) := by
  have unwritten : ¬Within fold needle [] := fun within => filled (List.eq_nil_of_length_eq_zero (Nat.le_zero.mp (within_length within)))
  induction s with
  | nil => exact iff_of_false Bool.false_ne_true unwritten
  | cons c rest ih =>
      rw [scan]
      by_cases stopped : c = stop
      · subst stopped
        rw [if_pos rfl,text_stop]
        exact iff_of_false Bool.false_ne_true unwritten
      · have here := compare_text apart (c :: rest)
        rw [if_neg stopped]
        rw [text_cons stopped] at here ⊢
        rw [within_cons]
        by_cases starts : compare fold needle (c :: rest) = true
        · rw [if_pos starts]
          exact iff_of_true rfl (.inl (here.mp starts))
        · rw [if_neg starts]
          exact ih.trans (or_iff_right (mt here.mpr starts)).symm

theorem find_text (filled : needle ≠ []) (apart : ∀ n ∈ needle, fold n ≠ fold stop) {s : List α} (ends : stop ∈ s) :
    (find fold stop needle s).map Option.isSome = some true ↔ Within fold needle (text stop s) := by
  rw [find,if_pos ends,Option.map_some,Option.some.injEq]
  exact scan_text filled apart s

-- Both searches: what the text says, if there is one.
theorem ask_text (filled : first ≠ [] ∧ second ≠ []) (apart : ∀ n ∈ first++second, fold n ≠ fold stop) (s : List α) :
    (ask fold stop first second s = none ↔ stop ∉ s) ∧
      (stop ∈ s → (ask fold stop first second s = some true ↔ Tells fold first second (text stop s))) := by
  have apartFirst : ∀ n ∈ first, fold n ≠ fold stop := fun n member => apart n (List.mem_append_left _ member)
  have apartSecond : ∀ n ∈ second, fold n ≠ fold stop := fun n member => apart n (List.mem_append_right _ member)
  have unsaid : ¬Tells fold first second [] := fun tells => filled.1 (List.eq_nil_of_length_eq_zero (Nat.le_zero.mp (tells_length tells)))
  -- The scan goes on behind a symbol that is not the stop and does not start the first one.
  have goes : ∀ s, stop ∈ s → ask fold stop first second s ≠ none ∧
      (ask fold stop first second s = some true ↔ Tells fold first second (text stop s)) := by
    intro s ends
    unfold ask
    rw [find,if_pos ends,Option.bind_some]
    induction s with
    | nil => cases ends
    | cons c rest ih =>
        rw [scan]
        by_cases stopped : c = stop
        · subst stopped
          rw [if_pos rfl,text_stop]
          exact ⟨nofun,iff_of_false (by simp) unsaid⟩
        · have later : stop ∈ rest := (List.mem_cons.mp ends).resolve_left (Ne.symm stopped)
          have here := compare_text apartFirst (c :: rest)
          rw [if_neg stopped]
          by_cases starts : compare fold first (c :: rest) = true
          · have told := find_text filled.2 apartSecond ends
            rw [if_pos starts]
            rw [text_cons stopped] at here told ⊢
            rw [tells_first (here.mp starts)]
            refine ⟨?_,told⟩
            dsimp only
            rw [find,if_pos ends]
            exact nofun
          · rw [if_neg starts,text_cons stopped,tells_cons]
            rw [text_cons stopped] at here
            rw [or_iff_right fun both => starts (here.mpr both.1)]
            exact ih later
  refine ⟨⟨fun nothing ends => (goes s ends).1 nothing,fun endless => ?_⟩,fun ends => (goes s ends).2⟩
  unfold ask
  rw [find,if_neg endless,Option.bind_none]

end scan
end GameServer.CStrings
