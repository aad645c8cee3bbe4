import GameServer.Library.CStrings

namespace GameServer.WorldServer
open CStrings

-- MAX_RET_LEN
def maxRetLen : Nat := 1024

-- The buffer after one call and what the call returns.
def recvret (data buf : List UInt8) : List UInt8 × Nat :=
  let nsize := data.length
  if nsize > maxRetLen then (data.take maxRetLen ++ buf.drop maxRetLen,maxRetLen)
  else (data ++ buf.drop nsize,nsize)

-- What the network has for a url within a timeout: the data of one call of the
-- write function after the other, or nothing if the transfer fails.
abbrev Curl := String → Int → Option (List (List UInt8))

-- A call that does not return the size of its data ends the transfer with
-- CURLE_WRITE_ERROR. Only for CURLE_OK there is a result: the buffer.
def curl_easy_perform (buf : List UInt8) : List (List UInt8) → Option (List UInt8)
  | [] => some buf
  | data :: rest =>
    let (buf,taken) := recvret data buf
    if taken = data.length then curl_easy_perform buf rest else none

-- In the "C" locale.
def tolower (c : UInt8) : UInt8 := if 65 ≤ c ∧ c ≤ 90 then c+32 else c

-- "msg" and "ok"
def msg : List UInt8 := [109,115,103]
def ok : List UInt8 := [111,107]

-- Two calls of strcasestr on the buffer. `none`: the buffer holds no string, and they may
-- read on behind it.
def answer (transfer : Option (List (List UInt8))) : Option Bool :=
  match transfer.bind (curl_easy_perform (List.replicate maxRetLen 0)) with
  | some buffer => ask tolower 0 msg ok buffer
  | none => some false

def do_http_request (curl : Curl) (url : String) (timeout : Int) : Option Bool := answer (curl url timeout)

structure Cfg where
  appid : String
  remoteUrl : String

-- The stream with the uid, the appid and the token is written and not used.
def do_http_request_for_login (curl : Curl) (cfg : Cfg) (_accid : UInt32) (_token : String) (timeout : Int) : Option Bool :=
  let url := cfg.remoteUrl
  answer (curl url timeout)

-- The byte that the calls leave at a place: that of the last call that got so far.
def byteAt (chunks : List (List UInt8)) (place : Nat) : Option UInt8 := (chunks.reverse.find? (place < ·.length)).bind (·[place]?)

-- What the calls leave of their data.
def left : List (List UInt8) → List UInt8
  | [] => []
  | data :: rest => left rest ++ data.drop (left rest).length

section buffer
variable {chunks : List (List UInt8)} {buf : List UInt8}

theorem left_sub {b : UInt8} (member : b ∈ left chunks) : b ∈ chunks.flatten := by
  induction chunks with
  | nil => exact member
  | cons data rest ih =>
      rw [List.flatten_cons,List.mem_append]
      rcases List.mem_append.mp member with later | here
      · exact .inr (ih later)
      · exact .inl (List.mem_of_mem_drop here)

theorem left_bound {bound : Nat} (fits : ∀ data ∈ chunks, data.length ≤ bound) : (left chunks).length ≤ bound := by
  induction chunks with
  | nil => exact Nat.zero_le _
  | cons data rest ih =>
      have later := ih fun data member => fits data (List.mem_cons_of_mem _ member)
      have here := fits data List.mem_cons_self
      rw [left,List.length_append,List.length_drop]
      omega

theorem left_at (j : Nat) : (left chunks)[j]? = byteAt chunks j := by
  unfold byteAt
  induction chunks with
  | nil => rfl
  | cons data rest ih =>
      rw [left,List.reverse_cons,List.find?_append,List.getElem?_append]
      cases last : rest.reverse.find? (j < ·.length) with
      | some later =>
          have long : j < later.length := by simpa using List.find?_some last
          rw [last,Option.bind_some,List.getElem?_eq_getElem long] at ih
          obtain ⟨inside,_⟩ := List.getElem?_eq_some_iff.mp ih
          rw [if_pos inside,ih,Option.some_or,Option.bind_some,List.getElem?_eq_getElem long]
      | none =>
          rw [last,Option.bind_none,List.getElem?_eq_none_iff] at ih
          rw [if_neg (Nat.not_lt.mpr ih),List.getElem?_drop,Nat.add_sub_cancel' ih,Option.none_or,List.find?_singleton]
          by_cases long : j < data.length
          · rw [if_pos (decide_eq_true long),Option.bind_some]
          · rw [if_neg (by simpa using long),Option.bind_none,List.getElem?_eq_none (Nat.le_of_not_lt long)]

theorem left_whole (data : List UInt8) : left [data] = data := rfl

-- They get as far as the longest of them.
theorem left_reaches (n : Nat) : n < (left chunks).length ↔ ∃ data ∈ chunks, n < data.length := by
  induction chunks with
  | nil => simp [left]
  | cons data rest ih =>
      rw [left,List.length_append,List.length_drop,List.exists_mem_cons_iff,←ih]
      omega

theorem part_length {data : List UInt8} (member : data ∈ chunks) : data.length ≤ chunks.flatten.length :=
  (List.sublist_flatten_of_mem member).length_le

-- A transfer of calls that fit: what they leave, and behind it the buffer as it was.
theorem perform_fits (fits : ∀ data ∈ chunks, data.length ≤ maxRetLen) :
    curl_easy_perform buf chunks = some (left chunks ++ buf.drop (left chunks).length) := by
  induction chunks generalizing buf with
  | nil => rfl
  | cons data rest ih =>
      have here := fits data List.mem_cons_self
      rw [curl_easy_perform,recvret,if_neg (Nat.not_lt.mpr here)]
      dsimp only
      rw [if_pos rfl,ih (fun data member => fits data (List.mem_cons_of_mem _ member)),left,List.drop_append,List.drop_drop,
        ←List.append_assoc,List.length_append,List.length_drop]
      congr 3
      omega

-- A longer call fails the transfer.
theorem perform_long (long : ∃ data ∈ chunks, maxRetLen < data.length) : curl_easy_perform buf chunks = none := by
  induction chunks generalizing buf with
  | nil =>
      obtain ⟨_,member,_⟩ := long
      cases member
  | cons data rest ih =>
      rw [curl_easy_perform,recvret]
      by_cases here : data.length > maxRetLen
      · rw [if_pos here]
        exact if_neg (Nat.ne_of_lt here)
      · obtain ⟨other,member,longer⟩ := long
        rw [if_neg here]
        dsimp only
        rw [if_pos rfl]
        rcases List.mem_cons.mp member with rfl | later
        · exact absurd longer here
        · exact ih ⟨other,later,longer⟩

end buffer

-- "ok" at or behind the first "msg".
abbrev SaysOk (body : List UInt8) : Prop := Tells tolower msg ok body

section replies
variable {chunks : List (List UInt8)}

theorem needles : msg ≠ [] ∧ ok ≠ [] := by decide

theorem needles_apart : ∀ n ∈ msg++ok, tolower n ≠ tolower 0 := by
  have all : (msg++ok).all (fun n => tolower n ≠ tolower 0) = true := by decide
  exact fun n member => of_decide_eq_true (List.all_eq_true.mp all n member)

theorem answer_fits (fits : ∀ data ∈ chunks, data.length ≤ maxRetLen) :
    (answer (some chunks) = none ↔ 0 ∉ left chunks ∧ (left chunks).length = maxRetLen) ∧
      (answer (some chunks) ≠ none → (answer (some chunks) = some true ↔ SaysOk (text 0 (left chunks)))) := by
  have buffer : curl_easy_perform (List.replicate maxRetLen 0) chunks =
      some (left chunks ++ List.replicate (maxRetLen-(left chunks).length) 0) := by
    rw [perform_fits fits,List.drop_replicate]
  have room := left_bound fits
  obtain ⟨behind,yes⟩ := ask_text needles needles_apart (left chunks ++ List.replicate (maxRetLen-(left chunks).length) 0)
  rw [text_padded] at yes
  rw [answer,Option.bind_some,buffer]
  refine ⟨behind.trans ?_,fun inside => yes (Classical.not_not.mp (mt behind.mpr inside))⟩
  rw [List.mem_append,not_or,List.mem_replicate]
  refine and_congr_right fun _ => ⟨fun none => ?_,fun full => by omega⟩
  have : ¬maxRetLen-(left chunks).length ≠ 0 := fun some => none ⟨some,rfl⟩
  omega

theorem answer_long (long : ∃ data ∈ chunks, maxRetLen < data.length) : answer (some chunks) = some false := by
  rw [answer,Option.bind_some,perform_long long]

-- A body without NUL that a buffer holds: the answer is what its calls leave says.
theorem answer_short (free : 0 ∉ chunks.flatten) (short : chunks.flatten.length ≤ 1023) :
    (answer (some chunks) = some true ↔ SaysOk (left chunks)) ∧ answer (some chunks) ≠ none := by
  have fits : ∀ data ∈ chunks, data.length ≤ 1023 := fun data member => Nat.le_trans (part_length member) short
  obtain ⟨behind,yes⟩ := answer_fits fun data member => Nat.le_succ_of_le (fits data member)
  have inside : answer (some chunks) ≠ none := by
    intro none
    have full : (left chunks).length = 1024 := (behind.mp none).2
    have room := left_bound fits
    omega
  have told := yes inside
  rw [text_free fun member => free (left_sub member)] at told
  exact ⟨told,inside⟩

end replies

-- The network with one reply for all urls.
def delivers (chunks : List (List UInt8)) : Curl := fun _ _ => some chunks

-- The answer is the one for the body in one call, which is whether it says ok, and
-- nothing is read behind the buffer.
structure Unsegmented (request : Curl → Option Bool) (chunks : List (List UInt8)) : Prop where
  same : 0 ∉ chunks.flatten → chunks.flatten.length ≤ 1023 → request (delivers chunks) = request (delivers [chunks.flatten])
  whole : 0 ∉ chunks.flatten → chunks.flatten.length ≤ 1023 →
    request (delivers [chunks.flatten]) = some true ∧ SaysOk chunks.flatten ∨
      request (delivers [chunks.flatten]) = some false ∧ ¬SaysOk chunks.flatten
  inside : request (delivers chunks) ≠ none

-- The letters of "msg" from some place on and those of "ok" from it or a later one on,
-- among the bytes that the calls leave.
def LeavesOk (chunks : List (List UInt8)) : Prop :=
  ∃ i j, i ≤ j ∧ Spelled tolower msg (byteAt chunks) i ∧ Spelled tolower ok (byteAt chunks) j

-- Of a short body they leave the letters if it says ok, and no others that do; and where
-- they fill the buffer they leave a NUL.
structure Kept (chunks : List (List UInt8)) : Prop where
  saying : 0 ∉ chunks.flatten → chunks.flatten.length ≤ 1023 → (LeavesOk chunks ↔ SaysOk chunks.flatten)
  ending : (∀ data ∈ chunks, data.length ≤ maxRetLen) → (∃ data ∈ chunks, data.length = maxRetLen) → ∃ place, byteAt chunks place = some 0

theorem leaves_told (chunks : List (List UInt8)) : SaysOk (left chunks) ↔ LeavesOk chunks := by
  have bytes : ((left chunks)[·]?) = byteAt chunks := funext left_at
  unfold LeavesOk SaysOk
  rw [tells_spelled,bytes]

-- The buffer is full and has no NUL.
theorem leaves_full (fits : ∀ data ∈ chunks, data.length ≤ maxRetLen) : (0 ∉ left chunks ∧ (left chunks).length = maxRetLen) ↔
    (∃ data ∈ chunks, data.length = maxRetLen) ∧ ∀ place, byteAt chunks place ≠ some 0 := by
  have room := left_bound fits
  have reaches : 1023 < (left chunks).length ↔ ∃ data ∈ chunks, 1023 < data.length := left_reaches 1023
  have filled : (left chunks).length = maxRetLen ↔ ∃ data ∈ chunks, data.length = maxRetLen := by
    constructor
    · intro full
      obtain ⟨data,member,long⟩ := reaches.mp (by rw [full]; decide)
      exact ⟨data,member,Nat.le_antisymm (fits data member) long⟩
    · rintro ⟨data,member,full⟩
      have long := reaches.mpr ⟨data,member,by rw [full]; decide⟩
      exact Nat.le_antisymm room long
  rw [and_comm,filled,List.mem_iff_getElem?,not_exists]
  simp only [left_at]

theorem bool_eq {a b : Option Bool} (full : a ≠ none) (full' : b ≠ none) : a = b ↔ (a = some true ↔ b = some true) := by
  rcases a with _ | _ | _ <;> rcases b with _ | _ | _ <;> simp at *

theorem answer_unsegmented (chunks : List (List UInt8)) : Unsegmented (fun curl => answer (curl url timeout)) chunks ↔ Kept chunks := by
  have single (free : 0 ∉ chunks.flatten) (short : chunks.flatten.length ≤ 1023) :
      (answer (some [chunks.flatten]) = some true ↔ SaysOk chunks.flatten) ∧ answer (some [chunks.flatten]) ≠ none := by
    have flat : 0 ∉ [chunks.flatten].flatten ∧ [chunks.flatten].flatten.length ≤ 1023 := by
      rw [List.flatten_singleton]
      exact ⟨free,short⟩
    have one := answer_short flat.1 flat.2
    rwa [left_whole] at one
  have inside_iff : answer (some chunks) ≠ none ↔ ((∀ data ∈ chunks, data.length ≤ maxRetLen) →
      (∃ data ∈ chunks, data.length = maxRetLen) → ∃ place, byteAt chunks place = some 0) := by
    by_cases fits : ∀ data ∈ chunks, data.length ≤ maxRetLen
    · rw [Ne,(answer_fits fits).1,leaves_full fits]
      constructor
      · intro inside _ full
        by_contra missing
        exact inside ⟨full,fun place here => missing ⟨place,here⟩⟩
      · rintro kept ⟨full,missing⟩
        obtain ⟨place,here⟩ := kept fits full
        exact missing place here
    · refine iff_of_true ?_ fun fits' => absurd fits' fits
      rw [answer_long (by simpa using fits)]
      simp
  constructor
  · intro same
    refine ⟨fun free short => ?_,inside_iff.mp same.inside⟩
    obtain ⟨many,told⟩ := answer_short free short
    obtain ⟨one,told'⟩ := single free short
    rw [←leaves_told,←many,←one]
    exact (bool_eq told told').mp (same.same free short)
  · intro kept
    refine ⟨fun free short => ?_,fun free short => ?_,inside_iff.mpr kept.ending⟩
    · obtain ⟨many,told⟩ := answer_short free short
      obtain ⟨one,told'⟩ := single free short
      rw [leaves_told] at many
      exact (bool_eq told told').mpr (many.trans ((kept.saying free short).trans one.symm))
    · obtain ⟨one,told⟩ := single free short
      by_cases yes : SaysOk chunks.flatten
      · exact .inl ⟨one.mpr yes,yes⟩
      · refine .inr ⟨?_,yes⟩
        have unsaid := mt one.mp yes
        change answer (some [chunks.flatten]) = some false
        revert told unsaid
        rcases answer (some [chunks.flatten]) with _ | _ | _ <;> simp

-- In one call that leaves room for the terminator.
theorem kept_one {body : List UInt8} (short : body.length < maxRetLen) : Kept [body] where
  saying _ _ := by rw [←leaves_told,left_whole,List.flatten_singleton]
  ending _ full := by
    obtain ⟨data,member,full⟩ := full
    rw [List.mem_singleton.mp member] at full
    exact absurd full (Nat.ne_of_lt short)

-- Byte by byte no body says ok.
theorem bytewise_lost {body : List UInt8} (free : 0 ∉ body) (short : body.length ≤ 1023) (yes : SaysOk body) :
    ¬Kept (body.map fun b => [b]) := by
  have whole : (body.map fun b => [b]).flatten = body := List.flatMap_singleton' body
  intro kept
  have last := (leaves_told _).mpr ((kept.saying (by rwa [whole]) (by rwa [whole])).mpr (by rwa [whole]))
  have one : (left (body.map fun b => [b])).length ≤ 1 :=
    left_bound fun data member => by
      obtain ⟨b,_,rfl⟩ := List.mem_map.mp member
      exact Nat.le_refl 1
  exact absurd (Nat.le_trans (tells_length last) one) (by decide)

theorem unsegmented_iff (chunks : List (List UInt8)) (url : String) (timeout : Int) (cfg : Cfg) (accid : UInt32)
    (token : String) (seconds : Int) :
    (Unsegmented (fun curl => do_http_request curl url timeout) chunks ∧
        Unsegmented (fun curl => do_http_request_for_login curl cfg accid token seconds) chunks) ↔ Kept chunks :=
  (and_congr (answer_unsegmented chunks) (answer_unsegmented chunks)).trans and_self_iff

-- "msgok" in one call is yes; "msg" and then "ok" leaves "okg".
theorem reply_cut : ¬Unsegmented (fun curl => do_http_request curl "" 3) [[109,115,103],[111,107]] := by
  intro same
  have equal := same.same (by decide) (by decide)
  revert equal
  decide

end GameServer.WorldServer
