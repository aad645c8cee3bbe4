import GameServer.Library.Memory

namespace GameServer.JsonProxy
open Bytes Memory

-- What a blocking recv meets: an error, or bytes to hand over, none where the peer
-- has closed the connection.
abbrev Arrival := Option (List UInt8)

-- recv() of at most n bytes: what it returns and what it puts into the buffer.
def recv (arrival : Arrival) (n : Nat) : Int × List UInt8 :=
  match arrival with
  | none => (-1,[])
  | some data => ((data.take n).length,data.take n)

-- The count returned, the memory from buf on and what was written there (offset,
-- length).
structure Outcome where
  count : Int
  buf : Nat → UInt8
  writes : List (Nat × Nat)

def read_jason_req (buf : Nat → UInt8) (header payload : Arrival) : Outcome :=
  let (read_len1,head) := recv header 5
  let buf := store buf 0 head
  if read_len1 ≠ 5 then ⟨0,buf,[(0,head.length)]⟩
  else
    let len := ofBytes (window buf 0 2)
    if len ≤ 0 then ⟨0,buf,[(0,head.length)]⟩
    else if len ≥ 16*1024-6 then ⟨0,buf,[(0,head.length)]⟩
    else
      let (read_len2,body) := recv payload len
      let buf := store buf 5 body
      if read_len2 ≠ len then ⟨0,buf,[(0,head.length),(5,body.length)]⟩
      else ⟨read_len1+read_len2,buf,[(0,head.length),(5,body.length)]⟩

-- The length is not compared with the buffer.
def read_jason_rep (buf : Nat → UInt8) (header payload : Arrival) : Outcome :=
  let (read_len1,head) := recv header 4
  let buf := store buf 0 head
  if read_len1 ≠ 4 then ⟨0,buf,[(0,head.length)]⟩
  else
    let len := ofBytes (window buf 0 2)
    if len ≤ 0 then ⟨0,buf,[(0,head.length)]⟩
    else
      let (read_len2,body) := recv payload len
      let buf := store buf 4 body
      if read_len2 ≠ len then ⟨0,buf,[(0,head.length),(4,body.length)]⟩
      else ⟨read_len1+read_len2,buf,[(0,head.length),(4,body.length)]⟩

-- The caller's buffer, char buf[16*1024].
def bufferSize : Nat := 16*1024

def Inside (o : Outcome) : Prop := (∀ w ∈ o.writes, w.1+w.2 ≤ bufferSize) ∧ o.count ≤ bufferSize

theorem recv_le (arrival : Arrival) (n : Nat) : (recv arrival n).2.length ≤ n ∧ (recv arrival n).1 ≤ (recv arrival n).2.length := by
  cases arrival with
  | none => exact ⟨Nat.zero_le n,Int.negSucc_le_zero 0⟩
  | some data => exact ⟨List.length_take_le n data,Int.le_refl _⟩

theorem recv_whole (data : List UInt8) (many : n ≤ data.length) : recv (some data) n = ((n : Int),data.take n) := by
  rw [recv,List.length_take,Nat.min_eq_left many]

-- What stands outside the writes stays.
def Frame (buf : Nat → UInt8) (o : Outcome) : Prop :=
  ∀ x, (∀ w ∈ o.writes, x < w.1 ∨ w.1+w.2 ≤ x) → o.buf x = buf x

theorem frame_one (buf : Nat → UInt8) (count : Int) (head : List UInt8) : Frame buf ⟨count,store buf 0 head,[(0,head.length)]⟩ := by
  intro x outside
  exact store_outside (outside (0,head.length) List.mem_cons_self)

theorem frame_two (buf : Nat → UInt8) (count : Int) (head body : List UInt8) (at_ : Nat) :
    Frame buf ⟨count,store (store buf 0 head) at_ body,[(0,head.length),(at_,body.length)]⟩ := by
  intro x outside
  obtain ⟨first,second,_⟩ := List.forall_mem_cons.mp outside |>.imp id List.forall_mem_cons.mp
  exact (store_outside second).trans (store_outside first)

theorem req_frame (buf : Nat → UInt8) (header payload : Arrival) : Frame buf (read_jason_req buf header payload) := by
  unfold read_jason_req
  dsimp only
  split
  · exact frame_one _ _ _
  · split
    · exact frame_one _ _ _
    · split
      · exact frame_one _ _ _
      · split
        · exact frame_two _ _ _ _ _
        · exact frame_two _ _ _ _ _

theorem rep_frame (buf : Nat → UInt8) (header payload : Arrival) : Frame buf (read_jason_rep buf header payload) := by
  unfold read_jason_rep
  dsimp only
  split
  · exact frame_one _ _ _
  · split
    · exact frame_one _ _ _
    · split
      · exact frame_two _ _ _ _ _
      · exact frame_two _ _ _ _ _

theorem frame_behind (frame : Frame buf o) (inside : Inside o) (x : Nat) (behind : bufferSize ≤ x) : o.buf x = buf x := by
  apply frame
  intro w member
  have fits := inside.1 w member
  omega

theorem inside_one (count : Int) (buf : Nat → UInt8) (small : n ≤ 5) (low : count ≤ bufferSize) : Inside ⟨count,buf,[(0,n)]⟩ := by
  refine ⟨?_,low⟩
  intro w member
  cases List.mem_singleton.mp member
  unfold bufferSize
  omega

theorem inside_two (count : Int) (buf : Nat → UInt8) (small : n ≤ 5) :
    Inside ⟨count,buf,[(0,n),(at_,m)]⟩ ↔ at_+m ≤ bufferSize ∧ count ≤ bufferSize := by
  have first : 0+n ≤ bufferSize := by unfold bufferSize; omega
  simp only [Inside,List.forall_mem_cons,first,true_and]
  simp

theorem req_inside (buf : Nat → UInt8) (header payload : Arrival) : Inside (read_jason_req buf header payload) := by
  obtain ⟨small,below⟩ := recv_le header 5
  unfold read_jason_req
  dsimp only
  split
  · exact inside_one _ _ small (by decide)
  · split
    · exact inside_one _ _ small (by decide)
    · split
      · exact inside_one _ _ small (by decide)
      · rename_i five some_ short
        obtain ⟨less,returned⟩ := recv_le payload (ofBytes (window (store buf 0 (recv header 5).2) 0 2))
        split
        · refine (inside_two _ _ small).mpr ⟨?_,by decide⟩
          unfold bufferSize
          omega
        · refine (inside_two _ _ small).mpr ⟨?_,?_⟩
          · unfold bufferSize
            omega
          · unfold bufferSize
            omega

-- The payload of a reply: at most the 16-bit length of its header arrives, and that
-- fits behind the four bytes.
def ReplyFits (header payload : Arrival) : Prop :=
  ∀ head body, header = some head → payload = some body → 4 ≤ head.length →
    min (ofBytes (head.take 2)) body.length ≤ bufferSize-4

theorem header_window (buf : Nat → UInt8) {head : List UInt8} (whole : 4 ≤ head.length) :
    window (store buf 0 (head.take 4)) 0 2 = head.take 2 := by
  have length : (head.take 4).length = 4 := by rw [List.length_take]; omega
  have stored := window_store buf 0 (head.take 4)
  rw [length] at stored
  rw [← window_take (show 2 ≤ 4 by decide),stored,List.take_take]
  rfl

theorem rep_inside (buf : Nat → UInt8) (header payload : Arrival) : Inside (read_jason_rep buf header payload) ↔ ReplyFits header payload := by
  obtain ⟨small,_⟩ := recv_le header 4
  unfold read_jason_rep
  dsimp only
  cases header with
  | none => exact iff_of_true (inside_one _ _ (Nat.zero_le 5) (by decide)) (by intro head body wrong; cases wrong)
  | some head =>
      by_cases whole : 4 ≤ head.length
      · rw [recv_whole head whole,if_neg (fun other => other rfl)]
        dsimp only
        rw [header_window buf whole]
        by_cases none_ : ofBytes (head.take 2) ≤ 0
        · rw [if_pos none_]
          refine iff_of_true (inside_one _ _ (by rw [List.length_take]; omega) (by decide)) ?_
          intro head' body same _ _
          cases same
          omega
        · rw [if_neg none_]
          cases payload with
          | none =>
              refine iff_of_true ?_ (by intro _ body _ wrong; cases wrong)
              rw [if_pos (by rw [recv]; omega)]
              exact (inside_two _ _ (by rw [List.length_take]; omega)).mpr ⟨show 4+0 ≤ bufferSize by decide,by decide⟩
          | some body =>
              have fits : ReplyFits (some head) (some body) ↔ min (ofBytes (head.take 2)) body.length ≤ bufferSize-4 := by
                constructor
                · intro fits
                  exact fits head body rfl rfl whole
                · rintro less _ _ ⟨⟩ ⟨⟩ _
                  exact less
              have took : (recv (some body) (ofBytes (head.take 2))).2.length = min (ofBytes (head.take 2)) body.length := List.length_take
              have gave : (recv (some body) (ofBytes (head.take 2))).1 = (min (ofBytes (head.take 2)) body.length : Nat) :=
                congrArg Int.ofNat List.length_take
              have four : (head.take 4).length ≤ 5 := by rw [List.length_take]; omega
              rw [fits]
              split
              · rw [inside_two _ _ four,took]
                unfold bufferSize
                omega
              · rw [inside_two _ _ four,took,gave]
                unfold bufferSize
                omega
      · have short : ((recv (some head) 4).1) ≠ 4 := by
          rw [recv]
          dsimp only
          rw [List.length_take]
          omega
        rw [if_pos short]
        refine iff_of_true (inside_one _ _ (by omega) (by decide)) ?_
        intro head' body same _ many
        cases same
        exact absurd many whole

-- One connection as main serves it: the request goes on to the game server, its
-- reply back. What is written to the buffer, and how many bytes of it are sent.
structure Relay where
  writes : List (Nat × Nat)
  sends : List Int

def relay (stack : Nat → UInt8) (reqHeader reqPayload : Arrival) (sd : Int) (repHeader repPayload : Arrival) : Relay :=
  let buf := fun x => if x < bufferSize then 0 else stack x
  let req := read_jason_req buf reqHeader reqPayload
  if req.count = 0 then ⟨req.writes,[]⟩
  else if sd < 0 then ⟨req.writes,[req.count]⟩
  else
    let rep := read_jason_rep req.buf repHeader repPayload
    if rep.count = 0 then ⟨req.writes ++ rep.writes,[req.count]⟩
    else ⟨req.writes ++ rep.writes,[req.count,rep.count]⟩

def StaysInside (r : Relay) : Prop := (∀ w ∈ r.writes, w.1+w.2 ≤ bufferSize) ∧ ∀ n ∈ r.sends, n ≤ bufferSize

-- A connection stays inside the buffer unless it comes to read a reply that does not fit.
theorem relay_inside (stack : Nat → UInt8) (reqHeader reqPayload : Arrival) (sd : Int) (repHeader repPayload : Arrival) :
    StaysInside (relay stack reqHeader reqPayload sd repHeader repPayload) ↔
      (read_jason_req (fun x => if x < bufferSize then 0 else stack x) reqHeader reqPayload).count = 0 ∨ sd < 0 ∨
        ReplyFits repHeader repPayload := by
  have request := req_inside (fun x => if x < bufferSize then 0 else stack x) reqHeader reqPayload
  unfold relay StaysInside
  dsimp only
  generalize read_jason_req (fun x => if x < bufferSize then 0 else stack x) reqHeader reqPayload = req at request ⊢
  by_cases refused : req.count = 0
  · rw [if_pos refused]
    exact iff_of_true ⟨request.1,fun n member => absurd member List.not_mem_nil⟩ (.inl refused)
  · rw [if_neg refused,or_iff_right refused]
    by_cases lost : sd < 0
    · rw [if_pos lost]
      exact iff_of_true ⟨request.1,List.forall_mem_singleton.mpr request.2⟩ (.inl lost)
    · rw [if_neg lost,or_iff_right lost,← rep_inside req.buf repHeader repPayload]
      generalize read_jason_rep req.buf repHeader repPayload = rep
      have zero : (0 : Int) ≤ bufferSize := by decide
      split
      · rename_i empty
        rw [Inside,List.forall_mem_append,List.forall_mem_singleton,empty]
        exact ⟨fun ⟨⟨_,writes⟩,_⟩ => ⟨writes,zero⟩,fun ⟨writes,_⟩ => ⟨⟨request.1,writes⟩,request.2⟩⟩
      · rw [Inside,List.forall_mem_append,List.forall_mem_cons,List.forall_mem_singleton]
        exact ⟨fun ⟨⟨_,writes⟩,_,count⟩ => ⟨writes,count⟩,fun ⟨writes,count⟩ => ⟨⟨request.1,writes⟩,request.2,count⟩⟩

-- A request never leaves the buffer, and what stands behind the buffer stays; a reply
-- stays inside exactly if its header does not arrive whole or no more than 16380 bytes
-- of its payload do.
theorem reads_inside (buf : Nat → UInt8) (reqHeader reqPayload repHeader repPayload : Arrival) :
    (Inside (read_jason_req buf reqHeader reqPayload) ∧ ∀ x, bufferSize ≤ x → (read_jason_req buf reqHeader reqPayload).buf x = buf x) ∧
      (Inside (read_jason_rep buf repHeader repPayload) ↔ ReplyFits repHeader repPayload) ∧
      (ReplyFits repHeader repPayload → ∀ x, bufferSize ≤ x → (read_jason_rep buf repHeader repPayload).buf x = buf x) := by
  have request := req_inside buf reqHeader reqPayload
  have reply := rep_inside buf repHeader repPayload
  refine ⟨⟨request,fun x behind => ?_⟩,reply,fun fits x behind => ?_⟩
  · exact frame_behind (req_frame buf reqHeader reqPayload) request x behind
  · exact frame_behind (rep_frame buf repHeader repPayload) (reply.mpr fits) x behind

-- A reply of 16384 bytes behind its header runs four bytes past the buffer.
theorem reply_overruns : ¬Inside (read_jason_rep (fun _ => 0) (some [0,64,0,0]) (some (List.replicate 16384 0))) := by
  rw [rep_inside]
  intro fits
  have less := fits _ _ rfl rfl (Nat.le_refl 4)
  rw [List.length_replicate] at less
  exact absurd less (by decide)

end GameServer.JsonProxy
