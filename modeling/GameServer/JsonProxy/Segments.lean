import GameServer.JsonProxy.JsonProxy
import Mathlib.Data.List.TakeDrop

namespace GameServer.JsonProxy
open Bytes Memory

-- A frame with a header of this size: its first two bytes are the length of what
-- follows the header, which is not empty.
structure WireFrame (header : Nat) where
  bytes : List UInt8
  measured : bytes.length = header + ofBytes (bytes.take 2)
  filled : 0 < ofBytes (bytes.take 2)

def WireFrame.payload (frame : WireFrame header) : Nat := ofBytes (frame.bytes.take 2)

-- How a frame comes and goes: up to how many bytes the recv of the header, the recv
-- of the payload and the send take at once.
structure Segments where
  head : Nat
  body : Nat
  out : Nat
  moving : 0 < head ∧ 0 < body ∧ 0 < out

def headArrival (header : Nat) (frame : WireFrame header) (cut : Segments) : Arrival := some (frame.bytes.take cut.head)

def bodyArrival (header : Nat) (frame : WireFrame header) (cut : Segments) : Arrival :=
  some ((frame.bytes.drop (min header cut.head)).take cut.body)

def send (buf : Nat → UInt8) (count : Int) (cut : Segments) : List UInt8 := window buf 0 (min count.toNat cut.out)

-- One connection as `relay` has it, with the bytes: those for the game server and
-- those for the client. `none`: a write behind the buffer.
def forward (stack : Nat → UInt8) (request : WireFrame 5) (asked : Segments) (reply : WireFrame 4) (answered : Segments) :
    Option (List UInt8 × List UInt8) :=
  let buf := fun x => if x < bufferSize then 0 else stack x
  let req := read_jason_req buf (headArrival 5 request asked) (bodyArrival 5 request asked)
  if req.count = 0 then some ([],[])
  else
    let sent := send req.buf req.count asked
    let rep := read_jason_rep req.buf (headArrival 4 reply answered) (bodyArrival 4 reply answered)
    if ∀ w ∈ rep.writes, w.1+w.2 ≤ bufferSize then
      if rep.count = 0 then some (sent,[]) else some (sent,send rep.buf rep.count answered)
    else none

-- The connection is the one of `relay`, whose send to the game server takes something.
theorem forward_none (stack : Nat → UInt8) (request : WireFrame 5) (asked : Segments) (reply : WireFrame 4) (answered : Segments)
    (sd : Int) (taken : 0 ≤ sd) :
    forward stack request asked reply answered = none ↔
      ¬∀ w ∈ (relay stack (headArrival 5 request asked) (bodyArrival 5 request asked) sd (headArrival 4 reply answered)
        (bodyArrival 4 reply answered)).writes, w.1+w.2 ≤ bufferSize := by
  have inside := (req_inside (fun x => if x < bufferSize then 0 else stack x) (headArrival 5 request asked) (bodyArrival 5 request asked)).1
  unfold forward relay
  dsimp only
  by_cases refused : (read_jason_req (fun x => if x < bufferSize then 0 else stack x) (headArrival 5 request asked) (bodyArrival 5 request asked)).count = 0
  · rw [if_pos refused,if_pos refused]
    exact iff_of_false (by intro wrong; cases wrong) (fun outside => outside inside)
  · rw [if_neg refused,if_neg refused,if_neg (Int.not_lt.mpr taken)]
    split
    · rename_i fits
      refine iff_of_false (by split <;> (intro wrong; cases wrong)) ?_
      split
      · exact fun outside => outside (List.forall_mem_append.mpr ⟨inside,fits⟩)
      · exact fun outside => outside (List.forall_mem_append.mpr ⟨inside,fits⟩)
    · rename_i outside
      refine iff_of_true rfl ?_
      split
      · exact fun all => outside (List.forall_mem_append.mp all).2
      · exact fun all => outside (List.forall_mem_append.mp all).2

-- The recvs and the send take the whole frame in one go each.
def Whole (header : Nat) (frame : WireFrame header) (cut : Segments) : Prop :=
  header ≤ cut.head ∧ frame.payload ≤ cut.body ∧ frame.bytes.length ≤ cut.out

section frames
variable {header : Nat} {frame : WireFrame header} {cut : Segments} {buf : Nat → UInt8}

theorem length_eq (frame : WireFrame header) : frame.bytes.length = header + frame.payload := frame.measured

theorem head_recv (frame : WireFrame header) (cut : Segments) :
    recv (headArrival header frame cut) header = (((min header cut.head : Nat) : Int),frame.bytes.take (min header cut.head)) := by
  have long := length_eq frame
  rw [headArrival,recv,List.take_take,List.length_take,Nat.min_eq_left (by omega)]

theorem body_recv (whole : header ≤ cut.head) :
    recv (bodyArrival header frame cut) frame.payload =
      (((min frame.payload cut.body : Nat) : Int),(frame.bytes.drop header).take (min frame.payload cut.body)) := by
  have long := length_eq frame
  rw [bodyArrival,Nat.min_eq_left whole,recv,List.take_take,List.length_take,List.length_drop,Nat.min_eq_left (by omega)]

-- The length field, once the header is in the buffer.
theorem field_eq (frame : WireFrame header) (buf : Nat → UInt8) (wide : 2 ≤ header) :
    ofBytes (window (store buf 0 (frame.bytes.take header)) 0 2) = frame.payload := by
  have long := length_eq frame
  have stored := window_store buf 0 (frame.bytes.take header)
  rw [List.length_take,Nat.min_eq_left (by omega)] at stored
  rw [← window_take wide,stored,List.take_take,Nat.min_eq_left wide]
  rfl

-- The buffer when header and payload have come whole.
def filled (frame : WireFrame header) (buf : Nat → UInt8) : Nat → UInt8 :=
  store (store buf 0 (frame.bytes.take header)) header (frame.bytes.drop header)

theorem window_filled (frame : WireFrame header) (buf : Nat → UInt8) : window (filled frame buf) 0 frame.bytes.length = frame.bytes := by
  have long := length_eq frame
  have both := window_stores buf 0 (frame.bytes.take header) (frame.bytes.drop header)
  have front : (frame.bytes.take header).length = header := by rw [List.length_take]; omega
  rw [front,Nat.zero_add,List.take_append_drop,List.length_drop,Nat.add_sub_cancel' (by omega)] at both
  exact both

theorem send_filled (frame : WireFrame header) (buf : Nat → UInt8) (cut : Segments) :
    send (filled frame buf) frame.bytes.length cut = frame.bytes.take cut.out := by
  have all := window_filled frame buf
  rw [send,Int.toNat_natCast,← window_take (Nat.min_le_left _ _),all,Nat.min_comm,← List.take_eq_take_min]

end frames

theorem req_reads (frame : WireFrame 5) (cut : Segments) (buf : Nat → UInt8) :
    (5 ≤ cut.head ∧ frame.payload ≤ cut.body ∧ frame.payload < 16*1024-6 →
      (read_jason_req buf (headArrival 5 frame cut) (bodyArrival 5 frame cut)).count = frame.bytes.length ∧
        (read_jason_req buf (headArrival 5 frame cut) (bodyArrival 5 frame cut)).buf = filled frame buf) ∧
    (¬(5 ≤ cut.head ∧ frame.payload ≤ cut.body ∧ frame.payload < 16*1024-6) →
      (read_jason_req buf (headArrival 5 frame cut) (bodyArrival 5 frame cut)).count = 0) := by
  have long := length_eq frame
  have some_ : 0 < frame.payload := frame.filled
  unfold read_jason_req
  rw [head_recv]
  dsimp only
  by_cases head : 5 ≤ cut.head
  · rw [Nat.min_eq_left head,if_neg (fun other => other rfl),field_eq frame buf (by decide),if_neg (by omega)]
    by_cases guard : frame.payload < 16*1024-6
    · rw [if_neg (by omega),body_recv head]
      dsimp only
      by_cases body : frame.payload ≤ cut.body
      · have rest : (frame.bytes.drop 5).take frame.payload = frame.bytes.drop 5 := List.take_of_length_le (by rw [List.length_drop]; omega)
        rw [Nat.min_eq_left body,if_neg (fun other => other rfl),rest]
        refine ⟨fun _ => ⟨?_,rfl⟩,fun broken => absurd ⟨head,body,guard⟩ broken⟩
        rw [long]; rfl
      · rw [if_pos (by omega)]
        exact ⟨fun whole => absurd whole.2.1 body,fun _ => rfl⟩
    · rw [if_pos (by omega)]
      exact ⟨fun whole => absurd whole.2.2 guard,fun _ => rfl⟩
  · rw [if_pos (by omega)]
    exact ⟨fun whole => absurd whole.1 head,fun _ => rfl⟩

theorem rep_reads (frame : WireFrame 4) (cut : Segments) (buf : Nat → UInt8) :
    (4 ≤ cut.head ∧ frame.payload ≤ cut.body →
      (read_jason_rep buf (headArrival 4 frame cut) (bodyArrival 4 frame cut)).count = frame.bytes.length ∧
        (read_jason_rep buf (headArrival 4 frame cut) (bodyArrival 4 frame cut)).buf = filled frame buf ∧
          (read_jason_rep buf (headArrival 4 frame cut) (bodyArrival 4 frame cut)).writes = [(0,4),(4,frame.payload)]) ∧
    (¬(4 ≤ cut.head ∧ frame.payload ≤ cut.body) →
      (read_jason_rep buf (headArrival 4 frame cut) (bodyArrival 4 frame cut)).count = 0) := by
  have long := length_eq frame
  have some_ : 0 < frame.payload := frame.filled
  unfold read_jason_rep
  rw [head_recv]
  dsimp only
  by_cases head : 4 ≤ cut.head
  · rw [Nat.min_eq_left head,if_neg (fun other => other rfl),field_eq frame buf (by decide),if_neg (by omega),body_recv head]
    dsimp only
    by_cases body : frame.payload ≤ cut.body
    · have rest : (frame.bytes.drop 4).take frame.payload = frame.bytes.drop 4 := List.take_of_length_le (by rw [List.length_drop]; omega)
      rw [Nat.min_eq_left body,if_neg (fun other => other rfl),rest]
      refine ⟨fun _ => ⟨?_,rfl,?_⟩,fun broken => absurd ⟨head,body⟩ broken⟩
      · rw [long]; rfl
      · rw [List.length_take,List.length_drop,long,Nat.min_eq_left (by omega),Nat.add_sub_cancel_left]
    · rw [if_pos (by omega)]
      exact ⟨fun whole => absurd whole.2 body,fun _ => rfl⟩
  · rw [if_pos (by omega)]
    exact ⟨fun whole => absurd whole.1 head,fun _ => rfl⟩

theorem nonempty (frame : WireFrame header) : frame.bytes ≠ [] := by
  intro empty
  have long := length_eq frame
  have some_ : 0 < frame.payload := frame.filled
  rw [empty,List.length_nil] at long
  omega

-- A connection passes both frames on exactly if every recv and every send moves all
-- it is asked for at once, the request is short of the guard and the reply fits.
theorem forwards_iff (stack : Nat → UInt8) (request : WireFrame 5) (asked : Segments) (reply : WireFrame 4) (answered : Segments) :
    forward stack request asked reply answered = some (request.bytes,reply.bytes) ↔
      Whole 5 request asked ∧ request.payload < 16*1024-6 ∧ Whole 4 reply answered ∧ reply.bytes.length ≤ bufferSize := by
  obtain ⟨read,broken⟩ := req_reads request asked fun x => if x < bufferSize then 0 else stack x
  have some_ : 0 < request.payload := request.filled
  have long := length_eq request
  unfold forward Whole
  dsimp only
  by_cases asks : 5 ≤ asked.head ∧ request.payload ≤ asked.body ∧ request.payload < 16*1024-6
  · obtain ⟨count,buf⟩ := read asks
    obtain ⟨reread,rebroken⟩ := rep_reads reply answered (filled request fun x => if x < bufferSize then 0 else stack x)
    have more : 0 < reply.payload := reply.filled
    have far := length_eq reply
    rw [if_neg (by omega),buf,count,send_filled]
    by_cases answers : 4 ≤ answered.head ∧ reply.payload ≤ answered.body
    · obtain ⟨recount,rebuf,writes⟩ := reread answers
      have inside : (∀ w ∈ [(0,4),(4,reply.payload)], w.1+w.2 ≤ bufferSize) ↔ reply.bytes.length ≤ bufferSize := by
        rw [List.forall_mem_cons,List.forall_mem_singleton,far]
        unfold bufferSize
        omega
      rw [writes,recount,rebuf,send_filled,if_neg (show ¬(reply.bytes.length : Int) = 0 by omega)]
      by_cases fits : reply.bytes.length ≤ bufferSize
      · rw [if_pos (inside.mpr fits),Option.some_inj,Prod.mk_inj,List.take_eq_self_iff,List.take_eq_self_iff]
        tauto
      · rw [if_neg (fun all => fits (inside.mp all))]
        exact iff_of_false (by intro wrong; cases wrong) (fun all => fits all.2.2.2)
    · rw [rebroken answers]
      refine iff_of_false ?_ (fun all => answers ⟨all.2.2.1.1,all.2.2.1.2.1⟩)
      split
      · intro same
        rw [if_pos rfl] at same
        exact nonempty reply (Prod.mk_inj.mp (Option.some_inj.mp same)).2.symm
      · intro wrong; cases wrong
  · rw [if_pos (broken asks)]
    refine iff_of_false ?_ (fun all => asks ⟨all.1.1,all.1.2.1,all.2.1⟩)
    intro same
    exact nonempty request (Prod.mk_inj.mp (Option.some_inj.mp same)).1.symm

-- A request whose payload is the two bytes 7 and 8, a reply of one byte.
def asking : WireFrame 5 := ⟨[2,0,1,1,1,7,8],rfl,by decide⟩
def answering : WireFrame 4 := ⟨[1,0,1,1,9],rfl,by decide⟩

-- The header comes in two parts and nothing is passed on; a send that takes three
-- bytes leaves the game server without the other four.
theorem frames_broken :
    forward (fun _ => 0) asking ⟨3,2,7,by decide⟩ answering ⟨4,1,5,by decide⟩ ≠ some (asking.bytes,answering.bytes) ∧
      forward (fun _ => 0) asking ⟨5,2,3,by decide⟩ answering ⟨4,1,5,by decide⟩ ≠ some (asking.bytes,answering.bytes) := by
  have split_ : forward (fun _ => 0) asking ⟨3,2,7,by decide⟩ answering ⟨4,1,5,by decide⟩ = some ([],[]) := by decide +kernel
  have short : forward (fun _ => 0) asking ⟨5,2,3,by decide⟩ answering ⟨4,1,5,by decide⟩ = some ([2,0,1],[1,0,1,1,9]) := by decide +kernel
  rw [split_,short]
  decide

end GameServer.JsonProxy
