import GameServer.Common.Serialize
import GameServer.Common.Stream

namespace GameServer.Common.Framing
open Bytes

-- MESSAGE_HEAD_DEF: what the buffer held is dropped.
def BuildHeader (msgid : UInt8) : List UInt8 := [0,0,0xFF,msgid]

def FixHeader (buffer : List UInt8) : List UInt8 :=
  if buffer.length < 4 then buffer else toBytes 2 (wrap64 (buffer.length-4)) ++ buffer.drop 2

-- A message as it is sent: header, members, length.
def message (msgid : UInt8) (members : Members) (v : members.Values) : List UInt8 :=
  FixHeader (Serialize (.struct members) v (BuildHeader msgid)).1

-- The 16-bit length in the header plus the header is the frame.
def Framed (frame : List UInt8) : Prop := 2 ≤ frame.length ∧ ofBytes (frame.take 2)+4 = frame.length

theorem framed_skip (framed : Framed frame) (next : List UInt8) :
    (frame ++ next).drop (ofBytes ((frame ++ next).take 2)+4) = next := by
  rw [List.take_append_of_le_length framed.1]
  exact List.drop_left' framed.2.symm

theorem header_length (n : Nat) (buffer : List UInt8) (two : 2 ≤ buffer.length) :
    (toBytes 2 n ++ buffer.drop 2).length = buffer.length := by
  rw [List.length_append,toBytes_length,List.length_drop]
  omega

-- Both writers put the low 16 bits of size-4 over the first two bytes.
theorem framed_header (buffer : List UInt8) (two : 2 ≤ buffer.length) :
    Framed (toBytes 2 (wrap64 (buffer.length-4)) ++ buffer.drop 2) ↔ 4 ≤ buffer.length ∧ buffer.length ≤ 65539 := by
  unfold Framed
  rw [header_length _ _ two,List.take_left' (toBytes_length ..),ofBytes_toBytes]
  unfold wrap64
  omega

-- A message is a frame exactly when its body fits the 16-bit length, and what
-- eos finishes when it has a header and no longer body.
theorem frames_exact (msgid : UInt8) (members : Members) (v : members.Values) (st : Stream) :
    (Framed (message msgid members v) ↔ (Serialize (.struct members) v []).1.length ≤ 65535) ∧
      (Framed st.eos._buf ↔ 4 ≤ st.size ∧ st.size ≤ 65539) := by
  constructor
  · have whole := serialize_appends (.struct members) v (BuildHeader msgid)
    have length : (Serialize (.struct members) v (BuildHeader msgid)).1.length =
        4+(Serialize (.struct members) v []).1.length := by rw [whole,List.length_append]; rfl
    unfold message FixHeader
    rw [if_neg (by omega),framed_header _ (by omega)]
    omega
  · unfold Stream.eos
    split
    · rename_i short
      constructor
      · intro framed
        exact absurd framed.1 (Nat.not_le_of_lt short)
      · intro size
        omega
    · rename_i two
      exact framed_header st._buf (Nat.le_of_not_lt two)

theorem string_message (msgid : UInt8) (s : List UInt8) (some : UInt16.ofNat s.length > 0) :
    (Serialize (.struct (.member .string .none)) (s,()) (BuildHeader msgid)).1.length = 4+2+s.length := by
  simp only [Serialize,serializeMembers,BuildHeader]
  rw [if_pos some,List.length_append,List.length_append,toBytes_length]
  rfl

-- A name of 65534 characters makes a body of 65536 bytes, and the header says 0.
theorem long_body : ¬ ((∀ msgid members v, Framed (message msgid members v)) ∧ ∀ st : Stream, Framed st.eos._buf) := by
  intro claim
  have framed := claim.1 1 (.member .string .none) (List.replicate 65534 97,())
  have name : (List.replicate 65534 (97 : UInt8)).length = 65534 := List.length_replicate
  have length := string_message 1 (List.replicate 65534 97) (by rw [name]; decide)
  rw [name] at length
  unfold message FixHeader at framed
  rw [if_neg (by omega),framed_header _ (by omega)] at framed
  omega

end GameServer.Common.Framing
