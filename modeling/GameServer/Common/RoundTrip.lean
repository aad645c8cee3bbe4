import GameServer.Common.Serialize

namespace GameServer.Common.RoundTrip
open Bytes

-- The bytes of a value, field after field.
mutual
def layout : (type : S11NType) → type.Value → List UInt8
  | .integer width,v => toBytes width v.toNat
  | .array _ _,v => (raw v).toList
  | .string,str => toBytes 2 (chars str).length ++ chars str
  | .vector elem,v => toBytes 2 (elems v).length ++ (elems v).flatMap (layout elem)
  | .struct members,v => layouts members v
def layouts : (members : Members) → members.Values → List UInt8
  | .none,_ => []
  | .member type rest,v => layout type v.1 ++ layouts rest v.2
end

-- The length prefixes hold the lengths, a vector is not too long to be read and
-- no sizeof is zero.
mutual
def Fits : (type : S11NType) → type.Value → Prop
  | .integer _,_ => True
  | .array elem _,_ => 0 < elem
  | .string,str => (chars str).length < 65536
  | .vector elem,v => (elems v).length ≤ 1024 ∧ ∀ it ∈ elems v, Fits elem it
  | .struct members,v => AllFit members v
def AllFit : (members : Members) → members.Values → Prop
  | .none,_ => True
  | .member type rest,v => Fits type v.1 ∧ AllFit rest v.2
end

theorem count_ok (small : n < 65536) : (UInt16.ofNat n).toNat = n := by
  simp
  omega

mutual
theorem serialize_layout : (type : S11NType) → (v : type.Value) → (buffer : List UInt8) → Fits type v →
    (Serialize type v buffer).1 = buffer ++ layout type v
  | .integer width,v,buffer,_ => by rw [Serialize,layout]
  | .array elem size,v,buffer,_ => by rw [Serialize,layout]
  | .string,str,buffer,fits => by
      rw [Fits] at fits
      rw [Serialize,layout]
      dsimp only
      rw [count_ok fits]
      split
      · exact List.append_assoc ..
      · rename_i bare
        have none : (UInt16.ofNat (chars str).length).toNat = 0 := Nat.le_zero.mp (Nat.le_of_not_lt bare)
        rw [count_ok fits] at none
        rw [List.eq_nil_of_length_eq_zero none,List.append_nil]
  | .vector elem,v,buffer,fits => by
      rw [Fits] at fits
      rw [Serialize,layout]
      dsimp only
      rw [fold_appends _ _ (fun it member buffer => serialize_layout elem it buffer (fits.2 it member)),
        count_ok (Nat.lt_of_le_of_lt fits.1 (by decide)),List.append_assoc]
  | .struct members,v,buffer,fits => by
      rw [Fits] at fits
      rw [Serialize,layout]
      exact serialize_layouts members v buffer 0 fits
theorem serialize_layouts : (members : Members) → (v : members.Values) → (buffer : List UInt8) → (len : UInt32) →
    AllFit members v → (serializeMembers members v buffer len).1 = buffer ++ layouts members v
  | .none,v,buffer,len,_ => by rw [serializeMembers,layouts,List.append_nil]
  | .member type rest,v,buffer,len,fits => by
      rw [AllFit] at fits
      rw [serializeMembers,layouts]
      dsimp only
      rw [serialize_layouts rest v.2 _ _ fits.2,serialize_layout type v.1 buffer fits.1,List.append_assoc]
end

theorem failed_toNat : failed.toNat = 2^32-1 := rfl

theorem not_failed {r : UInt32} (small : r.toNat < 2^32-1) : r ≠ failed := by
  intro same
  rw [same,failed_toNat] at small
  omega

theorem ofNat_ok (small : n < 2^32) : (UInt32.ofNat n).toNat = n := UInt32.toNat_ofNat_of_lt' small

theorem sub_ok {a b : UInt32} (le : b.toNat ≤ a.toNat) : (a-b).toNat = a.toNat-b.toNat :=
  UInt32.toNat_sub_of_le a b (UInt32.le_iff_toNat_le.mpr le)

theorem add_ok {a b : UInt32} (small : a.toNat+b.toNat < 2^32) : (a+b).toNat = a.toNat+b.toNat := by
  rw [UInt32.toNat_add]
  exact Nat.mod_eq_of_lt small

-- Unserialize yields the value and takes exactly the n bytes at the address.
structure Takes (out : Outcome α) (v : α) (address n : Nat) : Prop where
  value : out.value = v
  result : out.result.toNat = n
  reads : ∀ r ∈ out.reads, address ≤ r.1 ∧ r.1+r.2 ≤ address+n

-- What is read of two values that lie one behind the other.
theorem reads_append {first second : List (Nat × Nat)} {start m n : Nat} (one : ∀ r ∈ first, start ≤ r.1 ∧ r.1+r.2 ≤ start+m)
    (two : ∀ r ∈ second, start+m ≤ r.1 ∧ r.1+r.2 ≤ start+m+n) : ∀ r ∈ first++second, start ≤ r.1 ∧ r.1+r.2 ≤ start+(m+n) := by
  intro r member
  rcases List.mem_append.mp member with front | back
  · have inside := one r front
    omega
  · have inside := two r back
    omega

variable {memory : Nat → UInt8}

-- The loop of a vector takes its elements one behind the other.
theorem elems_take {decode : α → Nat → UInt32 → Outcome α} {enc : α → List UInt8} {buffer : Nat} {size : UInt32}
    (vs : List α) (olds done : List α) (consumed : UInt32) (same : olds.length = vs.length)
    (each : ∀ v ∈ vs, ∀ old address (left : UInt32), (enc v).length ≤ left.toNat → left.toNat < 2^32-1 →
      window memory address (enc v).length = enc v → Takes (decode old address left) v address (enc v).length)
    (room : consumed.toNat+(vs.flatMap enc).length ≤ size.toNat) (bound : size.toNat < 2^32-1)
    (lies : window memory (buffer+consumed.toNat) (vs.flatMap enc).length = vs.flatMap enc) :
    (unserializeElems decode buffer size done olds consumed).value = done ++ vs ∧
      (unserializeElems decode buffer size done olds consumed).result.toNat = consumed.toNat+(vs.flatMap enc).length ∧
      ∀ r ∈ (unserializeElems decode buffer size done olds consumed).reads,
        buffer+consumed.toNat ≤ r.1 ∧ r.1+r.2 ≤ buffer+consumed.toNat+(vs.flatMap enc).length := by
  induction vs generalizing olds done consumed with
  | nil =>
      rw [List.eq_nil_of_length_eq_zero same,unserializeElems]
      simp
  | cons v rest ih =>
      cases olds with
      | nil => cases same
      | cons old olds =>
          rw [List.flatMap_cons] at room lies ⊢
          rw [List.length_append] at room ⊢
          obtain ⟨here,later⟩ := window_append lies
          have left : (size-consumed).toNat = size.toNat-consumed.toNat := sub_ok (by omega)
          obtain ⟨value,result,reads⟩ := each v List.mem_cons_self old (buffer+consumed.toNat) (size-consumed)
            (by omega) (by omega) here
          have whole : (consumed+(decode old (buffer+consumed.toNat) (size-consumed)).result).toNat =
              consumed.toNat+(enc v).length := by rw [add_ok (by omega),result]
          have next := ih olds (done ++ [v]) (consumed+(decode old (buffer+consumed.toNat) (size-consumed)).result)
            (Nat.succ.inj same) (fun other member => each other (List.mem_cons_of_mem _ member))
            (by rw [whole]; omega) (by rw [whole,←Nat.add_assoc]; exact later)
          rw [unserializeElems]
          dsimp only
          rw [if_neg (not_failed (by omega)),value]
          dsimp only
          refine ⟨by rw [next.1,List.append_assoc]; rfl,by rw [next.2.1,whole,Nat.add_assoc],?_⟩
          have behind := next.2.2
          rw [whole,←Nat.add_assoc] at behind
          exact reads_append reads behind

theorem resize_length (default : α) (v : List α) (n : Nat) : (resize default v n).length = n := by
  unfold resize
  rw [List.length_append,List.length_take,List.length_replicate]
  omega

-- A short prefix reads back as the length it holds.
theorem prefix_back (small : n < 65536) (lies : window memory address 2 = toBytes 2 n) :
    ofBytes (window memory address 2) = n := by
  rw [lies,ofBytes_toBytes]
  exact Nat.mod_eq_of_lt small

theorem vector_window (memory : Nat → UInt8) (address n : Nat) :
    (Vector.ofFn fun i : Fin n => memory (address+i)).toList = window memory address n := by
  induction n generalizing address with
  | zero => rfl
  | succ n ih =>
      have shift : ∀ i : Fin n, address+(i.succ : Nat) = address+1+i := fun i => by rw [Fin.val_succ]; omega
      rw [window,←ih (address+1)]
      simp only [Vector.toList_ofFn,List.ofFn_succ,shift]
      rfl

theorem not_short {size : UInt32} (room : 2 ≤ size.toNat) : ¬size < 2 := by
  rw [UInt32.lt_iff_toNat_lt]
  exact Nat.not_lt.mpr room

mutual
theorem unserialize_layout : (type : S11NType) → (v old : type.Value) → (address : Nat) → (size : UInt32) →
    Fits type v → (layout type v).length ≤ size.toNat → size.toNat < 2^32-1 →
    window memory address (layout type v).length = layout type v →
    Takes (Unserialize memory type old address size) v address (layout type v).length
  | .integer width,v,old,address,size,fits,room,bound,lies => by
      rw [layout] at room lies ⊢
      rw [toBytes_length] at room lies ⊢
      rw [Unserialize,if_neg (by omega)]
      refine ⟨?_,ofNat_ok (by omega),?_⟩
      · have pow : 256^width = 2^(8*width) := by rw [Nat.pow_mul]
        apply BitVec.eq_of_toNat_eq
        rw [lies,ofBytes_toBytes,pow,BitVec.toNat_ofNat,Nat.mod_mod]
        exact Nat.mod_eq_of_lt (BitVec.isLt v)
      · intro r member
        cases List.mem_singleton.mp member
        exact ⟨Nat.le_refl _,Nat.le_refl _⟩
  | .array elem n,v,old,address,size,fits,room,bound,lies => by
      rw [Fits] at fits
      rw [layout] at room lies ⊢
      have length : (raw v).toList.length = elem*n := Vector.length_toList
      rw [length] at room lies ⊢
      have count : n ≤ elem*n := Nat.le_mul_of_pos_left n fits
      rw [Unserialize,if_neg (by omega)]
      refine ⟨?_,ofNat_ok (by omega),?_⟩
      · exact Vector.toList_inj.mp ((vector_window memory address (elem*n)).trans lies)
      · intro r member
        cases List.mem_singleton.mp member
        exact ⟨Nat.le_refl _,Nat.le_refl _⟩
  | .string,str,old,address,size,fits,room,bound,lies => by
      rw [Fits] at fits
      rw [layout] at room lies ⊢
      obtain ⟨head,body⟩ := window_append lies
      rw [toBytes_length] at head body
      rw [List.length_append,toBytes_length] at room ⊢
      have length := prefix_back fits head
      rw [Unserialize,if_neg (not_short (by omega))]
      dsimp only
      rw [length,if_neg (by omega)]
      refine ⟨body,ofNat_ok (by omega),?_⟩
      intro r member
      rcases List.mem_cons.mp member with first | second
      · subst first
        dsimp only
        omega
      · split at second
        · cases List.mem_singleton.mp second
          dsimp only
          omega
        · cases second
  | .vector elem,v,old,address,size,fits,room,bound,lies => by
      rw [Fits] at fits
      rw [layout] at room lies ⊢
      obtain ⟨head,body⟩ := window_append lies
      rw [toBytes_length] at head body
      rw [List.length_append,toBytes_length] at room ⊢
      have length := prefix_back (Nat.lt_of_le_of_lt fits.1 (by decide)) head
      have two : (2 : UInt32).toNat = 2 := rfl
      obtain ⟨value,result,reads⟩ := elems_take (elems v) (resize elem.default (elems old) (elems v).length) [] 2
        (resize_length _ _ _)
        (fun it member old address left => unserialize_layout elem it old address left (fits.2 it member))
        (by rw [two]; exact room) bound (by rw [two]; exact body)
      rw [Unserialize,if_neg (not_short (by omega))]
      dsimp only
      rw [length,if_neg (by omega)]
      refine ⟨value,by rw [result,two],?_⟩
      intro r member
      rcases List.mem_cons.mp member with first | second
      · subst first
        dsimp only
        omega
      · have inside := reads r second
        rw [two] at inside
        omega
  | .struct members,v,old,address,size,fits,room,bound,lies => by
      rw [Fits] at fits
      rw [layout] at room lies ⊢
      rw [Unserialize]
      obtain ⟨value,result,reads⟩ := unserialize_layouts members v old address size 0 fits (by simpa using room) bound
        (by simpa using lies)
      exact ⟨value,by simpa using result,by simpa using reads⟩
theorem unserialize_layouts : (members : Members) → (v old : members.Values) → (address : Nat) → (size len : UInt32) →
    AllFit members v → len.toNat+(layouts members v).length ≤ size.toNat → size.toNat < 2^32-1 →
    window memory (address+len.toNat) (layouts members v).length = layouts members v →
    (unserializeMembers memory members old address size len).value = v ∧
      (unserializeMembers memory members old address size len).result.toNat = len.toNat+(layouts members v).length ∧
      ∀ r ∈ (unserializeMembers memory members old address size len).reads,
        address+len.toNat ≤ r.1 ∧ r.1+r.2 ≤ address+len.toNat+(layouts members v).length
  | .none,v,old,address,size,len,fits,room,bound,lies => by
      rw [unserializeMembers,layouts]
      exact ⟨rfl,rfl,fun r member => absurd member List.not_mem_nil⟩
  | .member type rest,v,old,address,size,len,fits,room,bound,lies => by
      rw [AllFit] at fits
      rw [layouts] at room lies ⊢
      rw [List.length_append] at room ⊢
      obtain ⟨here,later⟩ := window_append lies
      have left : (size-len).toNat = size.toNat-len.toNat := sub_ok (by omega)
      obtain ⟨value,result,reads⟩ := unserialize_layout type v.1 old.1 (address+len.toNat) (size-len) fits.1
        (by omega) (by omega) here
      rw [unserializeMembers]
      dsimp only
      rw [if_neg (not_failed (by omega))]
      generalize Unserialize memory type old.1 (address+len.toNat) (size-len) = out at *
      have whole : (len+out.result).toNat = len.toNat+(layout type v.1).length := by rw [add_ok (by omega),result]
      have next := unserialize_layouts rest v.2 old.2 address size (len+out.result) fits.2 (by rw [whole]; omega) bound
        (by rw [whole,←Nat.add_assoc]; exact later)
      dsimp only
      refine ⟨congrArg₂ Prod.mk value next.1,by rw [next.2.1,whole,Nat.add_assoc],?_⟩
      have behind := next.2.2
      rw [whole,←Nat.add_assoc] at behind
      exact reads_append reads behind
end

-- What Serialize appends for a value.
def appended (type : S11NType) (v : type.Value) : List UInt8 := (Serialize type v []).1

-- Every value comes back from the bytes appended for it, whatever follows them,
-- and nothing behind them is read.
theorem round_trip (type : S11NType) (v old : type.Value) (buffer tail : List UInt8) (memory : Nat → UInt8)
    (address : Nat) (fits : Fits type v) (bound : (appended type v ++ tail).length < 2^32-1)
    (lies : window memory address (appended type v ++ tail).length = appended type v ++ tail) :
    (Serialize type v buffer).1 = buffer ++ appended type v ∧
      Takes (Unserialize memory type old address (UInt32.ofNat (appended type v ++ tail).length)) v address
        (appended type v).length := by
  have bytes : appended type v = layout type v := (serialize_layout type v [] fits).trans (List.nil_append _)
  rw [bytes] at bound lies ⊢
  refine ⟨serialize_layout type v buffer fits,?_⟩
  have size := ofNat_ok (Nat.lt_of_lt_of_le bound (Nat.sub_le _ _))
  obtain ⟨here,_⟩ := window_append lies
  apply unserialize_layout type v old address _ fits
  · rw [size,List.length_append]
    exact Nat.le_add_right _ _
  · rw [size]
    exact bound
  · exact here

-- An id, two names and a flag, with one byte of the next message behind them.
def packet : S11NType := .struct (.member (.integer 4) (.member (.vector .string) (.member (.integer 1) .none)))
def named : packet.Value := (7#32,([[97,98],[]],(1#8,())))

theorem round_trip_packet : (Serialize packet named [3]).1 = [3] ++ appended packet named ∧
    Takes (Unserialize (fun i => (appended packet named ++ [255]).getD i 0) packet packet.default 0
      (UInt32.ofNat (appended packet named ++ [255]).length)) named 0 (appended packet named).length := by
  apply round_trip
  · simp only [packet,named,Fits,AllFit,true_and,and_true]
    refine ⟨by decide,?_⟩
    intro it member
    rcases List.mem_cons.mp member with first | second
    · rw [first]; decide
    · rw [List.mem_singleton.mp second]; decide
  · decide +kernel
  · decide +kernel

end GameServer.Common.RoundTrip
