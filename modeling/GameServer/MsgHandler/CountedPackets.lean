import GameServer.Common.Stream
import GameServer.GObject.PvpRank
import GameServer.Library.Counted

namespace GameServer.MsgHandler
open Common Bytes Counted GObject

-- data<UInt8>(offset) = value; an offset behind the buffer writes a static.
def patch (st : Stream) (offset : Nat) (value : UInt8) : Stream :=
  if offset + 1 > st.size then st else {st with _buf := st._buf.set offset value}

-- A loop that writes the records of the entries it does not skip and counts
-- them in a byte; it ends behind the record of an entry where it stops.
def writeRecords (skips : α → Bool) (stops : Nat → Bool) (write : Stream → α → Option Stream) :
    Nat → List α → Stream → UInt8 → Option (Stream × UInt8)
  | _,[],st,count => some (st,count)
  | i,a :: rest,st,count =>
    if skips a then writeRecords skips stops write (i+1) rest st count
    else
      match write st a with
      | none => none
      | some st => if stops i then some (st,count+1) else writeRecords skips stops write (i+1) rest st (count+1)

-- The entries such a loop writes.
def recorded (skips : α → Bool) (stops : Nat → Bool) : Nat → List α → List α
  | _,[] => []
  | i,a :: rest =>
    if skips a then recorded skips stops (i+1) rest
    else a :: if stops i then [] else recorded skips stops (i+1) rest

def never (_ : Nat) : Bool := false

section fighters
variable {φ : Type _}

def fallen (getHP : φ → Int) : Option φ → Bool
  | none => true
  | some bf => ¬ getHP bf > 0

-- InsertFighterInfo(_pack, 1) appends the info of the fighter.
def insertFighterInfo (info : φ → List UInt8) (st : Stream) : Option φ → Option Stream
  | none => none
  | some bf => st.append (info bf)

def writeCamps (getHP : φ → Int) (info : φ → List UInt8) : List (UInt8 × List (Option φ)) → Stream → Option Stream
  | [],_pack => some _pack
  | (campId,fighters) :: rest,_pack =>
    match _pack.word 1 campId.toNat with
    | none => none
    | some _pack =>
      let offset := _pack.size
      match (_pack.word 1 0).bind fun _pack => writeRecords (fallen getHP) never (insertFighterInfo info) 0 fighters _pack 0 with
      | none => none
      | some (_pack,count) => writeCamps getHP info rest (patch _pack offset count)

def MakePreStartInfo (getHP : φ → Int) (info : φ → List UInt8) (camp2fighters : List (UInt8 × List (Option φ)))
    (_pack : Stream) : Option Stream :=
  (_pack.word 1 camp2fighters.length).bind (writeCamps getHP info camp2fighters)

end fighters

structure MapObject where
  GetID : UInt32
  GetSpot : UInt16
  GetType : UInt8
  IsHide : Bool

def GREAT_FIGHTER_MAX : UInt32 := 800

def unseen (hasFighter : UInt32 → Bool) (mo : MapObject) : Bool :=
  mo.IsHide || (mo.GetID ≤ GREAT_FIGHTER_MAX && hasFighter mo.GetID)

def putObject (st : Stream) (mo : MapObject) : Option Stream :=
  (st.word 4 mo.GetID.toNat).bind fun st => (st.word 2 mo.GetSpot.toNat).bind fun st =>
    (st.word 1 mo.GetType.toNat).bind fun st => st.word 1 0

def SendCityNPCs (MAPTRANSPORT getId : UInt8) (hasFighter : UInt32 → Bool) (m_MOMap : List MapObject) : Option Stream :=
  ((Stream.empty.init MAPTRANSPORT 0xFF).word 1 getId.toNat).bind fun st => (st.word 1 0).bind fun st =>
    (writeRecords (unseen hasFighter) never putObject 0 m_MOMap st 0).map fun (st,c) => (patch st 5 c).eos

section ranks
variable {ρ : Type _}

def putRank (s : Ranking ρ) (getName : ρ → List UInt8) (st : Stream) (it : RCSort ρ) : Option Stream :=
  (st.putChars (some (getName it.player))).bind fun st => st.word 4 (s.goal it.player).toNat

-- The comparison that ends the second loop and the statement that finds myRank
-- are not in the source: `stops` says behind which positions the loop ends.
def OnSendPvpAwardRank (ACT : UInt8) (s : Ranking ρ) (players : Players ρ) (getName : ρ → List UInt8) (player : ρ)
    (myRank : UInt32) (stops : Nat → Bool) : Option Stream :=
  let s := s.InitRank players
  ((Stream.empty.init ACT 0xFF).word 1 0x72).bind fun st => (st.word 1 0).bind fun st =>
    (st.word 4 (s.goal player).toNat).bind fun st => (st.word 4 myRank.toNat).bind fun st =>
      let offset := st.size
      (st.word 1 0).bind fun st =>
        (writeRecords (fun _ => false) stops (putRank s getName) 0 s.pvpAwardSort st 0).map fun (st,count) => (patch st offset count).eos

end ranks

-- What a record written behind a stream adds to it.
def Appends (write : Stream → α → Option Stream) (record : α → List UInt8) : Prop :=
  ∀ st a out, write st a = some out → out._buf = st._buf ++ record a

theorem append_buf {st out : Stream} {bytes : List UInt8} (written : st.append bytes = some out) : out._buf = st._buf ++ bytes := by
  unfold Stream.append at written
  split at written
  · cases Option.some.inj written
    rfl
  · cases written

theorem word_buf {st out : Stream} {width n : Nat} (written : st.word width n = some out) :
    out._buf = st._buf ++ toBytes width n := append_buf written

theorem byte_buf {st out : Stream} (value : UInt8) (written : st.word 1 value.toNat = some out) : out._buf = st._buf ++ [value] := by
  rw [word_buf written,toBytes,toBytes,UInt8.ofNat_toNat]

theorem patch_buf {st : Stream} {front body : List UInt8} {old : UInt8} (parts : st._buf = front ++ old :: body) (value : UInt8) :
    (patch st front.length value)._buf = front ++ value :: body := by
  have inside : ¬ front.length + 1 > st.size := by
    simp [Stream.size,parts]
  rw [patch,if_neg inside]
  simp [parts]

theorem eos_behind (st : Stream) (some_header : 4 ≤ st.size) (n : Nat) : st.eos._buf.drop (n + 2) = st._buf.drop (n + 2) := by
  rw [Stream.eos,if_neg (by omega)]
  have size := toBytes_length 2 (wrap64 (st.size-4))
  rw [Nat.add_comm n 2,←List.drop_drop,List.drop_left' size,List.drop_drop]

theorem records_written {write : Stream → α → Option Stream} {record : α → List UInt8} (appends : Appends write record)
    {skips : α → Bool} {stops : Nat → Bool} {l : List α} {st out : Stream} {count last : UInt8}
    (written : writeRecords skips stops write i l st count = some (out,last)) :
    out._buf = st._buf ++ (recorded skips stops i l).flatMap record ∧ last = count + UInt8.ofNat (recorded skips stops i l).length := by
  induction l generalizing i st count with
  | nil =>
      cases Option.some.inj written
      simp [recorded]
  | cons a rest ih =>
      unfold writeRecords at written
      unfold recorded
      split
      · rename_i skipped
        rw [if_pos skipped] at written
        exact ih written
      · rename_i shown
        rw [if_neg shown] at written
        split at written
        · cases written
        · rename_i next made
          have added := appends _ _ _ made
          split at written
          · rename_i ends
            cases Option.some.inj written
            simp [ends,added]
          · rename_i goes
            obtain ⟨buf,number⟩ := ih written
            rw [if_neg goes]
            constructor
            · rw [buf,added,List.flatMap_cons,List.append_assoc]
            · rw [number,List.length_cons,UInt8.ofNat_add,UInt8.add_assoc,UInt8.add_comm 1]
              rfl

theorem recorded_all (skips : α → Bool) (i : Nat) (l : List α) : recorded skips never i l = l.filter fun a => !skips a := by
  induction l generalizing i with
  | nil => rfl
  | cons a rest ih => cases shown : skips a <;> simp [recorded,never,shown,ih]

-- A count byte, the records it stands for behind it, patched in when the loop
-- is done.
theorem patched_written {write : Stream → α → Option Stream} {record : α → List UInt8} (appends : Appends write record)
    {skips : α → Bool} {stops : Nat → Bool} {l : List α} {st opened out : Stream} {last : UInt8} (placed : st.word 1 0 = some opened)
    (written : writeRecords skips stops write 0 l opened 0 = some (out,last)) :
    (patch out st.size last)._buf =
      st._buf ++ UInt8.ofNat (recorded skips stops 0 l).length :: (recorded skips stops 0 l).flatMap record := by
  obtain ⟨buf,number⟩ := records_written appends written
  have parts : out._buf = st._buf ++ (0 : UInt8) :: (recorded skips stops 0 l).flatMap record := by
    rw [buf,byte_buf 0 placed,List.append_assoc]
    rfl
  rw [number,UInt8.zero_add]
  exact patch_buf parts _

section fighters
variable {φ β : Type _} {getHP : φ → Int} {info : φ → List UInt8}

def standing (getHP : φ → Int) (fighters : List (Option φ)) : List φ := fighters.filterMap fun bf => bf.filter fun bf => getHP bf > 0

def readCamp (readInfo : List UInt8 → Option (β × List UInt8)) : List UInt8 → Option ((UInt8 × List β) × List UInt8)
  | [] => none
  | campId :: rest => (counted readInfo rest).map fun (infos,rest) => ((campId,infos),rest)

def campChunk (getHP : φ → Int) (info : φ → List UInt8) (camp : UInt8 × List (Option φ)) : List UInt8 :=
  camp.1 :: UInt8.ofNat (standing getHP camp.2).length :: (standing getHP camp.2).flatMap info

def campView (getHP : φ → Int) (view : φ → β) (camp : UInt8 × List (Option φ)) : UInt8 × List β :=
  (camp.1,(standing getHP camp.2).map view)

theorem recorded_standing (fighters : List (Option φ)) :
    recorded (fallen getHP) never 0 fighters = (standing getHP fighters).map some := by
  rw [recorded_all]
  induction fighters with
  | nil => rfl
  | cons bf rest ih =>
      cases bf with
      | none => simpa [fallen,standing] using ih
      | some bf =>
          by_cases alive : getHP bf > 0
          · have first : standing getHP (some bf :: rest) = bf :: standing getHP rest :=
              List.filterMap_cons_some (by simp [alive])
            rw [List.filter_cons_of_pos (by simpa [fallen] using alive),first,ih]
            rfl
          · have first : standing getHP (some bf :: rest) = standing getHP rest :=
              List.filterMap_cons_none (by simpa using alive)
            rw [List.filter_cons_of_neg (by simpa [fallen] using alive),first,ih]

theorem insert_appends (info : φ → List UInt8) : Appends (insertFighterInfo info) fun bf => bf.elim [] info := by
  intro st bf out written
  cases bf with
  | none => cases written
  | some bf => exact append_buf written

theorem camps_written {camps : List (UInt8 × List (Option φ))} {st out : Stream} (written : writeCamps getHP info camps st = some out) :
    out._buf = st._buf ++ camps.flatMap (campChunk getHP info) := by
  induction camps generalizing st with
  | nil =>
      cases Option.some.inj written
      simp
  | cons camp rest ih =>
      obtain ⟨campId,fighters⟩ := camp
      unfold writeCamps at written
      split at written
      · cases written
      · rename_i numbered made
        dsimp only at written
        split at written
        · cases written
        · rename_i counted last loop
          obtain ⟨opened,placed,looped⟩ := Option.bind_eq_some_iff.mp loop
          have chunk := patched_written (insert_appends info) placed looped
          rw [recorded_standing,List.length_map,List.flatMap_map] at chunk
          rw [ih written,chunk,byte_buf campId made]
          simp [campChunk]

variable {readInfo : List UInt8 → Option (β × List UInt8)} {view : φ → β}

theorem camp_reads (reads : ∀ bf, Reads readInfo info view bf) {camp : UInt8 × List (Option φ)}
    (small : (standing getHP camp.2).length < 256) : Reads (readCamp readInfo) (campChunk getHP info) (campView getHP view) camp := by
  intro behind
  have whole := (counted_iff (fun bf _ => reads bf) behind).mpr small
  simp [readCamp,campChunk,campView,whole]

-- The reader saw as many fighters as the camp's count byte says.
theorem camp_small {camp : UInt8 × List (Option φ)}
    (read : readCamp readInfo (campChunk getHP info camp ++ behind) = some (campView getHP view camp,rest)) :
    (standing getHP camp.2).length < 256 := by
  obtain ⟨⟨infos,left⟩,followed,same⟩ := Option.map_eq_some_iff.mp read
  have length := follow_length followed
  have seen : infos = (standing getHP camp.2).map view := congrArg (fun pair : (UInt8 × List β) × List UInt8 => pair.1.2) same
  rw [seen,List.length_map] at length
  exact (byte_count _).mp length.symm

theorem camps_small (reads : ∀ bf, Reads readInfo info view bf) {camps : List (UInt8 × List (Option φ))}
    (followed : follow (readCamp readInfo) camps.length (camps.flatMap (campChunk getHP info) ++ behind) =
      some (camps.map (campView getHP view),rest)) : ∀ camp ∈ camps, (standing getHP camp.2).length < 256 := by
  induction camps with
  | nil => simp
  | cons camp later ih =>
      rw [List.length_cons,List.flatMap_cons,List.append_assoc,follow] at followed
      split at followed
      · cases followed
      · rename_i first left read
        obtain ⟨⟨views,after⟩,others,same⟩ := Option.map_eq_some_iff.mp followed
        simp only [List.map_cons,Prod.mk.injEq,List.cons.injEq] at same
        obtain ⟨⟨here,there⟩,ends⟩ := same
        rw [here] at read
        have small := camp_small read
        -- so the reader stands where the next camp begins
        have exact := camp_reads reads small (later.flatMap (campChunk getHP info) ++ behind)
        cases Option.some.inj (read.symm.trans exact)
        rw [there,ends] at others
        intro other member
        rcases List.mem_cons.mp member with same | later
        · exact same ▸ small
        · exact ih others other later

theorem start_info_iff (reads : ∀ bf, Reads readInfo info view bf) {camps : List (UInt8 × List (Option φ))} {_pack out : Stream}
    (written : MakePreStartInfo getHP info camps _pack = some out) :
    Exact (readCamp readInfo) (out._buf.drop _pack.size) (camps.map (campView getHP view)) ↔
      camps.length < 256 ∧ ∀ camp ∈ camps, (standing getHP camp.2).length < 256 := by
  obtain ⟨opened,placed,looped⟩ := Option.bind_eq_some_iff.mp written
  have shape : out._buf.drop _pack.size = UInt8.ofNat camps.length :: camps.flatMap (campChunk getHP info) := by
    rw [camps_written looped,word_buf placed,List.append_assoc]
    exact List.drop_left' rfl
  rw [shape]
  constructor
  · rintro ⟨_,_,_,_,followed⟩
    have length := follow_length followed
    rw [List.length_map] at length
    have few := (byte_count _).mp length.symm
    rw [counted,(byte_count _).mpr few] at followed
    have whole : follow (readCamp readInfo) camps.length (camps.flatMap (campChunk getHP info) ++ []) =
        some (camps.map (campView getHP view),[]) := by
      rw [List.append_nil]
      exact followed
    exact ⟨few,camps_small reads whole⟩
  · rintro ⟨few,small⟩
    exact (exact_iff fun camp member => camp_reads reads (small camp member)).mpr few

end fighters

section objects

def readObject (bytes : List UInt8) : Option ((Nat × Nat × Nat) × List UInt8) :=
  match takeWord 4 bytes with
  | none => none
  | some (id,rest) =>
    match takeWord 2 rest with
    | none => none
    | some (spot,rest) =>
      match takeWord 1 rest with
      | none => none
      | some (kind,rest) => (takeWord 1 rest).map fun (_,rest) => ((id,spot,kind),rest)

def objectRecord (mo : MapObject) : List UInt8 :=
  toBytes 4 mo.GetID.toNat ++ (toBytes 2 mo.GetSpot.toNat ++ (toBytes 1 mo.GetType.toNat ++ toBytes 1 0))

def objectView (mo : MapObject) : Nat × Nat × Nat := (mo.GetID.toNat,mo.GetSpot.toNat,mo.GetType.toNat)

def visible (hasFighter : UInt32 → Bool) (m_MOMap : List MapObject) : List MapObject :=
  m_MOMap.filter fun mo => !unseen hasFighter mo

theorem object_appends : Appends putObject objectRecord := by
  intro st mo out written
  obtain ⟨a,first,written⟩ := Option.bind_eq_some_iff.mp written
  obtain ⟨b,second,written⟩ := Option.bind_eq_some_iff.mp written
  obtain ⟨c,third,written⟩ := Option.bind_eq_some_iff.mp written
  rw [word_buf written,word_buf third,word_buf second,word_buf first]
  simp only [objectRecord,List.append_assoc]

theorem object_reads (mo : MapObject) : Reads readObject objectRecord objectView mo := by
  intro rest
  have id : mo.GetID.toNat % 256 ^ 4 = mo.GetID.toNat := Nat.mod_eq_of_lt mo.GetID.toNat_lt
  have spot : mo.GetSpot.toNat % 256 ^ 2 = mo.GetSpot.toNat := Nat.mod_eq_of_lt mo.GetSpot.toNat_lt
  have kind : mo.GetType.toNat % 256 ^ 1 = mo.GetType.toNat := Nat.mod_eq_of_lt mo.GetType.toNat_lt
  simp only [readObject,objectRecord,objectView,List.append_assoc,takeWord_put,id,spot,kind,Option.map_some]

theorem city_npcs_iff {MAPTRANSPORT getId : UInt8} {hasFighter : UInt32 → Bool} {m_MOMap : List MapObject} {out : Stream}
    (written : SendCityNPCs MAPTRANSPORT getId hasFighter m_MOMap = some out) :
    Exact readObject (out._buf.drop 5) ((visible hasFighter m_MOMap).map objectView) ↔ (visible hasFighter m_MOMap).length < 256 := by
  obtain ⟨named,first,written⟩ := Option.bind_eq_some_iff.mp written
  obtain ⟨opened,placed,written⟩ := Option.bind_eq_some_iff.mp written
  obtain ⟨⟨st,c⟩,looped,same⟩ := Option.map_eq_some_iff.mp written
  subst same
  have front := byte_buf getId first
  have length : named.size = 5 := by
    rw [Stream.size,front]
    rfl
  have buf := patched_written object_appends placed looped
  rw [recorded_all,length] at buf
  have shape : (patch st 5 c).eos._buf.drop 5 =
      UInt8.ofNat (visible hasFighter m_MOMap).length :: (visible hasFighter m_MOMap).flatMap objectRecord := by
    rw [eos_behind _ _ 3,buf]
    · exact List.drop_left' length
    · rw [Stream.size,buf,List.length_append]
      have := length
      unfold Stream.size at this
      omega
  rw [shape]
  exact exact_iff fun mo _ => object_reads mo

theorem word_some (st : Stream) (width n : Nat) (room : st.size + width ≤ maxSize) :
    ∃ out, st.word width n = some out ∧ out.size = st.size + width := by
  have size := toBytes_length width n
  refine ⟨_,if_pos (by rw [size]; exact room),?_⟩
  rw [Stream.size,List.length_append,size]
  rfl

theorem putObject_some (st : Stream) (mo : MapObject) (room : st.size + 8 ≤ maxSize) :
    ∃ out, putObject st mo = some out ∧ out.size = st.size + 8 := by
  obtain ⟨a,first,one⟩ := word_some st 4 mo.GetID.toNat (by omega)
  obtain ⟨b,second,two⟩ := word_some a 2 mo.GetSpot.toNat (by omega)
  obtain ⟨c,third,three⟩ := word_some b 1 mo.GetType.toNat (by omega)
  obtain ⟨d,fourth,four⟩ := word_some c 1 0 (by omega)
  refine ⟨d,?_,by omega⟩
  simp only [putObject,first,second,third,fourth,Option.bind_some]

theorem objects_written (skips : MapObject → Bool) (stops : Nat → Bool) (i : Nat) (l : List MapObject) (st : Stream) (count : UInt8)
    (room : st.size + 8 * l.length ≤ maxSize) : ∃ out, writeRecords skips stops putObject i l st count = some out := by
  induction l generalizing i st count with
  | nil => exact ⟨_,rfl⟩
  | cons mo rest ih =>
      rw [List.length_cons] at room
      obtain ⟨next,made,size⟩ := putObject_some st mo (by omega)
      unfold writeRecords
      split
      · exact ih _ _ _ (by omega)
      · simp only [made]
        split
        · exact ⟨_,rfl⟩
        · exact ih _ _ _ (by omega)

theorem city_npcs_written (MAPTRANSPORT getId : UInt8) (hasFighter : UInt32 → Bool) (m_MOMap : List MapObject)
    (room : 6 + 8 * m_MOMap.length ≤ maxSize) : ∃ out, SendCityNPCs MAPTRANSPORT getId hasFighter m_MOMap = some out := by
  have header : (Stream.empty.init MAPTRANSPORT 0xFF).size = 4 := rfl
  obtain ⟨named,first,one⟩ := word_some (Stream.empty.init MAPTRANSPORT 0xFF) 1 getId.toNat (by omega)
  obtain ⟨opened,second,two⟩ := word_some named 1 0 (by omega)
  obtain ⟨⟨st,c⟩,looped⟩ := objects_written (unseen hasFighter) never 0 m_MOMap opened 0 (by omega)
  refine ⟨(patch st 5 c).eos,?_⟩
  simp only [SendCityNPCs,first,second,looped,Option.bind_some,Option.map_some]

end objects

section ranks
variable {ρ : Type _}

def shown (name : List UInt8) : List UInt8 := name.take (Stream.strlen name % 2 ^ 16)

def readRank (bytes : List UInt8) : Option ((List UInt8 × Nat) × List UInt8) :=
  match takeChars bytes with
  | none => none
  | some (name,rest) => (takeWord 4 rest).map fun (goal,rest) => ((name,goal),rest)

def rankRecord (s : Ranking ρ) (getName : ρ → List UInt8) (it : RCSort ρ) : List UInt8 :=
  toBytes 2 (shown (getName it.player)).length ++ (shown (getName it.player) ++ toBytes 4 (s.goal it.player).toNat)

def rankView (s : Ranking ρ) (getName : ρ → List UInt8) (it : RCSort ρ) : List UInt8 × Nat :=
  (shown (getName it.player),(s.goal it.player).toNat)

-- The entries up to the one behind which the loop ends.
def ranked (stops : Nat → Bool) (pvpAwardSort : List (RCSort ρ)) : List (RCSort ρ) := recorded (fun _ => false) stops 0 pvpAwardSort

theorem strlen_le (name : List UInt8) : Stream.strlen name ≤ name.length := (List.takeWhile_sublist _).length_le

theorem shown_length (name : List UInt8) : (shown name).length = Stream.strlen name % 2 ^ 16 := by
  have whole := strlen_le name
  rw [shown,List.length_take]
  omega

theorem rank_appends (s : Ranking ρ) (getName : ρ → List UInt8) : Appends (putRank s getName) (rankRecord s getName) := by
  intro st it out written
  obtain ⟨named,first,written⟩ := Option.bind_eq_some_iff.mp written
  obtain ⟨sized,length,chars⟩ := Option.bind_eq_some_iff.mp first
  rw [word_buf written,append_buf chars,word_buf length,rankRecord,shown_length]
  simp only [shown,List.append_assoc]

theorem rank_reads (s : Ranking ρ) (getName : ρ → List UInt8) (it : RCSort ρ) :
    Reads readRank (rankRecord s getName) (rankView s getName) it := by
  intro rest
  have short : (shown (getName it.player)).length < 2 ^ 16 := by
    rw [shown_length]
    omega
  have goal : (s.goal it.player).toNat % 256 ^ 4 = (s.goal it.player).toNat := Nat.mod_eq_of_lt (s.goal it.player).toNat_lt
  simp only [readRank,rankRecord,rankView,List.append_assoc,takeChars_put _ short,takeWord_put,goal,Option.map_some]

theorem award_rank_iff {ACT : UInt8} {s : Ranking ρ} {players : Players ρ} {getName : ρ → List UInt8} {player : ρ} {myRank : UInt32}
    {stops : Nat → Bool} {out : Stream} (written : OnSendPvpAwardRank ACT s players getName player myRank stops = some out) :
    Exact readRank (out._buf.drop 14) ((ranked stops (s.InitRank players).pvpAwardSort).map (rankView (s.InitRank players) getName)) ↔
      (ranked stops (s.InitRank players).pvpAwardSort).length < 256 := by
  unfold OnSendPvpAwardRank at written
  obtain ⟨a,first,written⟩ := Option.bind_eq_some_iff.mp written
  obtain ⟨b,second,written⟩ := Option.bind_eq_some_iff.mp written
  obtain ⟨c,third,written⟩ := Option.bind_eq_some_iff.mp written
  obtain ⟨d,fourth,written⟩ := Option.bind_eq_some_iff.mp written
  obtain ⟨opened,placed,written⟩ := Option.bind_eq_some_iff.mp written
  obtain ⟨⟨st,count⟩,looped,same⟩ := Option.map_eq_some_iff.mp written
  subst same
  have length : d.size = 14 := by
    rw [Stream.size,word_buf fourth,word_buf third,word_buf second,word_buf first]
    simp [Stream.init]
  have buf := patched_written (rank_appends (s.InitRank players) getName) placed looped
  have shape : (patch st d.size count).eos._buf.drop 14 = UInt8.ofNat (ranked stops (s.InitRank players).pvpAwardSort).length ::
      (ranked stops (s.InitRank players).pvpAwardSort).flatMap (rankRecord (s.InitRank players) getName) := by
    rw [eos_behind _ _ 12,buf]
    · exact List.drop_left' length
    · rw [Stream.size,buf,List.length_append]
      unfold Stream.size at length
      omega
  rw [shape]
  exact exact_iff fun it _ => rank_reads _ _ it

end ranks

-- Each packet reads back by its counts exactly when the numbers of camps, of
-- fighters of a camp, of objects and of ranks fit into their bytes.
theorem counts_decode_iff {φ β ρ : Type _} {getHP : φ → Int} {info : φ → List UInt8} {readInfo : List UInt8 → Option (β × List UInt8)}
    {view : φ → β} (reads : ∀ bf, Reads readInfo info view bf) {camps : List (UInt8 × List (Option φ))} {_pack start : Stream}
    (started : MakePreStartInfo getHP info camps _pack = some start)
    {MAPTRANSPORT getId : UInt8} {hasFighter : UInt32 → Bool} {m_MOMap : List MapObject} {npcs : Stream}
    (sent : SendCityNPCs MAPTRANSPORT getId hasFighter m_MOMap = some npcs)
    {ACT : UInt8} {s : Ranking ρ} {players : Players ρ} {getName : ρ → List UInt8} {player : ρ} {myRank : UInt32}
    {stops : Nat → Bool} {ranks : Stream} (awarded : OnSendPvpAwardRank ACT s players getName player myRank stops = some ranks) :
    (Exact (readCamp readInfo) (start._buf.drop _pack.size) (camps.map (campView getHP view)) ↔
      camps.length < 256 ∧ ∀ camp ∈ camps, (standing getHP camp.2).length < 256) ∧
    (Exact readObject (npcs._buf.drop 5) ((visible hasFighter m_MOMap).map objectView) ↔ (visible hasFighter m_MOMap).length < 256) ∧
    (Exact readRank (ranks._buf.drop 14) ((ranked stops (s.InitRank players).pvpAwardSort).map (rankView (s.InitRank players) getName)) ↔
      (ranked stops (s.InitRank players).pvpAwardSort).length < 256) :=
  ⟨start_info_iff reads started,city_npcs_iff sent,award_rank_iff awarded⟩

def readTag : List UInt8 → Option (UInt8 × List UInt8)
  | [] => none
  | tag :: rest => some (tag,rest)

theorem counts_decode_small : ∃ start npcs ranks : Stream,
    Exact (readCamp readTag) start._buf [(1,[7]),(2,[])] ∧ Exact readObject (npcs._buf.drop 5) [(900,3,1)] ∧
    Exact readRank (ranks._buf.drop 14) [([65],30)] := by
  have reads : ∀ bf : UInt8, Reads readTag (fun bf => [bf]) id bf := fun _ _ => rfl
  obtain ⟨start,started⟩ : ∃ start, MakePreStartInfo (fun bf : UInt8 => bf.toNat) (fun bf => [bf])
      [(1,[some 7,none]),(2,[some 0])] Stream.empty = some start := ⟨_,rfl⟩
  obtain ⟨npcs,sent⟩ : ∃ npcs, SendCityNPCs 9 1 (fun _ => true) [⟨800,2,1,false⟩,⟨900,3,1,false⟩] = some npcs := ⟨_,rfl⟩
  obtain ⟨ranks,awarded⟩ : ∃ ranks, OnSendPvpAwardRank 9 ⟨fun _ => 30,[],false⟩
      ⟨[()],fun _ => List.mem_singleton_self _,List.nodup_singleton _⟩ (fun _ => [65]) () 1 never = some ranks := ⟨_,rfl⟩
  obtain ⟨fighters,objects,names⟩ := counts_decode_iff reads started sent awarded
  exact ⟨start,npcs,ranks,fighters.mpr (by decide),objects.mpr (by decide),names.mpr (by decide)⟩

-- 256 objects in sight are counted as none.
def crowd : List MapObject := (List.range 256).map fun i => ⟨UInt32.ofNat (i+801),0,0,false⟩

theorem crowd_visible : visible (fun _ => false) crowd = crowd := by
  refine List.filter_eq_self.mpr ?_
  intro mo member
  obtain ⟨i,_,rfl⟩ := List.mem_map.mp member
  simp [unseen]

theorem crowd_uncounted : ∃ out, SendCityNPCs 0 1 (fun _ => false) crowd = some out ∧
    ¬ Exact readObject (out._buf.drop 5) ((visible (fun _ => false) crowd).map objectView) := by
  have many : crowd.length = 256 := by simp [crowd]
  obtain ⟨out,written⟩ := city_npcs_written 0 1 (fun _ => false) crowd (by rw [many]; decide)
  refine ⟨out,written,?_⟩
  rw [city_npcs_iff written,crowd_visible,many]
  exact Nat.lt_irrefl 256

end GameServer.MsgHandler
