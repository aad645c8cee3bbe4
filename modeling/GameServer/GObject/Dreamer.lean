import GameServer.Common.StringTokenizer
import GameServer.Library.OrderedMap

namespace GameServer.GObject
open OrderedMap

structure GridInfo where
  neighbCount : UInt8
  posX : UInt8
  posY : UInt8
  gridType : UInt16
  deriving DecidableEq, Repr

-- INDEX_TO_POS gives the position.
def GridInfo.made (index type : UInt16) (neighbourCount : UInt8) : GridInfo :=
  ⟨neighbourCount,(index &&& 0xFF).toUInt8,(index >>> 8 &&& 0xFF).toUInt8,type⟩

-- _mapInfo: the grids in the order of their index, each at its position.
structure MapInfo where
  grids : List (UInt16 × GridInfo)
  ordered : grids.Pairwise fun a b => a.1 < b.1
  placed : ∀ entry ∈ grids, entry.2 = GridInfo.made entry.1 entry.2.gridType entry.2.neighbCount

namespace MapInfo

def empty : MapInfo := ⟨[],List.Pairwise.nil,fun _ member => nomatch member⟩

-- map::insert: a grid that is there stays.
def insert (m : MapInfo) (index type : UInt16) (neighbourCount : UInt8) : MapInfo where
  grids := upsert index (fun old => old.getD (GridInfo.made index type neighbourCount)) m.grids
  ordered := upsert_ordered index _ m.ordered
  placed := by
    intro entry member
    obtain old | new | ⟨grid,there,new⟩ := mem_upsert member
    · exact m.placed entry old
    · subst new
      rfl
    · subst new
      exact m.placed _ there

theorem ext_grids {m other : MapInfo} (same : m.grids = other.grids) : m = other := by
  cases m
  cases other
  cases same
  rfl

end MapInfo

-- What a group is read as: index, type and count. `gridType`, which
-- LoadMapInfo uses and does not declare, is some reading of the fields; `none`
-- is a RangeException.
def readGrid (gridType : List (List Char) → Option UInt16) (group : List Char) : Option (UInt16 × UInt16 × UInt8) :=
  let tokenizer2 := StringTokenizer group ','
  tokenizer2[0]?.bind fun pos => tokenizer2[2]?.bind fun neighbCount => (gridType tokenizer2).map fun type =>
    (UInt16.ofInt (atoi pos),type,UInt8.ofInt (atoi neighbCount))

-- The loop over the groups: the number it checks is that of the groups.
def loadGrids (gridType : List (List Char) → Option UInt16) (count : Nat) : List (List Char) → MapInfo → Option (Bool × MapInfo)
  | [],m => some (true,m)
  | group :: groups,m =>
    if count < 3 then some (false,m)
    else (readGrid gridType group).bind fun (pos,type,neighbCount) => loadGrids gridType count groups (m.insert pos type neighbCount)

def LoadMapInfo (gridType : List (List Char) → Option UInt16) (_gameProgress : UInt8) (_mapInfo : MapInfo) (list : List Char) :
    Option (Bool × MapInfo) :=
  if _gameProgress = 0 then some (false,_mapInfo)
  else
    let tokenizer := StringTokenizer list '|'
    loadGrids gridType tokenizer.length tokenizer _mapInfo

-- buf: what is before its first NUL, and where pbuf is in it.
structure Buffer where
  text : List Char
  pbuf : Nat

-- snprintf(pbuf, pend - pbuf, ..) and the new pbuf. `none`: pend - pbuf is
-- negative and becomes a size.
def Buffer.snprintf (buf : Buffer) (out : List Char) : Option Buffer :=
  if buf.pbuf ≤ 1023 then some ⟨buf.text++out.take (1023-buf.pbuf-1),buf.pbuf+out.length⟩ else none

-- What the loop prints for a grid, one snprintf each.
def prints (entry : UInt16 × GridInfo) : List (List Char) :=
  [decimal entry.1.toUInt32,[','],decimal entry.2.neighbCount.toUInt32,[','],decimal entry.2.gridType.toUInt32,['|']]

-- The string that goes to the database.
def SaveMapInfo (_mapInfo : MapInfo) : Option (List Char) :=
  ((_mapInfo.grids.flatMap prints).foldlM Buffer.snprintf ⟨[],0⟩).map Buffer.text

section statements
variable (gridType : List (List Char) → Option UInt16) (_gameProgress : UInt8)

def Restored (m : MapInfo) : Prop :=
  ∃ list, SaveMapInfo m = some list ∧ ∃ loaded, LoadMapInfo gridType _gameProgress MapInfo.empty list = some (loaded,m)

def Rejected (m : MapInfo) (list : List Char) : Prop := LoadMapInfo gridType _gameProgress m list = some (false,m)

def groupText (index stored : UInt16) (count : UInt8) : List Char :=
  decimal index.toUInt32++ ',' :: (decimal count.toUInt32++ ',' :: decimal stored.toUInt32)

def savedLength (m : MapInfo) : Nat := (m.grids.map fun entry => (groupText entry.1 entry.2.gridType entry.2.neighbCount).length+1).sum

-- 1024 characters lose the last digit of the last type.
def cutShort (m : MapInfo) (entry : UInt16 × GridInfo) : Prop := savedLength m = 1024 ∧ m.grids.getLast? = some entry

instance (m : MapInfo) (entry : UInt16 × GridInfo) : Decidable (cutShort m entry) := inferInstanceAs (Decidable (_ ∧ _))

-- The last field is read as the count, and `gridType` finds the type.
def Told (entry : UInt16 × GridInfo) (stored : UInt16) : Prop :=
  entry.2.neighbCount = stored.toUInt8 ∧
    gridType [decimal entry.1.toUInt32,decimal entry.2.neighbCount.toUInt32,decimal stored.toUInt32] = some entry.2.gridType

def Restorable (m : MapInfo) : Prop :=
  m.grids = [] ∨ _gameProgress ≠ 0 ∧ 3 ≤ m.grids.length ∧ savedLength m ≤ 1024 ∧
    ∀ entry ∈ m.grids, if cutShort m entry
      then 10 ≤ entry.2.gridType ∧ Told gridType entry (entry.2.gridType/10) else Told gridType entry entry.2.gridType

end statements

-- The buffer after some output: its first 1022 characters.
def Buffer.after (all : List Char) : Buffer := ⟨all.take 1022,all.length⟩

theorem snprintf_after (all out : List Char) :
    (Buffer.after all).snprintf out = if all.length ≤ 1023 then some (Buffer.after (all++out)) else none := by
  unfold Buffer.snprintf Buffer.after
  split
  · rw [List.take_append,List.length_append,Nat.sub_right_comm]
  · rfl

theorem snprintf_all (all : List Char) (outs : List (List Char)) :
    outs.foldlM Buffer.snprintf (Buffer.after all) =
      if outs = [] ∨ (all++outs.dropLast.flatten).length ≤ 1023 then some (Buffer.after (all++outs.flatten)) else none := by
  induction outs generalizing all with
  | nil => simp
  | cons out outs ih =>
      rw [List.foldlM_cons,snprintf_after]
      by_cases fits : all.length ≤ 1023
      · rw [if_pos fits]
        change outs.foldlM Buffer.snprintf (Buffer.after (all++out)) = _
        rw [ih]
        cases outs with
        | nil => simp [fits]
        | cons next outs => simp
      · rw [if_neg fits,if_neg]
        · rfl
        · simp only [List.length_append]
          intro no
          obtain wrong | few := no
          · cases wrong
          · omega

-- The group of a grid, and what is stored of it.
def groupOf (entry : UInt16 × GridInfo) : List Char := groupText entry.1 entry.2.gridType entry.2.neighbCount

def storedGroup (m : MapInfo) (entry : UInt16 × GridInfo) : List Char := if cutShort m entry then (groupOf entry).dropLast else groupOf entry

def fullText (grids : List (UInt16 × GridInfo)) : List Char := (grids.map groupOf).flatMap fun segment => segment++['|']

theorem prints_flatten (grids : List (UInt16 × GridInfo)) : (grids.flatMap prints).flatten = fullText grids := by
  induction grids with
  | nil => rfl
  | cons entry grids ih =>
      rw [List.flatMap_cons,List.flatten_append,ih]
      simp [fullText,prints,groupOf,groupText]

theorem full_length (m : MapInfo) : (fullText m.grids).length = savedLength m := by
  simp [fullText,savedLength,groupOf,List.length_flatMap,Function.comp_def]

theorem last_print (outs : List (List Char)) :
    (outs++[['|']] = [] ∨ (outs++[['|']]).dropLast.flatten.length ≤ 1023) ↔ (outs++[['|']]).flatten.length ≤ 1024 := by
  have size : (outs++[['|']]).flatten.length = outs.flatten.length+1 := by
    rw [List.flatten_append,List.length_append]
    rfl
  have filled : outs++[['|']] ≠ [] := List.append_ne_nil_of_right_ne_nil _ (List.cons_ne_nil _ _)
  rw [List.dropLast_concat,size,or_iff_right filled]
  omega

theorem save_full (m : MapInfo) : SaveMapInfo m = if savedLength m ≤ 1024 then some ((fullText m.grids).take 1022) else none := by
  have printed := snprintf_all [] (m.grids.flatMap prints)
  rw [List.nil_append,List.nil_append,prints_flatten] at printed
  rw [SaveMapInfo]
  change ((m.grids.flatMap prints).foldlM Buffer.snprintf (Buffer.after [])).map Buffer.text = _
  rw [printed]
  have fits : (m.grids.flatMap prints = [] ∨ (m.grids.flatMap prints).dropLast.flatten.length ≤ 1023) ↔ savedLength m ≤ 1024 := by
    rw [← full_length,← prints_flatten]
    rcases List.eq_nil_or_concat m.grids with none | ⟨init,last,some⟩
    · simp [none]
    · rw [some,List.concat_eq_append,List.flatMap_append]
      have ends : (init.flatMap prints++[last].flatMap prints) = (init.flatMap prints++(prints last).dropLast)++[['|']] := by
        simp [prints]
      rw [ends]
      exact last_print _
  by_cases short : savedLength m ≤ 1024
  · rw [if_pos (fits.mpr short),if_pos short]
    rfl
  · rw [if_neg (fun no => short (fits.mp no)),if_neg short]
    rfl

theorem digits_plain (n : UInt32) : ',' ∉ decimal n ∧ '|' ∉ decimal n := by
  constructor
  · intro member
    exact (digit_plain (decimal_digits n _ member)).2.2.2.1 rfl
  · intro member
    exact (digit_plain (decimal_digits n _ member)).2.2.2.2 rfl

theorem group_plain (entry : UInt16 × GridInfo) : '|' ∉ groupOf entry := by
  simp [groupOf,groupText,(digits_plain _).2]

theorem full_append (init : List (UInt16 × GridInfo)) (last : UInt16 × GridInfo) : fullText (init++[last]) = fullText init++(groupOf last++['|']) := by
  simp [fullText]

theorem groups_front (grids : List (UInt16 × GridInfo)) (rest : List Char) :
    StringTokenizer (fullText grids++rest) '|' = grids.map groupOf++StringTokenizer rest '|' := by
  apply StringTokenizer.tokens_front
  intro segment member
  obtain ⟨entry,_,same⟩ := List.mem_map.mp member
  exact same ▸ group_plain entry

-- Only the last grid can be cut.
theorem stored_map (m : MapInfo) {init : List (UInt16 × GridInfo)} (split : m.grids = init++[last]) :
    m.grids.map (storedGroup m) = init.map groupOf++[if savedLength m = 1024 then (groupOf last).dropLast else groupOf last] := by
  have final : m.grids.getLast? = some last := by simp [split]
  have ordered := m.ordered
  rw [split,List.pairwise_append] at ordered
  rw [split,List.map_append,List.map_singleton]
  congr 1
  · apply List.map_congr_left
    intro entry member
    have less := ordered.2.2 entry member last List.mem_cons_self
    have other : ¬ cutShort m entry := by
      intro ⟨_,same⟩
      cases final.symm.trans same
      exact absurd less (UInt16.lt_irrefl _)
    rw [storedGroup,if_neg other]
  · simp [storedGroup,cutShort,final]

-- The text that is stored has the stored groups in it.
theorem stored_groups (m : MapInfo) (fits : savedLength m ≤ 1024) :
    StringTokenizer ((fullText m.grids).take 1022) '|' = m.grids.map (storedGroup m) := by
  rcases List.eq_nil_or_concat m.grids with none | ⟨init,last,some⟩
  · simp [none,fullText,StringTokenizer,StringTokenizer.scan]
  · rw [List.concat_eq_append] at some
    have size := full_length m
    rw [some,full_append,List.length_append,List.length_append,List.length_singleton] at size
    have long : 2 ≤ (groupOf last).length := by simp [groupOf,groupText]; omega
    rw [stored_map m some,some,full_append]
    by_cases whole : savedLength m ≤ 1022
    · have all := groups_front (init++[last]) []
      rw [List.append_nil,full_append] at all
      rw [List.take_of_length_le (by simp only [List.length_append,List.length_singleton]; omega),all,if_neg (by omega)]
      simp [StringTokenizer,StringTokenizer.scan]
    · rw [List.take_append,List.take_of_length_le (by omega),groups_front,List.take_append]
      have none : List.take (1022-(fullText init).length-(groupOf last).length) ['|'] = [] := by
        rw [List.take_eq_nil_iff]
        exact Or.inl (by omega)
      rw [none,List.append_nil]
      congr 1
      have kept : List.take (1022-(fullText init).length) (groupOf last) = if savedLength m = 1024 then (groupOf last).dropLast else groupOf last := by
        split
        · rw [List.dropLast_eq_take]
          congr 1
          omega
        · exact List.take_of_length_le (by omega)
      rw [← kept]
      apply StringTokenizer.last_token
      · intro empty
        have few := congrArg List.length empty
        rw [List.length_take,List.length_nil] at few
        omega
      · exact fun member => group_plain last (List.mem_of_mem_take member)

-- Three fields, of which the last may have lost its digits.
theorem group_fields (index stored : UInt16) (count : UInt8) :
    StringTokenizer (groupText index stored count) ',' = [decimal index.toUInt32,decimal count.toUInt32,decimal stored.toUInt32] := by
  rw [groupText,StringTokenizer.token_then _ (digits_plain _).1,StringTokenizer.token_then _ (digits_plain _).1,
    StringTokenizer.last_token (decimal_some _) (digits_plain _).1]

theorem two_fields (index : UInt16) (count : UInt8) :
    StringTokenizer (decimal index.toUInt32++ ',' :: (decimal count.toUInt32++[','])) ',' = [decimal index.toUInt32,decimal count.toUInt32] := by
  rw [StringTokenizer.token_then _ (digits_plain _).1,StringTokenizer.token_then [] (digits_plain _).1]
  rfl

theorem index_read (index : UInt16) : UInt16.ofInt (atoi (decimal index.toUInt32)) = index := by
  have few := index.toNat_lt
  rw [atoi_decimal _ (by rw [UInt16.toNat_toUInt32]; omega),UInt16.toNat_toUInt32,UInt16.ofInt]
  apply UInt16.toNat_inj.mp
  rw [UInt16.toNat_ofNat']
  omega

theorem count_read (stored : UInt16) : UInt8.ofInt (atoi (decimal stored.toUInt32)) = stored.toUInt8 := by
  have few := stored.toNat_lt
  rw [atoi_decimal _ (by rw [UInt16.toNat_toUInt32]; omega),UInt16.toNat_toUInt32,UInt8.ofInt]
  apply UInt8.toNat_inj.mp
  rw [UInt8.toNat_ofNat',UInt16.toNat_toUInt8]
  omega

variable {gridType : List (List Char) → Option UInt16}

theorem told_iff (entry : UInt16 × GridInfo) (stored : UInt16) :
    readGrid gridType (groupText entry.1 stored entry.2.neighbCount) = some (entry.1,entry.2.gridType,entry.2.neighbCount) ↔
      Told gridType entry stored := by
  unfold readGrid Told
  rw [group_fields]
  simp only [List.getElem?_cons_zero,List.getElem?_cons_succ,Option.bind_some,index_read,count_read,Option.map_eq_some_iff,Prod.mk.injEq,true_and]
  constructor
  · intro ⟨type,found,same,count⟩
    exact ⟨count.symm,same ▸ found⟩
  · intro ⟨count,found⟩
    exact ⟨_,found,rfl,count.symm⟩

theorem group_cut (index stored : UInt16) (count : UInt8) (front : List Char) (last : Char) (shown : decimal stored.toUInt32 = front++[last]) :
    (groupText index stored count).dropLast = decimal index.toUInt32++ ',' :: (decimal count.toUInt32++ ',' :: front) := by
  have split : groupText index stored count = (decimal index.toUInt32++ ',' :: (decimal count.toUInt32++ ',' :: front))++[last] := by
    simp [groupText,shown]
  rw [split,List.dropLast_concat]

-- Of a type under ten nothing is left when the last digit is gone.
theorem cut_iff (entry : UInt16 × GridInfo) :
    readGrid gridType (groupOf entry).dropLast = some (entry.1,entry.2.gridType,entry.2.neighbCount) ↔
      10 ≤ entry.2.gridType ∧ Told gridType entry (entry.2.gridType/10) := by
  have ten : (10 : UInt16).toNat = 10 := rfl
  by_cases large : 10 ≤ entry.2.gridType
  · have more := UInt16.le_iff_toNat_le.mp large
    rw [ten] at more
    have shown : decimal entry.2.gridType.toUInt32 = decimal (entry.2.gridType/10).toUInt32++[(entry.2.gridType.toNat%10).digitChar] := by
      simp only [decimal,UInt16.toNat_toUInt32,UInt16.toNat_div,ten]
      exact Nat.toDigits_of_base_le (by decide) more
    rw [groupOf,group_cut _ _ _ _ _ shown]
    exact (told_iff entry _).trans (by simp [large])
  · have few := UInt16.lt_iff_toNat_lt.mp (UInt16.not_le.mp large)
    rw [ten] at few
    have shown : decimal entry.2.gridType.toUInt32 = []++[entry.2.gridType.toNat.digitChar] := by
      simp only [decimal,UInt16.toNat_toUInt32]
      exact Nat.toDigits_of_lt_base few
    rw [groupOf,group_cut _ _ _ _ _ shown,readGrid,two_fields]
    simp [large]

theorem load_reads {count : Nat} (many : ¬ count < 3) (groups : List (List Char)) (m : MapInfo) :
    loadGrids gridType count groups m = (groups.mapM (readGrid gridType)).map fun reads =>
      (true,reads.foldl (fun m read => m.insert read.1 read.2.1 read.2.2) m) := by
  induction groups generalizing m with
  | nil => rfl
  | cons one groups ih =>
      rw [loadGrids,if_neg many,List.mapM_cons]
      cases readGrid gridType one with
      | none => rfl
      | some read =>
          obtain ⟨pos,type,neighbCount⟩ := read
          rw [Option.bind_some]
          dsimp only
          rw [ih]
          cases groups.mapM (readGrid gridType) <;> rfl

-- Grids that come in order go to the end.
theorem insert_reads (reads : List (UInt16 × UInt16 × UInt8)) (m : MapInfo) (ordered : reads.Pairwise fun a b => a.1 < b.1)
    (above : ∀ entry ∈ m.grids, ∀ read ∈ reads, entry.1 < read.1) :
    (reads.foldl (fun m read => m.insert read.1 read.2.1 read.2.2) m).grids =
      m.grids++reads.map fun read => (read.1,GridInfo.made read.1 read.2.1 read.2.2) := by
  induction reads generalizing m with
  | nil => simp
  | cons read reads ih =>
      obtain ⟨least,later⟩ := List.pairwise_cons.mp ordered
      have last : (m.insert read.1 read.2.1 read.2.2).grids = m.grids++[(read.1,GridInfo.made read.1 read.2.1 read.2.2)] :=
        upsert_last _ _ fun entry member => above entry member read List.mem_cons_self
      rw [List.foldl_cons,ih _ later]
      · rw [last,List.append_assoc]
        rfl
      · intro entry member other there
        rw [last] at member
        obtain old | new := List.mem_append.mp member
        · exact above entry old other (List.mem_cons_of_mem _ there)
        · rw [List.mem_singleton.mp new]
          exact least other there

theorem read_index {index : UInt16} {rest : List Char} {read : UInt16 × UInt16 × UInt8} (found : readGrid gridType (decimal index.toUInt32++ ',' :: rest) = some read) :
    read.1 = index := by
  unfold readGrid at found
  rw [StringTokenizer.token_then _ (digits_plain _).1] at found
  dsimp only at found
  rw [List.getElem?_cons_zero,Option.bind_some] at found
  obtain ⟨_,_,found⟩ := Option.bind_eq_some_iff.mp found
  obtain ⟨_,_,same⟩ := Option.map_eq_some_iff.mp found
  rw [← same]
  exact index_read index

theorem stored_index (m : MapInfo) (entry : UInt16 × GridInfo) : ∃ rest, storedGroup m entry = decimal entry.1.toUInt32++ ',' :: rest := by
  unfold storedGroup
  split
  · exact ⟨_,by rw [groupOf,groupText,List.dropLast_append_of_ne_nil (List.cons_ne_nil _ _),List.dropLast_cons_of_ne_nil (by simp)]⟩
  · exact ⟨_,rfl⟩

section reads
variable {α β γ κ : Type _} {f : β → Option γ} {h : α → β} {xs : List α}

theorem mapM_some_iff (g : α → γ) : (xs.map h).mapM f = some (xs.map g) ↔ ∀ x ∈ xs, f (h x) = some (g x) := by
  induction xs with
  | nil => simp
  | cons x xs ih =>
      rw [List.map_cons,List.mapM_cons,List.forall_mem_cons,← ih]
      cases f (h x) with
      | none => simp
      | some y => cases (xs.map h).mapM f <;> simp

theorem mapM_keys {key : γ → κ} {index : α → κ} {ys : List γ} (read : (xs.map h).mapM f = some ys)
    (same : ∀ x ∈ xs, ∀ y, f (h x) = some y → key y = index x) : ys.map key = xs.map index := by
  induction xs generalizing ys with
  | nil =>
      cases read
      rfl
  | cons x xs ih =>
      rw [List.map_cons,List.mapM_cons] at read
      obtain ⟨y,first,read⟩ := Option.bind_eq_some_iff.mp read
      obtain ⟨rest,later,read⟩ := Option.bind_eq_some_iff.mp read
      cases read
      rw [List.map_cons,List.map_cons,same x List.mem_cons_self y first,
        ih later fun x member => same x (List.mem_cons_of_mem _ member)]

end reads

def told (entry : UInt16 × GridInfo) : UInt16 × UInt16 × UInt8 := (entry.1,entry.2.gridType,entry.2.neighbCount)

theorem made_told (m : MapInfo) : (m.grids.map told).map (fun read => (read.1,GridInfo.made read.1 read.2.1 read.2.2)) = m.grids := by
  rw [List.map_map]
  refine (List.map_congr_left ?_).trans (List.map_id m.grids)
  intro entry member
  exact Prod.ext rfl (m.placed entry member).symm

-- The groups give the map back exactly when each is read as its grid.
theorem load_restored (m : MapInfo) {count : Nat} (many : ¬ count < 3) :
    (∃ loaded, loadGrids gridType count (m.grids.map (storedGroup m)) MapInfo.empty = some (loaded,m)) ↔
      ∀ entry ∈ m.grids, readGrid gridType (storedGroup m entry) = some (told entry) := by
  rw [load_reads many,← mapM_some_iff]
  have grids (reads : List (UInt16 × UInt16 × UInt8)) (ordered : reads.Pairwise fun a b => a.1 < b.1) :
      (reads.foldl (fun m read => m.insert read.1 read.2.1 read.2.2) MapInfo.empty).grids =
        reads.map fun read => (read.1,GridInfo.made read.1 read.2.1 read.2.2) :=
    insert_reads reads MapInfo.empty ordered fun _ member => nomatch member
  constructor
  · intro ⟨loaded,same⟩
    obtain ⟨reads,read,same⟩ := Option.map_eq_some_iff.mp same
    have keys : reads.map (fun read => read.1) = m.grids.map fun entry => entry.1 := by
      apply mapM_keys read
      intro entry _ found one
      obtain ⟨rest,stored⟩ := stored_index m entry
      rw [stored] at one
      exact read_index one
    have ordered : reads.Pairwise fun a b => a.1 < b.1 := by
      have increasing := m.ordered
      rw [← List.pairwise_map (f := fun entry : UInt16 × GridInfo => entry.1) (R := fun a b : UInt16 => a < b),← keys] at increasing
      exact List.pairwise_map.mp increasing
    have all := grids reads ordered
    rw [(Prod.mk.inj same).2] at all
    have back : m.grids.map told = reads := by
      rw [all,List.map_map]
      exact (List.map_congr_left fun read _ => rfl).trans (List.map_id reads)
    rw [back]
    exact read
  · intro read
    refine ⟨true,?_⟩
    rw [read,Option.map_some]
    congr 2
    apply MapInfo.ext_grids
    rw [grids,made_told]
    rw [List.pairwise_map]
    exact m.ordered

theorem stored_told (m : MapInfo) (entry : UInt16 × GridInfo) :
    readGrid gridType (storedGroup m entry) = some (told entry) ↔
      if cutShort m entry then 10 ≤ entry.2.gridType ∧ Told gridType entry (entry.2.gridType/10)
      else Told gridType entry entry.2.gridType := by
  unfold storedGroup
  by_cases last : cutShort m entry
  · rw [if_pos last,if_pos last]
    exact cut_iff entry
  · rw [if_neg last,if_neg last]
    exact told_iff entry entry.2.gridType

theorem restored_exact (m : MapInfo) (_gameProgress : UInt8) : Restored gridType _gameProgress m ↔ Restorable gridType _gameProgress m := by
  unfold Restored Restorable
  rw [save_full]
  by_cases none : m.grids = []
  · refine iff_of_true ?_ (Or.inl none)
    have short : savedLength m = 0 := by simp [savedLength,none]
    have same : m = MapInfo.empty := MapInfo.ext_grids none
    refine ⟨[],by simp [short,fullText,none],?_⟩
    rw [same]
    by_cases idle : _gameProgress = 0
    · exact ⟨false,by simp [LoadMapInfo,idle]⟩
    · exact ⟨true,by simp [LoadMapInfo,idle,StringTokenizer,StringTokenizer.scan,loadGrids]⟩
  rw [or_iff_right none]
  have other : MapInfo.empty ≠ m := fun same => none (same ▸ rfl)
  by_cases fits : savedLength m ≤ 1024
  · simp only [fits,↓reduceIte,Option.some.injEq,exists_eq_left',true_and]
    by_cases idle : _gameProgress = 0
    · simp [LoadMapInfo,idle,other]
    · rw [LoadMapInfo,if_neg idle]
      dsimp only
      rw [stored_groups m fits,List.length_map]
      by_cases many : m.grids.length < 3
      · refine iff_of_false ?_ fun restorable => absurd many (Nat.not_lt.mpr restorable.2.1)
        rintro ⟨loaded,same⟩
        obtain ⟨entry,rest,split⟩ := List.exists_cons_of_ne_nil none
        rw [split,List.map_cons,loadGrids,if_pos (split ▸ many)] at same
        exact other (Prod.mk.inj (Option.some.inj same)).2
      · rw [load_restored m many]
        simp only [stored_told]
        exact ⟨fun all => ⟨idle,Nat.not_lt.mp many,all⟩,fun restorable => restorable.2.2⟩
  · simp [fits]

theorem maps_restored_iff (gridType : List (List Char) → Option UInt16) (_gameProgress : UInt8) :
    (∀ m, Restored gridType _gameProgress m ↔ Restorable gridType _gameProgress m) ∧
    ∀ m list, Rejected gridType _gameProgress m list ↔
      _gameProgress = 0 ∨ StringTokenizer list '|' ≠ [] ∧ (StringTokenizer list '|').length < 3 := by
  refine ⟨fun m => restored_exact m _gameProgress,?_⟩
  intro m list
  unfold Rejected LoadMapInfo
  by_cases idle : _gameProgress = 0
  · simp [idle]
  · rw [if_neg idle,or_iff_right idle]
    dsimp only
    by_cases few : (StringTokenizer list '|').length < 3
    · cases groups : StringTokenizer list '|' with
      | nil => simp [loadGrids]
      | cons one rest =>
          rw [groups] at few
          exact iff_of_true (by rw [loadGrids,if_pos few]) ⟨List.cons_ne_nil _ _,few⟩
    · rw [load_reads few]
      simp [few]

-- Three grids whose type is not their count come back with the two exchanged.
theorem count_for_type : ¬ Restored (fun fields => fields[1]?.map fun type => UInt16.ofInt (atoi type)) 1
    (((MapInfo.empty.insert 1 1 2).insert 2 1 2).insert 3 1 2) := by
  intro kept
  obtain none | ⟨_,_,_,told⟩ := (restored_exact _ _).mp kept
  · exact absurd none (by decide)
  · have first := told (1,GridInfo.made 1 1 2) (by decide)
    rw [if_neg (by decide +kernel)] at first
    exact absurd first.1 (by decide)

end GameServer.GObject
