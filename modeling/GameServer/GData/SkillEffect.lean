import GameServer.Common.StringTokenizer
import GameServer.GData.ObjectManager

namespace GameServer.GData

-- A row of skill_effect as it is fetched. F is float.
structure DBSkillEffect (F : Type _) where
  id : UInt32
  state : UInt16
  immune : UInt16
  disperse : UInt16
  damage : List Char
  adddam : F
  magdam : List Char
  addmag : F
  crrdam : List Char
  addcrr : F
  hp : List Char
  addhp : F
  absorb : List Char
  thorn : List Char
  inj2hp : List Char
  aura : List Char
  atk : List Char
  def_ : List Char
  magatk : List Char
  magdef : List Char
  tough : F
  action : List Char
  hitrate : F
  evade : F
  critical : F
  pierce : F
  counter : F
  magres : F
  atkreduce : F
  magatkreduce : F
  eft : List Char
  efl : List Char
  efv : List Char
  hppec : F
  maxhpdampec : F

structure SkillEffect (F : Type _) where
  id : UInt32
  state : UInt16
  immune : UInt16
  disperse : UInt16
  damage : UInt16
  damageP : F
  adddam : F
  magdam : Int16
  magdamP : F
  addmag : F
  crrdam : Int16
  crrdamP : F
  addcrr : F
  hp : Int16
  hpP : F
  addhp : F
  absorb : Int16
  absorbP : F
  thorn : Int16
  thornP : F
  inj2hp : Int16
  inj2hpP : F
  aura : Int16
  auraP : F
  atk : Int16
  atkP : F
  def_ : Int16
  defP : F
  magatk : Int16
  magatkP : F
  magdef : Int16
  magdefP : F
  tough : F
  action : F
  actionP : F
  hitrate : F
  evade : F
  critical : F
  pierce : F
  counter : F
  magres : F
  atkreduce : F
  magatkreduce : F
  hppec : F
  maxhpdampec : F
  eft : List UInt16
  efl : List UInt8
  efv : List F

-- float, and how the columns are read: a plain value or a percentage, as a
-- number for the field it goes to, and the entries of efv.
structure Reading (F : Type _) where
  zero : F
  toInt16 : F → Int16
  toInt16_zero : toInt16 zero = 0
  ushort : List Char → UInt16 ⊕ F
  short : List Char → Int16 ⊕ F
  float : List Char → F ⊕ F
  efv : List Char → F

section source
variable {F : Type _} (C : Reading F)

-- The first target takes a plain value, the second a percentage.
def SetValOrPercent (value : α ⊕ F) (val : α) (per : F) : α × F :=
  match value with
  | .inl plain => (plain,per)
  | .inr percent => (val,percent)

-- One object for both targets.
def setBoth (value : Int16 ⊕ F) : Int16 :=
  match value with
  | .inl plain => plain
  | .inr percent => C.toInt16 percent

def tokens (column : List Char) : List (List Char) := StringTokenizer column ','

-- The three loops push back to eft.
def pushed (effs : DBSkillEffect F) : List UInt16 :=
  (tokens effs.eft).map (fun tk => UInt16.ofInt (atoi tk)) ++ (tokens effs.efl).map (fun tk => UInt16.ofInt (atoi tk)) ++
    (tokens effs.efv).map fun tk => UInt16.ofInt (atoi tk)

-- The effect for one row: what the constructor leaves at 0 and is not set is 0.
def loaded (effs : DBSkillEffect F) : SkillEffect F where
  id := effs.id
  state := effs.state
  immune := effs.immune
  disperse := effs.disperse
  damage := (SetValOrPercent (C.ushort effs.damage) 0 C.zero).1
  damageP := (SetValOrPercent (C.ushort effs.damage) 0 C.zero).2
  adddam := effs.adddam
  magdam := (SetValOrPercent (C.short effs.magdam) 0 C.zero).1
  magdamP := (SetValOrPercent (C.short effs.magdam) 0 C.zero).2
  addmag := effs.addmag
  crrdam := (SetValOrPercent (C.short effs.crrdam) 0 C.zero).1
  crrdamP := (SetValOrPercent (C.short effs.crrdam) 0 C.zero).2
  addcrr := effs.addcrr
  hp := (SetValOrPercent (C.short effs.hp) 0 C.zero).1
  hpP := (SetValOrPercent (C.short effs.hp) 0 C.zero).2
  addhp := effs.addhp
  absorb := setBoth C (C.short effs.absorb)
  absorbP := C.zero
  thorn := (SetValOrPercent (C.short effs.thorn) 0 C.zero).1
  thornP := (SetValOrPercent (C.short effs.thorn) 0 C.zero).2
  inj2hp := (SetValOrPercent (C.short effs.inj2hp) 0 C.zero).1
  inj2hpP := (SetValOrPercent (C.short effs.inj2hp) 0 C.zero).2
  aura := (SetValOrPercent (C.short effs.aura) 0 C.zero).1
  auraP := (SetValOrPercent (C.short effs.aura) 0 C.zero).2
  atk := (SetValOrPercent (C.short effs.atk) 0 C.zero).1
  atkP := (SetValOrPercent (C.short effs.atk) 0 C.zero).2
  def_ := (SetValOrPercent (C.short effs.def_) 0 C.zero).1
  defP := (SetValOrPercent (C.short effs.def_) 0 C.zero).2
  magatk := (SetValOrPercent (C.short effs.magatk) 0 C.zero).1
  magatkP := (SetValOrPercent (C.short effs.magatk) 0 C.zero).2
  magdef := (SetValOrPercent (C.short effs.magdef) 0 C.zero).1
  magdefP := (SetValOrPercent (C.short effs.magdef) 0 C.zero).2
  tough := effs.tough
  action := (SetValOrPercent (C.float effs.action) C.zero C.zero).1
  actionP := (SetValOrPercent (C.float effs.action) C.zero C.zero).2
  hitrate := effs.hitrate
  evade := effs.evade
  critical := effs.critical
  pierce := effs.pierce
  counter := effs.counter
  magres := effs.magres
  atkreduce := C.zero
  magatkreduce := effs.magatkreduce
  hppec := effs.hppec
  maxhpdampec := effs.maxhpdampec
  eft := pushed effs
  efl := []
  efv := []

-- Keyed by 16 bits, in the order std::map gives them.
abbrev shortOrder : LinearOrder UInt16 := LinearOrder.lift' UInt16.toNat fun _ _ => UInt16.toNat_inj.mp

def effectKey (ef : SkillEffect F) : UInt16 := ef.id.toUInt16

-- The entries of the skillEffectManager after the rows of the table in turn.
def LoadSkillEffect (rows : List (DBSkillEffect F)) : List (UInt16 × Option (SkillEffect F)) :=
  @ObjectMapT._objs UInt16 (SkillEffect F) shortOrder
    (@ObjectMapT.run UInt16 shortOrder (SkillEffect F) effectKey (rows.map fun effs => .add (loaded C effs)))

-- The row as an effect, each column in its own field.
def parsed (effs : DBSkillEffect F) : SkillEffect F where
  id := effs.id
  state := effs.state
  immune := effs.immune
  disperse := effs.disperse
  damage := (SetValOrPercent (C.ushort effs.damage) 0 C.zero).1
  damageP := (SetValOrPercent (C.ushort effs.damage) 0 C.zero).2
  adddam := effs.adddam
  magdam := (SetValOrPercent (C.short effs.magdam) 0 C.zero).1
  magdamP := (SetValOrPercent (C.short effs.magdam) 0 C.zero).2
  addmag := effs.addmag
  crrdam := (SetValOrPercent (C.short effs.crrdam) 0 C.zero).1
  crrdamP := (SetValOrPercent (C.short effs.crrdam) 0 C.zero).2
  addcrr := effs.addcrr
  hp := (SetValOrPercent (C.short effs.hp) 0 C.zero).1
  hpP := (SetValOrPercent (C.short effs.hp) 0 C.zero).2
  addhp := effs.addhp
  absorb := (SetValOrPercent (C.short effs.absorb) 0 C.zero).1
  absorbP := (SetValOrPercent (C.short effs.absorb) 0 C.zero).2
  thorn := (SetValOrPercent (C.short effs.thorn) 0 C.zero).1
  thornP := (SetValOrPercent (C.short effs.thorn) 0 C.zero).2
  inj2hp := (SetValOrPercent (C.short effs.inj2hp) 0 C.zero).1
  inj2hpP := (SetValOrPercent (C.short effs.inj2hp) 0 C.zero).2
  aura := (SetValOrPercent (C.short effs.aura) 0 C.zero).1
  auraP := (SetValOrPercent (C.short effs.aura) 0 C.zero).2
  atk := (SetValOrPercent (C.short effs.atk) 0 C.zero).1
  atkP := (SetValOrPercent (C.short effs.atk) 0 C.zero).2
  def_ := (SetValOrPercent (C.short effs.def_) 0 C.zero).1
  defP := (SetValOrPercent (C.short effs.def_) 0 C.zero).2
  magatk := (SetValOrPercent (C.short effs.magatk) 0 C.zero).1
  magatkP := (SetValOrPercent (C.short effs.magatk) 0 C.zero).2
  magdef := (SetValOrPercent (C.short effs.magdef) 0 C.zero).1
  magdefP := (SetValOrPercent (C.short effs.magdef) 0 C.zero).2
  tough := effs.tough
  action := (SetValOrPercent (C.float effs.action) C.zero C.zero).1
  actionP := (SetValOrPercent (C.float effs.action) C.zero C.zero).2
  hitrate := effs.hitrate
  evade := effs.evade
  critical := effs.critical
  pierce := effs.pierce
  counter := effs.counter
  magres := effs.magres
  atkreduce := effs.atkreduce
  magatkreduce := effs.magatkreduce
  hppec := effs.hppec
  maxhpdampec := effs.maxhpdampec
  eft := (tokens effs.eft).map fun tk => UInt16.ofInt (atoi tk)
  efl := (tokens effs.efl).map fun tk => UInt8.ofInt (atoi tk)
  efv := (tokens effs.efv).map C.efv

-- The id is the primary key.
structure Table (F : Type _) where
  rows : List (DBSkillEffect F)
  distinct : (rows.map DBSkillEffect.id).Nodup

-- Under the id of each row its effect, and no other effects; rows that differ
-- load to effects that differ.
structure Faithful (table : Table F) : Prop where
  registered : ∀ row ∈ table.rows, ∃ key : UInt16, key.toNat = row.id.toNat ∧ (key,some (parsed C row)) ∈ LoadSkillEffect C table.rows
  only : ∀ key ef, (key,ef) ∈ LoadSkillEffect C table.rows → ∃ row ∈ table.rows, key.toNat = row.id.toNat ∧ ef = some (parsed C row)
  apart : ∀ r ∈ table.rows, ∀ s ∈ table.rows, parsed C r ≠ parsed C s → loaded C r ≠ loaded C s

-- A row that uses none of the columns that go astray, with an id of 16 bits.
structure Plain (row : DBSkillEffect F) : Prop where
  small : row.id.toNat < 2^16
  efl : row.efl = []
  efv : row.efv = []
  atkreduce : row.atkreduce = C.zero
  absorb : ∀ percent, C.short row.absorb = .inr percent → percent = C.zero

end source

theorem tokens_nil {column : List Char} : tokens column = [] ↔ column = [] := by
  have scanned (token : List Char) (str : List Char) : StringTokenizer.scan ',' token str = [] ↔ token = [] ∧ str = [] := by
    induction str generalizing token with
    | nil => by_cases empty : token = [] <;> simp [StringTokenizer.scan,empty]
    | cons c str ih =>
        rw [StringTokenizer.scan]
        split <;> simp [ih]
  exact (scanned [] column).trans (and_iff_right rfl)

section rows
variable {F : Type _} {C : Reading F} {row : DBSkillEffect F}

theorem setBoth_iff (value : Int16 ⊕ F) :
    setBoth C value = (SetValOrPercent value 0 C.zero).1 ∧ C.zero = (SetValOrPercent value 0 C.zero).2 ↔
      ∀ percent, value = .inr percent → percent = C.zero := by
  cases value with
  | inl plain => exact iff_of_true ⟨rfl,rfl⟩ fun _ wrong => by cases wrong
  | inr percent =>
      constructor
      · rintro ⟨_,zero⟩ other same
        cases same
        exact zero.symm
      · intro zero
        have none_ := zero percent rfl
        subst none_
        exact ⟨C.toInt16_zero,rfl⟩

theorem pushed_iff : pushed row = (tokens row.eft).map (fun tk => UInt16.ofInt (atoi tk)) ↔ row.efl = [] ∧ row.efv = [] := by
  rw [pushed,List.append_assoc,List.append_right_eq_self,List.append_eq_nil_iff,List.map_eq_nil_iff,List.map_eq_nil_iff,tokens_nil,tokens_nil]

theorem loaded_iff : loaded C row = parsed C row ↔
    row.efl = [] ∧ row.efv = [] ∧ row.atkreduce = C.zero ∧ ∀ percent, C.short row.absorb = .inr percent → percent = C.zero := by
  constructor
  · intro same
    have list := pushed_iff.mp (congrArg SkillEffect.eft same)
    exact ⟨list.1,list.2,(congrArg SkillEffect.atkreduce same).symm,
      (setBoth_iff _).mp ⟨congrArg SkillEffect.absorb same,congrArg SkillEffect.absorbP same⟩⟩
  · rintro ⟨efl,efv,atkreduce,absorb⟩
    obtain ⟨value,percent⟩ := (setBoth_iff _).mpr absorb
    rw [loaded,parsed,pushed_iff.mpr ⟨efl,efv⟩,efl,efv,atkreduce,value,←percent]
    rfl

end rows

-- Adds under different keys are all kept.
theorem stored_iff [DecidableEq κ] {adds : List (κ × Option ν)} (distinct : (adds.map Prod.fst).Nodup) (key : κ) (elem : Option ν) :
    stored adds key = some elem ↔ (key,elem) ∈ adds := by
  induction adds generalizing elem with
  | nil => simp [stored]
  | cons first later ih =>
      obtain ⟨k,e⟩ := first
      rw [List.map_cons,List.nodup_cons] at distinct
      rw [stored,List.mem_cons,←ih distinct.2]
      by_cases here : key = k
      · subst here
        have absent : stored later key = none := by
          cases got : stored later key with
          | none => rfl
          | some other => exact absurd (List.mem_map_of_mem ((ih distinct.2 other).mp got)) distinct.1
        simp [absent,eq_comm]
      · simp [here]

section registry
variable {F : Type _} (C : Reading F) {table : Table F}

theorem keys_distinct (small : ∀ row ∈ table.rows, row.id.toNat < 2^16) :
    (table.rows.map fun row => effectKey (loaded C row)).Nodup := by
  refine List.Nodup.map_on ?_ (List.Nodup.of_map _ table.distinct)
  intro r first s second same
  have keys : r.id.toNat % 2^16 = s.id.toNat % 2^16 := congrArg UInt16.toNat same
  rw [Nat.mod_eq_of_lt (small r first),Nat.mod_eq_of_lt (small s second)] at keys
  exact List.inj_on_of_nodup_map table.distinct first second (UInt32.toNat_inj.mp keys)

theorem registry_iff (small : ∀ row ∈ table.rows, row.id.toNat < 2^16) (key : UInt16) (ef : Option (SkillEffect F)) :
    (key,ef) ∈ LoadSkillEffect C table.rows ↔ ∃ row ∈ table.rows, key.toNat = row.id.toNat ∧ ef = some (loaded C row) := by
  have entries : ((table.rows.map fun effs => ObjectMapT.Add.add (loaded C effs)).map (ObjectMapT.Add.entry effectKey)) =
      table.rows.map fun row => (effectKey (loaded C row),some (loaded C row)) := List.map_map
  have distinct : ((table.rows.map fun row => (effectKey (loaded C row),some (loaded C row))).map Prod.fst).Nodup := by
    rw [List.map_map]
    exact keys_distinct C small
  rw [LoadSkillEffect,@ObjectMapT.mem_run UInt16 shortOrder,entries]
  refine (@stored_iff UInt16 (SkillEffect F) shortOrder.toDecidableEq _ distinct key ef).trans ?_
  rw [List.mem_map]
  refine exists_congr fun row => and_congr_right fun member => ?_
  have keyed : (effectKey (loaded C row)).toNat = row.id.toNat := Nat.mod_eq_of_lt (small row member)
  constructor
  · intro same
    cases same
    exact ⟨keyed,rfl⟩
  · rintro ⟨same,rfl⟩
    rw [←keyed] at same
    rw [UInt16.toNat_inj.mp same]

end registry

theorem effects_iff {F : Type _} (C : Reading F) (table : Table F) : Faithful C table ↔ ∀ row ∈ table.rows, Plain C row := by
  constructor
  · intro faithful
    have small (row : DBSkillEffect F) (member : row ∈ table.rows) : row.id.toNat < 2^16 := by
      obtain ⟨key,same,_⟩ := faithful.registered row member
      rw [←same]
      exact key.toNat_lt
    intro row member
    obtain ⟨key,same,entry⟩ := faithful.registered row member
    obtain ⟨other,member',same',effect⟩ := (registry_iff C small key _).mp entry
    have here : other = row := by
      refine List.inj_on_of_nodup_map table.distinct member' member (UInt32.toNat_inj.mp ?_)
      rw [←same,←same']
    subst here
    obtain ⟨efl,efv,atkreduce,absorb⟩ := loaded_iff.mp (Option.some.inj effect).symm
    exact ⟨small other member,efl,efv,atkreduce,absorb⟩
  · intro plain
    have same (row : DBSkillEffect F) (member : row ∈ table.rows) : loaded C row = parsed C row :=
      loaded_iff.mpr ⟨(plain row member).efl,(plain row member).efv,(plain row member).atkreduce,(plain row member).absorb⟩
    have entries := registry_iff C fun row member => (plain row member).small
    refine ⟨?_,?_,?_⟩
    · intro row member
      refine ⟨row.id.toUInt16,?_,(entries _ _).mpr ⟨row,member,?_,by rw [same row member]⟩⟩
      all_goals exact Nat.mod_eq_of_lt (plain row member).small
    · intro key ef entry
      obtain ⟨row,member,keyed,effect⟩ := (entries key ef).mp entry
      exact ⟨row,member,keyed,by rw [effect,same row member]⟩
    · intro r first s second differ
      rwa [same r first,same s second]

-- Whole numbers, and percentages by the sign at the end.
def wholes : Reading Int where
  zero := 0
  toInt16 := Int16.ofInt
  toInt16_zero := rfl
  ushort column := if column.getLast? = some '%' then .inr (atoi column) else .inl (UInt16.ofInt (atoi column))
  short column := if column.getLast? = some '%' then .inr (atoi column) else .inl (Int16.ofInt (atoi column))
  float column := if column.getLast? = some '%' then .inr (atoi column) else .inl (atoi column)
  efv token := atoi token

-- The defaults of the table but for the effect types and their rounds.
def poison : DBSkillEffect Int where
  id := 1
  state := 1
  immune := 0
  disperse := 0
  damage := []
  adddam := 0
  magdam := []
  addmag := 0
  crrdam := []
  addcrr := 0
  hp := []
  addhp := 0
  absorb := []
  thorn := []
  inj2hp := []
  aura := []
  atk := []
  def_ := []
  magatk := []
  magdef := []
  tough := 0
  action := []
  hitrate := 0
  evade := 0
  critical := 0
  pierce := 0
  counter := 0
  magres := 0
  atkreduce := 0
  magatkreduce := 0
  eft := ['7']
  efl := ['3']
  efv := []
  hppec := 0
  maxhpdampec := 0

-- The rounds go to the types: eft is 7, 3 and efl is empty.
theorem rounds_astray : ¬Faithful wholes ⟨[poison],List.nodup_singleton _⟩ := by
  intro faithful
  obtain ⟨key,_,entry⟩ := faithful.registered poison List.mem_cons_self
  have same : (key,some (parsed wholes poison)) = (effectKey (loaded wholes poison),some (loaded wholes poison)) :=
    List.mem_singleton.mp entry
  have list : (parsed wholes poison).efl = [] := congrArg SkillEffect.efl (Option.some.inj (congrArg Prod.snd same))
  exact absurd list (by decide)

end GameServer.GData
