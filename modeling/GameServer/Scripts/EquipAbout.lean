import Mathlib.Algebra.GroupWithZero.Nat
import Mathlib.Algebra.Order.BigOperators.Group.List
import Mathlib.Algebra.Order.Group.Nat
import Mathlib.Logic.Function.Iterate

namespace GameServer.Scripts.EquipAbout

abbrev Items := List (Nat × Nat)
abbrev Costs := List (List (List Items))

-- The items a package holds, by id. `short` says what is left of an id of which
-- DelAllItem is to take more than there is.
abbrev Package := Nat → Nat

def take (short : Nat → Nat → Nat) (n held : Nat) : Nat := if n ≤ held then held - n else short held n

def DelAllItem (short : Nat → Nat → Nat) (package : Package) (id n : Nat) : Package :=
  fun other => if other = id then take short n (package other) else package other

inductive Paid where
  | returned (ok : Bool)
  | raised
  deriving DecidableEq

-- The entry of a Lua table whose entries are numbered from 1.
def row (table : List α) (i : Nat) : Option α := if i = 0 then none else table[i-1]?

-- for k = 1,#items do; every turn looks at items[1].
def check (package : Package) (first : Nat × Nat) : Nat → Bool
  | 0 => true
  | k+1 => if package first.1 < first.2 then false else check package first k

def charge (short : Nat → Nat → Nat) (first : Nat × Nat) : Nat → Package → Package
  | 0,package => package
  | k+1,package => charge short first k (DelAllItem short package first.1 first.2)

def pay (short : Nat → Nat → Nat) (items : Items) (package : Package) : Paid × Package :=
  match items with
  | [] => (.returned true,package)
  | first :: _ =>
    if check package first items.length then (.returned true,charge short first items.length package)
    else (.returned false,package)

-- if i > #table then return false end, and then the entry, of which a length is
-- asked: nil raises an error.
def entry (table : List α) (i : Nat) : Paid ⊕ α :=
  if i > table.length then .inl (.returned false)
  else
    match row table i with
    | none => .inl .raised
    | some found => .inr found

-- The line that names cls breaks off in the source: cls is what the caller gave.
def UpgradeSoldierCost (short : Nat → Nat → Nat) (UpSoldierCost : Costs) (package : Package) (cls index lev : Nat) : Paid × Package :=
  match entry UpSoldierCost index with
  | .inl paid => (paid,package)
  | .inr levels =>
    match entry levels lev with
    | .inl paid => (paid,package)
    | .inr classes =>
      match entry classes cls with
      | .inl paid => (paid,package)
      | .inr items => pay short items package

-- The function is stored in the local that held its table, and `#` of a
-- function raises an error.
def EnchantSoldierCost (package : Package) (_cls _index _lev : Nat) : Paid × Package := (.raised,package)

def selected (costs : Costs) (cls index lev : Nat) : Option Items :=
  (row costs index).bind fun levels => (row levels lev).bind fun classes => row classes cls

def asked (items : Items) (id : Nat) : Nat := ((items.filter (·.1 = id)).map (·.2)).sum

-- Payment is exact: it succeeds on the packages that hold every pair of the
-- list, takes what the pairs ask for, and else takes nothing.
structure Exact (list : Option Items) (package : Package) (paid : Paid × Package) : Prop where
  succeeds : paid.1 = .returned true ↔ ∃ items, list = some items ∧ ∀ pair ∈ items, pair.2 ≤ package pair.1
  takes : paid.1 = .returned true → ∀ items, list = some items → ∀ id, paid.2 id + asked items id = package id
  keeps : paid.1 ≠ .returned true → paid.2 = package

-- The first pair stands for the whole list: every pair asks for its item, and
-- taking it once for each pair takes what they ask for together.
def OnePair (short : Nat → Nat → Nat) (package : Package) : Items → Prop
  | [] => True
  | first :: rest => package first.1 < first.2 ∨
      (∀ id, id ≠ first.1 → asked (first :: rest) id = 0) ∧
      (take short first.2)^[rest.length+1] (package first.1) + asked (first :: rest) first.1 = package first.1

theorem check_iff (package : Package) (first : Nat × Nat) (k : Nat) : check package first (k+1) = true ↔ first.2 ≤ package first.1 := by
  induction k with
  | zero => simp [check]
  | succ k ih =>
      rw [check]
      split
      · rename_i lacks
        simp [Nat.not_le.mpr lacks]
      · exact ih

theorem charge_eq (short : Nat → Nat → Nat) (first : Nat × Nat) (k : Nat) (package : Package) (id : Nat) :
    charge short first k package id = if id = first.1 then (take short first.2)^[k] (package id) else package id := by
  induction k generalizing package with
  | zero => simp [charge]
  | succ k ih =>
      rw [charge,ih]
      by_cases here : id = first.1 <;> simp [here,DelAllItem]

theorem asked_member {items : Items} {pair : Nat × Nat} (member : pair ∈ items) : pair.2 ≤ asked items pair.1 := by
  have kept : pair ∈ items.filter (·.1 = pair.1) := List.mem_filter.mpr ⟨member,by simp⟩
  exact List.le_sum_of_mem (List.mem_map_of_mem kept)

theorem pay_first (short : Nat → Nat → Nat) (package : Package) (first : Nat × Nat) (rest : Items) :
    pay short (first :: rest) package =
      if first.2 ≤ package first.1 then (.returned true,charge short first (rest.length+1) package) else (.returned false,package) := by
  have checked := check_iff package first rest.length
  rw [pay,List.length_cons]
  by_cases held : first.2 ≤ package first.1
  · rw [if_pos held,if_pos (checked.mpr held)]
  · rw [if_neg held,if_neg (fun ok => held (checked.mp ok))]

theorem pay_exact_iff (short : Nat → Nat → Nat) (package : Package) (items : Items) :
    Exact (some items) package (pay short items package) ↔ OnePair short package items := by
  cases items with
  | nil =>
      refine iff_of_true ⟨?_,?_,?_⟩ trivial
      · simp [pay]
      · intro _ items same id
        cases same
        rfl
      · simp [pay]
  | cons first rest =>
      rw [pay_first]
      by_cases held : first.2 ≤ package first.1
      · rw [if_pos held]
        constructor
        · intro exact
          have taken := exact.takes rfl _ rfl
          refine Or.inr ⟨?_,?_⟩
          · intro id other
            have here := taken id
            dsimp only at here
            rw [charge_eq,if_neg other] at here
            omega
          · have here := taken first.1
            dsimp only at here
            rwa [charge_eq,if_pos rfl] at here
        · intro one
          obtain ⟨only,sum⟩ := one.resolve_left (Nat.not_lt.mpr held)
          have balance : ∀ id, charge short first (rest.length+1) package id + asked (first :: rest) id = package id := by
            intro id
            rw [charge_eq]
            by_cases here : id = first.1
            · rw [if_pos here,here,sum]
            · rw [if_neg here,only id here,Nat.add_zero]
          refine ⟨iff_of_true rfl ⟨_,rfl,?_⟩,?_,fun not => absurd rfl not⟩
          · intro pair member
            have part := asked_member member
            have whole := balance pair.1
            omega
          · intro _ items same
            cases same
            exact balance
      · rw [if_neg held]
        refine iff_of_true ⟨?_,?_,fun _ => rfl⟩ (Or.inl (Nat.lt_of_not_le held))
        · refine iff_of_false (by simp) ?_
          intro ⟨items,same,all⟩
          cases same
          exact held (all first List.mem_cons_self)
        · intro paid
          cases paid

theorem entry_cases (table : List α) (i : Nat) :
    (∃ paid, entry table i = .inl paid ∧ paid ≠ .returned true ∧ row table i = none) ∨
      ∃ found, entry table i = .inr found ∧ row table i = some found := by
  unfold entry
  split
  · rename_i past
    refine Or.inl ⟨_,rfl,by simp,?_⟩
    rw [row,if_neg (by omega)]
    exact List.getElem?_eq_none (by omega)
  · split
    · rename_i absent
      exact Or.inl ⟨_,rfl,by simp,absent⟩
    · rename_i found there
      exact Or.inr ⟨found,rfl,there⟩

-- A call that picks no list neither pays nor takes.
theorem unselected_iff {short : Nat → Nat → Nat} {package : Package} {paid : Paid} (unpaid : paid ≠ .returned true) :
    Exact none package (paid,package) ↔ ∀ items, none = some items → OnePair short package items := by
  refine iff_of_true ⟨iff_of_false unpaid ?_,fun done => absurd done unpaid,fun _ => rfl⟩ (fun _ found => by cases found)
  intro ⟨_,found,_⟩
  cases found

theorem upgrade_exact_iff (short : Nat → Nat → Nat) (costs : Costs) (package : Package) (cls index lev : Nat) :
    Exact (selected costs cls index lev) package (UpgradeSoldierCost short costs package cls index lev) ↔
      ∀ items, selected costs cls index lev = some items → OnePair short package items := by
  unfold UpgradeSoldierCost selected
  rcases entry_cases costs index with ⟨paid,out,unpaid,absent⟩ | ⟨levels,out,there⟩
  · simp only [out,absent,Option.bind_none]
    exact unselected_iff unpaid
  · rcases entry_cases levels lev with ⟨paid,out',unpaid,absent⟩ | ⟨classes,out',there'⟩
    · simp only [out,there,out',absent,Option.bind_some,Option.bind_none]
      exact unselected_iff unpaid
    · rcases entry_cases classes cls with ⟨paid,out'',unpaid,absent⟩ | ⟨items,out'',there''⟩
      · simp only [out,there,out',there',out'',absent,Option.bind_some]
        exact unselected_iff unpaid
      · simp only [out,there,out',there',out'',there'',Option.bind_some]
        refine (pay_exact_iff short package items).trans ⟨?_,fun all => all items rfl⟩
        intro one _ same
        cases same
        exact one

theorem enchant_exact_iff (costs : Costs) (package : Package) (cls index lev : Nat) :
    Exact (selected costs cls index lev) package (EnchantSoldierCost package cls index lev) ↔
      ∀ items, selected costs cls index lev = some items → ∃ pair ∈ items, package pair.1 < pair.2 := by
  constructor
  · intro exact items found
    by_contra none
    have held : ∀ pair ∈ items, pair.2 ≤ package pair.1 := by
      intro pair member
      by_contra lacks
      exact none ⟨pair,member,Nat.lt_of_not_le lacks⟩
    have paid := exact.succeeds.mpr ⟨items,found,held⟩
    cases paid
  · intro lacks
    refine ⟨iff_of_false (by simp [EnchantSoldierCost]) ?_,fun paid => (by cases paid),fun _ => rfl⟩
    intro ⟨items,found,held⟩
    obtain ⟨pair,member,less⟩ := lacks items found
    have enough := held pair member
    omega

-- UpgradeSoldierCost pays exactly the lists that are no more than their first
-- pair; EnchantSoldierCost, which always raises an error, is exact exactly when
-- it has nothing to pay for.
theorem soldier_cost_exact_iff (short : Nat → Nat → Nat) (costs : Costs) (package : Package) (cls index lev : Nat) :
    (Exact (selected costs cls index lev) package (UpgradeSoldierCost short costs package cls index lev) ↔
      ∀ items, selected costs cls index lev = some items → OnePair short package items) ∧
    (Exact (selected costs cls index lev) package (EnchantSoldierCost package cls index lev) ↔
      ∀ items, selected costs cls index lev = some items → ∃ pair ∈ items, package pair.1 < pair.2) :=
  ⟨upgrade_exact_iff short costs package cls index lev,enchant_exact_iff costs package cls index lev⟩

-- Of three items the first is taken three times.
theorem first_item_taken_thrice : ¬ Exact (selected [[[[(1,1),(2,1),(3,1)]]]] 1 1 1) (fun _ => 3)
    (UpgradeSoldierCost (fun _ _ => 0) [[[[(1,1),(2,1),(3,1)]]]] (fun _ => 3) 1 1 1) := by
  intro exact
  have taken := exact.takes rfl _ rfl 1
  exact absurd taken (by decide)

end GameServer.Scripts.EquipAbout
