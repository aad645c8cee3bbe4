import GameServer.Library.OrderedMap
import Mathlib.Algebra.Group.Nat.Defs
import Mathlib.Data.List.Induction
import Mathlib.Data.List.Nodup
import Mathlib.Order.Lattice
import Mathlib.Order.Nat

namespace GameServer.GData

-- enumerate goes through the elements with a callback that sees its param and
-- answers whether to go on; the calls made come back with the param.
def enumerate (cb : σ → β → Bool × σ) : σ → List β → List β × σ
  | param,[] => ([],param)
  | param,elem :: rest =>
    let (more,param) := cb param elem
    if more then
      let (visited,param) := enumerate cb param rest
      (elem :: visited,param)
    else ([elem],param)

-- The param after calls on these elements.
def after (cb : σ → β → Bool × σ) (param : σ) (visited : List β) : σ :=
  visited.foldl (fun param elem => (cb param elem).2) param

-- The elements were visited in turn, each once, until the callback said no.
structure Enumerated (cb : σ → β → Bool × σ) (param : σ) (elems visited : List β) (final : σ) : Prop where
  parts : ∃ rest, elems = visited ++ rest ∧
    (rest ≠ [] → ∃ pre elem, visited = pre ++ [elem] ∧ (cb (after cb param pre) elem).1 = false)
  went : ∀ pre elem post, visited = pre ++ elem :: post → post ≠ [] → (cb (after cb param pre) elem).1 = true
  final : final = after cb param visited

theorem enumerated (cb : σ → β → Bool × σ) (param : σ) (elems : List β) :
    Enumerated cb param elems (enumerate cb param elems).1 (enumerate cb param elems).2 := by
  induction elems generalizing param with
  | nil =>
      refine ⟨⟨[],rfl,fun more => absurd rfl more⟩,?_,rfl⟩
      intro pre elem post empty
      simp [enumerate] at empty
  | cons elem rest ih =>
      cases more : (cb param elem).1 with
      | false =>
          have made : enumerate cb param (elem :: rest) = ([elem],(cb param elem).2) := by simp [enumerate,more]
          rw [made]
          refine ⟨⟨rest,rfl,fun _ => ⟨[],elem,rfl,more⟩⟩,?_,rfl⟩
          intro pre other post parts longer
          have length := congrArg List.length parts
          have filled := List.length_pos_iff.mpr longer
          simp only [List.length_cons,List.length_nil,List.length_append] at length
          omega
      | true =>
          obtain ⟨⟨left,parts,stopped⟩,went,final⟩ := ih (cb param elem).2
          have made : enumerate cb param (elem :: rest) =
              (elem :: (enumerate cb (cb param elem).2 rest).1,(enumerate cb (cb param elem).2 rest).2) := by
            simp [enumerate,more]
          rw [made]
          refine ⟨⟨left,?_,?_⟩,?_,final⟩
          · exact congrArg (List.cons elem) parts
          · intro more
            obtain ⟨pre,last,shape,no⟩ := stopped more
            exact ⟨elem :: pre,last,congrArg (List.cons elem) shape,no⟩
          · intro pre other post shape longer
            cases pre with
            | nil =>
                cases shape
                exact more
            | cons first pre =>
                obtain ⟨same,tail⟩ := List.cons.inj shape
                subst same
                exact went pre other post tail longer

-- What a history of adds stores under a key: the elem added last.
def stored [DecidableEq κ] : List (κ × Option ν) → κ → Option (Option ν)
  | [],_ => none
  | (key,elem) :: later,k => (stored later k).or (if k = key then some elem else none)

theorem stored_snoc [DecidableEq κ] (adds : List (κ × Option ν)) (key : κ) (elem : Option ν) (k : κ) :
    stored (adds ++ [(key,elem)]) k = if k = key then some elem else stored adds k := by
  induction adds with
  | nil => simp [stored]
  | cons first later ih =>
      obtain ⟨first,e⟩ := first
      rw [List.cons_append,stored,stored,ih]
      by_cases here : k = key <;> simp [here]

structure ObjectMapT (κ ν : Type _) [LinearOrder κ] where
  _objs : List (κ × Option ν)
  ordered : _objs.Pairwise fun a b => a.1 < b.1

namespace ObjectMapT
variable [LinearOrder κ]
open OrderedMap

def empty : ObjectMapT κ ν := ⟨[],List.Pairwise.nil⟩

-- add(key, elem), whose elem may be NULL.
def addKey (m : ObjectMapT κ ν) (key : κ) (elem : Option ν) : ObjectMapT κ ν :=
  ⟨upsert key (fun _ => elem) m._objs,upsert_ordered key _ m.ordered⟩

def add (getId : ν → κ) (m : ObjectMapT κ ν) (item : ν) : ObjectMapT κ ν := m.addKey (getId item) (some item)

-- operator[] returns from the first turn of its loop, whatever the key, and
-- runs off its end when there is no first turn.
def get (m : ObjectMapT κ ν) (_key : κ) : Option (Option ν) :=
  match m._objs with
  | [] => none
  | (_,elem) :: _ => some elem

inductive Add (κ ν : Type _) where
  | add (item : ν)
  | addKey (key : κ) (elem : Option ν)

def Add.entry (getId : ν → κ) : Add κ ν → κ × Option ν
  | .add item => (getId item,some item)
  | .addKey key elem => (key,elem)

def apply (getId : ν → κ) (m : ObjectMapT κ ν) : Add κ ν → ObjectMapT κ ν
  | .add item => m.add getId item
  | .addKey key elem => m.addKey key elem

def run (getId : ν → κ) (adds : List (Add κ ν)) : ObjectMapT κ ν := adds.foldl (apply getId) empty

-- The map is the partial map of its history: lookups find what was added last,
-- and enumerate goes through the keys, each with what was added last.
structure Refines (getId : ν → κ) (adds : List (Add κ ν)) : Prop where
  found : ∀ key, (run getId adds).get key = some (stored (adds.map (Add.entry getId)) key).join
  walked : ∃ elems : List (κ × Option ν), (elems.map Prod.fst).Nodup ∧
    (∀ key elem, (key,elem) ∈ elems ↔ stored (adds.map (Add.entry getId)) key = some elem) ∧
    ∀ {σ : Type} (cb : σ → κ × Option ν → Bool × σ) (param : σ),
      Enumerated cb param elems (enumerate cb param (run getId adds)._objs).1 (enumerate cb param (run getId adds)._objs).2

theorem apply_entry (getId : ν → κ) (m : ObjectMapT κ ν) (add : Add κ ν) :
    m.apply getId add = m.addKey (add.entry getId).1 (add.entry getId).2 := by
  cases add <;> rfl

theorem run_snoc (getId : ν → κ) (adds : List (Add κ ν)) (last : Add κ ν) :
    run getId (adds ++ [last]) = (run getId adds).apply getId last := by simp [run]

theorem find_run (getId : ν → κ) (adds : List (Add κ ν)) (key : κ) :
    find key (run getId adds)._objs = stored (adds.map (Add.entry getId)) key := by
  induction adds using List.reverseRecOn with
  | nil => rfl
  | append_singleton adds last ih =>
      rw [run_snoc,apply_entry,List.map_append,List.map_singleton,stored_snoc,←ih]
      exact find_upsert _ _ _ (fun _ => rfl) _ _

theorem mem_run (getId : ν → κ) (adds : List (Add κ ν)) (key : κ) (elem : Option ν) :
    (key,elem) ∈ (run getId adds)._objs ↔ stored (adds.map (Add.entry getId)) key = some elem := by
  rw [mem_iff_find (run getId adds).ordered,find_run]

theorem walked (getId : ν → κ) (adds : List (Add κ ν)) : ∃ elems : List (κ × Option ν), (elems.map Prod.fst).Nodup ∧
    (∀ key elem, (key,elem) ∈ elems ↔ stored (adds.map (Add.entry getId)) key = some elem) ∧
    ∀ {σ : Type} (cb : σ → κ × Option ν → Bool × σ) (param : σ),
      Enumerated cb param elems (enumerate cb param (run getId adds)._objs).1 (enumerate cb param (run getId adds)._objs).2 := by
  refine ⟨(run getId adds)._objs,?_,mem_run getId adds,fun cb param => enumerated cb param _⟩
  exact List.pairwise_map.mpr ((run getId adds).ordered.imp fun less => ne_of_lt less)

theorem run_ne_nil (getId : ν → κ) {adds : List (Add κ ν)} (filled : adds ≠ []) : (run getId adds)._objs ≠ [] := by
  obtain ⟨front,last,rfl⟩ := (List.eq_nil_or_concat adds).resolve_left filled
  rw [List.concat_eq_append,run_snoc,apply_entry]
  exact upsert_ne_nil _ _ _

-- Every lookup gives what was added last under the least key.
theorem get_least (getId : ν → κ) {adds : List (Add κ ν)} (filled : adds ≠ []) :
    ∃ least, ∀ key, (run getId adds).get key = some (stored (adds.map (Add.entry getId)) least).join := by
  cases objs : (run getId adds)._objs with
  | nil => exact absurd objs (run_ne_nil getId filled)
  | cons first rest =>
      obtain ⟨least,elem⟩ := first
      have last := (mem_run getId adds least elem).mp (by rw [objs]; exact List.mem_cons_self)
      refine ⟨least,?_⟩
      intro key
      simp [get,objs,last]

theorem refines_iff [Inhabited κ] (getId : ν → κ) (adds : List (Add κ ν)) :
    Refines getId adds ↔ adds ≠ [] ∧ ∃ elem, ∀ key, (stored (adds.map (Add.entry getId)) key).join = elem := by
  constructor
  · intro refines
    have filled : adds ≠ [] := by
      intro none
      have found := refines.found default
      rw [none] at found
      cases found
    obtain ⟨least,found⟩ := get_least getId filled
    refine ⟨filled,(stored (adds.map (Add.entry getId)) least).join,?_⟩
    intro key
    exact Option.some.inj ((refines.found key).symm.trans (found key))
  · intro ⟨filled,elem,same⟩
    obtain ⟨least,found⟩ := get_least getId filled
    refine ⟨?_,walked getId adds⟩
    intro key
    rw [found,same,same]

end ObjectMapT

structure ObjectListT (ν : Type _) where
  _objs : List (Option ν)

namespace ObjectListT

def resize (objs : List (Option ν)) (n : Nat) : List (Option ν) :=
  objs.take n ++ List.replicate (n - objs.length) none

def grow (objs : List (Option ν)) (id : UInt32) : List (Option ν) :=
  if objs.length ≤ id.toNat then resize objs ((id + 0x40) &&& ~~~(0x3F : UInt32)).toNat else objs

-- The write at the id has no place to go when the new size wraps to 0.
def add (getId : ν → UInt32) (l : ObjectListT ν) (item : ν) : Option (ObjectListT ν) :=
  let id := getId item
  let _objs := grow l._objs id
  if id.toNat < _objs.length then some ⟨_objs.set id.toNat (some item)⟩ else none

def get (l : ObjectListT ν) (key : UInt32) : Option ν :=
  if key.toNat ≥ l._objs.length then none else l._objs.getD key.toNat none

-- NULL entries are passed over.
def enumerate (cb : σ → ν → Bool × σ) : σ → List (Option ν) → List ν × σ
  | param,[] => ([],param)
  | param,none :: rest => enumerate cb param rest
  | param,some elem :: rest =>
    let (more,param) := cb param elem
    if more then
      let (visited,param) := enumerate cb param rest
      (elem :: visited,param)
    else ([elem],param)

def run (getId : ν → UInt32) (adds : List ν) : Option (ObjectListT ν) := adds.foldlM (add getId) ⟨[]⟩

def entry (getId : ν → UInt32) (item : ν) : UInt32 × Option ν := (getId item,some item)

structure Refines (getId : ν → UInt32) (adds : List ν) (l : ObjectListT ν) : Prop where
  found : ∀ key, l.get key = (stored (adds.map (entry getId)) key).join
  walked : ∃ elems : List ν, elems.Nodup ∧
    (∀ elem, elem ∈ elems ↔ stored (adds.map (entry getId)) (getId elem) = some (some elem)) ∧
    ∀ {σ : Type} (cb : σ → ν → Bool × σ) (param : σ),
      Enumerated cb param elems (enumerate cb param l._objs).1 (enumerate cb param l._objs).2

theorem enumerate_some (cb : σ → ν → Bool × σ) (param : σ) (objs : List (Option ν)) :
    enumerate cb param objs = GData.enumerate cb param (objs.filterMap id) := by
  induction objs generalizing param with
  | nil => rfl
  | cons obj rest ih =>
      cases obj with
      | none => simpa [enumerate] using ih param
      | some elem => simp [enumerate,GData.enumerate,ih]

theorem get_eq (l : ObjectListT ν) (key : UInt32) : l.get key = (l._objs[key.toNat]?).join := by
  unfold get
  split
  · rename_i past
    rw [List.getElem?_eq_none past]; rfl
  · rename_i inside
    rw [List.getD_eq_getElem?_getD]
    cases l._objs[key.toNat]? with
    | none => rfl
    | some obj => rfl

theorem masked (x : UInt32) : (x &&& ~~~(0x3F : UInt32)).toNat = x.toNat / 64 * 64 := by
  have mask : (~~~(0x3F : UInt32)).toNat = (2 ^ 26 - 1) <<< 6 := by decide
  have shifted : x.toNat / 64 * 64 = (x.toNat >>> 6) <<< 6 := by rw [Nat.shiftLeft_eq,Nat.shiftRight_eq_div_pow]
  rw [UInt32.toNat_and,mask,shifted]
  apply Nat.eq_of_testBit_eq
  intro i
  rw [Nat.testBit_and,Nat.testBit_shiftLeft,Nat.testBit_shiftLeft,Nat.testBit_two_pow_sub_one,Nat.testBit_shiftRight]
  by_cases low : 6 ≤ i
  · have back : 6 + (i - 6) = i := by omega
    by_cases high : i < 32
    · have inside : i - 6 < 26 := by omega
      simp [low,inside,back]
    · have zero : x.toNat.testBit i = false :=
        Nat.testBit_lt_two_pow (Nat.lt_of_lt_of_le x.toNat_lt (Nat.pow_le_pow_right (by omega) (by omega)))
      simp [zero,back]
  · simp [low]

theorem length_resize (objs : List (Option ν)) (n : Nat) : (resize objs n).length = n := by
  simp only [resize,List.length_append,List.length_take,List.length_replicate]
  omega

-- Growing keeps what every place holds.
theorem resize_place {objs : List (Option ν)} (more : objs.length ≤ n) (i : Nat) : ((resize objs n)[i]?).join = (objs[i]?).join := by
  rw [resize,List.take_of_length_le more]
  by_cases old : i < objs.length
  · rw [List.getElem?_append_left old]
  · rw [List.getElem?_append_right (by omega),List.getElem?_eq_none (Nat.le_of_not_lt old),List.getElem?_replicate]
    split <;> rfl

-- The ids whose rounded size does not wrap.
def Fits (id : UInt32) : Prop := id.toNat + 0x40 < 2 ^ 32

theorem grown (id : UInt32) : ((id + 0x40) &&& ~~~(0x3F : UInt32)).toNat = (id.toNat + 0x40) % 2 ^ 32 / 64 * 64 := by
  rw [masked,UInt32.toNat_add]; rfl

section grow
variable {objs : List (Option ν)} {id : UInt32}

theorem grow_wraps (small : objs.length ≤ 2 ^ 32 - 0x40) (large : ¬ Fits id) : (grow objs id).length = 0 := by
  have bound := id.toNat_lt
  unfold Fits at large
  have size := grown id
  rw [grow,if_pos (by omega),length_resize]
  omega

theorem grow_fits (small : objs.length ≤ 2 ^ 32 - 0x40) (fits : Fits id) :
    id.toNat < (grow objs id).length ∧ (grow objs id).length ≤ 2 ^ 32 - 0x40 ∧ ∀ i : Nat, ((grow objs id)[i]?).join = (objs[i]?).join := by
  unfold Fits at fits
  have size := grown id
  unfold grow
  split
  · refine ⟨?_,?_,resize_place (by omega)⟩
    · rw [length_resize]
      omega
    · rw [length_resize]
      omega
  · exact ⟨by omega,small,fun _ => rfl⟩

end grow

structure Listed (getId : ν → UInt32) (adds : List ν) (l : ObjectListT ν) : Prop where
  held : ∀ key : UInt32, (l._objs[key.toNat]?).join = (stored (adds.map (entry getId)) key).join
  keyed : ∀ (i : Nat) elem, (l._objs[i]?).join = some elem → (getId elem).toNat = i
  small : l._objs.length ≤ 2 ^ 32 - 0x40

theorem listed_add {getId : ν → UInt32} {l : ObjectListT ν} (listed : Listed getId adds l) (fits : Fits (getId item)) :
    ∃ next, l.add getId item = some next ∧ Listed getId (adds ++ [item]) next := by
  obtain ⟨inside,small,kept⟩ := grow_fits listed.small fits
  have place : ∀ i, (((grow l._objs (getId item)).set (getId item).toNat (some item))[i]?).join =
      if i = (getId item).toNat then some item else (l._objs[i]?).join := by
    intro i
    by_cases here : i = (getId item).toNat
    · subst here
      rw [List.getElem?_set_self inside,if_pos rfl]
      rfl
    · rw [List.getElem?_set_ne (Ne.symm here),kept,if_neg here]
  refine ⟨_,if_pos inside,?_,?_,?_⟩
  · intro key
    rw [place,List.map_append,List.map_singleton,entry,stored_snoc,listed.held]
    by_cases here : key = getId item
    · simp [here]
    · have apart : key.toNat ≠ (getId item).toNat := fun same => here (UInt32.toNat_inj.mp same)
      simp [here,apart]
  · intro i elem found
    rw [place] at found
    split at found
    · rename_i here
      cases Option.some.inj found
      exact here.symm
    · exact listed.keyed i elem found
  · rw [List.length_set]
    exact small

theorem listed_run {getId : ν → UInt32} (adds : List ν) (fits : ∀ item ∈ adds, Fits (getId item)) :
    ∃ l, run getId adds = some l ∧ Listed getId adds l := by
  induction adds using List.reverseRecOn with
  | nil => exact ⟨⟨[]⟩,rfl,by intro key; rfl,by intro i elem found; simp at found,by simp⟩
  | append_singleton adds last ih =>
      obtain ⟨l,ran,listed⟩ := ih fun item member => fits item (List.mem_append_left _ member)
      obtain ⟨next,moved,valid⟩ := listed_add listed (fits last (List.mem_append_right _ (List.mem_singleton_self _)))
      refine ⟨next,?_,valid⟩
      unfold run at ran ⊢
      rw [List.foldlM_append,ran]
      simpa using moved

-- An id that does not fit ends the run.
theorem run_fits {getId : ν → UInt32} (adds : List ν) (ran : run getId adds = some l) : ∀ item ∈ adds, Fits (getId item) := by
  induction adds using List.reverseRecOn generalizing l with
  | nil => intro item member; cases member
  | append_singleton adds last ih =>
      unfold run at ran ih
      rw [List.foldlM_append] at ran
      cases before : adds.foldlM (add getId) ⟨[]⟩ with
      | none => simp [before] at ran
      | some middle =>
          have front := ih before
          obtain ⟨found,again,listed⟩ := listed_run adds front
          cases Option.some.inj (before.symm.trans again)
          intro item member
          rcases List.mem_append.mp member with old | new
          · exact front item old
          · cases List.mem_singleton.mp new
            by_contra large
            have moved : middle.add getId last = some l := by simpa [before] using ran
            have short := grow_wraps listed.small large
            unfold add at moved
            rw [if_neg (by omega)] at moved
            cases moved

theorem listed_nodup {getId : ν → UInt32} {l : ObjectListT ν} (listed : Listed getId adds l) : (l._objs.filterMap id).Nodup := by
  refine List.pairwise_filterMap.mpr (List.pairwise_iff_getElem.mpr ?_)
  intro i j inside within less a first b second same
  have here : (l._objs[i]?).join = some a := by
    rw [List.getElem?_eq_getElem inside]
    exact first
  have there : (l._objs[j]?).join = some b := by
    rw [List.getElem?_eq_getElem within]
    exact second
  have one := listed.keyed i a here
  have other := listed.keyed j b there
  rw [same] at one
  omega

theorem listed_mem {getId : ν → UInt32} {l : ObjectListT ν} (listed : Listed getId adds l) (elem : ν) :
    elem ∈ l._objs.filterMap id ↔ stored (adds.map (entry getId)) (getId elem) = some (some elem) := by
  have held := listed.held (getId elem)
  rw [List.mem_filterMap]
  constructor
  · intro ⟨obj,member,same⟩
    obtain ⟨i,place⟩ := List.mem_iff_getElem?.mp member
    have joined : (l._objs[i]?).join = some elem := by
      rw [place]
      exact same
    rw [listed.keyed i elem joined,joined] at held
    exact Option.join_eq_some_iff.mp held.symm
  · intro last
    rw [last] at held
    have place := Option.join_eq_some_iff.mp held
    exact ⟨some elem,List.mem_iff_getElem?.mpr ⟨_,place⟩,rfl⟩

theorem listed_refines {getId : ν → UInt32} {l : ObjectListT ν} (listed : Listed getId adds l) : Refines getId adds l := by
  refine ⟨fun key => (get_eq l key).trans (listed.held key),l._objs.filterMap id,listed_nodup listed,listed_mem listed,?_⟩
  intro σ cb param
  rw [enumerate_some]
  exact enumerated cb param _

theorem refines_iff (getId : ν → UInt32) (adds : List ν) :
    (∃ l, run getId adds = some l ∧ Refines getId adds l) ↔ ∀ item ∈ adds, Fits (getId item) := by
  constructor
  · intro ⟨l,ran,_⟩
    exact run_fits adds ran
  · intro fits
    obtain ⟨l,ran,listed⟩ := listed_run adds fits
    exact ⟨l,ran,listed_refines listed⟩

end ObjectListT

-- The map answers rightly exactly when every key, the keys never added counting
-- as NULL, was last given the same object; the list exactly when no id is so
-- large that its size wraps.
theorem managers_refine_iff [LinearOrder κ] [Inhabited κ] (getId : ν → κ) (adds : List (ObjectMapT.Add κ ν))
    (listId : μ → UInt32) (items : List μ) :
    (ObjectMapT.Refines getId adds ↔
      adds ≠ [] ∧ ∃ elem, ∀ key, (stored (adds.map (ObjectMapT.Add.entry getId)) key).join = elem) ∧
    ((∃ l, ObjectListT.run listId items = some l ∧ ObjectListT.Refines listId items l) ↔
      ∀ item ∈ items, ObjectListT.Fits (listId item)) :=
  ⟨ObjectMapT.refines_iff getId adds,ObjectListT.refines_iff listId items⟩

-- The default key type in the order std::map gives it.
abbrev keyOrder : LinearOrder UInt32 := LinearOrder.lift' UInt32.toNat fun _ _ => UInt32.toNat_inj.mp

-- One object under 1: the lookup of 2 finds it too.
theorem absent_key_found : ¬ @ObjectMapT.Refines UInt32 keyOrder Unit (fun _ => 1) [.add ()] := by
  intro refines
  have found : some (some ()) = some none := @ObjectMapT.Refines.found UInt32 keyOrder Unit _ _ refines 2
  cases found

end GameServer.GData
