import GameServer.GObject.ItemData

namespace GameServer.GObject.ItemBlocks
open Common Bytes ItemData

variable {st : Stream} {α : Type _}

def Sized (st : Stream) : Prop := st.size ≤ maxSize

-- The stream with bytes behind its own.
def extend (st : Stream) (bytes : List UInt8) : Stream := {st with _buf := st._buf ++ bytes}

@[simp] theorem extend_size (st : Stream) (bytes : List UInt8) : (extend st bytes).size = st.size+bytes.length := List.length_append

theorem extend_extend (st : Stream) (front back : List UInt8) : extend (extend st front) back = extend st (front ++ back) := by
  simp [extend]

theorem write_ok (room : st.size+bytes.length ≤ maxSize) : write st bytes = .ok (extend st bytes) := by
  rw [write,Stream.append,if_pos room]
  rfl

theorem write_long (long : ¬st.size+bytes.length ≤ maxSize) : write st bytes = .error .tooLong := by
  rw [write,Stream.append,if_neg long]

theorem write_bind {next : Stream → Except ItemData.Fault Stream} (front back : List UInt8)
    (goes : ∀ st', Sized st' → next st' = write st' back) : (write st front >>= next) = write st (front ++ back) := by
  by_cases room : st.size+front.length ≤ maxSize
  · rw [write_ok room]
    refine (goes (extend st front) (by rw [Sized,extend_size]; exact room)).trans ?_
    by_cases whole : st.size+(front ++ back).length ≤ maxSize
    · rw [write_ok whole,write_ok (by rw [extend_size]; rw [List.length_append] at whole; omega),extend_extend]
    · rw [write_long whole,write_long (by rw [extend_size]; rw [List.length_append] at whole; omega)]
  · rw [write_long room,write_long (by rw [List.length_append]; omega)]
    rfl

theorem write_nil (sized : Sized st) : write st [] = .ok st := by
  rw [write_ok (by simpa [Sized] using sized)]
  simp [extend]

def fieldBytes (fields : List (Nat × Nat)) : List UInt8 := fields.flatMap fun f => toBytes f.1 f.2

theorem puts_eq (f : Nat × Nat) (rest : List (Nat × Nat)) : puts st (f :: rest) = write st (fieldBytes (f :: rest)) := by
  induction rest generalizing st f with
  | nil =>
      unfold fieldBytes
      rw [List.flatMap_cons,List.flatMap_nil]
      refine write_bind _ _ fun st' sized => ?_
      rw [write_nil sized]
      rfl
  | cons g rest ih =>
      unfold fieldBytes
      rw [List.flatMap_cons]
      exact write_bind _ _ fun st' _ => ih g

-- A loop writes a body and comes out with a count.
def Runs (loop : Stream → Except ItemData.Fault (Stream × UInt8)) (body : List UInt8) (count : UInt8) : Prop :=
  ∀ st, Sized st → loop st = (write st body).map fun st => (st,count)

theorem fold_runs (round : Stream × UInt8 → Nat → Except ItemData.Fault (Stream × UInt8)) (items : List α) (emit : α → List UInt8)
    (mark : UInt8 → Nat → UInt8) (each : ∀ st c i a, Sized st → items[i]? = some a →
      round (st,c) i = (write st (emit a)).map fun st => (st,mark c i)) (k : Nat) (small : k ≤ items.length) :
    Runs (fun st => (List.range k).foldlM round (st,0)) ((items.take k).flatMap emit) ((List.range k).foldl mark 0) := by
  intro st sized
  induction k with
  | zero =>
      dsimp only
      rw [List.take_zero,List.flatMap_nil,write_nil sized]
      rfl
  | succ k ih =>
      have before := ih (Nat.le_of_succ_le small)
      dsimp only at before ⊢
      have last : items[k]? = some items[k] := List.getElem?_eq_getElem small
      rw [List.range_succ,List.foldlM_append,List.foldl_append,List.take_add_one,last,List.flatMap_append,before]
      simp only [Option.toList_some,List.flatMap_cons,List.flatMap_nil,List.append_nil,List.foldl_cons,List.foldl_nil]
      by_cases room : st.size+((items.take k).flatMap emit).length ≤ maxSize
      · rw [write_ok room]
        have step := each (extend st ((items.take k).flatMap emit)) ((List.range k).foldl mark 0) k items[k]
          (by rw [Sized,extend_size]; exact room) last
        by_cases whole : st.size+((items.take k).flatMap emit ++ emit items[k]).length ≤ maxSize
        · rw [write_ok (by rw [extend_size]; rw [List.length_append] at whole; omega),extend_extend] at step
          rw [write_ok whole]
          simp only [bind,Except.bind,Except.map,List.foldlM,pure,Except.pure] at step ⊢
          rw [step]
        · rw [write_long (by rw [extend_size]; rw [List.length_append] at whole; omega)] at step
          rw [write_long whole]
          simp only [bind,Except.bind,Except.map,List.foldlM,pure,Except.pure] at step ⊢
          rw [step]
      · rw [write_long room,write_long (by rw [List.length_append]; omega)]
        rfl

theorem patch_count (room : st.size+(count :: body).length ≤ maxSize) :
    patch (extend st (0 :: body)) st.size count = extend st (count :: body) := by
  have small : wrap64 ((st.size : Int)+1) = st.size+1 := by
    rw [List.length_cons] at room
    unfold wrap64 maxSize at *
    omega
  unfold patch
  rw [small,if_neg (by rw [extend_size,List.length_cons]; omega)]
  unfold extend Stream.size
  rw [List.set_append_right _ _ (Nat.le_refl _),Nat.sub_self]
  rfl

-- The count put as 0, a loop, and the count patched.
theorem counted_then {loop : Stream → Except ItemData.Fault (Stream × UInt8)} (next : Stream → Except ItemData.Fault Stream)
    (runs : Runs loop body count) (st : Stream) :
    (puts st [(1,0)] >>= fun st' => loop st' >>= fun out => next (patch out.1 st.size out.2)) =
      write st (count :: body) >>= next := by
  have zero : fieldBytes [(1,0)] = [0] := rfl
  rw [puts_eq,zero]
  by_cases one : st.size+([0] : List UInt8).length ≤ maxSize
  · have done := runs (extend st [0]) (by rw [Sized,extend_size]; exact one)
    rw [write_ok one]
    simp only [bind,Except.bind]
    rw [done]
    by_cases room : st.size+(count :: body).length ≤ maxSize
    · rw [write_ok room,write_ok (by rw [extend_size]; simp only [List.length_cons,List.length_nil] at room ⊢; omega),extend_extend]
      simp only [Except.map]
      rw [List.singleton_append,patch_count room]
    · rw [write_long room,write_long (by rw [extend_size]; simp only [List.length_cons,List.length_nil] at room ⊢; omega)]
      rfl
  · rw [write_long one,write_long (by simp only [List.length_cons,List.length_nil] at one ⊢; omega)]
    rfl

theorem counted_block {loop : Stream → Except ItemData.Fault (Stream × UInt8)} (runs : Runs loop body count) (st : Stream) :
    (puts st [(1,0)] >>= fun st' => loop st' >>= fun out => pure (patch out.1 st.size out.2)) = write st (count :: body) := by
  refine (counted_then pure runs st).trans ?_
  cases write st (count :: body) <;> rfl

-- The slots of an array that are in use, in order.
def pairs (width : Nat) (type : Vector (BitVec (8*width)) n) (value : Vector (BitVec 16) n) : List (BitVec (8*width) × BitVec 16) :=
  type.toList.zip value.toList

def typed (p : BitVec (8*width) × BitVec 16) : Bool := p.1 ≠ 0

theorem typed_of {t : BitVec (8*width)} (other : t ≠ 0) (v : BitVec 16) : typed (t,v) = true := decide_eq_true other

theorem untyped_of {t : BitVec (8*width)} (zero : t = 0) (v : BitVec 16) : typed (t,v) = false :=
  decide_eq_false fun other => other zero

def present (width : Nat) (type : Vector (BitVec (8*width)) n) (value : Vector (BitVec 16) n) : List (BitVec (8*width) × BitVec 16) :=
  (pairs width type value).filter typed

def pairBytes (width : Nat) (p : BitVec (8*width) × BitVec 16) : List UInt8 := toBytes width p.1.toNat ++ toBytes 2 p.2.toNat

theorem pairs_length (type : Vector (BitVec (8*width)) n) (value : Vector (BitVec 16) n) : (pairs width type value).length = n := by
  simp [pairs]

theorem read_some {array : Vector α n} {i : Nat} (here : array[i]? = some a) : ItemData.read array i = .ok a := by
  unfold ItemData.read
  rw [here]

theorem pairs_at {type : Vector (BitVec (8*width)) n} {value : Vector (BitVec 16) n} {i : Nat} (here : (pairs width type value)[i]? = some (t,v)) :
    type[i]? = some t ∧ value[i]? = some v := by
  obtain ⟨one,two⟩ := List.getElem?_zip_eq_some.mp here
  exact ⟨by rwa [Vector.getElem?_toList] at one,by rwa [Vector.getElem?_toList] at two⟩

theorem flat_filter (items : List α) (used : α → Bool) (enc : α → List UInt8) :
    items.flatMap (fun a => if used a then enc a else []) = (items.filter used).flatMap enc := by
  induction items with
  | nil => rfl
  | cons a rest ih =>
      rw [List.flatMap_cons,ih,List.filter_cons]
      split
      · rw [List.flatMap_cons]
      · rfl

theorem count_filter (items : List α) (used : α → Bool) (mark : UInt8 → Nat → UInt8)
    (each : ∀ c i a, items[i]? = some a → mark c i = if used a then c+1 else c) (k : Nat) (small : k ≤ items.length) :
    (List.range k).foldl mark 0 = UInt8.ofNat ((items.take k).filter used).length := by
  induction k with
  | zero => rfl
  | succ k ih =>
      have last : items[k]? = some items[k] := List.getElem?_eq_getElem small
      rw [List.range_succ,List.foldl_append,ih (Nat.le_of_succ_le small),List.take_add_one,last,List.filter_append,
        List.length_append]
      simp only [List.foldl_cons,List.foldl_nil,Option.toList_some]
      rw [each _ k _ last]
      cases flag : used items[k] <;> simp [flag]

theorem pairs_run (width : Nat) (type : Vector (BitVec (8*width)) n) (value : Vector (BitVec 16) n) :
    Runs (putPairs width n type value) ((present width type value).flatMap (pairBytes width)) (UInt8.ofNat (present width type value).length) := by
  let mark : UInt8 → Nat → UInt8 := fun c i => if ((pairs width type value)[i]?).any typed then c+1 else c
  have length := Nat.le_of_eq (pairs_length type value)
  have runs := fold_runs (putPair width type value) (pairs width type value) (fun p => if typed p then pairBytes width p else [])
    mark (by
      intro st c i p sized here
      obtain ⟨t,v⟩ := p
      obtain ⟨one,two⟩ := pairs_at here
      unfold putPair
      rw [read_some one]
      simp only [mark,here,Option.any_some,bind,Except.bind]
      by_cases zero : t = 0
      · rw [if_neg (fun other => other zero),untyped_of zero,if_neg Bool.false_ne_true,if_neg Bool.false_ne_true,write_nil sized]
        rfl
      · rw [if_pos zero,typed_of zero,if_pos rfl,if_pos rfl,read_some two]
        dsimp only
        rw [puts_eq,fieldBytes,List.flatMap_cons,List.flatMap_cons,List.flatMap_nil,List.append_nil]
        show _ = (write st (toBytes width t.toNat ++ toBytes 2 v.toNat)).map _
        cases write st (toBytes width t.toNat ++ toBytes 2 v.toNat) <;> rfl)
    n (Nat.le_of_eq (pairs_length type value).symm)
  have counts := count_filter (pairs width type value) typed mark (fun c i p here => by simp [mark,here]) n
    (Nat.le_of_eq (pairs_length type value).symm)
  rw [List.take_of_length_le length,flat_filter,counts,List.take_of_length_le length] at runs
  exact runs

def marks (gems : Vector (BitVec 16) 4) : UInt8 :=
  (List.range 4).foldl (fun c z => if (gems.toList[z]?).any (0 < ·) then c ||| (1 <<< UInt8.ofNat z) else c) 0

theorem gems_run (gems : Vector (BitVec 16) 4) :
    Runs (fun st => (List.range 4).foldlM (ItemPetAttr.putGem gems) (st,0)) ((gems.toList.filter (0 < ·)).flatMap fun g => toBytes 2 g.toNat)
      (marks gems) := by
  have length : gems.toList.length = 4 := Vector.length_toList
  have runs := fold_runs (ItemPetAttr.putGem gems) gems.toList (fun g => if decide (0 < g) then toBytes 2 g.toNat else [])
    (fun c z => if (gems.toList[z]?).any (0 < ·) then c ||| (1 <<< UInt8.ofNat z) else c)
    (by
      intro st c z g sized here
      have one : gems[z]? = some g := by rwa [Vector.getElem?_toList] at here
      unfold ItemPetAttr.putGem
      rw [read_some one]
      simp only [here,Option.any_some,bind,Except.bind]
      by_cases zero : 0 < g
      · have taken : decide (0 < g) = true := decide_eq_true zero
        rw [if_pos zero,taken,if_pos rfl,if_pos rfl]
        rw [puts_eq,fieldBytes,List.flatMap_cons,List.flatMap_nil,List.append_nil]
        show _ = (write st (toBytes 2 g.toNat)).map _
        cases write st (toBytes 2 g.toNat) <;> rfl
      · have free : decide (0 < g) = false := decide_eq_false zero
        rw [if_neg zero,free,if_neg Bool.false_ne_true,if_neg Bool.false_ne_true,write_nil sized]
        rfl)
    4 (Nat.le_of_eq length.symm)
  rw [List.take_of_length_le (Nat.le_of_eq length),flat_filter] at runs
  exact runs

-- Two loops, their counts mixed into one.
theorem runs_both {one two : Stream → Except ItemData.Fault (Stream × UInt8)} (mix : UInt8 → UInt8 → UInt8) (first : Runs one front c)
    (second : Runs two back d) :
    Runs (fun st => one st >>= fun out => two out.1 >>= fun out' => pure (out'.1,mix out'.2 out.2)) (front ++ back) (mix d c) := by
  intro st sized
  dsimp only
  rw [first st sized]
  by_cases room : st.size+front.length ≤ maxSize
  · rw [write_ok room]
    have done := second (extend st front) (by rw [Sized,extend_size]; exact room)
    simp only [bind,Except.bind,Except.map,pure,Except.pure] at done ⊢
    rw [done]
    by_cases whole : st.size+(front ++ back).length ≤ maxSize
    · rw [write_ok whole,write_ok (by rw [extend_size]; rw [List.length_append] at whole; omega),extend_extend]
    · rw [write_long whole,write_long (by rw [extend_size]; rw [List.length_append] at whole; omega)]
  · rw [write_long room,write_long (by rw [List.length_append]; omega)]
    rfl

-- The blocks, written wherever there is room for them.
def petBlock (a : ItemPetAttr) : List UInt8 :=
  fieldBytes [(4,a.skill.toNat),(1,a.lv.toNat),(4,a.exp.toNat)] ++
    marks a.gems :: (a.gems.toList.filter (0 < ·)).flatMap fun g => toBytes 2 g.toNat

theorem pet_writes (a : ItemPetAttr) (st : Stream) : a.appendAttrToStream st = write st (petBlock a) := by
  unfold ItemPetAttr.appendAttrToStream
  rw [puts_eq]
  exact write_bind _ _ fun st' _ => counted_block (gems_run a.gems) st'

def packed (extra plain : UInt8) : UInt8 := (extra <<< 4) ||| plain

def zhenyuanBlock (a : ItemZhenyuanAttr) : List UInt8 :=
  packed (UInt8.ofNat (present 2 a.typeExtra a.valueExtra).length) (UInt8.ofNat (present 1 a.type a.value).length) ::
    ((present 1 a.type a.value).flatMap (pairBytes 1) ++ (present 2 a.typeExtra a.valueExtra).flatMap (pairBytes 2))

theorem zhenyuan_writes (a : ItemZhenyuanAttr) (st : Stream) : a.appendAttrToStream st = write st (zhenyuanBlock a) := by
  refine Eq.trans ?_ (counted_block (runs_both packed (pairs_run 1 a.type a.value) (pairs_run 2 a.typeExtra a.valueExtra)) st)
  unfold ItemZhenyuanAttr.appendAttrToStream
  dsimp only
  congr 1
  funext st'
  cases putPairs 1 4 a.type a.value st' with
  | error f => rfl
  | ok out =>
      simp only [bind,Except.bind]
      cases putPairs 2 2 a.typeExtra a.valueExtra out.1 <;> rfl

def equipPresent (a : ItemEquipAttr2) : List (BitVec (8*1) × BitVec 16) :=
  [(a.type1,a.value1),(a.type2,a.value2),(a.type3,a.value3)].filter typed

-- Types assigned from slot 1 on.
def Assigned (a : ItemEquipAttr2) : Prop := (a.type2 ≠ 0 → a.type1 ≠ 0) ∧ (a.type3 ≠ 0 → a.type2 ≠ 0)

def equipBlock (a : ItemEquipAttr2) : List UInt8 := UInt8.ofNat (equipPresent a).length :: (equipPresent a).flatMap (pairBytes 1)

theorem equip_cases {a : ItemEquipAttr2} (assigned : Assigned a) :
    (a.type1 = 0 ∧ equipPresent a = []) ∨
      (a.type1 ≠ 0 ∧ a.type2 = 0 ∧ equipPresent a = [(a.type1,a.value1)]) ∨
      (a.type1 ≠ 0 ∧ a.type2 ≠ 0 ∧ a.type3 = 0 ∧ equipPresent a = [(a.type1,a.value1),(a.type2,a.value2)]) ∨
      (a.type1 ≠ 0 ∧ a.type2 ≠ 0 ∧ a.type3 ≠ 0 ∧ equipPresent a = [(a.type1,a.value1),(a.type2,a.value2),(a.type3,a.value3)]) := by
  obtain ⟨second,third⟩ := assigned
  simp only [equipPresent,List.filter_cons,List.filter_nil]
  by_cases one : a.type1 = 0
  · have two : a.type2 = 0 := Classical.byContradiction fun other => second other one
    have three : a.type3 = 0 := Classical.byContradiction fun other => third other two
    rw [untyped_of one,untyped_of two,untyped_of three]
    exact .inl ⟨one,rfl⟩
  · rw [typed_of one]
    by_cases two : a.type2 = 0
    · have three : a.type3 = 0 := Classical.byContradiction fun other => third other two
      rw [untyped_of two,untyped_of three]
      exact .inr (.inl ⟨one,two,rfl⟩)
    · rw [typed_of two]
      by_cases three : a.type3 = 0
      · rw [untyped_of three]
        exact .inr (.inr (.inl ⟨one,two,three,rfl⟩))
      · rw [typed_of three]
        exact .inr (.inr (.inr ⟨one,two,three,rfl⟩))

theorem equip_writes {a : ItemEquipAttr2} (assigned : Assigned a) (st : Stream) : a.appendAttrToStream st = write st (equipBlock a) := by
  unfold ItemEquipAttr2.appendAttrToStream equipBlock
  rcases equip_cases assigned with ⟨one,shown⟩ | ⟨one,two,shown⟩ | ⟨one,two,three,shown⟩ | ⟨one,two,three,shown⟩
  · rw [shown,if_neg (fun other => other one),puts_eq]
    rfl
  · rw [shown,if_pos one,if_neg (fun other => other two),puts_eq]
    rfl
  · rw [shown,if_pos one,if_pos two,if_neg (fun other => other three),puts_eq]
    rfl
  · rw [shown,if_pos one,if_pos two,if_pos three,puts_eq]
    rfl

-- The count in front of the block is getCount.
theorem count_equip {a : ItemEquipAttr2} (assigned : Assigned a) : a.getCount = UInt8.ofNat (equipPresent a).length := by
  unfold ItemEquipAttr2.getCount
  rcases equip_cases assigned with ⟨one,shown⟩ | ⟨one,two,shown⟩ | ⟨one,two,three,shown⟩ | ⟨one,two,three,shown⟩
  · rw [shown,if_neg (fun other => other one)]
    rfl
  · rw [shown,if_pos one,if_neg (fun other => other two)]
    rfl
  · rw [shown,if_pos one,if_pos two,if_neg (fun other => other three)]
    rfl
  · rw [shown,if_pos one,if_pos two,if_pos three]
    rfl

def lingbaoBlock (a : ItemLingbaoAttr) : List UInt8 :=
  if a.tongling = 0 then fieldBytes [(1,0),(1,a.lbColor.toNat),(1,0),(2,0),(2,0),(2,0),(2,0)]
  else fieldBytes [(1,a.tongling.toNat),(1,a.lbColor.toNat)] ++
    (UInt8.ofNat (present 1 a.type a.value).length :: (present 1 a.type a.value).flatMap (pairBytes 1) ++
      fieldBytes [(2,a.skill[1].toNat),(2,a.factor[1].toNat),(2,a.skill[0].toNat),(2,a.factor[0].toNat)])

-- The values in whose block the first skill does not stand in front: the other way
-- round the code reads a skill[2].
def Plain (a : ItemLingbaoAttr) : Prop := a.tongling = 0 ∨ a.skill[0] = 0

theorem read_ok {array : Vector α n} {i : Nat} (small : i < n) : ItemData.read array i = .ok array[i] :=
  read_some (Vector.getElem?_eq_getElem small)

theorem skills_write {a : ItemLingbaoAttr} (first : a.skill[0] = 0) (st : Stream) : a.putSkills st =
    write st (fieldBytes [(2,a.skill[1].toNat),(2,a.factor[1].toNat),(2,a.skill[0].toNat),(2,a.factor[0].toNat)]) := by
  unfold ItemLingbaoAttr.putSkills
  rw [read_ok (by decide : 0 < 2),read_ok (by decide : 1 < 2),read_ok (by decide : 0 < 2),read_ok (by decide : 1 < 2)]
  simp only [bind,Except.bind]
  rw [if_neg (fun other => other first),puts_eq]

theorem lingbao_writes {a : ItemLingbaoAttr} (plain : Plain a) (st : Stream) : a.appendAttrToStream st = write st (lingbaoBlock a) := by
  unfold ItemLingbaoAttr.appendAttrToStream lingbaoBlock
  by_cases hidden : a.tongling = 0
  · rw [if_pos hidden,if_pos hidden,puts_eq]
  · rw [if_neg hidden,if_neg hidden,puts_eq]
    refine write_bind _ _ fun st' _ => ?_
    refine (counted_then a.putSkills (pairs_run 1 a.type a.value) st').trans ?_
    exact write_bind _ _ fun st _ => skills_write (plain.resolve_left hidden) st

theorem pairBytes_length (width : Nat) (p : BitVec (8*width) × BitVec 16) : (pairBytes width p).length = width+2 := by
  rw [pairBytes,List.length_append,toBytes_length,toBytes_length]

theorem pairBytes_inj (width : Nat) (p q : BitVec (8*width) × BitVec 16) (same : pairBytes width p = pairBytes width q) : p = q := by
  obtain ⟨one,two⟩ := List.append_inj same (by rw [toBytes_length,toBytes_length])
  exact Prod.ext (toBytes_inj one) (toBytes_inj two)

theorem flat_length {enc : α → List UInt8} (fixed : ∀ a, (enc a).length = k) (items : List α) :
    (items.flatMap enc).length = k*items.length := by
  induction items with
  | nil => rfl
  | cons a rest ih => rw [List.flatMap_cons,List.length_append,fixed,ih,List.length_cons,Nat.mul_succ,Nat.add_comm]

theorem present_le (width : Nat) (type : Vector (BitVec (8*width)) n) (value : Vector (BitVec 16) n) :
    (present width type value).length ≤ n := by
  have filtered := List.length_filter_le typed (pairs width type value)
  rwa [pairs_length] at filtered

theorem packed_parts : ∀ m < 3, ∀ k < 5, (packed (UInt8.ofNat m) (UInt8.ofNat k)).toNat % 16 = k ∧
    (packed (UInt8.ofNat m) (UInt8.ofNat k)).toNat / 16 = m := by decide

-- The mask has a bit for each gem.
def bits (c : UInt8) : Nat := (List.range 8).countP fun z => c.toNat.testBit z

def maskOf (a b c d : Bool) : UInt8 :=
  (List.range 4).foldl (fun m z => if ([a,b,c,d][z]?).any id then m ||| (1 <<< UInt8.ofNat z) else m) 0

theorem maskOf_bits : ∀ a b c d, bits (maskOf a b c d) = a.toNat+b.toNat+c.toNat+d.toNat := by decide

theorem maskOf_inj : ∀ a b c d a' b' c' d', maskOf a b c d = maskOf a' b' c' d' → [a,b,c,d] = [a',b',c',d'] := by decide +kernel

theorem marks_of (gems : Vector (BitVec 16) 4) : ∃ g0 g1 g2 g3, gems.toList = [g0,g1,g2,g3] ∧
    marks gems = maskOf (0 < g0) (0 < g1) (0 < g2) (0 < g3) := by
  obtain ⟨⟨list⟩,length⟩ := gems
  match list,length with
  | [g0,g1,g2,g3],_ => exact ⟨g0,g1,g2,g3,rfl,rfl⟩

theorem marks_bits (gems : Vector (BitVec 16) 4) : bits (marks gems) = (gems.toList.filter (0 < ·)).length := by
  obtain ⟨g0,g1,g2,g3,list,mask⟩ := marks_of gems
  rw [list,mask,maskOf_bits]
  simp only [List.filter_cons,List.filter_nil]
  cases decide (0 < g0) <;> cases decide (0 < g1) <;> cases decide (0 < g2) <;> cases decide (0 < g3) <;> rfl

-- Which slots are used and what they hold is all there is.
theorem filter_back (xs ys : List (BitVec 16)) (slots : xs.map (fun g => decide (0 < g)) = ys.map (fun g => decide (0 < g)))
    (held : xs.filter (0 < ·) = ys.filter (0 < ·)) : xs = ys := by
  induction xs generalizing ys with
  | nil => exact (List.map_eq_nil_iff.mp slots.symm).symm
  | cons x rest ih =>
      cases ys with
      | nil => cases slots
      | cons y later =>
          obtain ⟨(one : decide (0 < x) = decide (0 < y)),others⟩ := List.cons_eq_cons.mp slots
          rw [List.filter_cons,List.filter_cons,← one] at held
          by_cases used : 0 < x
          · rw [if_pos (decide_eq_true used),if_pos (decide_eq_true used)] at held
            obtain ⟨same,tails⟩ := List.cons_eq_cons.mp held
            rw [same,ih later others tails]
          · have zero : decide (0 < x) = false := decide_eq_false used
            rw [zero,if_neg Bool.false_ne_true,if_neg Bool.false_ne_true] at held
            have empty : x = 0 := by bv_omega
            have empty' : y = 0 := by
              have unused := of_decide_eq_false (one.symm.trans zero)
              bv_omega
            rw [empty,empty',ih later others held]

theorem gems_inj {gems gems' : Vector (BitVec 16) 4} (mask : marks gems = marks gems')
    (held : gems.toList.filter (0 < ·) = gems'.toList.filter (0 < ·)) : gems = gems' := by
  refine Vector.toList_inj.mp (filter_back _ _ ?_ held)
  obtain ⟨g0,g1,g2,g3,list,one⟩ := marks_of gems
  obtain ⟨h0,h1,h2,h3,list',two⟩ := marks_of gems'
  rw [one,two] at mask
  rw [list,list']
  exact maskOf_inj _ _ _ _ _ _ _ _ mask

theorem gem_inj (g h : BitVec 16) (same : toBytes 2 g.toNat = toBytes 2 h.toNat) : g = h := @toBytes_inj 2 g h same

theorem pet_inj {a b : ItemPetAttr} (same : petBlock a = petBlock b) : a = b := by
  obtain ⟨lv,exp,skill,gems⟩ := a
  obtain ⟨lv',exp',skill',gems'⟩ := b
  unfold petBlock fieldBytes at same
  simp only [List.flatMap_cons,List.flatMap_nil,List.append_assoc,List.nil_append] at same
  obtain ⟨skills,same⟩ := List.append_inj same (by rw [toBytes_length,toBytes_length])
  obtain ⟨levels,same⟩ := List.append_inj same (by rw [toBytes_length,toBytes_length])
  obtain ⟨exps,same⟩ := List.append_inj same (by rw [toBytes_length,toBytes_length])
  obtain ⟨mask,held⟩ := List.cons_eq_cons.mp same
  have many : (gems.toList.filter (0 < ·)).length = (gems'.toList.filter (0 < ·)).length := by
    rw [← marks_bits,← marks_bits,mask]
  rw [← List.append_nil (List.flatMap _ (gems.toList.filter _)),← List.append_nil (List.flatMap _ (gems'.toList.filter _))] at held
  obtain ⟨list,_⟩ := records_inj (fun g => toBytes_length 2 g.toNat) gem_inj many held
  cases gems_inj mask list
  cases @toBytes_inj 4 skill skill' skills
  cases @toBytes_inj 1 lv lv' levels
  cases @toBytes_inj 4 exp exp' exps
  rfl

theorem pairs_inj {width : Nat} {xs ys : List (BitVec (8*width) × BitVec 16)} (many : xs.length = ys.length) {front back : List UInt8}
    (same : xs.flatMap (pairBytes width) ++ front = ys.flatMap (pairBytes width) ++ back) : xs = ys ∧ front = back :=
  records_inj (pairBytes_length width) (pairBytes_inj width) many same

theorem zhenyuan_counts (a : ItemZhenyuanAttr) :
    (packed (UInt8.ofNat (present 2 a.typeExtra a.valueExtra).length) (UInt8.ofNat (present 1 a.type a.value).length)).toNat % 16 =
      (present 1 a.type a.value).length ∧
    (packed (UInt8.ofNat (present 2 a.typeExtra a.valueExtra).length) (UInt8.ofNat (present 1 a.type a.value).length)).toNat / 16 =
      (present 2 a.typeExtra a.valueExtra).length :=
  packed_parts _ (Nat.lt_succ_of_le (present_le 2 a.typeExtra a.valueExtra)) _ (Nat.lt_succ_of_le (present_le 1 a.type a.value))

def SameZhenyuan (a b : ItemZhenyuanAttr) : Prop :=
  present 1 a.type a.value = present 1 b.type b.value ∧ present 2 a.typeExtra a.valueExtra = present 2 b.typeExtra b.valueExtra

theorem zhenyuan_inj {a b : ItemZhenyuanAttr} (same : zhenyuanBlock a = zhenyuanBlock b) : SameZhenyuan a b := by
  obtain ⟨count,rest⟩ := List.cons_eq_cons.mp same
  obtain ⟨plain,extra⟩ := zhenyuan_counts a
  obtain ⟨plain',extra'⟩ := zhenyuan_counts b
  rw [count] at plain extra
  obtain ⟨attrs,rest⟩ := pairs_inj (plain.symm.trans plain') rest
  rw [← List.append_nil (List.flatMap _ _),← List.append_nil (List.flatMap _ (present 2 b.typeExtra b.valueExtra))] at rest
  exact ⟨attrs,(pairs_inj (extra.symm.trans extra') rest).1⟩

def SameEquip (a b : ItemEquipAttr2) : Prop := equipPresent a = equipPresent b

theorem small_count (small : n ≤ 4) : (UInt8.ofNat n).toNat = n := by
  rw [UInt8.toNat_ofNat']
  omega

theorem equip_le (a : ItemEquipAttr2) : (equipPresent a).length ≤ 3 := List.length_filter_le typed _

theorem equip_inj {a b : ItemEquipAttr2} (same : equipBlock a = equipBlock b) : SameEquip a b := by
  obtain ⟨count,rest⟩ := List.cons_eq_cons.mp same
  have many : (equipPresent a).length = (equipPresent b).length := by
    have equal := congrArg UInt8.toNat count
    rwa [small_count (Nat.le_succ_of_le (equip_le a)),small_count (Nat.le_succ_of_le (equip_le b))] at equal
  rw [← List.append_nil (List.flatMap _ _),← List.append_nil (List.flatMap _ (equipPresent b))] at rest
  exact (pairs_inj many rest).1

-- The attributes and skills of two values are the same.
def SameLingbao (a b : ItemLingbaoAttr) : Prop :=
  present 1 a.type a.value = present 1 b.type b.value ∧ present 2 a.skill a.factor = present 2 b.skill b.factor

-- What a block shows of them: without tongling, only the colour.
def ShownLingbao (a b : ItemLingbaoAttr) : Prop :=
  a.tongling = b.tongling ∧ a.lbColor = b.lbColor ∧ (a.tongling ≠ 0 → SameLingbao a b)

theorem vector_two {v w : Vector (BitVec 16) 2} (first : v[0] = w[0]) (second : v[1] = w[1]) : v = w := by
  apply Vector.ext
  intro i small
  match i,small with
  | 0,_ => exact first
  | 1,_ => exact second

theorem front_bytes (x y : Nat) (rest : List UInt8) : fieldBytes [(1,x),(1,y)] ++ rest = toBytes 1 x ++ (toBytes 1 y ++ rest) := rfl

theorem lingbao_inj {a b : ItemLingbaoAttr} (same : lingbaoBlock a = lingbaoBlock b) : ShownLingbao a b := by
  -- both start with tongling, where it is 0 as well
  have head : ∀ a : ItemLingbaoAttr, ∃ rest, lingbaoBlock a = toBytes 1 a.tongling.toNat ++ (toBytes 1 a.lbColor.toNat ++ rest) := by
    intro a
    unfold lingbaoBlock
    split
    · rename_i zero
      rw [zero]
      exact ⟨_,rfl⟩
    · exact ⟨_,front_bytes _ _ _⟩
  have opened : a.tongling = b.tongling ∧ a.lbColor = b.lbColor := by
    obtain ⟨rest,one⟩ := head a
    obtain ⟨rest',two⟩ := head b
    rw [one,two] at same
    obtain ⟨first,same⟩ := List.append_inj same (by rw [toBytes_length,toBytes_length])
    obtain ⟨second,_⟩ := List.append_inj same (by rw [toBytes_length,toBytes_length])
    exact ⟨@toBytes_inj 1 a.tongling b.tongling first,@toBytes_inj 1 a.lbColor b.lbColor second⟩
  refine ⟨opened.1,opened.2,fun shown => ?_⟩
  unfold lingbaoBlock at same
  rw [if_neg shown,if_neg (opened.1 ▸ shown),opened.1,opened.2] at same
  have rest := List.append_cancel_left same
  rw [List.cons_append,List.cons_append] at rest
  obtain ⟨count,rest⟩ := List.cons_eq_cons.mp rest
  have many : (present 1 a.type a.value).length = (present 1 b.type b.value).length := by
    have equal := congrArg UInt8.toNat count
    rwa [small_count (present_le 1 a.type a.value),small_count (present_le 1 b.type b.value)] at equal
  obtain ⟨attrs,rest⟩ := pairs_inj many rest
  simp only [fieldBytes,List.flatMap_cons,List.flatMap_nil] at rest
  obtain ⟨skill1,rest⟩ := List.append_inj rest (by rw [toBytes_length,toBytes_length])
  obtain ⟨factor1,rest⟩ := List.append_inj rest (by rw [toBytes_length,toBytes_length])
  obtain ⟨skill0,rest⟩ := List.append_inj rest (by rw [toBytes_length,toBytes_length])
  obtain ⟨factor0,_⟩ := List.append_inj rest (by rw [toBytes_length,toBytes_length])
  refine ⟨attrs,?_⟩
  rw [vector_two (gem_inj _ _ skill0) (gem_inj _ _ skill1),vector_two (gem_inj _ _ factor0) (gem_inj _ _ factor1)]

def written (st out : Stream) : List UInt8 := out._buf.drop st.size

-- What the blocks of a kind owe their reader: for the values `shown`, only members
-- are read, the block goes behind what is there, equal blocks are of values that are
-- the `same`, and the byte at a fixed place determines the length.
structure Decodable (append : α → Stream → Except ItemData.Fault Stream) (shown : α → Prop) (same : α → α → Prop) (place : Nat)
    (length : UInt8 → Nat) : Prop where
  members : ∀ a st, shown a → append a st ≠ .error .outOfRange
  behind : ∀ a st out, shown a → append a st = .ok out → out = extend st (written st out)
  decodes : ∀ a b st st' out out', shown a → shown b → append a st = .ok out → append b st' = .ok out' →
    written st out = written st' out' → same a b
  counts : ∀ a st out, shown a → append a st = .ok out → ∃ c, (written st out)[place]? = some c ∧ (written st out).length = length c

theorem wrote (done : write st bytes = .ok out) : out = extend st bytes ∧ written st out = bytes := by
  have made : out = extend st bytes := by
    by_cases room : st.size+bytes.length ≤ maxSize
    · rw [write_ok room] at done
      cases done
      rfl
    · rw [write_long room] at done
      cases done
  subst made
  exact ⟨rfl,List.drop_left' rfl⟩

theorem decodable_of {append : α → Stream → Except ItemData.Fault Stream} {shown : α → Prop} {same : α → α → Prop} {length : UInt8 → Nat}
    (block : α → List UInt8) (writes : ∀ a st, shown a → append a st = write st (block a))
    (inj : ∀ a b, shown a → shown b → block a = block b → same a b)
    (counts : ∀ a, shown a → ∃ c, (block a)[place]? = some c ∧ (block a).length = length c) :
    Decodable append shown same place length := by
  refine ⟨?_,?_,?_,?_⟩
  · intro a st fine stopped
    rw [writes a st fine] at stopped
    by_cases room : st.size+(block a).length ≤ maxSize
    · rw [write_ok room] at stopped; cases stopped
    · rw [write_long room] at stopped; cases stopped
  · intro a st out fine done
    rw [writes a st fine] at done
    obtain ⟨made,bytes⟩ := wrote done
    rw [bytes]
    exact made
  · intro a b st st' out out' fine fine' done done' equal
    rw [writes a st fine] at done
    rw [writes b st' fine'] at done'
    rw [(wrote done).2,(wrote done').2] at equal
    exact inj a b fine fine' equal
  · intro a st out fine done
    rw [writes a st fine] at done
    rw [(wrote done).2]
    exact counts a fine

def petLength (mask : UInt8) : Nat := 10 + 2*bits mask
def zhenyuanLength (count : UInt8) : Nat := 1 + 3*(count.toNat % 16) + 4*(count.toNat / 16)
def equipLength (count : UInt8) : Nat := 1 + 3*count.toNat
def lingbaoLength (count : UInt8) : Nat := 11 + 3*count.toNat

theorem pet_counts (a : ItemPetAttr) : ∃ c, (petBlock a)[9]? = some c ∧ (petBlock a).length = petLength c := by
  have head : (fieldBytes [(4,a.skill.toNat),(1,a.lv.toNat),(4,a.exp.toNat)]).length = 9 := rfl
  refine ⟨marks a.gems,?_,?_⟩
  · unfold petBlock
    rw [List.getElem?_append_right (Nat.le_of_eq head),head]
    rfl
  · unfold petBlock petLength
    rw [List.length_append,head,List.length_cons,flat_length (fun (g : BitVec 16) => toBytes_length 2 g.toNat),marks_bits]
    omega

theorem zhenyuan_length (a : ItemZhenyuanAttr) : ∃ c, (zhenyuanBlock a)[0]? = some c ∧ (zhenyuanBlock a).length = zhenyuanLength c := by
  obtain ⟨plain,extra⟩ := zhenyuan_counts a
  refine ⟨_,rfl,?_⟩
  unfold zhenyuanBlock zhenyuanLength
  rw [plain,extra,List.length_cons,List.length_append,flat_length (pairBytes_length 1),flat_length (pairBytes_length 2)]
  omega

theorem equip_length (a : ItemEquipAttr2) : ∃ c, (equipBlock a)[0]? = some c ∧ (equipBlock a).length = equipLength c := by
  refine ⟨_,rfl,?_⟩
  unfold equipBlock equipLength
  rw [small_count (Nat.le_succ_of_le (equip_le a)),List.length_cons,flat_length (pairBytes_length 1)]
  omega

theorem lingbao_length (a : ItemLingbaoAttr) : ∃ c, (lingbaoBlock a)[2]? = some c ∧ (lingbaoBlock a).length = lingbaoLength c := by
  unfold lingbaoBlock lingbaoLength
  split
  · exact ⟨0,rfl,rfl⟩
  · refine ⟨UInt8.ofNat (present 1 a.type a.value).length,rfl,?_⟩
    rw [small_count (present_le 1 a.type a.value),List.length_append,List.length_append,List.length_cons,flat_length (pairBytes_length 1)]
    simp only [fieldBytes,List.flatMap_cons,List.flatMap_nil,List.length_append,List.length_nil,toBytes_length]
    omega

-- The blocks are decodable; one of a lingbao without tongling hides what it has.
theorem blocks_decode :
    Decodable ItemPetAttr.appendAttrToStream (fun _ => True) (fun a b => a = b) 9 petLength ∧
    Decodable ItemZhenyuanAttr.appendAttrToStream (fun _ => True) SameZhenyuan 0 zhenyuanLength ∧
    Decodable ItemEquipAttr2.appendAttrToStream Assigned SameEquip 0 equipLength ∧
    Decodable ItemLingbaoAttr.appendAttrToStream Plain ShownLingbao 2 lingbaoLength := by
  refine ⟨?_,?_,?_,?_⟩
  · exact decodable_of petBlock (fun a st _ => pet_writes a st) (fun a b _ _ same => pet_inj same) (fun a _ => pet_counts a)
  · exact decodable_of zhenyuanBlock (fun a st _ => zhenyuan_writes a st) (fun a b _ _ same => zhenyuan_inj same)
      (fun a _ => zhenyuan_length a)
  · exact decodable_of equipBlock (fun a st assigned => equip_writes assigned st) (fun a b _ _ same => equip_inj same)
      (fun a _ => equip_length a)
  · exact decodable_of lingbaoBlock (fun a st plain => lingbao_writes plain st) (fun a b _ _ same => lingbao_inj same)
      (fun a _ => lingbao_length a)

-- Two lingbaos without tongling, one of them with an attribute: the same block.
theorem attributes_hidden : ¬Decodable ItemLingbaoAttr.appendAttrToStream (fun _ => True) SameLingbao 2 lingbaoLength := by
  let bare : ItemLingbaoAttr := ⟨0,0,#v[0,0,0,0],#v[0,0,0,0],#v[0,0],#v[0,0]⟩
  let full : ItemLingbaoAttr := ⟨0,0,#v[1,0,0,0],#v[7,0,0,0],#v[0,0],#v[0,0]⟩
  intro decodable
  have hidden := decodable.decodes bare full ⟨0,[]⟩ ⟨0,[]⟩ ⟨0,List.replicate 11 0⟩ ⟨0,List.replicate 11 0⟩ trivial trivial
    (by decide +kernel) (by decide +kernel) rfl
  exact absurd hidden.1 (by decide +kernel)

end GameServer.GObject.ItemBlocks
