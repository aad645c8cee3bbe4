import GameServer.Battle.Choices
import GameServer.Battle.RouteSafety

namespace GameServer.Battle.Destination
open Ground SearchLists Aim Choices RouteSafety

-- Stands for no move.
def marker : Ascoord := ⟨0xFF,0xFF⟩

-- What the walk of MoveAnalyse pays for cells, in integers: the ground, but not
-- that of the first cell, and one more beside an enemy.
def fare (b : Ground) (begin p : Ascoord) : Nat :=
  (if p = begin then 0 else (b.getRideSub p).toNat) + if b.isNearbyHaveEnemy p then 1 else 0

def paid (b : Ground) (begin : Ascoord) (cells : List Ascoord) : Nat := (cells.map (fare b begin)).sum

theorem paid_cons (b : Ground) (begin p : Ascoord) (rest : List Ascoord) :
    paid b begin (p :: rest) = fare b begin p + paid b begin rest := by
  unfold paid
  rw [List.map_cons,List.sum_cons]

theorem paid_grows {b : Ground} {begin : Ascoord} (part : pre <+: front) : paid b begin pre ≤ paid b begin front := by
  obtain ⟨rest,rfl⟩ := part
  unfold paid
  rw [List.map_append,List.sum_append]
  exact Nat.le_add_right _ _

-- The cells the walk takes until the eight bits of the cost reach the move power.
def taken (b : Ground) (begin : Ascoord) : List Ascoord → Nat → List Ascoord
  | [],_ => []
  | p :: rest,cost =>
    if b.current.movePower.toNat ≤ cost % 256 then [] else p :: taken b begin rest (cost + fare b begin p)

theorem fare_eight (b : Ground) (begin p : Ascoord) (cost : Nat) :
    (if b.isNearbyHaveEnemy p then (if p = begin then UInt8.ofNat cost else UInt8.ofNat cost + b.getRideSub p) + 1
      else if p = begin then UInt8.ofNat cost else UInt8.ofNat cost + b.getRideSub p) =
      UInt8.ofNat (cost + fare b begin p) := by
  unfold fare
  split <;> split <;> simp [UInt8.ofNat_add,UInt8.add_assoc]

theorem moveFlag_taken (b : Ground) (begin : Ascoord) (cells : List Ascoord) (flag : Ascoord) (cost : Nat) :
    b.moveFlag begin cells flag (UInt8.ofNat cost) = (taken b begin cells cost).getLast?.getD flag := by
  induction cells generalizing flag cost with
  | nil => rfl
  | cons p rest ih =>
      have spent : UInt8.ofNat cost ≥ b.current.movePower ↔ b.current.movePower.toNat ≤ cost % 256 := by
        rw [ge_iff_le,UInt8.le_iff_toNat_le,UInt8.toNat_ofNat']
      rw [moveFlag,taken]
      by_cases enough : b.current.movePower.toNat ≤ cost % 256
      · rw [if_pos (spent.mpr enough),if_pos enough]
        rfl
      · rw [if_neg (fun past => enough (spent.mp past)),if_neg enough]
        dsimp only
        rw [fare_eight,ih,List.getLast?_cons,Option.getD_some]

theorem taken_prefix (b : Ground) (begin : Ascoord) (cells : List Ascoord) (cost : Nat) : taken b begin cells cost <+: cells := by
  induction cells generalizing cost with
  | nil => exact List.prefix_rfl
  | cons p rest ih =>
      rw [taken]
      split
      · exact List.nil_prefix
      · exact (List.prefix_cons_inj p).mpr (ih _)

theorem taken_iff (b : Ground) (begin : Ascoord) (front : List Ascoord) (c : Ascoord) (back : List Ascoord) (cost : Nat) :
    front ++ [c] <+: taken b begin (front ++ c :: back) cost ↔
      ∀ pre, pre <+: front → (cost + paid b begin pre) % 256 < b.current.movePower.toNat := by
  induction front generalizing cost with
  | nil =>
      rw [List.nil_append,List.nil_append,taken]
      constructor
      · intro inside pre part
        obtain rfl := List.prefix_nil.mp part
        split at inside
        · cases List.prefix_nil.mp inside
        · rename_i low
          exact Nat.not_le.mp low
      · intro low
        have now : cost % 256 < b.current.movePower.toNat := low [] List.prefix_rfl
        rw [if_neg (Nat.not_le.mpr now)]
        exact (List.prefix_cons_inj c).mpr List.nil_prefix
  | cons p front ih =>
      rw [List.cons_append,List.cons_append,taken]
      constructor
      · intro inside pre part
        split at inside
        · cases List.prefix_nil.mp inside
        · rename_i low
          rcases List.prefix_cons_iff.mp part with rfl | ⟨tail,rfl,part'⟩
          · exact Nat.not_le.mp low
          · rw [paid_cons,←Nat.add_assoc]
            exact (ih _).mp ((List.prefix_cons_inj p).mp inside) tail part'
      · intro low
        have now : cost % 256 < b.current.movePower.toNat := low [] List.nil_prefix
        rw [if_neg (Nat.not_le.mpr now)]
        refine (List.prefix_cons_inj p).mpr ((ih _).mpr fun pre part => ?_)
        have := low (p :: pre) ((List.prefix_cons_inj p).mpr part)
        rwa [paid_cons,←Nat.add_assoc] at this

theorem upTo_prefix (flag : Ascoord) (cells : List Ascoord) : upTo flag cells <+: cells := by
  induction cells with
  | nil => exact List.prefix_rfl
  | cons p rest ih =>
      rw [upTo]
      split
      · exact (List.prefix_cons_inj p).mpr List.nil_prefix
      · exact (List.prefix_cons_inj p).mpr ih

theorem upTo_iff (flag : Ascoord) (front : List Ascoord) (c : Ascoord) (back : List Ascoord) :
    front ++ [c] <+: upTo flag (front ++ c :: back) ↔ flag ∉ front := by
  induction front with
  | nil =>
      rw [List.nil_append,List.nil_append,upTo]
      refine iff_of_true ?_ List.not_mem_nil
      split
      · exact List.prefix_rfl
      · exact (List.prefix_cons_inj c).mpr List.nil_prefix
  | cons p front ih =>
      rw [List.cons_append,List.cons_append,upTo,List.mem_cons,not_or]
      split
      · rename_i here
        refine iff_of_false (fun inside => ?_) fun both => both.1 here.symm
        have short := List.IsPrefix.length_le inside
        simp at short
      · rename_i apart
        rw [List.prefix_cons_inj p,ih]
        exact ⟨fun later => ⟨fun same => apart same.symm,later⟩,fun both => both.2⟩

-- On a path without a cell twice a flag cuts off just the cells it ends.
theorem upTo_last {part back : List Ascoord} (once : (part ++ back).Nodup) (flagged : part ≠ []) :
    upTo (part.getLast flagged) (part ++ back) = part := by
  obtain ⟨front,flag,rfl⟩ : ∃ front flag, part = front ++ [flag] := ⟨_,_,(List.dropLast_concat_getLast flagged).symm⟩
  rw [List.getLast_concat]
  clear flagged
  induction front with
  | nil => exact if_pos rfl
  | cons p front ih =>
      obtain ⟨new,once⟩ := List.nodup_cons.mp once
      have apart : p ≠ flag := fun same => new (by rw [same]; simp)
      rw [List.cons_append,List.cons_append,upTo,if_neg apart,ih once]

-- MoveAnalyse looks at the cell after `front`: the eight bits of the cost were
-- below the move power before each step, or, without power, the flag (0,0) has
-- not been passed.
def Looked (b : Ground) (begin : Ascoord) (front : List Ascoord) : Prop :=
  if b.current.movePower = 0 then {} ∉ front
  else ∀ pre, pre <+: front → paid b begin pre % 256 < b.current.movePower.toNat

-- The first cell is taken, unless there is no power at all.
theorem taken_nil (b : Ground) (begin p : Ascoord) (rest : List Ascoord) :
    taken b begin (p :: rest) 0 = [] ↔ b.current.movePower = 0 := by
  rw [taken,←UInt8.toNat_inj]
  split
  · rename_i none_left
    exact iff_of_true rfl (Nat.le_zero.mp none_left)
  · rename_i left
    exact iff_of_false (List.cons_ne_nil _ _) fun none_left => left (Nat.le_of_eq none_left)

-- The cells MoveAnalyse looks back over.
def seen (b : Ground) (begin : Ascoord) (cells : List Ascoord) : List Ascoord := upTo (b.moveFlag begin cells {} 0) cells

theorem seen_unpaid (power : b.current.movePower = 0) (begin : Ascoord) (cells : List Ascoord) :
    seen b begin cells = upTo {} cells := by
  cases cells with
  | nil => rfl
  | cons p rest =>
      have flag := moveFlag_taken b begin (p :: rest) {} 0
      rw [(taken_nil b begin p rest).mpr power] at flag
      exact congrArg (upTo · (p :: rest)) flag

theorem seen_taken (power : b.current.movePower ≠ 0) (once : cells.Nodup) : seen b begin cells = taken b begin cells 0 := by
  cases cells with
  | nil => rfl
  | cons p rest =>
      have flag := moveFlag_taken b begin (p :: rest) {} 0
      have flagged := fun nothing => power ((taken_nil b begin p rest).mp nothing)
      obtain ⟨back,whole⟩ := taken_prefix b begin (p :: rest) 0
      rw [List.getLast?_eq_some_getLast flagged,Option.getD_some] at flag
      refine (congrArg (upTo · (p :: rest)) flag).trans ?_
      have ended := upTo_last (by rw [whole]; exact once) flagged
      rwa [whole] at ended

theorem seen_iff (once : cells.Nodup) (split : cells = front ++ c :: back) :
    front ++ [c] <+: seen b begin cells ↔ Looked b begin front := by
  subst split
  unfold Looked
  split
  · rename_i power
    rw [seen_unpaid power]
    exact upTo_iff {} front c back
  · rename_i power
    rw [seen_taken power once,taken_iff]
    simp only [Nat.zero_add]

theorem seen_prefix (b : Ground) (begin : Ascoord) (cells : List Ascoord) : seen b begin cells <+: cells := upTo_prefix _ _

-- The last cell without a living fighter.
structure LastFree (b : Ground) (cells front : List Ascoord) (c : Ascoord) (back : List Ascoord) : Prop where
  split : cells = front ++ c :: back
  free : b.living c = false
  last : ∀ p ∈ back, b.living p = true

theorem getMovePos_cases (b : Ground) (cells : List Ascoord) (move : Ascoord) :
    ((∀ p ∈ cells, b.living p = true) ∧ b.getMovePos cells move = move) ∨
      ∃ front c back, LastFree b cells front c back ∧ b.getMovePos cells move = c := by
  unfold getMovePos
  cases found : cells.reverse.find? (fun p => !b.living p) with
  | none =>
      refine .inl ⟨fun p member => ?_,rfl⟩
      have := List.find?_eq_none.mp found p (List.mem_reverse.mpr member)
      simpa using this
  | some c =>
      obtain ⟨free,back,front,split,last⟩ := List.find?_eq_some_iff_append.mp found
      refine .inr ⟨front.reverse,c,back.reverse,⟨?_,by simpa using free,fun p member => ?_⟩,rfl⟩
      · rw [←List.reverse_reverse cells,split]
        simp
      · simpa using last p (List.mem_reverse.mp member)

-- Where GetMovePosition may send the fighter: to a passable cell of the route with
-- no living fighter but itself, the power not used up on any cell before it.
structure Arrival (b : Ground) (path : List Ascoord) (m : Ascoord) : Prop where
  routed : m ∈ path
  passable : b.ground m ≠ 0
  free : ∀ bo, b.mapFighters (b.index m) = some bo → 0 < (b.fighter bo).hp → bo = b.currentBf
  affordable : ∀ front back, path.reverse = front ++ m :: back →
    ∀ pre, pre <+: front → pre ≠ [] → paid b b.own pre < b.current.movePower.toNat

-- What MoveAnalyse tests where the route is two cells is one of the bytes of _mapGround.
def Inside (b : Ground) (goal : Ascoord) : Prop :=
  goal.x.toNat + goal.y.toNat + b.sizeX.toNat < b.sizeX.toNat * b.sizeY.toNat

instance (b : Ground) (goal : Ascoord) : Decidable (Inside b goal) := Nat.decLt _ _

-- GetMovePosition; `none` is a read outside _mapGround.
def movePosition (b : Ground) (move : Ascoord) : Option Ascoord :=
  match b.moveGetEnemy with
  | [] => some move
  | target :: _ => do
    let path ← b.findRoute b.own target
    if path.length = 2 ∧ ¬Inside b target then none else b.getMovePosition move

-- It answers, and a move it assigns is an arrival.
def Arrives (b : Ground) : Prop := ∃ m, movePosition b marker = some m ∧ (m ≠ marker →
  ∃ target rest path, b.moveGetEnemy = target :: rest ∧ b.findRoute b.own target = some path ∧ Arrival b path m)

theorem living_free {b : Ground} {m : Ascoord} (free : b.living m = false) :
    ∀ bo, b.mapFighters (b.index m) = some bo → 0 < (b.fighter bo).hp → bo = b.currentBf := by
  intro bo here alive
  simp only [living,fighterAt,here,Option.map_some,decide_eq_false_iff_not] at free
  exact absurd alive free

theorem living_holder {b : Ground} {m : Ascoord} (alive : b.living m = true) :
    ∃ bo, b.mapFighters (b.index m) = some bo ∧ 0 < (b.fighter bo).hp := by
  unfold living fighterAt at alive
  cases here : b.mapFighters (b.index m) with
  | none => rw [here] at alive; cases alive
  | some bo => rw [here] at alive; exact ⟨bo,rfl,of_decide_eq_true alive⟩

-- The enemy stands beside the fighter: it is sent onto the enemy, or stays on a
-- cell it may not stand on.
def Swaps (b : Ground) (goal : Ascoord) : Prop :=
  (b.living b.own = true ∧ b.mapGround (goal.x.toNat + goal.y.toNat + b.sizeX.toNat) ≠ 0) ∨
    (b.own ≠ marker ∧ (b.ground b.own = 0 ∨ (b.living b.own = true ∧ b.mapFighters (b.index b.own) ≠ some b.currentBf)))

-- The walk comes to a cell after the power is used up: without power it does not
-- stop before (0,0), and with power only where the sum has passed eight bits.
def Strays (b : Ground) (front : List Ascoord) : Prop :=
  if b.current.movePower = 0 then {} ∉ front
  else 256 ≤ paid b b.own front ∧ ∀ pre, pre <+: front → paid b b.own pre % 256 < b.current.movePower.toNat

def Overruns (b : Ground) (cells : List Ascoord) : Prop :=
  ∃ front c back, cells = front ++ c :: back ∧ front ≠ [] ∧ b.living c = false ∧ Strays b front

-- The fighter's own cell is the last free one, and nobody can stand on it.
def Strands (b : Ground) (cells : List Ascoord) : Prop :=
  b.own ≠ marker ∧ b.ground b.own = 0 ∧ b.living b.own = false ∧
    ∀ front c back, cells = front ++ c :: back → front ≠ [] → Looked b b.own front → b.living c = true

def Keeps (b : Ground) : Prop :=
  ∀ goal rest path, b.moveGetEnemy = goal :: rest → b.findRoute b.own goal = some path →
    (path.length = 2 → Inside b goal ∧ ¬Swaps b goal) ∧ (2 < path.length → ¬Overruns b path.reverse ∧ ¬Strands b path.reverse)

theorem strays_iff (b : Ground) (front : List Ascoord) :
    Strays b front ↔ Looked b b.own front ∧ b.current.movePower.toNat ≤ paid b b.own front := by
  unfold Strays Looked
  split
  · rename_i power
    rw [power]
    exact ⟨fun new => ⟨new,Nat.zero_le _⟩,fun both => both.1⟩
  · have power_lt := b.current.movePower.toNat_lt
    constructor
    · intro ⟨past,low⟩
      exact ⟨low,by omega⟩
    · intro ⟨low,past⟩
      have now := low front List.prefix_rfl
      exact ⟨by omega,low⟩

section routes
variable {b : Ground} {goal : Ascoord} {path : List Ascoord}

theorem enemy_living (enemy : b.hasEnemy goal = true) : b.living goal = true := by
  obtain ⟨_,bo,here,_,alive⟩ := enemy_parts enemy
  simp only [living,fighterAt,here,Option.map_some]
  exact decide_eq_true alive

theorem chased (targets : b.moveGetEnemy = goal :: rest) : b.hasEnemy goal = true := by
  have member : goal ∈ b.moveGetEnemy := by
    rw [targets]
    exact List.mem_cons_self ..
  unfold moveGetEnemy at member
  dsimp only at member
  split at member
  · cases member
  · rcases List.mem_append.mp member with row | other
    · exact (List.mem_filter.mp row).2
    · obtain ⟨_,_,row⟩ := List.mem_flatMap.mp other
      exact (List.mem_filter.mp row).2

theorem assigned (targets : b.moveGetEnemy = goal :: rest) (found : b.findRoute b.own goal = some path) (move : Ascoord) :
    b.getMovePosition move = some ((between b b.own goal).moveAnalyse path goal move) := by
  unfold getMovePosition
  rw [targets]
  dsimp only
  rw [found]
  rfl

-- Whether (0,0) is on the way or not, of two cells the second is no way back.
theorem back_two {b : Ground} (o : Ascoord) (alive : b.living goal = true) (move : Ascoord) :
    b.getMovePos (upTo {} [o,goal]) move = if b.living o = true then move else o := by
  have cells : upTo {} [o,goal] = if o = {} then [o] else [o,goal] := by
    have single : upTo {} [goal] = [goal] := ite_self _
    rw [upTo,single]
  rw [cells]
  by_cases corner : o = ({} : Ascoord)
  · rw [if_pos corner]
    cases own : b.living o <;> simp [getMovePos,own]
  · rw [if_neg corner]
    cases own : b.living o <;> simp [getMovePos,own,alive]

theorem assigned_beside (b : Ground) (alive : b.living goal = true) (move : Ascoord) :
    (between b b.own goal).moveAnalyse [goal,b.own] goal move =
      if b.living b.own = true ∧ b.mapGround (goal.x.toNat + goal.y.toNat + b.sizeX.toNat) ≠ 0 then goal else b.own := by
  have back := back_two b.own alive
  refine (back (if b.mapGround (goal.x.toNat + goal.y.toNat + b.sizeX.toNat) = 0 then b.own else goal)).trans ?_
  by_cases own : b.living b.own = true
  · rw [if_pos own]
    by_cases hole : b.mapGround (goal.x.toNat + goal.y.toNat + b.sizeX.toNat) = 0
    · rw [if_pos hole,if_neg fun both => both.2 hole]
    · rw [if_neg hole,if_pos ⟨own,hole⟩]
  · rw [if_neg own,if_neg fun both => own both.1]

theorem moveFlag_between (b : Ground) (start goal begin : Ascoord) (cells : List Ascoord) (flag : Ascoord) (cost : UInt8) :
    (between b start goal).moveFlag begin cells flag cost = b.moveFlag begin cells flag cost := by
  induction cells generalizing flag cost with
  | nil => rfl
  | cons p rest ih =>
      rw [moveFlag,moveFlag]
      dsimp only
      rw [ih]
      rfl

theorem assigned_long (order : path.reverse = b.own :: p :: q :: rest) (move : Ascoord) :
    (between b b.own goal).moveAnalyse path goal move = b.getMovePos (seen b b.own path.reverse) move := by
  unfold moveAnalyse seen
  rw [order]
  dsimp only
  rw [moveFlag_between]
  rfl

theorem off_marker {c : Ascoord} (inside : b.isInMap c = true) : c ≠ marker := by
  rintro rfl
  simp only [isInMap,Bool.and_eq_true,decide_eq_true_eq,UInt8.lt_iff_toNat_lt] at inside
  have := b.sizeX.toNat_lt
  have : marker.x.toNat = 255 := rfl
  omega

-- The only cell before the enemy is the fighter's own.
theorem arrival_own (apart : b.own ≠ goal) : Arrival b [goal,b.own] b.own ↔
    b.ground b.own ≠ 0 ∧ (b.living b.own = true → b.mapFighters (b.index b.own) = some b.currentBf) := by
  constructor
  · intro arrival
    refine ⟨arrival.passable,fun alive => ?_⟩
    obtain ⟨bo,here,hp⟩ := living_holder alive
    rw [here,arrival.free bo here hp]
  · intro ⟨ground,holder⟩
    refine ⟨by simp,ground,fun bo here hp => ?_,fun front back split pre part begun => ?_⟩
    · have alive : b.living b.own = true := by
        simp only [living,fighterAt,here,Option.map_some]
        exact decide_eq_true hp
      exact (Option.some.inj (here.symm.trans (holder alive)))
    · have first : front = [] := by
        cases front with
        | nil => rfl
        | cons first front =>
            have later : [goal] = front ++ b.own :: back := (List.cons.inj split).2
            have beyond : b.own ∈ front ++ b.own :: back := by simp
            rw [←later] at beyond
            exact absurd (List.mem_singleton.mp beyond) apart
      rw [first] at part
      exact absurd (List.prefix_nil.mp part) begun

theorem beside_iff (enemy : b.hasEnemy goal = true) (inside : b.isInMap goal = true) (apart : b.own ≠ goal) :
    ((between b b.own goal).moveAnalyse [goal,b.own] goal marker ≠ marker →
      Arrival b [goal,b.own] ((between b b.own goal).moveAnalyse [goal,b.own] goal marker)) ↔ ¬Swaps b goal := by
  rw [assigned_beside b (enemy_living enemy)]
  unfold Swaps
  split
  · rename_i onto
    obtain ⟨_,bo,here,side,alive⟩ := enemy_parts enemy
    refine iff_of_false (fun arrives => side ?_) fun stays => stays (.inl onto)
    rw [(arrives (off_marker inside)).free bo here alive]
    rfl
  · rename_i stays
    rw [arrival_own apart,not_or]
    constructor
    · intro arrives
      refine ⟨stays,fun ⟨real,wrong⟩ => ?_⟩
      obtain ⟨ground,holder⟩ := arrives real
      exact wrong.elim ground fun other => other.2 (holder other.1)
    · intro ⟨_,right⟩ real
      refine ⟨fun ground => right ⟨real,.inl ground⟩,fun alive => ?_⟩
      exact Classical.byContradiction fun other => right ⟨real,.inr ⟨alive,other⟩⟩

theorem before_last (last : LastFree b cells front c back) (part : front' ++ [c'] <+: cells) (free : b.living c' = false) :
    front' <+: front := by
  obtain ⟨rest,whole⟩ := part
  rw [last.split,List.append_assoc] at whole
  rcases List.append_eq_append_iff.mp whole with ⟨mid,split,_⟩ | ⟨mid,split,tail⟩
  · exact ⟨mid,split.symm⟩
  · cases mid with
    | nil =>
        exact ⟨[],by rw [split,List.append_nil,List.append_nil]⟩
    | cons first mid =>
        have later : c' ∈ back := by
          rw [(List.cons.inj tail).2]
          simp
        rw [last.last c' later] at free
        cases free

theorem looked_nil (b : Ground) (begin : Ascoord) : Looked b begin [] := by
  unfold Looked
  split
  · exact List.not_mem_nil
  · rename_i power
    intro pre part
    rw [List.prefix_nil.mp part]
    exact Nat.pos_of_ne_zero fun zero => power (UInt8.toNat_inj.mp zero)

theorem split_once (once : (front ++ c :: back).Nodup) (same : front ++ c :: back = front' ++ c :: back') : front' = front := by
  rcases List.append_eq_append_iff.mp same with ⟨mid,split,tail⟩ | ⟨mid,split,tail⟩
  · cases mid with
    | nil => rw [split,List.append_nil]
    | cons first mid =>
        obtain ⟨rfl,rest⟩ := List.cons.inj tail
        obtain ⟨new,_⟩ := List.nodup_cons.mp (List.nodup_append.mp once).2.1
        exact absurd (by rw [rest]; simp) new
  · cases mid with
    | nil => rw [split,List.append_nil]
    | cons first mid =>
        obtain ⟨rfl,_⟩ := List.cons.inj tail
        obtain ⟨_,_,other⟩ := List.nodup_append.mp once
        exact absurd rfl (other c (by rw [split]; simp) c (List.mem_cons_self ..))

-- With no free cell to look at the fighter neither overruns nor strands.
theorem full_keeps (once : cells.Nodup) (order : cells = b.own :: way) (full : ∀ c ∈ seen b b.own cells, b.living c = true) :
    ¬Overruns b cells ∧ ¬Strands b cells := by
  constructor
  · rintro ⟨front,c,back,split,_,free,strays⟩
    have part := (seen_iff once split).mpr ((strays_iff b front).mp strays).1
    have alive := full c (part.subset (by simp))
    rw [free] at alive
    cases alive
  · rintro ⟨_,_,free,_⟩
    have part : [] ++ [b.own] <+: seen b b.own cells := (seen_iff once order).mpr (looked_nil b b.own)
    have alive := full b.own (part.subset (by simp))
    rw [free] at alive
    cases alive

-- On a longer route the fighter goes to the last free cell it looks at.
theorem long_iff (listed : Listed (between b b.own goal) path) (once : path.Nodup) (long : 2 < path.length) :
    ((between b b.own goal).moveAnalyse path goal marker ≠ marker →
      Arrival b path ((between b b.own goal).moveAnalyse path goal marker)) ↔ ¬Overruns b path.reverse ∧ ¬Strands b path.reverse := by
  have once := List.nodup_reverse.mpr once
  obtain ⟨way,order,clear,length⟩ := mem_reverse_split listed
  obtain ⟨p,q,rest,rfl⟩ : ∃ p q rest, way = p :: q :: rest := by
    match way,length with
    | p :: q :: rest,_ => exact ⟨p,q,rest,rfl⟩
    | [_],length => simp at length; omega
    | [],length => simp at length; omega
  rw [assigned_long order marker]
  rcases getMovePos_cases b (seen b b.own path.reverse) marker with ⟨full,stays⟩ | ⟨front,c,back,last,goes⟩
  · exact iff_of_true (fun moves => absurd stays moves) (full_keeps once order full)
  · rw [goes]
    obtain ⟨tail,whole⟩ := seen_prefix b b.own path.reverse
    have split : path.reverse = front ++ c :: (back ++ tail) := by
      rw [←whole,last.split,List.append_assoc,List.cons_append]
    have looked : Looked b b.own front := (seen_iff once split).mp ⟨back,by rw [last.split,List.append_assoc]; rfl⟩
    have home : front = [] → c = b.own := by
      rintro rfl
      exact (List.cons.inj (split.symm.trans order)).1
    have walked : front ≠ [] → Passable (between b b.own goal) c := by
      intro later
      cases front with
      | nil => exact absurd rfl later
      | cons first front =>
          have beyond : p :: q :: rest = front ++ c :: (back ++ tail) := (List.cons.inj (order.symm.trans split)).2
          exact clear c (by rw [beyond]; simp)
    constructor
    · intro arrives
      refine ⟨?_,?_⟩
      · rintro ⟨front',c',back',split',begun,free,strays⟩
        obtain ⟨looked',past⟩ := (strays_iff b front').mp strays
        have part := before_last last ((seen_iff once split').mpr looked') free
        have later : front ≠ [] := by
          rintro rfl
          exact begun (List.prefix_nil.mp part)
        have arrival := arrives (off_marker (walked later).1)
        exact absurd (arrival.affordable front _ split front' part begun) (Nat.not_lt.mpr past)
      · rintro ⟨real,ground,_,none_later⟩
        have first : front = [] := by
          by_contra later
          have alive := none_later front c _ split later looked
          rw [last.free] at alive
          cases alive
        rw [home first] at arrives
        exact (arrives real).passable ground
    · rintro ⟨in_power,standing⟩ real
      refine ⟨List.mem_reverse.mp (by rw [split]; simp),fun ground => ?_,living_free last.free,?_⟩
      · by_cases first : front = []
        · have own := home first
          rw [own] at real ground
          refine standing ⟨real,ground,own ▸ last.free,fun front' c' back' split' later looked' => ?_⟩
          by_contra free
          have part := before_last last ((seen_iff once split').mpr looked') (Bool.not_eq_true _ ▸ free)
          rw [first] at part
          exact later (List.prefix_nil.mp part)
        · exact (passable_parts (walked first)).2 ground
      · intro front' back' split' pre part begun
        obtain rfl := split_once (split ▸ once) (split.symm.trans split')
        have later : front' ≠ [] := by
          rintro rfl
          exact begun (List.prefix_nil.mp part)
        refine Nat.lt_of_le_of_lt (paid_grows part) (Nat.not_le.mp fun past => ?_)
        exact in_power ⟨front',c,_,split,later,last.free,(strays_iff b front').mpr ⟨looked,past⟩⟩

-- Without enemies nothing is assigned.
theorem idle_arrives (targets : b.moveGetEnemy = []) : Arrives b := by
  refine ⟨marker,?_,fun real => absurd rfl real⟩
  unfold movePosition
  rw [targets]

theorem position_assigned (targets : b.moveGetEnemy = goal :: rest) (found : b.findRoute b.own goal = some path) (move : Ascoord) :
    movePosition b move = if path.length = 2 ∧ ¬Inside b goal then none else some ((between b b.own goal).moveAnalyse path goal move) := by
  unfold movePosition
  rw [targets]
  dsimp only
  rw [found]
  split
  · rename_i outside
    exact if_pos outside
  · rename_i inside
    exact (if_neg inside).trans (assigned targets found move)

theorem target_arrives (targets : b.moveGetEnemy = goal :: rest) (found : b.findRoute b.own goal = some path) : Arrives b ↔
    (path.length = 2 → Inside b goal) ∧ ((between b b.own goal).moveAnalyse path goal marker ≠ marker →
      Arrival b path ((between b b.own goal).moveAnalyse path goal marker)) := by
  unfold Arrives
  rw [position_assigned targets found]
  split
  · rename_i outside
    refine iff_of_false ?_ fun both => outside.2 (both.1 outside.1)
    rintro ⟨_,answered,_⟩
    cases answered
  · rename_i inside
    have inside : path.length = 2 → Inside b goal := fun short => Classical.not_not.mp fun out => inside ⟨short,out⟩
    constructor
    · rintro ⟨m,answered,arrives⟩
      cases answered
      refine ⟨inside,fun real => ?_⟩
      obtain ⟨goal',rest',path',targets',found',arrival⟩ := arrives real
      cases targets.symm.trans targets'
      cases found.symm.trans found'
      exact arrival
    · exact fun both => ⟨_,rfl,fun real => ⟨goal,rest,path,targets,found,both.2 real⟩⟩

theorem target_keeps (targets : b.moveGetEnemy = goal :: rest) (found : b.findRoute b.own goal = some path) : Keeps b ↔
    (path.length = 2 → Inside b goal ∧ ¬Swaps b goal) ∧
      (2 < path.length → ¬Overruns b path.reverse ∧ ¬Strands b path.reverse) := by
  refine ⟨fun keeps => keeps goal rest path targets found,fun both goal' rest' path' targets' found' => ?_⟩
  cases targets.symm.trans targets'
  cases found.symm.trans found'
  exact both

end routes

theorem arrives_iff (b : Ground) : Arrives b ↔ Keeps b := by
  cases targets : b.moveGetEnemy with
  | nil =>
      refine iff_of_true (idle_arrives targets) fun goal rest path found => ?_
      rw [targets] at found
      cases found
  | cons goal rest =>
      obtain ⟨path,found,shape⟩ := found_route b b.own goal
      rw [target_keeps targets found,target_arrives targets found]
      rcases shape with rfl | ⟨apart,listed⟩
      · exact iff_of_true ⟨nofun,fun real => absurd rfl real⟩ ⟨nofun,nofun⟩
      · obtain ⟨two,beside⟩ := listed_length apart listed
        rcases Nat.eq_or_lt_of_le two with short | long
        · obtain ⟨rfl,_⟩ := beside short.symm
          have inside : b.isInMap goal = true := (listed.clear goal (by simp)).1
          rw [beside_iff (chased targets) inside apart]
          exact ⟨fun both => ⟨fun _ => ⟨both.1 rfl,both.2⟩,fun long => absurd long (Nat.lt_irrefl 2)⟩,
            fun both => ⟨fun _ => (both.1 rfl).1,(both.1 rfl).2⟩⟩
        · rw [long_iff listed (found_once found) long]
          exact ⟨fun both => ⟨fun short => absurd short (Nat.ne_of_gt long),fun _ => both.2⟩,
            fun both => ⟨fun short => absurd short (Nat.ne_of_gt long),both.2 long⟩⟩

-- Nine grass cells, an enemy on the one beside the fighter, which reaches nowhere. The
-- byte that is tested for the enemy's cell is that of the middle one.
def duel : Ground where
  sizeX := 3
  sizeY := 3
  mapGround _ := 1
  mapFighters i := if i < 2 then some i else none
  fighter i := { side := UInt8.ofNat i, hp := 1, groundX := UInt8.ofNat i }

theorem duel_swaps : duel.getTarget 0 0 = some [] ∧ movePosition duel marker = some ⟨1,0⟩ ∧ ¬Arrives duel := by
  have found : duel.findRoute duel.own ⟨1,0⟩ = some [⟨1,0⟩,duel.own] :=
    found_beside duel (by decide) (enemy_passable duel.own (by decide) (by decide))
  have goes : movePosition duel marker = some ⟨1,0⟩ := by
    have targets : duel.moveGetEnemy = ⟨1,0⟩ :: [] := by decide
    rw [position_assigned targets found,assigned_beside duel (by decide)]
    decide
  refine ⟨by decide,goes,fun arrives => ?_⟩
  obtain ⟨_,answered,arrives⟩ := arrives
  cases goes.symm.trans answered
  obtain ⟨_,_,_,_,_,arrival⟩ := arrives (by decide)
  exact absurd (arrival.free 1 (by decide) (by decide)) (by decide)

end GameServer.Battle.Destination
