import GameServer.Library.History
import Mathlib.Algebra.BigOperators.Group.List.Basic
import Mathlib.Algebra.Ring.Int.Defs
import Mathlib.Logic.Function.Basic

namespace GameServer.Scripts.LuckyDraw
open History

def item2point : Int := 10
def item2point2 : Int := 6

structure Item where
  prob : Nat
  id : Nat
  points : Int

-- The random numbers of one turn: x of 1000000, p of 10000, and the one that
-- decides among items of one price, which not every turn asks for.
structure Dice where
  x : Nat
  p : Nat
  pick : Nat

-- What a draw came to: its ticket, the value of the item drawn, the value of
-- the guaranteed item and the points of the pool it was paid from.
structure Entry where
  bind : Bool
  drawn : Option Int
  award : Option (Int × Int)

-- The tickets of the package and the pools by kind (bound: variable 101,
-- unbound: 99), variable 100, and the locals. `log` stands beside them for the
-- statements.
structure State where
  stock : Bool → Nat
  var : Bool → Int
  var100 : Nat
  got : List Nat
  bnum : Nat
  ubnum : Nat
  unbound : Bool
  bind : Bool
  money : Int
  point : Int
  log : List Entry

inductive Flow where
  | on (s : State)
  | broke (s : State)
  | raised (s : State)

def choose (s : State) : State × Bool :=
  let s :=
    if s.unbound then s
    else if s.bnum ≠ 0 then {s with bnum := s.bnum - 1,bind := true}
    else {s with unbound := true,bind := false}
  if s.unbound then
    if s.ubnum ≠ 0 then ({s with ubnum := s.ubnum - 1},true) else (s,false)
  else (s,true)

def DelItem (s : State) : State × Bool :=
  if s.stock s.bind = 0 then (s,false)
  else ({s with stock := Function.update s.stock s.bind (s.stock s.bind - 1)},true)

def worth (bind : Bool) : Int := if bind then item2point2 else item2point

def draw (item : List Item) (x : Nat) (s : State) : State × Option Int :=
  match item.find? (fun it => x ≤ it.prob) with
  | none => (s,none)
  | some it => ({s with got := s.got ++ [it.id],point := s.point + worth s.bind,money := s.money + it.points},some it.points)

-- AddVarS on the pool of the current kind.
def credit (s : State) (amount : Int) : State := {s with var := Function.update s.var s.bind (s.var s.bind + amount)}

-- The points of the item before the first that yapoint does not exceed, or of
-- the last item.
def price (yapoint : Int) : Int → List Item → Int
  | before,[] => before
  | before,it :: rest => if yapoint ≤ it.points then before else price yapoint it.points rest

-- The guaranteed item and what it costs.
def award (item : List Item) (pick : Nat) (s : State) : State × Option Int :=
  let pp := price (s.var s.bind) 0 item
  let yaitem := item.filter (·.points = pp)
  if pp ≠ 0 then
    match yaitem[pick % yaitem.length]? with
    | none => (s,none)
    | some it => (credit {s with got := s.got ++ [it.id]} (-pp),some pp)
  else (s,none)

def record (s : State) (drawn : Option Int) (award : Option (Int × Int)) : State := {s with log := s.log ++ [⟨s.bind,drawn,award⟩]}

-- With no item in the table `item[pos][3]` asks nil for an index.
def trigger (item : List Item) (pick : Nat) (drawn : Option Int) (s : State) : Flow :=
  let s := credit s (s.point - s.money)
  let yapoint := s.var s.bind
  if yapoint > 0 then
    if item.isEmpty then .raised (record s drawn none)
    else
      let (s,given) := award item pick s
      .on {record s drawn (given.map (·,yapoint)) with var100 := 0,money := 0,point := 0}
  else .on {record s drawn none with money := 0,point := 0}

def turn (item : List Item) (pointProb : List (Nat × Nat)) (s : State) (dice : Dice) : Flow :=
  match choose s with
  | (s,false) => .broke s
  | (s,true) =>
    match DelItem s with
    | (s,false) => .broke s
    | (s,true) =>
      let (s,drawn) := draw item dice.x s
      let count := s.var100
      let s := {s with var100 := count + 1}
      if pointProb.any (fun (atLeast,chance) => count ≥ atLeast && dice.p ≤ chance) then trigger item dice.pick drawn s
      else .on (record s drawn none)

-- for o = 1, num; the answer says whether an error was raised.
def turns (item : List Item) (pointProb : List (Nat × Nat)) : List Dice → State → State × Bool
  | [],s => (s,false)
  | dice :: rest,s =>
    match turn item pointProb s dice with
    | .on s => turns item pointProb rest s
    | .broke s => (s,false)
    | .raised s => (s,true)

def settle (s : State) : State := if s.point ≠ 0 then credit s (s.point - s.money) else s

structure Account where
  stock : Bool → Nat
  var : Bool → Int
  var100 : Nat

def start (a : Account) (bind : Bool) : State := ⟨a.stock,a.var,a.var100,[],a.stock true,a.stock false,false,bind,0,0,[]⟩

def luckyDraw (copyitem : Nat → Option Nat) (items : Nat → Option (List Item)) (pointProb : List (Nat × Nat)) (rest id : Nat)
    (bind : Bool) (dice : List Dice) (a : Account) : State × Bool :=
  if copyitem id = none then (start a bind,false)
  else if a.stock true + a.stock false < dice.length then (start a bind,false)
  else if 2 * rest < 3 * dice.length then (start a bind,false)
  else
    match items id with
    | none => (start a bind,false)
    | some item =>
      match turns item pointProb dice (start a bind) with
      | (s,true) => (s,true)
      | (s,false) => (settle s,false)

-- What a draw puts into its pool.
def Entry.change (e : Entry) : Int := e.drawn.elim 0 (worth e.bind - ·) - e.award.elim 0 (·.1)

def changes (kind : Bool) (log : List Entry) : Int := ((log.filter (·.bind = kind)).map Entry.change).sum

def tickets (kind : Bool) (log : List Entry) : Nat := log.countP (·.bind = kind)

theorem changes_snoc (kind : Bool) (log : List Entry) (e : Entry) :
    changes kind (log ++ [e]) = changes kind log + if e.bind = kind then e.change else 0 := by
  by_cases same : e.bind = kind <;> simp [changes,same]

theorem tickets_snoc (kind : Bool) (log : List Entry) (e : Entry) :
    tickets kind (log ++ [e]) = tickets kind log + if e.bind = kind then 1 else 0 := by
  by_cases same : e.bind = kind <;> simp [tickets,same]

theorem price_below {yapoint : Int} (item : List Item) (above : before < yapoint) : price yapoint before item < yapoint := by
  induction item generalizing before with
  | nil => exact above
  | cons it rest ih =>
      rw [price]
      split
      · exact above
      · exact ih (by omega)

theorem credit_here (s : State) (amount : Int) : (credit s amount).var s.bind = s.var s.bind + amount := Function.update_self ..

theorem credit_other (s : State) (amount : Int) : (credit s amount).var (!s.bind) = s.var (!s.bind) :=
  Function.update_of_ne (by simp) ..

-- Everything a turn leaves alone once its ticket is chosen.
structure Same (s next : State) : Prop where
  stock : next.stock = s.stock
  bnum : next.bnum = s.bnum
  ubnum : next.ubnum = s.ubnum
  unbound : next.unbound = s.unbound
  bind : next.bind = s.bind

-- What a turn does to the pools: the one of its ticket, with what is still to be
-- credited, moves by `change`, the other stays.
structure Booked (s next : State) (e : Entry) (change : Int) : Prop where
  log : next.log = s.log ++ [e]
  bind : e.bind = s.bind
  here : next.var s.bind + (next.point - next.money) = s.var s.bind + (s.point - s.money) + change
  other : next.var (!s.bind) = s.var (!s.bind)
  dear : ∀ value pool, e.award = some (value,pool) → value ≤ pool

-- Points and money to be credited come together.
structure Pending (item : List Item) (s : State) : Prop where
  positive : 0 ≤ s.point
  both : s.point = 0 → s.money = 0
  filled : item = [] → s.point = 0

theorem worth_pos (bind : Bool) : 0 < worth bind := by cases bind <;> decide

theorem draw_spec (item : List Item) (x : Nat) {s : State} (pending : Pending item s) :
    ∃ next drawn, draw item x s = (next,drawn) ∧ Same s next ∧ Pending item next ∧ next.var = s.var ∧ next.log = s.log ∧
      next.var100 = s.var100 ∧ next.point - next.money = s.point - s.money + drawn.elim 0 (worth s.bind - ·) := by
  unfold draw
  split
  · exact ⟨_,_,rfl,⟨rfl,rfl,rfl,rfl,rfl⟩,pending,rfl,rfl,rfl,by simp⟩
  · rename_i it found
    have gain := worth_pos s.bind
    have before := pending.positive
    refine ⟨_,_,rfl,⟨rfl,rfl,rfl,rfl,rfl⟩,⟨?_,?_,?_⟩,rfl,rfl,rfl,?_⟩
    · dsimp only
      omega
    · intro zero
      dsimp only at zero
      omega
    · intro empty
      rw [empty] at found
      cases found
    · dsimp only [Option.elim]
      omega

theorem award_spec (item : List Item) (pick : Nat) {s : State} (rich : 0 < s.var s.bind) :
    ∃ next given, award item pick s = (next,given) ∧ Same s next ∧ next.log = s.log ∧
      next.var s.bind = s.var s.bind - given.elim 0 id ∧ next.var (!s.bind) = s.var (!s.bind) ∧
      ∀ value, given = some value → value ≤ s.var s.bind := by
  unfold award
  dsimp only
  split
  · split
    · exact ⟨_,_,rfl,⟨rfl,rfl,rfl,rfl,rfl⟩,rfl,by simp,rfl,by simp⟩
    · rename_i it _
      have cheap := price_below item rich
      refine ⟨_,_,rfl,⟨rfl,rfl,rfl,rfl,rfl⟩,rfl,?_,?_,?_⟩
      · exact (credit_here {s with got := s.got ++ [it.id]} _).trans (by simp; omega)
      · exact credit_other {s with got := s.got ++ [it.id]} _
      · intro value same
        cases Option.some.inj same
        omega
  · exact ⟨_,_,rfl,⟨rfl,rfl,rfl,rfl,rfl⟩,rfl,by simp,rfl,by simp⟩

-- A turn goes on, or ends in an error with nothing left to credit.
def Goes (flow : Flow) (next : State) : Prop := flow = .on next ∨ flow = .raised next ∧ next.point = next.money

theorem trigger_spec (item : List Item) (pick : Nat) (drawn : Option Int) {s : State} (pending : Pending item s) :
    ∃ next given, Goes (trigger item pick drawn s) next ∧ Same s next ∧ Pending item next ∧
      Booked s next ⟨s.bind,drawn,given⟩ (-(given.elim 0 (·.1))) := by
  have here := credit_here s (s.point - s.money)
  have other := credit_other s (s.point - s.money)
  unfold trigger
  dsimp only
  split
  · rename_i rich
    split
    · rename_i empty
      have point := pending.filled (List.isEmpty_iff.mp empty)
      have money := pending.both point
      refine ⟨_,none,Or.inr ⟨rfl,?_⟩,⟨rfl,rfl,rfl,rfl,rfl⟩,⟨pending.positive,pending.both,pending.filled⟩,rfl,rfl,?_,other,by simp⟩
      · exact point.trans money.symm
      · change (credit s (s.point - s.money)).var s.bind + (s.point - s.money) = _
        rw [here,point,money]
        simp
    · obtain ⟨next,given,paid,same,log,cost,kept,cheap⟩ := award_spec item pick rich
      rw [paid]
      refine ⟨_,given.map (·,(credit s (s.point - s.money)).var s.bind),Or.inl rfl,
        ⟨same.stock,same.bnum,same.ubnum,same.unbound,same.bind⟩,⟨Int.le_refl 0,fun _ => rfl,fun _ => rfl⟩,?_,rfl,?_,?_,?_⟩
      · change next.log ++ [⟨next.bind,_,_⟩] = _
        rw [log,same.bind]
        rfl
      · change next.var s.bind + (0 - 0) = _
        have paid : next.var s.bind = (credit s (s.point - s.money)).var s.bind - given.elim 0 id := cost
        rw [paid,here]
        cases given with
        | none => simp
        | some value =>
            simp
            omega
      · exact kept.trans other
      · intro value pool same
        obtain ⟨v,found,pair⟩ := Option.map_eq_some_iff.mp same
        cases pair
        exact cheap _ found
  · refine ⟨_,none,Or.inl rfl,⟨rfl,rfl,rfl,rfl,rfl⟩,⟨Int.le_refl 0,fun _ => rfl,fun _ => rfl⟩,rfl,rfl,?_,other,by simp⟩
    change (credit s (s.point - s.money)).var s.bind + (0 - 0) = _
    rw [here]
    simp

-- The kind of ticket the next turn takes, and the state in which it has it.
def kindNext (s : State) : Bool := !s.unbound && s.bnum ≠ 0

def chosen (s : State) (kind : Bool) : State :=
  {s with bnum := s.bnum - if kind then 1 else 0,ubnum := s.ubnum - if kind then 0 else 1,unbound := !kind,bind := kind}

def ticketed (s : State) (kind : Bool) : State :=
  {chosen s kind with stock := Function.update s.stock kind (s.stock kind - 1)}

-- The locals count the tickets in the package, and unbound tickets are drawn
-- when no bound ones are left.
structure Mirrored (s : State) : Prop where
  bnum : s.bnum = s.stock true
  ubnum : s.ubnum = s.stock false
  phase : s.unbound = true → s.bind = false ∧ s.stock true = 0

theorem choose_kind {s : State} (mirrored : Mirrored s) (left : s.bnum + s.ubnum ≠ 0) : choose s = (chosen s (kindNext s),true) := by
  unfold choose chosen kindNext
  cases unbound : s.unbound with
  | true =>
      obtain ⟨bind,none⟩ := mirrored.phase unbound
      have spent := mirrored.bnum
      have some_left : s.ubnum ≠ 0 := by omega
      obtain ⟨⟩ := s
      subst bind unbound
      simp [some_left]
  | false =>
      by_cases bound : s.bnum = 0
      · have some_left : s.ubnum ≠ 0 := by omega
        simp [bound,some_left]
      · obtain ⟨⟩ := s
        simp [bound]

theorem kind_left {s : State} (mirrored : Mirrored s) (left : s.bnum + s.ubnum ≠ 0) : s.stock (kindNext s) ≠ 0 := by
  rw [mirrored.bnum,mirrored.ubnum] at left
  unfold kindNext
  cases unbound : s.unbound with
  | true =>
      have spent := (mirrored.phase unbound).2
      simp only [Bool.not_true,Bool.false_and]
      omega
  | false =>
      by_cases bound : s.bnum = 0
      · have spent := mirrored.bnum
        simp only [bound,Bool.not_false,ne_eq,not_true_eq_false,decide_false,Bool.and_false]
        omega
      · have spent := mirrored.bnum
        simp only [bound,Bool.not_false,ne_eq,not_false_eq_true,decide_true,Bool.and_true]
        omega

theorem del_kind {s : State} (mirrored : Mirrored s) (left : s.bnum + s.ubnum ≠ 0) :
    DelItem (chosen s (kindNext s)) = (ticketed s (kindNext s),true) := if_neg (kind_left mirrored left)

theorem ticketed_mirrored {s : State} (mirrored : Mirrored s) : Mirrored (ticketed s (kindNext s)) := by
  obtain ⟨bnum,ubnum,phase⟩ := mirrored
  cases kind : kindNext s with
  | true =>
      refine ⟨?_,?_,fun unbound => by cases unbound⟩
      · simp [ticketed,chosen,bnum]
      · simp [ticketed,chosen,ubnum]
  | false =>
      refine ⟨?_,?_,fun _ => ⟨rfl,?_⟩⟩
      · simp [ticketed,chosen,bnum]
      · simp [ticketed,chosen,ubnum]
      · change Function.update s.stock false (s.stock false - 1) true = 0
        rw [Function.update_of_ne (by decide)]
        cases unbound : s.unbound with
        | true => exact (phase unbound).2
        | false => simpa [kindNext,unbound,bnum] using kind

theorem mirrored_same {s next : State} (mirrored : Mirrored s) (same : Same s next) : Mirrored next := by
  obtain ⟨stock,bnum,ubnum,unbound,bind⟩ := same
  exact ⟨by rw [bnum,stock]; exact mirrored.bnum,by rw [ubnum,stock]; exact mirrored.ubnum,by rw [unbound,bind,stock]; exact mirrored.phase⟩

theorem same_trans {s middle next : State} (first : Same s middle) (second : Same middle next) : Same s next :=
  ⟨second.stock.trans first.stock,second.bnum.trans first.bnum,second.ubnum.trans first.ubnum,second.unbound.trans first.unbound,
    second.bind.trans first.bind⟩

-- One turn: the ticket is gone, the draw is recorded and its pool settled.
theorem turn_spec (item : List Item) (pointProb : List (Nat × Nat)) (dice : Dice) {s : State} (mirrored : Mirrored s)
    (pending : Pending item s) (left : s.bnum + s.ubnum ≠ 0) :
    ∃ next e, Goes (turn item pointProb s dice) next ∧ Same (ticketed s (kindNext s)) next ∧ Pending item next ∧
      Booked (ticketed s (kindNext s)) next e e.change := by
  unfold turn
  rw [choose_kind mirrored left]
  dsimp only
  rw [del_kind mirrored left]
  dsimp only
  obtain ⟨after,drawn,drew,same,open_,var,log,_,gain⟩ := draw_spec item dice.x (s := ticketed s (kindNext s))
    ⟨pending.positive,pending.both,pending.filled⟩
  rw [drew]
  dsimp only
  split
  · have counted : Pending item {after with var100 := after.var100 + 1} := ⟨open_.positive,open_.both,open_.filled⟩
    obtain ⟨next,given,goes,kept,later,booked⟩ := trigger_spec item dice.pick drawn counted
    refine ⟨next,_,goes,same_trans same ⟨kept.stock,kept.bnum,kept.ubnum,kept.unbound,kept.bind⟩,later,?_,?_,?_,?_,booked.dear⟩
    · exact booked.log.trans (by rw [log])
    · exact same.bind
    · have here := booked.here
      dsimp only at here
      rw [same.bind,var] at here
      simp only [Entry.change,same.bind]
      omega
    · have other := booked.other
      dsimp only at other
      rwa [same.bind,var] at other
  · refine ⟨_,⟨(ticketed s (kindNext s)).bind,drawn,none⟩,Or.inl rfl,⟨same.stock,same.bnum,same.ubnum,same.unbound,same.bind⟩,
      ⟨open_.positive,open_.both,open_.filled⟩,?_,rfl,?_,?_,by simp⟩
    · rw [record,log,same.bind]
    · simp only [record,Entry.change,var,Option.elim]
      simp only [Option.elim] at gain
      omega
    · simp only [record,var]

-- The tickets gone are the draws made, bound ones before unbound ones, and no
-- guaranteed item was dearer than its pool.
structure Tallied (a : Account) (s : State) : Prop where
  stock : ∀ kind, s.stock kind + tickets kind s.log = a.stock kind
  order : ∃ first later, s.log = first ++ later ∧ (∀ e ∈ first, e.bind = true) ∧ (∀ e ∈ later, e.bind = false) ∧
    (later ≠ [] → s.stock true = 0)
  dear : ∀ e ∈ s.log, ∀ value pool, e.award = some (value,pool) → value ≤ pool

structure Ready (item : List Item) (a : Account) (s : State) : Prop where
  mirrored : Mirrored s
  pending : Pending item s
  tallied : Tallied a s
  bound : s.unbound = false → ∀ e ∈ s.log, e.bind = true
  closing : s.point ≠ 0 → s.bind = !s.unbound

theorem bound_next {s : State} (kind : kindNext s = true) : s.unbound = false := by
  cases unbound : s.unbound with
  | true => simp [kindNext,unbound] at kind
  | false => rfl

theorem kind_none {s : State} (mirrored : Mirrored s) (kind : kindNext s = false) : s.stock true = 0 := by
  cases unbound : s.unbound with
  | true => exact (mirrored.phase unbound).2
  | false =>
      have spent : s.bnum = 0 := by simpa [kindNext,unbound] using kind
      exact mirrored.bnum.symm.trans spent

theorem tallied_turn {a : Account} {s next : State} {e : Entry} {change : Int} (ready : Ready item a s) (left : s.bnum + s.ubnum ≠ 0)
    (same : Same (ticketed s (kindNext s)) next) (booked : Booked (ticketed s (kindNext s)) next e change) : Tallied a next := by
  have mirrored := ready.mirrored
  have some_left := kind_left mirrored left
  have log : next.log = s.log ++ [e] := booked.log
  have kind : e.bind = kindNext s := booked.bind
  have stock : next.stock = Function.update s.stock (kindNext s) (s.stock (kindNext s) - 1) := same.stock
  refine ⟨?_,?_,?_⟩
  · intro other
    have before := ready.tallied.stock other
    rw [log,tickets_snoc,stock,kind]
    by_cases here : kindNext s = other
    · subst here
      rw [Function.update_self,if_pos rfl]
      omega
    · rw [Function.update_of_ne (Ne.symm here),if_neg here]
      exact before
  · obtain ⟨first,later,parts,early,late,spent⟩ := ready.tallied.order
    cases taken : kindNext s with
    | true =>
        have phase := bound_next taken
        refine ⟨next.log,[],(List.append_nil _).symm,?_,by simp,fun more => absurd rfl more⟩
        rw [log]
        intro other member
        rcases List.mem_append.mp member with old | new
        · exact ready.bound phase other old
        · rw [List.mem_singleton.mp new,kind,taken]
    | false =>
        refine ⟨first,later ++ [e],?_,early,?_,?_⟩
        · rw [log,parts,List.append_assoc]
        · intro other member
          rcases List.mem_append.mp member with old | new
          · exact late other old
          · rw [List.mem_singleton.mp new,kind,taken]
        · intro _
          rw [stock,taken,Function.update_of_ne (by decide)]
          exact kind_none mirrored taken
  · rw [log]
    intro other member
    rcases List.mem_append.mp member with old | new
    · exact ready.tallied.dear other old
    · rw [List.mem_singleton.mp new]
      exact booked.dear

theorem ready_turn {a : Account} {s next : State} {e : Entry} {change : Int} (ready : Ready item a s) (left : s.bnum + s.ubnum ≠ 0)
    (same : Same (ticketed s (kindNext s)) next) (pending : Pending item next)
    (booked : Booked (ticketed s (kindNext s)) next e change) : Ready item a next := by
  have log : next.log = s.log ++ [e] := booked.log
  have kind : e.bind = kindNext s := booked.bind
  have phase : next.unbound = !kindNext s := same.unbound
  refine ⟨mirrored_same (ticketed_mirrored ready.mirrored) same,pending,tallied_turn ready left same booked,?_,?_⟩
  · intro bound
    have taken : kindNext s = true := by simpa [phase] using bound
    have before := bound_next taken
    rw [log]
    intro other member
    rcases List.mem_append.mp member with old | new
    · exact ready.bound before other old
    · rw [List.mem_singleton.mp new,kind,taken]
  · intro _
    rw [same.bind,same.unbound]
    simp [ticketed,chosen]

-- The pools with what is still to be credited, `carried` of it from bound draws
-- once the tickets are unbound.
structure Law (a : Account) (carried : Int) (s : State) : Prop where
  bound : s.var true + (if s.unbound then carried else s.point - s.money) = a.var true + changes true s.log
  free : s.var false + (if s.unbound then s.point - s.money - carried else 0) = a.var false + changes false s.log

theorem law_turn {a : Account} {s next : State} {e : Entry} {carried : Int} (law : Law a carried s)
    (switch : s.unbound = false → kindNext s = false → carried = s.point - s.money)
    (same : Same (ticketed s (kindNext s)) next) (booked : Booked (ticketed s (kindNext s)) next e e.change) : Law a carried next := by
  obtain ⟨bound,free⟩ := law
  have log : next.log = s.log ++ [e] := booked.log
  have kind : e.bind = kindNext s := booked.bind
  have phase : next.unbound = !kindNext s := same.unbound
  have here : next.var (kindNext s) + (next.point - next.money) = s.var (kindNext s) + (s.point - s.money) + e.change := booked.here
  have other : next.var (!kindNext s) = s.var (!kindNext s) := booked.other
  constructor
  · rw [log,changes_snoc,kind,phase]
    cases taken : kindNext s with
    | true =>
        have before := bound_next taken
        rw [taken] at here
        simp only [before,Bool.false_eq_true,if_false] at bound
        simp only [Bool.not_true,Bool.false_eq_true,if_false,if_true]
        omega
    | false =>
        rw [taken] at other
        simp only [Bool.not_false,if_true,Bool.false_eq_true,if_false] at other ⊢
        cases unbound : s.unbound with
        | true =>
            simp only [unbound,if_true] at bound
            omega
        | false =>
            have all := switch unbound taken
            simp only [unbound,Bool.false_eq_true,if_false] at bound
            omega
  · rw [log,changes_snoc,kind,phase]
    cases taken : kindNext s with
    | true =>
        have before := bound_next taken
        rw [taken] at other
        simp only [before,Bool.false_eq_true,if_false] at free
        simp only [Bool.not_true,Bool.false_eq_true,if_false,reduceCtorEq] at other ⊢
        omega
    | false =>
        rw [taken] at here
        simp only [Bool.not_false,if_true] at here ⊢
        cases unbound : s.unbound with
        | true =>
            simp only [unbound,if_true] at free
            omega
        | false =>
            have all := switch unbound taken
            simp only [unbound,Bool.false_eq_true,if_false] at free
            omega

theorem ticketed_left {s next : State} (left : s.bnum + s.ubnum ≠ 0) (mirrored : Mirrored s) (same : Same (ticketed s (kindNext s)) next) :
    next.bnum + next.ubnum + 1 = s.bnum + s.ubnum := by
  have some_left := kind_left mirrored left
  obtain ⟨bnum,ubnum,_⟩ := mirrored
  rw [same.bnum,same.ubnum]
  cases kind : kindNext s with
  | true =>
      rw [kind] at some_left
      simp only [ticketed,chosen,if_true]
      omega
  | false =>
      rw [kind] at some_left
      simp only [ticketed,chosen,Bool.false_eq_true,if_false]
      omega

def finish : State × Bool → State
  | (s,true) => s
  | (s,false) => settle s

theorem settle_log (s : State) : (settle s).log = s.log := by
  unfold settle
  split <;> rfl

theorem settle_stock (s : State) : (settle s).stock = s.stock := by
  unfold settle
  split <;> rfl

-- What the last crediting leaves of a law: the carried points are in the wrong
-- pool.
structure Closed (a : Account) (carried : Int) (s : State) : Prop where
  bound : s.var true + carried = a.var true + changes true s.log
  free : s.var false - carried = a.var false + changes false s.log

def owed (s : State) (carried : Int) : Int := if s.unbound then carried else 0

-- An error comes with nothing to credit.
theorem closed_error {a : Account} {s : State} {carried : Int} (even : s.point = s.money) (law : Law a carried s) :
    Closed a (owed s carried) s := by
  obtain ⟨bound,free⟩ := law
  unfold owed
  cases unbound : s.unbound with
  | true =>
      simp only [unbound,if_true] at bound free ⊢
      exact ⟨bound,by omega⟩
  | false =>
      simp only [unbound,Bool.false_eq_true,if_false] at bound free ⊢
      exact ⟨by omega,by omega⟩

theorem closed_settle {a : Account} {s : State} {carried : Int} (ready : Ready item a s) (law : Law a carried s) :
    Closed a (owed s carried) (settle s) := by
  by_cases point : s.point = 0
  · have same : settle s = s := by simp [settle,point]
    rw [same]
    exact closed_error (point.trans (ready.pending.both point).symm) law
  · obtain ⟨bound,free⟩ := law
    unfold owed
    have kind := ready.closing point
    have paid : settle s = credit s (s.point - s.money) := by simp [settle,point]
    have here := credit_here s (s.point - s.money)
    have other := credit_other s (s.point - s.money)
    have log : (credit s (s.point - s.money)).log = s.log := rfl
    rw [paid]
    cases unbound : s.unbound with
    | true =>
        rw [kind,unbound] at here other
        simp only [unbound,if_true] at bound free ⊢
        simp only [Bool.not_true,Bool.not_false] at here other
        exact ⟨by rw [other,log]; exact bound,by rw [here,log]; omega⟩
    | false =>
        rw [kind,unbound] at here other
        simp only [unbound,Bool.false_eq_true,if_false] at bound free ⊢
        simp only [Bool.not_true,Bool.not_false] at here other
        exact ⟨by rw [here,log]; omega,by rw [other,log]; omega⟩

def Balanced (a : Account) (s : State) : Prop := ∀ kind, s.var kind = a.var kind + changes kind s.log

theorem balanced_iff {a : Account} {s : State} {carried : Int} (closed : Closed a carried s) : Balanced a s ↔ carried = 0 := by
  obtain ⟨bound,free⟩ := closed
  constructor
  · intro balanced
    have here := balanced true
    omega
  · intro settled kind
    cases kind with
    | true => omega
    | false => omega

section runs
variable {item : List Item} {pointProb : List (Nat × Nat)} {a : Account}

def step (item : List Item) (pointProb : List (Nat × Nat)) (s : State) (dice : Dice) : Option (Unit × State) :=
  match turn item pointProb s dice with
  | .on next => some ((),next)
  | _ => none

-- The turn that goes over to the unbound tickets finds no points of bound draws
-- left to credit.
def Settled (s : State) (_ : Dice) : Prop := s.unbound = false → s.bnum = 0 → s.ubnum ≠ 0 → s.point = s.money

-- What the run lemmas use of a turn.
structure Moved (item : List Item) (pointProb : List (Nat × Nat)) (a : Account) (dice : Dice) (s next : State) : Prop where
  goes : Goes (turn item pointProb s dice) next
  ready : Ready item a next
  fewer : next.bnum + next.ubnum + 1 = s.bnum + s.ubnum
  longer : next.log.length = s.log.length + 1
  phase : next.unbound = !kindNext s
  law : ∀ carried, Law a carried s → (s.unbound = false → kindNext s = false → carried = s.point - s.money) → Law a carried next

theorem turn_moved (pointProb : List (Nat × Nat)) (dice : Dice) {s : State} (ready : Ready item a s) (left : s.bnum + s.ubnum ≠ 0) :
    ∃ next, Moved item pointProb a dice s next := by
  obtain ⟨next,e,goes,same,pending,booked⟩ := turn_spec item pointProb dice ready.mirrored ready.pending left
  refine ⟨next,goes,ready_turn ready left same pending booked,ticketed_left left ready.mirrored same,?_,same.unbound,?_⟩
  · rw [booked.log,List.length_append]
    rfl
  · intro carried law switch
    exact law_turn law switch same booked

theorem step_on {s next : State} {dice : Dice} (moved : turn item pointProb s dice = .on next) :
    step item pointProb s dice = some ((),next) := by simp [step,moved]

theorem error_guarded {s next : State} {dice : Dice} {rest : List Dice} (ended : turn item pointProb s dice = .raised next)
    (settled : Settled s dice) : Guarded (step item pointProb) Settled s (dice :: rest) := by
  refine ⟨settled,?_⟩
  intro _ _ stepped
  simp [step,ended] at stepped

theorem turns_ready (pointProb : List (Nat × Nat)) {dice : List Dice} {s : State} (ready : Ready item a s) (enough : dice.length ≤ s.bnum + s.ubnum) :
    Ready item a (turns item pointProb dice s).1 ∧
      ((turns item pointProb dice s).2 = false → (turns item pointProb dice s).1.log.length = s.log.length + dice.length) := by
  induction dice generalizing s with
  | nil => exact ⟨ready,fun _ => rfl⟩
  | cons die rest ih =>
      rw [List.length_cons] at enough
      obtain ⟨next,goes,kept,fewer,longer,_,_⟩ := turn_moved pointProb die ready (by omega)
      rcases goes with moved | ⟨ended,_⟩
      · have later := ih kept (by omega)
        simp only [turns,moved,List.length_cons]
        refine ⟨later.1,?_⟩
        intro fine
        have length := later.2 fine
        omega
      · simp only [turns,ended]
        exact ⟨kept,fun fine => by cases fine⟩

theorem turns_unbound (pointProb : List (Nat × Nat)) (carried : Int) (dice : List Dice) {s : State} (ready : Ready item a s)
    (enough : dice.length ≤ s.bnum + s.ubnum) (unbound : s.unbound = true) (law : Law a carried s) :
    Closed a carried (finish (turns item pointProb dice s)) ∧ Guarded (step item pointProb) Settled s dice := by
  induction dice generalizing s with
  | nil =>
      refine ⟨?_,trivial⟩
      have closed := closed_settle ready law
      rwa [owed,if_pos unbound] at closed
  | cons die rest ih =>
      rw [List.length_cons] at enough
      obtain ⟨next,goes,kept,fewer,_,phase,keeps⟩ := turn_moved pointProb die ready (by omega)
      have later := keeps carried law (fun bound => by rw [bound] at unbound; cases unbound)
      have still : next.unbound = true := by simpa [kindNext,unbound] using phase
      have settled : Settled s die := fun bound => by rw [bound] at unbound; cases unbound
      rcases goes with moved | ⟨ended,even⟩
      · rw [guarded_cons (step_on moved)]
        obtain ⟨closed,guarded⟩ := ih kept (by omega) still later
        simp only [turns,moved]
        exact ⟨closed,settled,guarded⟩
      · refine ⟨?_,error_guarded ended settled⟩
        have closed := closed_error even later
        rw [owed,if_pos still] at closed
        simp only [turns,ended]
        exact closed

theorem turns_bound (pointProb : List (Nat × Nat)) {dice : List Dice} {s : State} (ready : Ready item a s) (enough : dice.length ≤ s.bnum + s.ubnum)
    (bound : s.unbound = false) (law : ∀ carried, Law a carried s) :
    Balanced a (finish (turns item pointProb dice s)) ↔ Guarded (step item pointProb) Settled s dice := by
  induction dice generalizing s with
  | nil =>
      refine iff_of_true ?_ trivial
      have closed := closed_settle ready (law 0)
      rw [owed,if_neg (by rw [bound]; decide)] at closed
      exact (balanced_iff closed).mpr rfl
  | cons die rest ih =>
      rw [List.length_cons] at enough
      obtain ⟨next,goes,kept,fewer,_,phase,keeps⟩ := turn_moved pointProb die ready (by omega)
      cases kind : kindNext s with
      | true =>
          have settled : Settled s die := by
            intro _ spent
            simp [kindNext,spent] at kind
          have later : ∀ carried, Law a carried next :=
            fun carried => keeps carried (law carried) (fun _ other => by rw [kind] at other; cases other)
          have still : next.unbound = false := by rw [phase,kind]; rfl
          rcases goes with moved | ⟨ended,even⟩
          · rw [guarded_cons (step_on moved)]
            simp only [turns,moved]
            exact (ih kept (by omega) still later).trans ⟨fun guarded => ⟨settled,guarded⟩,fun both => both.2⟩
          · refine iff_of_true ?_ (error_guarded ended settled)
            have closed := closed_error even (later 0)
            rw [owed,if_neg (by rw [still]; decide)] at closed
            simp only [turns,ended]
            exact (balanced_iff closed).mpr rfl
      | false =>
          have spent : s.bnum = 0 := by simpa [kindNext,bound] using kind
          have unbound : next.unbound = true := by rw [phase,kind]; rfl
          -- the points of bound draws that are left go with the unbound ones
          have later := keeps (s.point - s.money) (law _) (fun _ _ => rfl)
          have settled : Settled s die ↔ s.point - s.money = 0 := by
            unfold Settled
            constructor
            · intro even
              have equal := even bound spent (by omega)
              omega
            · intro even _ _ _
              omega
          rcases goes with moved | ⟨ended,even⟩
          · obtain ⟨closed,guarded⟩ := turns_unbound pointProb (s.point - s.money) rest kept (by omega) unbound later
            rw [guarded_cons (step_on moved),settled]
            simp only [turns,moved]
            exact (balanced_iff closed).trans ⟨fun even => ⟨even,guarded⟩,fun both => both.1⟩
          · have closed := closed_error even later
            rw [owed,if_pos unbound] at closed
            simp only [turns,ended]
            refine (balanced_iff closed).trans (settled.symm.trans ?_)
            exact ⟨fun even => error_guarded ended even,fun both => both.1⟩

end runs

theorem start_ready (item : List Item) (a : Account) (bind : Bool) : Ready item a (start a bind) := by
  refine ⟨⟨rfl,rfl,fun unbound => by cases unbound⟩,⟨Int.le_refl 0,fun _ => rfl,fun _ => rfl⟩,⟨?_,?_,?_⟩,?_,fun point => absurd rfl point⟩
  · intro kind
    rfl
  · exact ⟨[],[],rfl,by simp,by simp,fun more => absurd rfl more⟩
  · simp [start]
  · simp [start]

theorem start_law (a : Account) (bind : Bool) (carried : Int) : Law a carried (start a bind) := by
  constructor <;> simp [start,changes]

theorem start_balanced (a : Account) (bind : Bool) : Balanced a (start a bind) := by
  intro kind
  simp [start,changes]

theorem finish_log (r : State × Bool) : (finish r).log = r.1.log := by
  obtain ⟨s,raised⟩ := r
  cases raised with
  | true => rfl
  | false => exact settle_log s

theorem finish_stock (r : State × Bool) : (finish r).stock = r.1.stock := by
  obtain ⟨s,raised⟩ := r
  cases raised with
  | true => rfl
  | false => exact settle_stock s

theorem finish_tallied {a : Account} {r : State × Bool} (tallied : Tallied a r.1) : Tallied a (finish r) := by
  obtain ⟨stock,order,dear⟩ := tallied
  rw [←finish_stock,←finish_log] at stock
  rw [←finish_stock,←finish_log] at order
  rw [←finish_log] at dear
  exact ⟨stock,order,dear⟩

-- The call gets past its checks, to the draws from this table.
def Accepted (copyitem : Nat → Option Nat) (items : Nat → Option (List Item)) (rest id : Nat) (dice : List Dice) (a : Account)
    (item : List Item) : Prop :=
  copyitem id ≠ none ∧ dice.length ≤ a.stock true + a.stock false ∧ 3 * dice.length ≤ 2 * rest ∧ items id = some item

-- Every draw is paid with one ticket, bound ones first, its pool gets its points
-- and pays for its items, and no guaranteed item is dearer than the pool.
structure Accounted (a : Account) (num : Nat) (accepted : Prop) (r : State × Bool) : Prop where
  tallied : Tallied a r.1
  balanced : Balanced a r.1
  each : accepted → r.2 = false → r.1.log.length = num
  refused : ¬ accepted → r.1.log = []

theorem luckyDraw_cases (copyitem : Nat → Option Nat) (items : Nat → Option (List Item)) (pointProb : List (Nat × Nat)) (rest id : Nat)
    (bind : Bool) (dice : List Dice) (a : Account) :
    (∀ item, ¬ Accepted copyitem items rest id dice a item) ∧ luckyDraw copyitem items pointProb rest id bind dice a = (start a bind,false) ∨
      ∃ item, Accepted copyitem items rest id dice a item ∧ luckyDraw copyitem items pointProb rest id bind dice a =
        (finish (turns item pointProb dice (start a bind)),(turns item pointProb dice (start a bind)).2) := by
  unfold luckyDraw
  split
  · rename_i unknown
    exact Or.inl ⟨fun _ accepted => accepted.1 unknown,rfl⟩
  · rename_i known
    split
    · rename_i few
      refine Or.inl ⟨?_,rfl⟩
      intro _ ⟨_,enough,_⟩
      omega
    · rename_i enough
      split
      · rename_i full
        refine Or.inl ⟨?_,rfl⟩
        intro _ ⟨_,_,room,_⟩
        omega
      · rename_i room
        split
        · rename_i absent
          refine Or.inl ⟨?_,rfl⟩
          intro _ ⟨_,_,_,found⟩
          rw [absent] at found
          cases found
        · rename_i item found
          refine Or.inr ⟨item,⟨known,by omega,by omega,found⟩,?_⟩
          split <;> (rename_i s ran; rw [ran]; rfl)

-- A call keeps its accounts exactly when no points of bound draws are left to
-- credit as it goes over to the unbound tickets.
theorem lucky_draw_accounted_iff (copyitem : Nat → Option Nat) (items : Nat → Option (List Item)) (pointProb : List (Nat × Nat))
    (rest id : Nat) (bind : Bool) (dice : List Dice) (a : Account) :
    Accounted a dice.length (∃ item, Accepted copyitem items rest id dice a item)
        (luckyDraw copyitem items pointProb rest id bind dice a) ↔
      ∀ item, Accepted copyitem items rest id dice a item → Guarded (step item pointProb) Settled (start a bind) dice := by
  rcases luckyDraw_cases copyitem items pointProb rest id bind dice a with ⟨refused,stays⟩ | ⟨item,accepted,drew⟩
  · rw [stays]
    refine iff_of_true ⟨(start_ready [] a bind).tallied,start_balanced a bind,?_,fun _ => rfl⟩
      (fun item accepted => absurd accepted (refused item))
    intro ⟨item,accepted⟩
    exact absurd accepted (refused item)
  · have ready := start_ready item a bind
    obtain ⟨kept,length⟩ := turns_ready pointProb ready accepted.2.1
    have balanced := turns_bound pointProb ready accepted.2.1 rfl (start_law a bind)
    rw [drew]
    constructor
    · intro accounted other taken
      cases Option.some.inj (accepted.2.2.2.symm.trans taken.2.2.2)
      exact balanced.mp accounted.balanced
    · intro guarded
      refine ⟨finish_tallied kept.tallied,balanced.mpr (guarded item accepted),?_,fun refused => absurd ⟨item,accepted⟩ refused⟩
      intro _ fine
      exact (congrArg List.length (finish_log _)).trans ((length fine).trans (Nat.zero_add _))

-- One bound and one unbound ticket, an item of 1 point for each: the 5 points
-- of the bound draw go to the unbound pool.
def onePoint : Nat → Option (List Item) := fun _ => some [⟨1000000,548,1⟩]

theorem bound_points_lost : ¬ Accounted ⟨fun _ => 1,fun _ => 0,0⟩ 2
    (∃ item, Accepted (fun _ => some 9012) onePoint 10 1 [⟨1,1,0⟩,⟨1,1,0⟩] ⟨fun _ => 1,fun _ => 0,0⟩ item)
    (luckyDraw (fun _ => some 9012) onePoint [] 10 1 true [⟨1,1,0⟩,⟨1,1,0⟩] ⟨fun _ => 1,fun _ => 0,0⟩) := by
  intro accounted
  exact absurd (accounted.balanced true) (by decide)

end GameServer.Scripts.LuckyDraw
