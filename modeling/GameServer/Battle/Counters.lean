import GameServer.Battle.Shortest
import GameServer.Battle.Aim

namespace GameServer.Battle.Counters
open Ground SearchLists Reach Shortest

-- Where a search is: at the head of its while loop, in the for loop over the
-- cells around a node with some of them left, or back with the end found.
inductive Phase where
  | head
  | around (p : Node) (cells : List Ascoord)
  | found

-- The lists of a search at every moment, one JudgeSurround after the other.
inductive Moment (b : Ground) : List Node → List Node → Phase → Prop where
  | start : Moment b [b.startNode] [] .head
  | pop : Moment b openList closeList .head → popBestStep openList = some (p,rest) →
      Moment b rest (closeList ++ [p]) (.around p (b.checkUp (getAround p.node)))
  | judge : Moment b openList closeList (.around p (cur :: cells)) →
      b.judgeSurround closeList openList cur p.node (p.g + b.getGValue cur) = (false,after) →
      Moment b after closeList (.around p cells)
  | hit : Moment b openList closeList (.around p (cur :: cells)) →
      b.judgeSurround closeList openList cur p.node (p.g + b.getGValue cur) = (true,after) →
      Moment b after closeList .found
  | again : Moment b openList closeList (.around p []) → Moment b openList closeList .head

theorem expand_moment (here : Moment b openList closeList (.around p cells))
    (expanded : b.expand closeList p cells openList = (hit,after)) :
    Moment b after closeList (if hit then .found else .head) := by
  induction cells generalizing openList with
  | nil => cases expanded; exact .again here
  | cons it rest ih =>
      unfold expand at expanded
      cases judged : b.judgeSurround closeList openList it p.node (p.g + b.getGValue it) with
      | mk first middle =>
          rw [judged] at expanded
          cases first with
          | true => cases expanded; exact .hit here judged
          | false => exact ih (.judge here judged) expanded

-- The lists ComputeRoute leaves are the lists of a moment of its search.
theorem search_moment (here : Moment b openList closeList .head)
    (ended : b.searchLoop rounds openList closeList = some s) : ∃ phase, Moment b s.openList s.closeList phase := by
  induction rounds generalizing openList closeList with
  | zero => cases ended
  | succ rounds ih =>
      rw [searchLoop] at ended
      unfold Ground.round at ended
      cases popped : popBestStep openList with
      | none => rw [popped] at ended; cases ended; exact ⟨_,here⟩
      | some pair =>
          obtain ⟨p,rest⟩ := pair
          rw [popped] at ended
          dsimp only at ended
          cases expanded : b.expand (closeList ++ [p]) p (b.checkUp (getAround p.node)) rest with
          | mk hit after =>
              have next := expand_moment (.pop here popped) expanded
              rw [expanded] at ended
              cases hit with
              | true => cases ended; exact ⟨_,next⟩
              | false => exact ih next ended

structure Sound (b : Ground) (openList closeList : List Node) (phase : Phase) : Prop where
  labels : Labels b openList closeList
  current : ∀ p cells, phase = .around p cells →
    p ∈ closeList ∧ ∀ c ∈ cells, c ∈ getAround p.node ∧ b.isInMap c = true

theorem moment_sound (moment : Moment b openList closeList phase) : Sound b openList closeList phase := by
  induction moment with
  | start => exact ⟨labels_start b,fun _ _ same => by cases same⟩
  | pop _ popped ih =>
      refine ⟨pop_labels ih.labels (popped_parts (labels_distinct ih.labels).2 popped),?_⟩
      intro p cells same
      cases same
      exact ⟨by simp,fun c member => by simpa [checkUp] using member⟩
  | judge _ judged ih =>
      obtain ⟨member,near⟩ := ih.current _ _ rfl
      have first := near _ (List.mem_cons_self ..)
      refine ⟨judge_labels ih.labels member first.1 first.2 (judge_parts judged),?_⟩
      intro p cells same
      cases same
      exact ⟨member,fun c later => near c (List.mem_cons_of_mem _ later)⟩
  | hit _ judged ih =>
      obtain ⟨member,near⟩ := ih.current _ _ rfl
      have first := near _ (List.mem_cons_self ..)
      exact ⟨judge_labels ih.labels member first.1 first.2 (judge_parts judged),fun _ _ same => by cases same⟩
  | again _ ih => exact ⟨ih.labels,fun _ _ same => by cases same⟩

def ExactNodes (b : Ground) (openList closeList : List Node) : Prop :=
  ∀ n ∈ closeList ++ openList, ∀ path, Traced b closeList n path → n.g.toNat = total b path

-- JudgeSurround stores this cost: the cell is not closed, not blocked and not in
-- the open list at that cost or less.
def Stores (b : Ground) (closeList openList : List Node) (cur : Ascoord) (g : UInt8) : Prop :=
  cur ∉ nodes closeList ∧ b.isObstract cur = false ∧ ∀ n ∈ openList, n.node = cur → g < n.g

def StoresFit (b : Ground) : Prop :=
  ∀ openList closeList p cur cells, Moment b openList closeList (.around p (cur :: cells)) →
    Stores b closeList openList cur (p.g + b.getGValue cur) → p.g.toNat + (b.getGValue cur).toNat < 256

theorem unwrapped_pop (labels : Labels b openList closeList) (popped : Popped openList p rest)
    (unwrapped : Unwrapped b openList closeList) : Unwrapped b rest (closeList ++ [p]) := by
  intro n member apart q closed parent
  have order : n ∈ closeList ++ openList := by
    exact (pop_order popped closeList).mem_iff.mpr member
  rcases List.mem_append.mp closed with old | new
  · exact unwrapped n order apart q old parent
  · obtain rfl := List.mem_singleton.mp new
    have rooted : Rooted b closeList n := by
      rcases List.mem_append.mp order with inClose | inOpen
      · exact closed_rooted labels.closed inClose
      · exact labels.rooted n inOpen
    rcases rooted.2 with ⟨start,_⟩ | ⟨_,q',old,parent',_⟩
    · exact absurd start apart
    · -- the parent of n was closed before q, so q is no second node of its cell
      have distinct := (labels_distinct (pop_labels labels popped)).1
      have same := only_node distinct (List.mem_append_left _ old) (List.mem_append_right _ (List.mem_singleton_self q))
        (parent'.symm.trans parent)
      exact unwrapped n order apart q (same ▸ old) parent

theorem unwrapped_judge (labels : Labels b openList closeList) (member : p ∈ closeList)
    (fits : Stores b closeList openList cur (p.g + b.getGValue cur) → p.g.toNat + (b.getGValue cur).toNat < 256)
    (judged : Judged b closeList openList cur p.node (p.g + b.getGValue cur) hit after)
    (unwrapped : Unwrapped b openList closeList) : Unwrapped b after closeList := by
  have distinct := labels_distinct labels
  have fresh : ∀ n : Node, n.node = cur → n.parent = p.node →
      p.g.toNat + (b.getGValue cur).toNat < 256 → ∀ q ∈ closeList, n.parent = q.node →
      q.g.toNat + (b.getGValue n.node).toNat < 256 := by
    rintro n rfl parent small q closed same
    rw [only_node distinct.1 closed member (same.symm.trans parent)]
    exact small
  intro n inLists apart q closed parent
  rcases List.mem_append.mp inLists with inClose | inOpen
  · exact unwrapped n (List.mem_append_left _ inClose) apart q closed parent
  · cases judged with
    | skip _ => exact unwrapped n inLists apart q closed parent
    | push notClosed free new =>
        rcases List.mem_append.mp inOpen with old | last
        · exact unwrapped n (List.mem_append_right _ old) apart q closed parent
        · obtain rfl := List.mem_singleton.mp last
          refine fresh _ rfl rfl (fits ⟨notClosed,free,fun m there same => ?_⟩) q closed parent
          exact absurd (same ▸ List.mem_map_of_mem there) new
    | @lower m _ _ there cell below =>
        rename_i notClosed free
        rcases reparent_parts inOpen with old | ⟨first,inside,here,rfl⟩
        · exact unwrapped n (List.mem_append_right _ old) apart q closed parent
        · refine fresh ⟨first.node,p.node,p.g + b.getGValue cur,first.h⟩ here rfl (fits ⟨notClosed,free,fun k inside' same => ?_⟩) q closed parent
          rw [only_node distinct.2 inside' there (same.trans cell.symm)]
          exact below
    | keep _ _ _ _ _ => exact unwrapped n inLists apart q closed parent

theorem moment_unwrapped (fits : StoresFit b) (moment : Moment b openList closeList phase) :
    Unwrapped b openList closeList := by
  induction moment with
  | start =>
      intro n member apart
      rw [List.nil_append,List.mem_singleton] at member
      exact absurd (by rw [member]; rfl) apart
  | pop before popped ih =>
      have labels := (moment_sound before).labels
      exact unwrapped_pop labels (popped_parts (labels_distinct labels).2 popped) ih
  | judge before judged ih =>
      have sound := moment_sound before
      exact unwrapped_judge sound.labels (sound.current _ _ rfl).1 (fits _ _ _ _ _ before) (judge_parts judged) ih
  | hit before judged ih =>
      have sound := moment_sound before
      exact unwrapped_judge sound.labels (sound.current _ _ rfl).1 (fits _ _ _ _ _ before) (judge_parts judged) ih
  | again _ ih => exact ih

-- A stored cost gives a node of the cell with just that cost and parent.
theorem stored_node (stores : Stores b closeList openList cur g) (judged : Judged b closeList openList cur parent g hit after) :
    ∃ n ∈ after, n.node = cur ∧ n.parent = parent ∧ n.g = g := by
  obtain ⟨notClosed,free,cheaper⟩ := stores
  cases judged with
  | skip reason =>
      rcases reason with closed | blocked
      · exact absurd closed notClosed
      · rw [free] at blocked; cases blocked
  | push _ _ _ => exact ⟨_,List.mem_append_right _ (List.mem_singleton_self _),rfl,rfl,rfl⟩
  | lower _ _ member same _ =>
      refine reparent_node ?_
      rw [←same]; exact List.mem_map_of_mem member
  | keep _ _ member same bound => exact absurd (cheaper _ member same) (UInt8.not_lt.mpr bound)

-- In all moments of a search every g is exact, exactly when all stored sums fit.
theorem nodes_exact_iff (b : Ground) :
    (∀ openList closeList phase, Moment b openList closeList phase → ExactNodes b openList closeList) ↔ StoresFit b := by
  constructor
  · intro exact openList closeList p cur cells before stores
    have sound := moment_sound before
    obtain ⟨closed,near⟩ := sound.current _ _ rfl
    have first := near cur (List.mem_cons_self ..)
    obtain ⟨path,traced,_⟩ := traced_closed sound.labels.closed (fun _ h => h) closed
    cases judged : b.judgeSurround closeList openList cur p.node (p.g + b.getGValue cur) with
    | mk hit after =>
        have parts := judge_parts judged
        obtain ⟨n,inside,cell,parent,cost⟩ := stored_node stores parts
        have lists : ExactNodes b after closeList := by
          cases hit with
          | true => exact exact _ _ _ (.hit before judged)
          | false => exact exact _ _ _ (.judge before judged)
        have apart : cur ≠ b.start := fun same => stores.1 (same ▸ closed_start sound.labels.closed closed)
        have whole := lists n (List.mem_append_right _ inside) _ (.step (by rw [cell]; exact apart) closed parent
          (by rw [cell]; exact first.1) (by rw [cell]; exact ⟨first.2,stores.2.1⟩) (by rw [cost,cell]) traced)
        have part := lists p (List.mem_append_left _ closed) path traced
        rw [total_cons _ _ _ (by rintro rfl; cases traced),cell,←part] at whole
        have small := n.g.toNat_lt
        have : weight b cur = (b.getGValue cur).toNat := rfl
        omega
  · intro fits openList closeList phase moment n member path traced
    exact traced_exact (moment_unwrapped fits moment) member traced

-- The surcharge beside an enemy, and what a walk pays for a cell, in integers.
def surcharge (b : Ground) (target p : Ascoord) : Nat :=
  if b.isNearbyHaveEnemy p && getDistance p target > 0 then 1 else 0

def toll (b : Ground) (target p : Ascoord) : Nat := (b.getRideSub p).toNat + surcharge b target p

-- Where the walk of Analyse stops free in the zone, and what it has paid then.
def analyseStop (b : Ground) (target : Ascoord) : Ascoord → List Ascoord → Nat → Option (Ascoord × Nat)
  | it,rest,paid =>
    if b.isInAttackZone it target then (if b.living it then none else some (it,paid))
    else match rest with
      | [] => none
      | p :: rest => analyseStop b target p rest (paid + toll b target p)

theorem analyseStop_last (b : Ground) (target it : Ascoord) (paid : Nat) : analyseStop b target it [] paid =
    if b.isInAttackZone it target then (if b.living it then none else some (it,paid)) else none := rfl

theorem analyseStop_on (b : Ground) (target it p : Ascoord) (rest : List Ascoord) (paid : Nat) :
    analyseStop b target it (p :: rest) paid =
      if b.isInAttackZone it target then (if b.living it then none else some (it,paid))
      else analyseStop b target p rest (paid + toll b target p) := rfl

-- The same of BowAnalyse; without a cell in the zone it stops at (0,0).
def bowStop (b : Ground) (target : Ascoord) : List Ascoord → Nat → Option (Ascoord × Nat)
  | [],paid => some ({},paid)
  | p :: rest,paid =>
    let paid := paid + (b.getRideSub p).toNat
    if b.isInAttackZone p target then (if b.living p then none else some (p,paid))
    else bowStop b target rest (paid + surcharge b target p)

def analysePlan (b : Ground) (list : List Ascoord) (target : Ascoord) : Option (Ascoord × Nat) :=
  match list.reverse with
  | [] | [_] => none
  | [_,_] => some (b.start,0)
  | first :: rest => analyseStop b target first rest 0

def bowPlan (b : Ground) (list : List Ascoord) (target : Ascoord) : Option (Ascoord × Nat) :=
  match list.reverse with
  | [] | [_] => none
  | _ :: path => bowStop b target path 0

def straightInt (b : Ground) (target : Ascoord) : Int :=
  let x := b.current.groundX
  let y := b.current.groundY
  let dir := if b.attackDirect b.current.side = 0 then 1 else b.attackDirect b.current.side
  if dir = 1 then (if target.y = y ∧ x > target.x then b.sizeX.toNat - ((x.toNat : Int) - target.x.toNat) else 0)
  else if dir = 2 then (if target.y = y ∧ x < target.x then b.sizeX.toNat - ((target.x.toNat : Int) - x.toNat) else 0)
  else if dir = 3 then (if x = target.x ∧ target.y < y then b.sizeY.toNat - ((y.toNat : Int) - target.y.toNat) else 0)
  else if dir = 4 then (if x = target.x ∧ target.y > y then b.sizeY.toNat - ((target.y.toNat : Int) - y.toNat) else 0)
  else 0

def priorityInt (b : Ground) (bo : Nat) (target : Ascoord) : Int :=
  (b.priority b.current.cls (b.fighter bo).cls).toNat + (if b.prefersStraight then 2*straightInt b target else 0)

-- Eight bits of the integers are what the code computes.
theorem eight_sub (a c d : UInt8) : ((a - (c - d)).toNat : Int) = ((a.toNat : Int) - ((c.toNat : Int) - d.toNat)) % 256 := by
  have := a.toNat_lt
  have := c.toNat_lt
  have := d.toNat_lt
  rw [UInt8.toNat_sub,UInt8.toNat_sub]
  omega

theorem eight_ite {c : Prop} [Decidable c] {a d : UInt8} {i k : Int} (yes : (a.toNat : Int) = i % 256)
    (no : (d.toNat : Int) = k % 256) : ((if c then a else d).toNat : Int) = (if c then i else k) % 256 := by
  split
  · exact yes
  · exact no

theorem straight_eight (b : Ground) (target : Ascoord) : ((b.straight target).toNat : Int) = straightInt b target % 256 := by
  unfold straight straightInt
  exact eight_ite (eight_ite (eight_sub _ _ _) rfl) (eight_ite (eight_ite (eight_sub _ _ _) rfl)
    (eight_ite (eight_ite (eight_sub _ _ _) rfl) (eight_ite (eight_ite (eight_sub _ _ _) rfl) rfl)))

theorem priority_eight (b : Ground) (bo : Nat) (target : Ascoord) :
    (((b.priority b.current.cls (b.fighter bo).cls + b.addPriority target).toNat : Nat) : Int) = priorityInt b bo target % 256 := by
  have straight := straight_eight b target
  unfold priorityInt addPriority
  rw [UInt8.toNat_add]
  split
  · rw [UInt8.toNat_mul,show (2 : UInt8).toNat = 2 from rfl]
    omega
  · have : (0 : UInt8).toNat = 0 := rfl
    omega

def analysed : Walked → Option (Ascoord × UInt8)
  | .attack attack cost => some (attack,cost)
  | _ => none

def bowed : Walked → Option (Ascoord × UInt8)
  | .attack attack cost => some (attack,cost)
  | .beyond cost => some ({},cost)
  | .taken => none

def Eight (eight : Option (Ascoord × UInt8)) (plan : Option (Ascoord × Nat)) : Prop :=
  eight = plan.map fun (attack,paid) => (attack,UInt8.ofNat paid)

theorem walkOn_eight (b : Ground) (target p : Ascoord) (paid : Nat) :
    b.walkOn target p (UInt8.ofNat paid) = UInt8.ofNat (paid + toll b target p) := by
  unfold walkOn toll surcharge
  dsimp only
  split <;> simp [UInt8.ofNat_add,UInt8.add_assoc]

theorem analyseWalk_eight (b : Ground) (target it : Ascoord) (rest : List Ascoord) (paid : Nat) :
    Eight (analysed (b.analyseWalk target it rest (UInt8.ofNat paid))) (analyseStop b target it rest paid) := by
  induction rest generalizing it paid with
  | nil =>
      rw [analyseWalk_last,analyseStop_last]
      split
      · split <;> rfl
      · rfl
  | cons p rest ih =>
      rw [analyseWalk_on,analyseStop_on]
      split
      · split <;> rfl
      · rw [walkOn_eight]; exact ih p _

theorem bowWalk_eight (b : Ground) (target : Ascoord) (path : List Ascoord) (paid : Nat) :
    Eight (bowed (b.bowWalk target path (UInt8.ofNat paid))) (bowStop b target path paid) := by
  induction path generalizing paid with
  | nil => rfl
  | cons p rest ih =>
      have ground : UInt8.ofNat paid + b.getRideSub p = UInt8.ofNat (paid + (b.getRideSub p).toNat) := by
        simp [UInt8.ofNat_add]
      rw [bowWalk,bowStop,ground]
      split
      · split <;> rfl
      · have walked := ih (paid + (b.getRideSub p).toNat + surcharge b target p)
        rw [UInt8.ofNat_add _ (surcharge b target p)] at walked
        unfold surcharge at walked ⊢
        split at walked <;> rename_i beside <;> simp only [beside] <;> simpa using walked

theorem analysePath_eight (b : Ground) (list : List Ascoord) (target : Ascoord) :
    Eight ((b.analysePath list target).bind analysed) (analysePlan b list target) := by
  unfold analysePath analysePlan
  match list.reverse with
  | [] => rfl
  | [_] => rfl
  | [_,_] => rfl
  | first :: p :: q :: rest => exact analyseWalk_eight b target first (p :: q :: rest) 0

theorem bowPath_eight (b : Ground) (list : List Ascoord) (target : Ascoord) :
    Eight ((b.bowPath list target).bind bowed) (bowPlan b list target) := by
  unfold bowPath bowPlan
  match list.reverse with
  | [] => rfl
  | [_] => rfl
  | _ :: p :: rest => exact bowWalk_eight b target (p :: rest) 0

-- The power tests: Analyse also takes a last step next to the target that is
-- not paid in full. In integers no other cell is beyond the move power.
def Offers (b : Ground) (target attack : Ascoord) (cost : UInt8) : Prop :=
  cost ≤ b.current.movePower ∨
    (cost - b.getRideSub attack < b.current.movePower ∧ b.isInAround attack target = true)

def Affords (b : Ground) (target attack : Ascoord) (paid : Nat) : Prop :=
  paid ≤ b.current.movePower.toNat ∨
    (paid < b.current.movePower.toNat + (b.getRideSub attack).toNat ∧ b.isInAround attack target = true)

def BowOffers (b : Ground) (_ : Ascoord) (cost : UInt8) : Prop := cost ≤ b.current.movePower

def BowAffords (b : Ground) (_ : Ascoord) (paid : Nat) : Prop := paid ≤ b.current.movePower.toNat

theorem offers_afford {b : Ground} {target attack : Ascoord} (small : paid < 256) (offers : Offers b target attack (UInt8.ofNat paid)) :
    Affords b target attack paid := by
  have same : (UInt8.ofNat paid).toNat = paid := by rw [UInt8.toNat_ofNat',Nat.mod_eq_of_lt small]
  rcases offers with within | ⟨left,beside⟩
  · rw [UInt8.le_iff_toNat_le,same] at within
    exact .inl within
  · rw [UInt8.lt_iff_toNat_lt,UInt8.toNat_sub,same] at left
    have := (b.getRideSub attack).toNat_lt
    exact .inr ⟨by omega,beside⟩

theorem bow_offers_afford (small : paid < 256) (offers : BowOffers b attack (UInt8.ofNat paid)) :
    BowAffords b attack paid := by
  rw [BowOffers,UInt8.le_iff_toNat_le,UInt8.toNat_ofNat',Nat.mod_eq_of_lt small] at offers
  exact offers

-- An analysis pushes the target of its plan when the power test passes, and
-- nothing else.
structure Serves (b : Ground) (target : Ascoord) (eight : Option (Ascoord × UInt8)) (offers : Ascoord → UInt8 → Prop)
    (result : Option (List TargetInfo)) : Prop where
  push : ∀ a c, eight = some (a,c) → offers a c → result = b.pushTarget target a c
  idle : ∀ infos, result = some infos → infos = [] ∨ ∃ a c, eight = some (a,c) ∧ offers a c

theorem analyse_serves (b : Ground) (list : List Ascoord) (target : Ascoord) :
    Serves b target ((b.analysePath list target).bind analysed) (Offers b target) (b.analyse list target) := by
  unfold analyse
  cases b.analysePath list target with
  | none => exact ⟨nofun,fun _ same => .inl (Option.some.inj same).symm⟩
  | some walked =>
      cases walked with
      | taken => exact ⟨nofun,fun _ same => .inl (Option.some.inj same).symm⟩
      | beyond _ => exact ⟨nofun,nofun⟩
      | attack attack cost =>
          dsimp only [Option.bind_some,analysed]
          unfold analyseOffer
          dsimp only
          constructor
          · intro a c same offers
            cases same
            rcases offers with within | ⟨left,beside⟩
            · rw [if_neg (UInt8.not_lt.mpr within)]
            · split
              · rw [if_neg (UInt8.not_le.mpr left)]
              · rfl
          · intro infos same
            split at same
            · split at same
              · exact .inl (Option.some.inj same).symm
              · rename_i left
                split at same
                · rename_i beside
                  exact .inr ⟨attack,cost,rfl,.inr ⟨UInt8.not_le.mp left,beside⟩⟩
                · exact .inl (Option.some.inj same).symm
            · rename_i within
              exact .inr ⟨attack,cost,rfl,.inl (UInt8.not_lt.mp within)⟩

theorem offer_serves (b : Ground) (target attack : Ascoord) (cost : UInt8) :
    Serves b target (some (attack,cost)) (BowOffers b) (b.bowOffer target attack cost) := by
  unfold bowOffer
  constructor
  · intro a c same offers
    cases same
    rw [if_neg (UInt8.not_lt.mpr offers)]
  · intro infos same
    split at same
    · exact .inl (Option.some.inj same).symm
    · rename_i within
      exact .inr ⟨attack,cost,rfl,UInt8.not_lt.mp within⟩

theorem bow_serves (b : Ground) (list : List Ascoord) (target : Ascoord) :
    Serves b target ((b.bowPath list target).bind bowed) (BowOffers b) (b.bowAnalyse list target) := by
  unfold bowAnalyse
  cases b.bowPath list target with
  | none => exact ⟨nofun,fun _ same => .inl (Option.some.inj same).symm⟩
  | some walked =>
      cases walked with
      | taken => exact ⟨nofun,fun _ same => .inl (Option.some.inj same).symm⟩
      | beyond cost => exact offer_serves b target {} cost
      | attack attack cost => exact offer_serves b target attack cost

-- Every target pushed carries the true cost of the walked cells and the true
-- priority, and is afforded.
def ExactInfos (b : Ground) (target : Ascoord) (plan : Option (Ascoord × Nat)) (affords : Ascoord → Nat → Prop)
    (result : Option (List TargetInfo)) : Prop :=
  ∀ infos, result = some infos → ∀ info ∈ infos, ∃ paid, plan = some (info.attack,paid) ∧ info.cost.toNat = paid ∧
    (info.pri.toNat : Int) = priorityInt b info.bo target ∧ affords info.attack paid

-- What a walk has paid when it is offered, and the priority of the enemy, fit eight bits.
def InfosFit (b : Ground) (target : Ascoord) (plan : Option (Ascoord × Nat)) (offers : Ascoord → UInt8 → Prop) : Prop :=
  ∀ a paid bo, plan = some (a,paid) → b.mapFighters (b.index target) = some bo → offers a (UInt8.ofNat paid) →
    paid < 256 ∧ 0 ≤ priorityInt b bo target ∧ priorityInt b bo target < 256

theorem infos_exact_iff {b : Ground} {target : Ascoord} {offers : Ascoord → UInt8 → Prop} {affords : Ascoord → Nat → Prop}
    (eight : Eight walked plan) (serves : Serves b target walked offers result)
    (sound : ∀ a paid, paid < 256 → offers a (UInt8.ofNat paid) → affords a paid) :
    ExactInfos b target plan affords result ↔ InfosFit b target plan offers := by
  constructor
  · intro exact a paid bo planned fighter offered
    have pushed := serves.push a (UInt8.ofNat paid) (by rw [eight,planned]; rfl) offered
    rw [pushTarget,fighter] at pushed
    obtain ⟨paid',planned',cost,pri,_⟩ := exact _ pushed _ (List.mem_singleton_self _)
    rw [planned] at planned'
    cases planned'
    dsimp only at cost pri
    have small := (UInt8.ofNat paid).toNat_lt
    refine ⟨by omega,?_⟩
    have bits := priority_eight b bo target
    rw [pri] at bits
    omega
  · intro fits infos came info member
    rcases serves.idle infos came with rfl | ⟨a,c,walks,offered⟩
    · cases member
    · cases planned : plan with
      | none => rw [eight,planned] at walks; cases walks
      | some stop =>
          obtain ⟨a',paid⟩ := stop
          have walks' := walks
          rw [eight,planned] at walks'
          cases walks'
          have pushed := serves.push a (UInt8.ofNat paid) walks offered
          rw [came] at pushed
          unfold pushTarget at pushed
          cases fighter : b.mapFighters (b.index target) with
          | none => rw [fighter] at pushed; cases pushed
          | some bo =>
              rw [fighter] at pushed
              cases pushed
              obtain rfl := List.mem_singleton.mp member
              obtain ⟨small,low,high⟩ := fits a paid bo planned fighter offered
              refine ⟨paid,rfl,?_,?_,sound a paid small offered⟩
              · dsimp only
                rw [UInt8.toNat_ofNat',Nat.mod_eq_of_lt small]
              · dsimp only
                rw [priority_eight]
                omega

def CountersExact (b : Ground) (list : List Ascoord) (target : Ascoord) : Prop :=
  (∀ openList closeList phase, Moment b openList closeList phase → ExactNodes b openList closeList) ∧
    ExactInfos b target (analysePlan b list target) (Affords b target) (b.analyse list target) ∧
    ExactInfos b target (bowPlan b list target) (BowAffords b) (b.bowAnalyse list target)

def CountersFit (b : Ground) (list : List Ascoord) (target : Ascoord) : Prop :=
  StoresFit b ∧ InfosFit b target (analysePlan b list target) (Offers b target) ∧
    InfosFit b target (bowPlan b list target) (BowOffers b)

theorem counters_exact_iff (b : Ground) (list : List Ascoord) (target : Ascoord) :
    CountersExact b list target ↔ CountersFit b list target :=
  and_congr (nodes_exact_iff b) (and_congr
    (infos_exact_iff (analysePath_eight b list target) (analyse_serves b list target) fun _ _ small => offers_afford small)
    (infos_exact_iff (bowPath_eight b list target) (bow_serves b list target) fun _ _ small => bow_offers_afford small))

-- One column of hills: an enemy 88 rows down, a route over 87 free cells of cost
-- 3. Their 261 are kept as 5, which the move power of 5 covers.
def gorge : Ground := {Aim.arena 1 100 [{side := 1,hp := 10,attackRange := 1,movePower := 5},Aim.foe 0 88] with
  mapGround := fun _ => 4,target := ⟨0,88⟩}

def gorgeRoute : List Ascoord := (List.range 89).reverse.map fun i => ⟨0,UInt8.ofNat i⟩

theorem gorge_wraps : ¬∀ list, gorge.findRoute ⟨0,0⟩ ⟨0,88⟩ = some list → CountersExact gorge list ⟨0,88⟩ := by
  intro every
  obtain ⟨_,exact,_⟩ := every gorgeRoute (by decide +kernel)
  have offered : gorge.analyse gorgeRoute ⟨0,88⟩ = some [⟨1,⟨0,87⟩,5,1⟩] := by decide +kernel
  obtain ⟨paid,planned,cost,_⟩ := exact _ offered _ (List.mem_singleton_self _)
  have truth : analysePlan gorge gorgeRoute ⟨0,88⟩ = some (⟨0,87⟩,261) := by decide +kernel
  rw [truth] at planned
  cases planned
  cases cost

end GameServer.Battle.Counters
