import GameServer.Library.RoundRobin
import GameServer.Battle.BattleGround

namespace GameServer.Battle
open OrderedMap

namespace BattleGround

-- _map2preInfo, by the force it is kept under.
abbrev PreInfo := List (UInt8 × List FighterInfo)

def getPreStartForces (preInfo : PreInfo) : List UInt8 := (preInfo.map Prod.fst).filter (· ≠ 0)

def getBenchFighterByForceId (b : BattleGround) (forceId : UInt8) : List Nat :=
  b.listBench.flatMap fun info => if b.mapCamp (b.index ⟨info.x,info.y⟩) = forceId then info.listFighter else []

-- camp2extraFighter
def extraFighters (b : BattleGround) (forces : List UInt8) : List (UInt8 × List Nat) :=
  forces.foldl (fun m forceId => upsert forceId (fun _ => b.getBenchFighterByForceId forceId) m) []

-- The for loop: the entries behind the iterator, the list so far and the entries
-- from the iterator on. An empty queue is erased and the iterator then advanced;
-- the fault keeps what the list holds by then.
def mixPass (seen : List (UInt8 × List Nat)) (out : List Nat) :
    List (UInt8 × List Nat) → Except (Fault × List Nat) (List (UInt8 × List Nat) × List Nat)
  | [] => .ok (seen,out)
  | (_,[]) :: _ => .error (.erasedIterator,out)
  | (forceId,bf :: queue) :: rest => mixPass (seen ++ [(forceId,queue)]) (out ++ [bf]) rest

def mix : Nat → List (UInt8 × List Nat) → List Nat → Except (Fault × List Nat) (List Nat)
  | _,[],out => .ok out
  | 0,_ :: _,out => .error (.neverEnds,out)
  | rounds+1,entry :: rest,out => do
      let (m,out) ← mixPass [] out (entry :: rest)
      mix rounds m out

-- Every pass takes a fighter from the first queue or ends the loop.
def mixExtraFighterByForceId (b : BattleGround) (preInfo : PreInfo) : Except (Fault × List Nat) (List Nat) :=
  let m := b.extraFighters (getPreStartForces preInfo)
  mix (RoundRobin.size m + 1) m []

-- SetExtraFighterActId from its first line.
def setExtraFighters (b : BattleGround) (preInfo : PreInfo) : Except (Fault × List Nat) BattleGround :=
  (b.mixExtraFighterByForceId preInfo).map b.setExtraFighterActId

end BattleGround

namespace Bench
open BattleGround RoundRobin

-- The list comes back, and it is a fair mixture of the queues of the forces.
def Mixes (b : BattleGround) (preInfo : PreInfo) : Prop :=
  ∃ out turns, b.mixExtraFighterByForceId preInfo = .ok out ∧ out = turns.map Prod.snd ∧
    Fair (getPreStartForces preInfo) b.getBenchFighterByForceId turns

theorem mixPass_eq (seen queues : List (UInt8 × List Nat)) (out : List Nat) :
    mixPass seen out queues =
      match (RoundRobin.pass queues).2 with
      | none => .error (.erasedIterator,out ++ (RoundRobin.pass queues).1.map Prod.snd)
      | some left => .ok (seen ++ left,out ++ (RoundRobin.pass queues).1.map Prod.snd) := by
  induction queues generalizing seen out with
  | nil => simp [mixPass,RoundRobin.pass]
  | cons entry rest ih =>
      obtain ⟨forceId,queue⟩ := entry
      cases queue with
      | nil => simp [mixPass,RoundRobin.pass]
      | cons bf queue =>
          rw [mixPass,ih]
          cases passed : (RoundRobin.pass rest).2 <;> simp [RoundRobin.pass,passed]

-- The queue that runs dry first ends it: what the list holds by then is the
-- front of the fair mixture.
theorem mix_faults {rounds : Nat} {queues : List (UInt8 × List Nat)} (some : queues ≠ []) (enough : size queues < rounds) (out : List Nat) :
    ∃ front, mix rounds queues out = .error (.erasedIterator,out ++ front.map Prod.snd) ∧ front <+: turns queues rounds := by
  induction rounds generalizing queues out with
  | zero => omega
  | succ rounds ih =>
      cases queues with
      | nil => exact absurd rfl some
      | cons entry rest =>
          have shown := mixPass_eq [] (entry :: rest) out
          have front := pass_prefix (entry :: rest)
          rw [mix,turns_succ]
          cases passed : (RoundRobin.pass (entry :: rest)).2 with
          | none =>
              rw [passed] at shown
              refine ⟨_,by rw [shown]; rfl,front.trans (List.prefix_append _ _)⟩
          | some left =>
              obtain ⟨whole,rfl,smaller⟩ := pass_whole passed
              rw [passed] at shown
              dsimp only at shown
              rw [List.nil_append] at shown
              have more : tails (entry :: rest) ≠ [] := by simp [tails]
              rw [List.length_cons] at smaller
              obtain ⟨later,faulted,further⟩ := ih more (by omega) (out ++ (RoundRobin.pass (entry :: rest)).1.map Prod.snd)
              refine ⟨(RoundRobin.pass (entry :: rest)).1 ++ later,?_,?_⟩
              · rw [shown,List.map_append,← List.append_assoc]
                exact faulted
              · rw [whole]
                exact (List.prefix_append_right_inj _).mpr further

-- A force gets one queue, and the forces keep their order.
theorem extraFighters_eq {b : BattleGround} {forces : List UInt8} (rising : forces.Pairwise (· < ·)) :
    b.extraFighters forces = forces.map fun forceId => (forceId,b.getBenchFighterByForceId forceId) := by
  have grown : ∀ (forces : List UInt8) (m : List (UInt8 × List Nat)), forces.Pairwise (· < ·) → (∀ forceId ∈ forces, ∀ entry ∈ m, entry.1 < forceId) →
      forces.foldl (fun m forceId => upsert forceId (fun _ => b.getBenchFighterByForceId forceId) m) m =
        m ++ forces.map fun forceId => (forceId,b.getBenchFighterByForceId forceId) := by
    intro forces
    induction forces with
    | nil => intro m _ _; simp
    | cons forceId rest ih =>
        intro m rising above
        obtain ⟨least,tail⟩ := List.pairwise_cons.mp rising
        rw [List.foldl_cons,upsert_last _ _ (above forceId List.mem_cons_self),ih _ tail,List.append_assoc]
        · rfl
        · intro later member entry there
          rcases List.mem_append.mp there with old | new
          · exact above later (List.mem_cons_of_mem _ member) entry old
          · rw [List.mem_singleton.mp new]
            exact least later member
  exact grown forces [] rising fun _ _ _ none => absurd none List.not_mem_nil

theorem extraFighters_some {b : BattleGround} {forces : List UInt8} (some : forces ≠ []) : b.extraFighters forces ≠ [] := by
  obtain ⟨front,last,rfl⟩ := List.eq_nil_or_concat forces |>.resolve_left some
  unfold extraFighters
  rw [List.concat_eq_append,List.foldl_append]
  exact upsert_ne_nil _ _ _

theorem mixed_faults {b : BattleGround} {preInfo : PreInfo} (some : getPreStartForces preInfo ≠ []) :
    ∃ out, b.mixExtraFighterByForceId preInfo = .error (.erasedIterator,out) := by
  obtain ⟨front,faulted,_⟩ := mix_faults (extraFighters_some (b := b) some) (Nat.lt_succ_self _) []
  exact ⟨_,faulted⟩

theorem no_forces {preInfo : PreInfo} : getPreStartForces preInfo = [] ↔ ∀ entry ∈ preInfo, entry.1 = 0 := by
  simp [getPreStartForces]

-- The queues are mixed exactly where there is no force to mix them for.
theorem mixes_iff (b : BattleGround) (preInfo : PreInfo) : Mixes b preInfo ↔ ∀ entry ∈ preInfo, entry.1 = 0 := by
  rw [← no_forces]
  constructor
  · intro ⟨out,_,mixed,_⟩
    by_contra some
    obtain ⟨_,faulted⟩ := mixed_faults (b := b) some
    rw [faulted] at mixed
    cases mixed
  · intro none
    refine ⟨[],[],?_,rfl,?_⟩
    · rw [mixExtraFighterByForceId,none]
      rfl
    · rw [none]
      exact ⟨nofun,nofun,nofun⟩

theorem extra_unnumbered {b after : BattleGround} {preInfo : PreInfo} (set : b.setExtraFighters preInfo = .ok after) : after = b := by
  unfold setExtraFighters at set
  by_cases none : getPreStartForces preInfo = []
  · rw [mixExtraFighterByForceId,none] at set
    cases set
    rfl
  · obtain ⟨out,faulted⟩ := mixed_faults (b := b) none
    rw [faulted] at set
    cases set

-- Up to the fault the fighters come in the order of a fair mixture.
theorem mixed_so_far (b : BattleGround) {preInfo : PreInfo} (ordered : preInfo.Pairwise fun a b => a.1 < b.1)
    (faulted : b.mixExtraFighterByForceId preInfo = .error (fault,out)) :
    ∃ front turns, out = front.map Prod.snd ∧ front <+: turns ∧ Fair (getPreStartForces preInfo) b.getBenchFighterByForceId turns := by
  have some : getPreStartForces preInfo ≠ [] := by
    intro none
    rw [mixExtraFighterByForceId,none] at faulted
    cases faulted
  have rising : (getPreStartForces preInfo).Pairwise (· < ·) := (List.pairwise_map.mpr ordered).filter _
  obtain ⟨front,ended,further⟩ := mix_faults (extraFighters_some (b := b) some) (Nat.lt_succ_self _) []
  have same := ended.symm.trans faulted
  cases same
  have queues := extraFighters_eq (b := b) rising
  have keys : (b.extraFighters (getPreStartForces preInfo)).map Prod.fst = getPreStartForces preInfo := by
    rw [queues,List.map_map]
    exact List.map_id _
  have apart : ((b.extraFighters (getPreStartForces preInfo)).map Prod.fst).Nodup := by
    rw [keys]
    refine rising.imp ?_
    rintro forceId _ less rfl
    exact UInt8.lt_irrefl forceId less
  have listed : ∀ forceId queue, (forceId,queue) ∈ b.extraFighters (getPreStartForces preInfo) →
      queue = b.getBenchFighterByForceId forceId := by
    intro forceId queue member
    rw [queues] at member
    obtain ⟨_,_,same⟩ := List.mem_map.mp member
    cases same
    rfl
  have enough : ∀ forceId queue, (forceId,queue) ∈ b.extraFighters (getPreStartForces preInfo) →
      queue.length ≤ size (b.extraFighters (getPreStartForces preInfo)) + 1 := by
    intro forceId queue member
    exact Nat.le_succ_of_le (length_le_size member)
  have fair := turns_fair apart listed enough
  rw [keys] at fair
  exact ⟨front,_,List.nil_append _,further,fair⟩

-- Two fighters wait on a cell of force 1.
def waiting : BattleGround := {sizeX := 1,sizeY := 1,mapCamp := fun _ => 1,listBench := [⟨0,0,[7,8]⟩]}

theorem waiting_erased : waiting.mixExtraFighterByForceId [(1,[])] = .error (.erasedIterator,[7,8]) ∧
    ¬Mixes waiting [(1,[])] := by
  have faulted : waiting.mixExtraFighterByForceId [(1,[])] = .error (.erasedIterator,[7,8]) := rfl
  refine ⟨faulted,?_⟩
  intro ⟨out,_,mixed,_⟩
  rw [faulted] at mixed
  cases mixed

end Bench
end GameServer.Battle
