import GameServer.Battle.Records

namespace GameServer.Battle.Roster
open BattleGround Places Records Choices OrderedMap

-- The books of a ground: everybody enlisted once, every pointer made before, a
-- bench only at a revival cell of the map, and who waits there has its coordinates.
structure Enrolled (b : BattleGround) : Prop where
  once : (enlisted b).Nodup
  listed : ∀ f ∈ enlisted b, f < b.next
  queued : ∀ p, ∀ f ∈ queueAt p b.listBench, b.cellOf f = p ∧ f < b.next
  placed : ∀ p f, b.isInMap p = true → b.on p = some f → f < b.next
  points : ∀ p, queueAt p b.listBench ≠ [] → b.isInMap p = true ∧ b.isRelivePoint p = true
  distinct : Distinct b.listBench

variable {b : BattleGround} {p : Ascoord} {bf f : Nat}

-- An operation on the camps alone.
theorem roster_camps (roster : Enrolled b) (camps : List (UInt8 × List Nat))
    (once : (enlisted {b with camp2fighters := camps}).Nodup)
    (listed : ∀ f ∈ enlisted {b with camp2fighters := camps}, f < b.next) : Enrolled {b with camp2fighters := camps} :=
  {roster with once,listed}

theorem roster_push (roster : Enrolled b) (campId : UInt8) (old : bf < b.next) (new : bf ∉ enlisted b) :
    Enrolled (b.pushCamp campId bf) := by
  have perm := enlisted_push b campId bf
  apply roster_camps roster
  · exact perm.nodup_iff.mpr (List.nodup_cons.mpr ⟨new,roster.once⟩)
  · intro f member
    rcases List.mem_cons.mp (perm.mem_iff.mp member) with same | before
    · exact same ▸ old
    · exact roster.listed f before

theorem roster_remove (roster : Enrolled b) (campId : UInt8) (bft : Nat) : Enrolled (b.removeCamp campId bft) := by
  have less := enlisted_remove b campId bft
  apply roster_camps roster
  · exact less.nodup roster.once
  · intro f member
    exact roster.listed f (less.subset member)

theorem roster_touch (roster : Enrolled b) (campId : UInt8) : Enrolled (b.touchCamp campId) := by
  have same := enlisted_touch b campId
  apply roster_camps roster
  · exact same ▸ roster.once
  · intro f member
    exact roster.listed f (same ▸ member)

-- Moving about leaves the camps and brings nobody to a bench.
theorem roster_moves {b' : BattleGround} (roster : Enrolled b) (same : field b' = field b)
    (camps : b'.camp2fighters = b.camp2fighters) (next : b'.next = b.next)
    (queued : ∀ p f, f ∈ queueAt p b'.listBench → f ∈ queueAt p b.listBench ∧ b'.cellOf f = b.cellOf f)
    (placed : ∀ p f, b.isInMap p = true → b'.on p = some f → f < b.next) (distinct : Distinct b'.listBench) : Enrolled b' := by
  have map := same_map same
  have enlists : enlisted b' = enlisted b := by
    unfold enlisted
    rw [camps]
  refine ⟨enlists ▸ roster.once,?_,?_,?_,?_,distinct⟩
  · intro f member
    rw [next]
    exact roster.listed f (enlists ▸ member)
  · intro p f waits
    obtain ⟨before,cell⟩ := queued p f waits
    rw [cell,next]
    exact roster.queued p f before
  · intro p f inside here
    rw [(map p).1] at inside
    rw [next]
    exact placed p f inside here
  · intro p waits
    obtain ⟨f,member⟩ := List.exists_mem_of_ne_nil _ waits
    rw [(map p).1,(map p).2.2]
    exact roster.points p (List.ne_nil_of_mem (queued p f member).1)

theorem roster_create (roster : Enrolled b) (p : Ascoord) (made : BattleFighter) : Enrolled (b.create p made) where
  once := roster.once
  listed := fun f member => Nat.lt_succ_of_lt (roster.listed f member)
  queued := fun q f waits => by
    obtain ⟨cell,old⟩ := roster.queued q f waits
    refine ⟨?_,Nat.lt_succ_of_lt old⟩
    unfold cellOf
    rw [create_other p made (Nat.ne_of_lt old)]
    exact cell
  placed := fun q f inside here => Nat.lt_succ_of_lt (roster.placed q f inside here)
  points := roster.points
  distinct := roster.distinct

theorem roster_occupy (roster : Enrolled b) (p : Ascoord) (old : bf < b.next) : Enrolled (b.occupy p bf) where
  once := roster.once
  listed := roster.listed
  queued := fun q f waits => by
    rw [occupy_cell]
    exact roster.queued q f waits
  placed := fun q f inside here => by
    rw [occupy_on,setCell_on] at here
    split at here
    · cases here
      exact old
    · exact roster.placed q f inside here
  points := roster.points
  distinct := roster.distinct

theorem roster_insert (roster : Enrolled b) (inside : b.isInMap p = true) (point : b.isRelivePoint p = true)
    (old : bf < b.next) (cell : b.cellOf bf = p) : Enrolled (b.insertFighter p bf) where
  once := roster.once
  listed := roster.listed
  queued := fun q f waits => by
    change f ∈ queueAt q (insertBench p bf b.listBench) at waits
    rw [insert_queue] at waits
    split at waits
    · rename_i here
      subst here
      rcases List.mem_append.mp waits with before | last
      · exact roster.queued q f before
      · rw [List.mem_singleton.mp last]
        exact ⟨cell,old⟩
    · exact roster.queued q f waits
  placed := roster.placed
  points := fun q waits => by
    change queueAt q (insertBench p bf b.listBench) ≠ [] at waits
    rw [insert_queue] at waits
    split at waits
    · rename_i here
      subst here
      exact ⟨inside,point⟩
    · exact roster.points q waits
  distinct := insert_distinct roster.distinct p bf

theorem roster_newFighter (roster : Enrolled b) (p : Ascoord) (made : BattleFighter) :
    Enrolled (b.newFighter p (some made)).1 ∧ (b.newFighter p (some made)).1.next = b.next+1 ∧
      enlisted (b.newFighter p (some made)).1 = enlisted b := by
  have created := roster_create roster p made
  have new : b.next < (b.create p made).next := Nat.lt_succ_self _
  have result : (b.newFighter p (some made)).1 = (b.create p made).setObject p b.next true := rfl
  rw [result]
  rcases setObject_parts (b.create p made) p b.next true with ⟨_,same⟩ | ⟨lands,_,same⟩ | ⟨lands,point,same⟩
  · rw [same]
    exact ⟨created,rfl,rfl⟩
  · rw [same]
    exact ⟨roster_occupy created p new,rfl,rfl⟩
  · rw [same]
    exact ⟨roster_insert created lands.1 point new (create_self b p made).2,rfl,rfl⟩

theorem roster_enter (roster : Enrolled b) (info : FighterInfo) : Enrolled (b.enter info) := by
  have touched := roster_touch roster info.campId
  unfold enter
  cases info.fgt with
  | none => exact roster
  | some created =>
      cases created with
      | none => exact touched
      | some made =>
          obtain ⟨valid,next,same⟩ := roster_newFighter touched ⟨info.posx,info.posy⟩ made
          apply roster_push valid
          · rw [next]
            exact Nat.lt_succ_self _
          · rw [same]
            intro member
            exact Nat.lt_irrefl _ (touched.listed _ member)

theorem roster_preStart (roster : Enrolled b) (infos : List FighterInfo) : Enrolled (b.preStart infos) := by
  induction infos generalizing b with
  | nil => exact roster
  | cons info rest ih => exact ih (roster_enter roster info)

theorem roster_actId (roster : Enrolled b) (bf : Nat) (actId : UInt8) : Enrolled (b.setBattleIndex bf actId) := by
  refine {roster with queued := ?_}
  intro q f waits
  rw [actId_cell]
  exact roster.queued q f waits

theorem roster_number (roster : Enrolled b) (extra : List Nat) : Enrolled (b.setExtraFighterActId extra) := by
  induction extra generalizing b with
  | nil => exact roster
  | cons bf rest ih =>
      have counted : Enrolled {b with numbers := {b.numbers with maxID := b.numbers.maxID+1}} := {roster with}
      exact ih (roster_actId counted bf _)

theorem roster_opening (opening : Opening b) : Enrolled b where
  once := by
    unfold enlisted
    rw [opening.camps]
    exact List.nodup_nil
  listed := fun f member => by
    unfold enlisted at member
    rw [opening.camps] at member
    cases member
  queued := fun p f waits => by
    rw [opening.benches] at waits
    cases waits
  placed := fun p f inside here => by
    rw [opening.grid p inside] at here
    cases here
  points := fun p waits => by
    rw [opening.benches] at waits
    exact absurd rfl waits
  distinct := by
    rw [opening.benches]
    exact List.nodup_nil

end GameServer.Battle.Roster
