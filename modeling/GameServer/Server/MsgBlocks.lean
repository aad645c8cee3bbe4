import GameServer.Server.GlobalObject
import GameServer.Library.History

namespace GameServer.Server.MsgBlocks
open Common Bytes Memory History GlobalObject

-- The region a live block lies in, and how far into it.
def offset : Origin → Nat
  | .pool _ => 16
  | .heap => 8

def begins (p : Nat) (grant : Grant) : Nat := p-offset grant.origin

def room (grant : Grant) : Nat :=
  match grant.origin with
  | .pool i => 16+128*2^i
  | .heap => grant.size+8

-- The free lists: each is what its pool leads to, no block is twice in them or
-- live, and every block of pool i, free or live, has its capacity.
structure Tidy (s : Process) (lists : Nat → List Nat) : Prop where
  listed : ∀ i < MEMPOOL_NUM, ∃ head, s.object.m_Pools[i]? = some ⟨128*2^i,head⟩ ∧ Chain s.heap.bytes head (lists i)
  once : ∀ i < MEMPOOL_NUM, (lists i).Nodup
  single : ∀ i < MEMPOOL_NUM, ∀ j < MEMPOOL_NUM, ∀ b ∈ lists i, b ∈ lists j → i = j
  capacity : ∀ i < MEMPOOL_NUM, ∀ b ∈ lists i, s.heap.regions b = some (16+128*2^i)
  taken : ∀ p grant, s.live p = some grant → ∀ i < MEMPOOL_NUM, begins p grant ∉ lists i
  lives : ∀ p grant, s.live p = some grant → s.heap.regions (begins p grant) = some (room grant) ∧
    offset grant.origin < p ∧ p+grant.size ≤ begins p grant+room grant
  distinct : ∀ p grant q other, s.live p = some grant → s.live q = some other → begins p grant = begins q other → p = q

-- The class of a size, as both functions choose it.
def Came (grant : Grant) : Prop :=
  match grant.origin with
  | .pool i => grant.size+8 ≤ 65536 ∧ indexOf (grant.size+8) = some i
  | .heap => 65536 < grant.size+8

structure Valid (s : Process) (lists : Nat → List Nat) : Prop extends Tidy s lists where
  most : s.object.m_MaxPoolSize = 65536
  length : s.object.m_Pools.length = MEMPOOL_NUM
  apart : ∀ a n b m, s.heap.regions a = some n → s.heap.regions b = some m → a ≠ b → a+n ≤ b ∨ b+m ≤ a
  bounds : ∀ a n, s.heap.regions a = some n → 0 < a ∧ 16 ≤ n ∧ a+n ≤ 2^64
  header : ∀ p grant, s.live p = some grant → word s.heap.bytes (p-8) = grant.size+8
  came : ∀ p grant, s.live p = some grant → Came grant

def Sound (s : Process) : Prop := ∃ lists, Valid s lists

-- A region nobody holds: in no list and not live.
def Loose (s : Process) (lists : Nat → List Nat) (a n : Nat) : Prop :=
  s.heap.regions a = some n ∧ (∀ i < MEMPOOL_NUM, a ∉ lists i) ∧ ∀ p grant, s.live p = some grant → begins p grant ≠ a

-- malloc() answers NULL or a region apart from all it has handed out.
def Fresh (h : Heap) (answer : Nat → Nat) : Prop :=
  ∀ n > 0, answer n = 0 ∨ (answer n+n ≤ 2^64 ∧ ∀ b m, h.regions b = some m → answer n+n ≤ b ∨ b+m ≤ answer n)

-- Callers write in what they were granted, or outside of every region.
def Writable (s : Process) (x : Nat) : Prop :=
  (∃ p grant, s.live p = some grant ∧ p ≤ x ∧ x < p+grant.size) ∨ ∀ a n, s.heap.regions a = some n → x < a ∨ a+n ≤ x

def Allowed (s : Process) : Request → Prop
  | .alloc size answer => size.toNat < 2^64-1-8 ∧ Fresh s.heap answer
  | .free ptr => ptr = 0 ∨ (s.live ptr).isSome
  | .write address bytes => ∀ x, address ≤ x → x < address+bytes.length → Writable s x

-- The free list of a pool, over the raw memory.
def FreeList (s : Process) (i : Nat) (l : List Nat) : Prop :=
  ∃ pool, s.object.m_Pools[i]? = some pool ∧ Chain s.heap.bytes pool.m_pBlockList l

-- A granted block is not live yet and has the room asked for. A freed one goes
-- back to where it came from: in front of that pool's list, or to the heap.
def Served (s : Process) (request : Request) (answer : Answer) (next : Process) : Prop :=
  (∃ lists, Tidy next lists) ∧ match request,answer with
  | .alloc size _,.granted ptr origin => s.live ptr = none ∧ next.live = Function.update s.live ptr (some ⟨size.toNat,origin⟩) ∧
    ∃ a n, next.heap.regions a = some n ∧ a ≤ ptr ∧ ptr+size.toNat ≤ a+n
  | .free ptr,.freed (some origin) => (∃ grant, s.live ptr = some grant ∧ grant.origin = origin) ∧
    next.heap.regions = (if origin = .heap then Function.update s.heap.regions (ptr-8) none else s.heap.regions) ∧
    ∀ i < MEMPOOL_NUM, ∀ l, FreeList s i l → FreeList next i (if origin = .pool i then (ptr-16) :: l else l)
  | .free ptr,.freed none => ptr = 0 ∧ next.heap = s.heap
  | _,_ => True

variable {s : Process} {lists : Nat → List Nat} {a n p size : Nat} {grant : Grant}

theorem poolIndex_spec (turns index : Nat) (first : index ≤ 9) (enough : 9 < index+turns) (small : size ≤ 65536) :
    ∃ i < MEMPOOL_NUM, poolIndex size turns index (128*2^index) = some i ∧ size ≤ 128*2^i := by
  induction turns generalizing index with
  | zero => omega
  | succ turns ih =>
      rw [poolIndex]
      by_cases more : size > 128*2^index
      · have power : 2^index ≤ 2^9 := Nat.pow_le_pow_right (by decide) first
        have last : index ≠ 9 := by
          intro nine
          subst nine
          omega
        have double : wrap64 ((128*2^index : Nat)*2) = 128*2^(index+1) := by
          unfold wrap64
          rw [Nat.pow_succ]
          omega
        rw [if_pos more,double]
        exact ih (index+1) (by omega) (by omega)
      · rw [if_neg more]
        exact ⟨index,Nat.lt_succ_of_le first,rfl,Nat.le_of_not_lt more⟩

theorem indexOf_spec (small : size ≤ 65536) : ∃ i < MEMPOOL_NUM, indexOf size = some i ∧ size ≤ 128*2^i :=
  poolIndex_spec 64 0 (by decide) (by decide) small

theorem begins_offset (tidy : Tidy s lists) (live : s.live p = some grant) : begins p grant+offset grant.origin = p := by
  have lies := (tidy.lives p grant live).2.1
  unfold begins
  omega

theorem header_inside (tidy : Tidy s lists) (live : s.live p = some grant) : begins p grant+8 ≤ p := by
  have place := begins_offset tidy live
  have far : 8 ≤ offset grant.origin := by
    cases grant.origin with
    | pool i => exact Nat.le_add_left 8 8
    | heap => exact Nat.le_refl 8
  omega

-- A live address lies properly inside its region.
theorem inside_room (valid : Valid s lists) (live : s.live p = some grant) : begins p grant < p ∧ p < begins p grant+room grant := by
  have place := begins_offset valid.toTidy live
  have came := valid.came p grant live
  unfold Came at came
  unfold room
  cases origin : grant.origin with
  | pool i =>
      have some : 0 < 2^i := Nat.pow_pos (by decide)
      rw [origin] at place
      unfold offset at place
      dsimp only at place ⊢
      omega
  | heap =>
      rw [origin] at place came
      unfold offset at place
      dsimp only at place came ⊢
      omega

-- The bytes the lists and the headers stand in.
def Bookkeeping (s : Process) (lists : Nat → List Nat) (x : Nat) : Prop :=
  (∃ i < MEMPOOL_NUM, ∃ b ∈ lists i, b ≤ x ∧ x < b+8) ∨ ∃ p grant, s.live p = some grant ∧ p-8 ≤ x ∧ x < p

theorem keep_bytes {g : Nat → UInt8} (valid : Valid s lists) (agree : ∀ x, Bookkeeping s lists x → g x = s.heap.bytes x) :
    Valid ⟨s.object,{s.heap with bytes := g},s.live⟩ lists :=
  {valid with
    listed := fun i few => by
      obtain ⟨head,pool,chain⟩ := valid.listed i few
      refine ⟨head,pool,chain_congr ?_ chain⟩
      intro b member x lower upper
      exact agree x (Or.inl ⟨i,few,b,member,lower,upper⟩)
    header := fun p grant live => by
      have front := header_inside valid.toTidy live
      rw [← valid.header p grant live]
      apply word_congr
      intro x lower upper
      exact agree x (Or.inr ⟨p,grant,live,lower,by omega⟩)}

-- Bookkeeping stands in regions that are listed or live.
theorem bookkeeping_region (valid : Valid s lists) {x : Nat} (kept : Bookkeeping s lists x) :
    ∃ b m, s.heap.regions b = some m ∧ b ≤ x ∧ x < b+m ∧
      ((∃ i < MEMPOOL_NUM, b ∈ lists i) ∨ ∃ p grant, s.live p = some grant ∧ begins p grant = b ∧ x < p) := by
  rcases kept with ⟨i,few,b,member,lower,upper⟩ | ⟨p,grant,live,lower,upper⟩
  · exact ⟨b,_,valid.capacity i few b member,lower,by omega,Or.inl ⟨i,few,member⟩⟩
  · have front := header_inside valid.toTidy live
    have inside := inside_room valid live
    exact ⟨begins p grant,_,(valid.lives p grant live).1,by omega,by omega,Or.inr ⟨p,grant,live,rfl,upper⟩⟩

theorem loose_apart (valid : Valid s lists) (loose : Loose s lists a n) {x : Nat} (lower : a ≤ x) (upper : x < a+n) :
    ¬ Bookkeeping s lists x := by
  intro kept
  obtain ⟨b,m,region,start,stop,owner⟩ := bookkeeping_region valid kept
  have other : a ≠ b := by
    intro same
    subst same
    rcases owner with ⟨i,few,member⟩ | ⟨p,grant,live,begin,_⟩
    · exact loose.2.1 i few member
    · exact loose.2.2 p grant live begin
  have between := valid.apart a n b m loose.1 region other
  omega

theorem writable_apart (valid : Valid s lists) {x : Nat} (writable : Writable s x) : ¬ Bookkeeping s lists x := by
  intro kept
  obtain ⟨b,m,region,start,stop,owner⟩ := bookkeeping_region valid kept
  rcases writable with ⟨p,grant,live,lower,upper⟩ | outside
  · obtain ⟨held,_,fits⟩ := valid.lives p grant live
    have deep := inside_room valid live
    by_cases same : begins p grant = b
    · subst same
      rcases owner with ⟨i,few,member⟩ | ⟨q,other,alive,begin,under⟩
      · exact valid.taken p grant live i few member
      · have one := valid.distinct q other p grant alive live begin
        omega
    · have between := valid.apart _ _ b m held region same
      omega
  · have beyond := outside b m region
    omega

theorem loose_store (valid : Valid s lists) (loose : Loose s lists a n) (x : Nat) (bytes : List UInt8) (lower : a ≤ x)
    (upper : x+bytes.length ≤ a+n) : Valid ⟨s.object,s.heap.store x bytes,s.live⟩ lists := by
  apply keep_bytes valid
  intro y kept
  apply store_outside
  by_cases before : y < x
  · exact Or.inl before
  · by_cases behind : x+bytes.length ≤ y
    · exact Or.inr behind
    · exact absurd kept (loose_apart valid loose (by omega) (by omega))

-- The list of a pool becomes another one, of blocks of its size that no other
-- list has and nobody holds.
theorem valid_relist (valid : Valid s lists) (few : i < MEMPOOL_NUM) (chain : Chain s.heap.bytes first list) (once : list.Nodup)
    (own : ∀ b ∈ list, s.heap.regions b = some (16+128*2^i) ∧ (∀ j < MEMPOOL_NUM, j ≠ i → b ∉ lists j) ∧
      ∀ p grant, s.live p = some grant → begins p grant ≠ b) :
    Valid ⟨{s.object with m_Pools := s.object.m_Pools.set i ⟨128*2^i,first⟩},s.heap,s.live⟩ (Function.update lists i list) := by
  refine {valid with
    listed := ?_
    once := ?_
    single := ?_
    capacity := ?_
    taken := ?_
    length := List.length_set.trans valid.length}
  · intro j bound
    by_cases here : j = i
    · subst here
      refine ⟨first,List.getElem?_set_self (by rw [valid.length]; exact bound),?_⟩
      rw [Function.update_self]
      exact chain
    · obtain ⟨front,found,links⟩ := valid.listed j bound
      refine ⟨front,(List.getElem?_set_ne (Ne.symm here)).trans found,?_⟩
      rw [Function.update_of_ne here]
      exact links
  · intro j bound
    by_cases here : j = i
    · subst here
      rw [Function.update_self]
      exact once
    · rw [Function.update_of_ne here]
      exact valid.once j bound
  · intro j bound k limit b member also
    by_cases here : j = i
    · by_cases there : k = i
      · exact here.trans there.symm
      · rw [here,Function.update_self] at member
        rw [Function.update_of_ne there] at also
        exact absurd also ((own b member).2.1 k limit there)
    · rw [Function.update_of_ne here] at member
      by_cases there : k = i
      · rw [there,Function.update_self] at also
        exact absurd member ((own b also).2.1 j bound here)
      · rw [Function.update_of_ne there] at also
        exact valid.single j bound k limit b member also
  · intro j bound b member
    by_cases here : j = i
    · subst here
      rw [Function.update_self] at member
      exact (own b member).1
    · rw [Function.update_of_ne here] at member
      exact valid.capacity j bound b member
  · intro p grant live j bound member
    by_cases here : j = i
    · rw [here,Function.update_self] at member
      exact (own _ member).2.2 p grant live rfl
    · rw [Function.update_of_ne here] at member
      exact valid.taken p grant live j bound member

-- What a list has is its own.
theorem listed_own (valid : Valid s lists) (few : i < MEMPOOL_NUM) (member : b ∈ lists i) :
    s.heap.regions b = some (16+128*2^i) ∧ (∀ j < MEMPOOL_NUM, j ≠ i → b ∉ lists j) ∧
      ∀ p grant, s.live p = some grant → begins p grant ≠ b := by
  refine ⟨valid.capacity i few b member,?_,?_⟩
  · intro j bound different also
    exact different (valid.single j bound i few b also member)
  · intro p grant live same
    exact valid.taken p grant live i few (same ▸ member)

-- The head of a pool's list becomes loose.
theorem valid_pop (valid : Valid s lists) (few : i < MEMPOOL_NUM) (pool : s.object.m_Pools[i]? = some ⟨128*2^i,head⟩)
    (some : head ≠ 0) :
    let next : Process := ⟨{s.object with m_Pools := s.object.m_Pools.set i ⟨128*2^i,word s.heap.bytes head⟩},s.heap,s.live⟩
    ∃ lists, Valid next lists ∧ Loose next lists head (16+128*2^i) := by
  obtain ⟨first,same,chain⟩ := valid.listed i few
  cases Option.some.inj (pool.symm.trans same)
  obtain ⟨rest,list,onward⟩ := chain_pop chain some
  have member : head ∈ lists i := list ▸ List.mem_cons_self
  have once := valid.once i few
  rw [list] at once
  obtain ⟨gone,distinct⟩ := List.nodup_cons.mp once
  obtain ⟨region,alone,free⟩ := listed_own valid few member
  refine ⟨_,valid_relist valid few onward distinct ?_,region,?_,free⟩
  · intro b inside
    exact listed_own valid few (list ▸ List.mem_cons_of_mem _ inside)
  · intro j bound inside
    by_cases here : j = i
    · rw [here,Function.update_self] at inside
      exact gone inside
    · rw [Function.update_of_ne here] at inside
      exact alone j bound here inside

theorem update_some {α : Type} {f : Nat → Option α} {v : Option α} {b : Nat} {m : α} (found : Function.update f a v b = some m) :
    (b = a ∧ v = some m) ∨ (b ≠ a ∧ f b = some m) := by
  by_cases here : b = a
  · subst here
    rw [Function.update_self] at found
    exact Or.inl ⟨rfl,found⟩
  · rw [Function.update_of_ne here] at found
    exact Or.inr ⟨here,found⟩

-- What holds of the new entry and of the old ones holds of all.
theorem update_all {α : Type} {f : Nat → Option α} {v : α} {holds : Nat → α → Prop} (new : holds a v)
    (old : ∀ b m, f b = some m → holds b m) (b : Nat) (m : α) (found : Function.update f a (some v) b = some m) : holds b m := by
  rcases update_some found with ⟨rfl,same⟩ | ⟨_,before⟩
  · cases same
    exact new
  · exact old b m before

-- A region malloc() answers is loose.
theorem valid_malloc (valid : Valid s lists) (large : 16 ≤ n) (positive : 0 < a) (limit : a+n ≤ 2^64)
    (fresh : ∀ b m, s.heap.regions b = some m → a+n ≤ b ∨ b+m ≤ a) :
    let next : Process := ⟨s.object,{s.heap with regions := Function.update s.heap.regions a (some n)},s.live⟩
    Valid next lists ∧ Loose next lists a n := by
  have other : ∀ b m, s.heap.regions b = some m → b ≠ a := by
    intro b m region same
    subst same
    have big := (valid.bounds b m region).2.1
    have apart := fresh b m region
    omega
  have kept : ∀ b m, s.heap.regions b = some m → Function.update s.heap.regions a (some n) b = some m := by
    intro b m region
    rw [Function.update_of_ne (other b m region)]
    exact region
  refine ⟨{valid with
    capacity := fun i few b member => kept b _ (valid.capacity i few b member)
    lives := fun p grant live => ⟨kept _ _ (valid.lives p grant live).1,(valid.lives p grant live).2⟩
    apart := ?_
    bounds := ?_},Function.update_self ..,?_,?_⟩
  · intro b m c k first second different
    rcases update_some first with ⟨rfl,new⟩ | ⟨_,old⟩
    · cases new
      rcases update_some second with ⟨rfl,_⟩ | ⟨_,before⟩
      · exact absurd rfl different
      · exact fresh c k before
    · rcases update_some second with ⟨rfl,new⟩ | ⟨_,before⟩
      · cases new
        exact (fresh b m old).symm
      · exact valid.apart b m c k old before different
  · exact update_all ⟨positive,large,limit⟩ valid.bounds
  · intro i few member
    exact other a _ (valid.capacity i few a member) rfl
  · intro p grant live
    exact other _ _ (valid.lives p grant live).1

-- A loose region goes out with its header in front of the address.
theorem valid_grant (grant : Grant) (valid : Valid s lists) (loose : Loose s lists a (room grant)) (place : a+offset grant.origin = p)
    (fits : offset grant.origin+grant.size ≤ room grant) (small : grant.size+8 < 2^64) (came : Came grant) :
    s.live p = none ∧
      Valid ⟨s.object,s.heap.store (p-8) (toBytes 8 (grant.size+8)),Function.update s.live p (some grant)⟩ lists := by
  have begin : begins p grant = a := by
    unfold begins
    omega
  have positive : 0 < a := (valid.bounds a _ loose.1).1
  have bounds : 8 ≤ offset grant.origin ∧ offset grant.origin < room grant := by
    unfold offset room
    cases origin : grant.origin with
    | pool i =>
        have positive : 0 < 2^i := Nat.pow_pos (by decide)
        dsimp only
        omega
    | heap =>
        unfold Came at came
        rw [origin] at came
        dsimp only at came ⊢
        omega
  have free : s.live p = none := by
    cases live : s.live p with
    | none => rfl
    | some other =>
        have inside := inside_room valid live
        have apart := valid.apart _ _ _ _ (valid.lives p other live).1 loose.1 (loose.2.2 p other live)
        omega
  have stored := loose_store valid loose (p-8) (toBytes 8 (grant.size+8)) (by omega)
    (by rw [toBytes_length]; omega)
  refine ⟨free,{stored with
    taken := ?_
    lives := ?_
    distinct := ?_
    header := ?_
    came := ?_}⟩
  · apply update_all
    · rw [begin]
      exact loose.2.1
    · exact stored.taken
  · apply update_all
    · rw [begin]
      exact ⟨loose.1,by omega,by omega⟩
    · exact stored.lives
  · intro q other r another live alive same
    rcases update_some live with ⟨rfl,new⟩ | ⟨_,before⟩
    · rcases update_some alive with ⟨rfl,new⟩ | ⟨_,earlier⟩
      · rfl
      · cases new
        exact absurd (same.symm.trans begin) (loose.2.2 r another earlier)
    · rcases update_some alive with ⟨rfl,new⟩ | ⟨_,earlier⟩
      · cases new
        exact absurd (same.trans begin) (loose.2.2 q other before)
      · exact stored.distinct q other r another before earlier same
  · exact update_all (word_store small) stored.header
  · exact update_all came stored.came

-- A freed block is loose.
theorem valid_drop (valid : Valid s lists) (live : s.live p = some grant) :
    let next : Process := ⟨s.object,s.heap,Function.update s.live p none⟩
    Valid next lists ∧ Loose next lists (begins p grant) (room grant) := by
  have old : ∀ q other, Function.update s.live p none q = some other → q ≠ p ∧ s.live q = some other := by
    intro q other alive
    rcases update_some alive with ⟨_,none⟩ | before
    · cases none
    · exact before
  refine ⟨{valid with
    taken := fun q other alive => valid.taken q other (old q other alive).2
    lives := fun q other alive => valid.lives q other (old q other alive).2
    distinct := fun q other r another alive also =>
      valid.distinct q other r another (old q other alive).2 (old r another also).2
    header := fun q other alive => valid.header q other (old q other alive).2
    came := fun q other alive => valid.came q other (old q other alive).2},(valid.lives p grant live).1,valid.taken p grant live,?_⟩
  intro q other alive same
  obtain ⟨here,before⟩ := old q other alive
  exact here (valid.distinct q other p grant before live same)

-- A loose block of a pool's size goes in front of its list.
theorem valid_push (valid : Valid s lists) (few : i < MEMPOOL_NUM) (loose : Loose s lists a (16+128*2^i))
    (pool : s.object.m_Pools[i]? = some ⟨128*2^i,head⟩) :
    Valid ⟨{s.object with m_Pools := s.object.m_Pools.set i ⟨128*2^i,a⟩},s.heap.store a (toBytes 8 head),s.live⟩
      (Function.update lists i (a :: lists i)) := by
  have stored := loose_store valid loose a (toBytes 8 head) (Nat.le_refl _)
    (by rw [toBytes_length]; omega)
  obtain ⟨first,same,chain⟩ := valid.listed i few
  cases Option.some.inj (pool.symm.trans same)
  have small : head < 2^64 := by
    cases list : lists i with
    | nil =>
        rw [list] at chain
        exact Nat.lt_of_le_of_lt (Nat.le_of_eq chain) (by decide)
    | cons b rest =>
        rw [list] at chain
        have bounds := valid.bounds b _ (valid.capacity i few b (list ▸ List.mem_cons_self))
        have same := chain.1
        omega
  apply valid_relist stored few
  · apply chain_push chain (valid.bounds a _ loose.1).1 small
    intro b member
    have other : b ≠ a := fun same => loose.2.1 i few (same ▸ member)
    have apart := valid.apart b _ a _ (valid.capacity i few b member) loose.1 other
    omega
  · exact List.nodup_cons.mpr ⟨loose.2.1 i few,valid.once i few⟩
  · intro b member
    rcases List.mem_cons.mp member with rfl | old
    · exact ⟨loose.1,fun j bound _ => loose.2.1 j bound,loose.2.2⟩
    · exact listed_own stored few old

-- A loose region is given back to the heap.
theorem valid_release (valid : Valid s lists) (loose : Loose s lists a n) :
    Valid ⟨s.object,{s.heap with regions := Function.update s.heap.regions a none},s.live⟩ lists := by
  have kept : ∀ b m, s.heap.regions b = some m → b ≠ a → Function.update s.heap.regions a none b = some m := by
    intro b m region other
    rw [Function.update_of_ne other]
    exact region
  have old : ∀ b m, Function.update s.heap.regions a none b = some m → s.heap.regions b = some m := by
    intro b m region
    rcases update_some region with ⟨_,none⟩ | ⟨_,before⟩
    · cases none
    · exact before
  exact {valid with
    capacity := fun i few b member => kept b _ (valid.capacity i few b member) (fun same => loose.2.1 i few (same ▸ member))
    lives := fun p grant live => ⟨kept _ _ (valid.lives p grant live).1 (loose.2.2 p grant live),(valid.lives p grant live).2⟩
    apart := fun b m c k first second => valid.apart b m c k (old b m first) (old c k second)
    bounds := fun b m region => valid.bounds b m (old b m region)}

theorem set_same {α : Type} {l : List α} {x : α} (found : l[i]? = some x) : l.set i x = l := by
  apply List.ext_getElem?
  intro j
  by_cases here : i = j
  · subst here
    obtain ⟨inside,_⟩ := List.getElem?_eq_some_iff.mp found
    rw [List.getElem?_set_self inside,found]
  · rw [List.getElem?_set_ne here]

-- What the first half of AllocMsgBlock takes is loose and large enough.
theorem takeBlock_spec (valid : Valid s lists) (size : Nat) {answer : Nat → Nat} (fresh : Fresh s.heap answer) :
    ∃ ptr origin object heap, s.object.takeBlock s.heap answer (size+8) = some (ptr,origin,object,heap) ∧
      ∃ lists, Valid ⟨object,heap,s.live⟩ lists ∧ (ptr ≠ 0 → Came ⟨size,origin⟩ ∧
        offset origin+size ≤ room ⟨size,origin⟩ ∧
        ∃ a, Loose ⟨object,heap,s.live⟩ lists a (room ⟨size,origin⟩) ∧ a+offset origin = ptr+8) := by
  have most := valid.most
  unfold GlobalObject.takeBlock
  by_cases large : size+8 > 65536
  · rw [if_pos (by omega)]
    unfold Heap.malloc
    by_cases null : answer (size+8) = 0
    · rw [if_pos null]
      exact ⟨0,_,_,_,rfl,lists,valid,fun some => absurd rfl some⟩
    · rw [if_neg null]
      obtain ⟨limit,apart⟩ := (fresh (size+8) (Nat.succ_pos _)).resolve_left null
      obtain ⟨kept,loose⟩ := valid_malloc valid (by omega) (Nat.pos_of_ne_zero null) limit apart
      exact ⟨_,_,_,_,rfl,lists,kept,fun _ => ⟨large,Nat.le_of_eq (Nat.add_comm ..),_,loose,rfl⟩⟩
  · rw [if_neg (by omega)]
    obtain ⟨i,few,found,fits⟩ := indexOf_spec (Nat.le_of_not_lt large)
    obtain ⟨head,pool,chain⟩ := valid.listed i few
    rw [found,Option.bind_some,pool,Option.map_some]
    have came : Came ⟨size,.pool i⟩ := ⟨Nat.le_of_not_lt large,found⟩
    have enough : offset (.pool i)+size ≤ room ⟨size,.pool i⟩ := by
      unfold offset room
      dsimp only
      omega
    unfold MemBlockPool.Alloc
    dsimp only
    by_cases some : head ≠ 0
    · obtain ⟨after,kept,loose⟩ := valid_pop valid few pool some
      rw [if_pos some]
      exact ⟨_,_,_,_,rfl,after,kept,fun _ => ⟨came,enough,head,loose,rfl⟩⟩
    · rw [if_neg some]
      unfold Heap.malloc
      by_cases null : answer (MemBlockPool.sizeofMemBlock+128*2^i) = 0
      · rw [if_pos null]
        dsimp only
        rw [if_neg (fun some => some rfl),set_same pool]
        exact ⟨_,_,_,_,rfl,lists,valid,fun some => absurd rfl some⟩
      · rw [if_neg null]
        dsimp only
        rw [if_pos null,set_same pool]
        obtain ⟨limit,apart⟩ := (fresh (16+128*2^i) (by omega)).resolve_left null
        obtain ⟨kept,loose⟩ := valid_malloc valid (Nat.le_add_right ..) (Nat.pos_of_ne_zero null) limit apart
        exact ⟨_,_,_,_,rfl,lists,kept,fun _ => ⟨came,enough,_,loose,rfl⟩⟩

theorem alloc_served (valid : Valid s lists) (size : UInt64) (answer : Nat → Nat)
    (allowed : Allowed s (.alloc size answer)) : ∃ reply next, processStep s (.alloc size answer) = some (reply,next) ∧
      Served s (.alloc size answer) reply next ∧ Sound next := by
  obtain ⟨small,fresh⟩ := allowed
  have bound : size.toNat+8 < 2^64 := by omega
  have sum : wrap64 ((size.toNat : Int)+8) = size.toNat+8 := by
    unfold wrap64
    omega
  obtain ⟨ptr,origin,object,heap,taken,after,kept,loose⟩ := takeBlock_spec valid size.toNat fresh
  unfold processStep GlobalObject.AllocMsgBlock
  dsimp only
  rw [sum,taken,Option.map_some,Option.map_some]
  by_cases null : ptr = 0
  · subst null
    exact ⟨.refused,_,rfl,⟨⟨after,kept.toTidy⟩,trivial⟩,after,kept⟩
  · obtain ⟨came,fits,a,region,place⟩ := loose null
    obtain ⟨free,granted⟩ := valid_grant ⟨size.toNat,origin⟩ (p := ptr+8) kept region place fits bound came
    dsimp only
    rw [if_neg null]
    dsimp only
    rw [if_neg (Nat.succ_ne_zero _)]
    refine ⟨_,_,rfl,⟨⟨after,granted.toTidy⟩,free,rfl,a,_,region.1,?_,?_⟩,after,granted⟩
    · omega
    · omega

-- What a pool leads to is its list.
theorem freeList_iff (tidy : Tidy s lists) (few : i < MEMPOOL_NUM) (l : List Nat) : FreeList s i l ↔ l = lists i := by
  obtain ⟨head,pool,chain⟩ := tidy.listed i few
  constructor
  · intro ⟨other,found,links⟩
    cases Option.some.inj (pool.symm.trans found)
    exact chain_unique chain links
  · intro same
    subst same
    exact ⟨_,pool,chain⟩

theorem live_positive (valid : Valid s lists) (live : s.live p = some grant) : 0 < p :=
  Nat.lt_of_le_of_lt (Nat.zero_le _) (valid.lives p grant live).2.1

-- The header still holds the size, so the second choice is the first one.
theorem free_heap (valid : Valid s lists) (live : s.live p = some grant) (origin : grant.origin = .heap) :
    ∃ next, processStep s (.free p) = some (.freed (some .heap),next) ∧ Served s (.free p) (.freed (some .heap)) next ∧
      Sound next := by
  have came := valid.came p grant live
  have most := valid.most
  have place := begins_offset valid.toTidy live
  unfold Came at came
  rw [origin] at came place
  have front := header_inside valid.toTidy live
  have address : begins p grant = p-8 := by
    unfold offset at place
    dsimp only at place
    omega
  obtain ⟨dropped,loose⟩ := valid_drop valid live
  rw [address] at loose
  have released := valid_release dropped loose
  have positive : p-8 ≠ 0 := Nat.ne_of_gt (valid.bounds _ _ loose.1).1
  have beyond : grant.size+8 > s.object.m_MaxPoolSize := most ▸ came
  have freed : s.heap.free (p-8) = some {s.heap with regions := Function.update s.heap.regions (p-8) none} := by
    have region : s.heap.regions (p-8) = some (room grant) := loose.1
    rw [Heap.free,if_neg positive,region]
    rfl
  rw [processStep,GlobalObject.FreeMsgBlock,if_neg (Nat.ne_of_gt (live_positive valid live))]
  dsimp only
  rw [valid.header p grant live,if_pos beyond,freed]
  refine ⟨_,rfl,⟨⟨lists,released.toTidy⟩,⟨grant,live,origin⟩,rfl,?_⟩,lists,released⟩
  intro i few l list
  rw [(freeList_iff valid.toTidy few l).mp list]
  exact (freeList_iff released.toTidy few _).mpr rfl

theorem free_pool (valid : Valid s lists) (live : s.live p = some grant) (origin : grant.origin = .pool i) :
    ∃ next, processStep s (.free p) = some (.freed (some (.pool i)),next) ∧
      Served s (.free p) (.freed (some (.pool i))) next ∧ Sound next := by
  have came := valid.came p grant live
  have most := valid.most
  have place := begins_offset valid.toTidy live
  unfold Came at came
  rw [origin] at came place
  obtain ⟨small,found⟩ := came
  have address : begins p grant = p-8-MemBlockPool.DATA_OFFSET := by
    unfold offset at place
    dsimp only at place
    unfold MemBlockPool.DATA_OFFSET
    omega
  obtain ⟨dropped,loose⟩ := valid_drop valid live
  have size : room grant = 16+128*2^i := by rw [room,origin]
  rw [address,size] at loose
  have positive : p-8-MemBlockPool.DATA_OFFSET ≠ 0 := Nat.ne_of_gt (valid.bounds _ _ loose.1).1
  obtain ⟨j,few,again,_⟩ := indexOf_spec small
  cases Option.some.inj (found.symm.trans again)
  obtain ⟨head,pool,chain⟩ := valid.listed i few
  have pushed := valid_push dropped few loose pool
  have under : ¬ grant.size+8 > s.object.m_MaxPoolSize := Nat.not_lt_of_le (most ▸ small)
  rw [processStep,GlobalObject.FreeMsgBlock,if_neg (Nat.ne_of_gt (live_positive valid live))]
  dsimp only
  rw [valid.header p grant live,if_neg under,found,Option.bind_some,pool,Option.map_some,MemBlockPool.Free,
    if_neg (by omega)]
  refine ⟨_,rfl,⟨⟨_,pushed.toTidy⟩,⟨grant,live,origin⟩,rfl,?_⟩,_,pushed⟩
  intro j bound l list
  rw [(freeList_iff valid.toTidy bound l).mp list]
  apply (freeList_iff pushed.toTidy bound _).mpr
  by_cases here : i = j
  · subst here
    rw [if_pos rfl,Function.update_self]
    rfl
  · rw [if_neg (fun same => here (Origin.pool.inj same)),Function.update_of_ne (Ne.symm here)]

theorem free_null (valid : Valid s lists) : ∃ next, processStep s (.free 0) = some (.freed none,next) ∧
    Served s (.free 0) (.freed none) next ∧ Sound next := by
  have nobody : Function.update s.live 0 none = s.live := by
    apply Function.update_eq_self_iff.mpr
    cases live : s.live 0 with
    | none => rfl
    | some grant => exact absurd (live_positive valid live) (Nat.lt_irrefl 0)
  rw [processStep,GlobalObject.FreeMsgBlock,if_pos rfl]
  refine ⟨⟨s.object,s.heap,s.live⟩,?_,⟨⟨lists,valid.toTidy⟩,rfl,rfl⟩,lists,valid⟩
  dsimp only [Option.map_some]
  rw [nobody]

theorem step_served (valid : Valid s lists) (request : Request) (allowed : Allowed s request) :
    ∃ answer next, processStep s request = some (answer,next) ∧ Served s request answer next ∧ Sound next := by
  cases request with
  | alloc size answer => exact alloc_served valid size answer allowed
  | free p =>
      rcases allowed with null | live
      · subst null
        exact ⟨_,free_null valid⟩
      · obtain ⟨grant,live⟩ := Option.isSome_iff_exists.mp live
        cases origin : grant.origin with
        | heap => exact ⟨_,free_heap valid live origin⟩
        | pool i => exact ⟨_,free_pool valid live origin⟩
  | write address bytes =>
      have kept : Valid ⟨s.object,s.heap.store address bytes,s.live⟩ lists := by
        apply keep_bytes valid
        intro x kept
        apply store_outside
        by_cases before : x < address
        · exact Or.inl before
        · by_cases behind : address+bytes.length ≤ x
          · exact Or.inr behind
          · exact absurd kept (writable_apart valid (allowed x (by omega) (by omega)))
      exact ⟨_,_,rfl,⟨⟨lists,kept.toTidy⟩,trivial⟩,lists,kept⟩

theorem init_pools : ∀ i < MEMPOOL_NUM, Init.m_Pools[i]? = some ⟨128*2^i,0⟩ := by decide

theorem valid_start (bytes : Nat → UInt8) : Valid (Process.start bytes) fun _ => [] where
  listed := fun i few => ⟨0,init_pools i few,rfl⟩
  once := fun _ _ => List.nodup_nil
  single := fun _ _ _ _ _ inside => absurd inside List.not_mem_nil
  capacity := fun _ _ _ inside => absurd inside List.not_mem_nil
  taken := fun _ _ _ _ _ => List.not_mem_nil
  lives := fun _ _ none => by cases none
  distinct := fun _ _ _ _ none => by cases none
  most := show Init.m_MaxPoolSize = 65536 by decide
  length := show Init.m_Pools.length = MEMPOOL_NUM by decide
  apart := fun _ _ _ _ none => by cases none
  bounds := fun _ _ none => by cases none
  header := fun _ _ none => by cases none
  came := fun _ _ none => by cases none

-- In every history of allocations, frees of live blocks and writes into them, the
-- blocks go out with their room, go back to where they came from and stay apart.
theorem blocks_served (bytes : Nat → UInt8) (history : List Request)
    (allowed : Guarded processStep Allowed (Process.start bytes) history) :
    Along processStep Served (Process.start bytes) history :=
  along_of_guarded (show Sound _ from ⟨_,valid_start bytes⟩)
    (fun _ request ⟨_,valid⟩ fits => step_served valid request fits) allowed

def answerOnce (n : Nat) : Nat := if n ≤ 144 then 4096 else 0

theorem answerOnce_fresh {h : Heap} (none : ∀ b, h.regions b = none) : Fresh h answerOnce := by
  intro n _
  unfold answerOnce
  by_cases small : n ≤ 144
  · rw [if_pos small]
    refine Or.inr ⟨by omega,?_⟩
    intro b m found
    rw [none b] at found
    cases found
  · exact Or.inl (if_neg small)

-- A block of the smallest pool goes out, is written to and goes back.
theorem blocks_served_once : Along processStep Served (Process.start fun _ => 0)
    [.alloc 100 answerOnce,.write 4112 [1,2,3],.free 4112] := by
  apply blocks_served
  rw [guarded_cons (by rfl),guarded_cons (by rfl),guarded_cons (by rfl)]
  refine ⟨⟨by decide,answerOnce_fresh fun _ => rfl⟩,?_,Or.inr (by decide +kernel),trivial⟩
  intro x lower upper
  have last : x < 4115 := upper
  exact Or.inl ⟨4112,⟨100,.pool 0⟩,by rfl,lower,Nat.lt_of_lt_of_le last (by decide)⟩

end GameServer.Server.MsgBlocks
