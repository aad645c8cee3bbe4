import GameServer.Common.MemBlockPool

namespace GameServer.Server
open Common Bytes Memory

structure GlobalObject where
  m_Pools : List MemBlockPool
  m_MaxPoolSize : Nat

-- Where a block comes from and where it goes.
inductive Origin where
  | pool (index : Nat)
  | heap
  deriving DecidableEq, Repr

namespace GlobalObject

def MIN_MEMBLOCK_SIZE : Nat := 128
def MEMPOOL_NUM : Nat := 10

def initPools : Nat → Nat → GlobalObject → GlobalObject
  | 0,_,g => g
  | n+1,size,g => initPools n (wrap64 (size*2)) ⟨g.m_Pools ++ [⟨size,0⟩],size⟩

def Init : GlobalObject := initPools MEMPOOL_NUM MIN_MEMBLOCK_SIZE ⟨[],0⟩

-- The loop of both functions; poolSize is 0 after 57 turns and stays there.
def poolIndex (size : Nat) : Nat → Nat → Nat → Option Nat
  | 0,_,_ => none
  | turns+1,index,poolSize => if size > poolSize then poolIndex size turns (index+1) (wrap64 (poolSize*2)) else some index

def indexOf (size : Nat) : Option Nat := poolIndex size 64 0 MIN_MEMBLOCK_SIZE

-- A block of AllocMsgBlock before its header; `none`: no such pool.
def takeBlock (g : GlobalObject) (h : Heap) (answer : Nat → Nat) (size : Nat) : Option (Nat × Origin × GlobalObject × Heap) :=
  if size > g.m_MaxPoolSize then
    let (ptr,h) := h.malloc answer size
    some (ptr,.heap,g,h)
  else
    (indexOf size).bind fun index => (g.m_Pools[index]?).map fun pool =>
      let (ptr,pool,h) := pool.Alloc answer h
      (ptr,.pool index,{g with m_Pools := g.m_Pools.set index pool},h)

-- Address 0 is NULL.
def AllocMsgBlock (g : GlobalObject) (h : Heap) (answer : Nat → Nat) (size : Nat) :
    Option (Nat × Origin × GlobalObject × Heap) :=
  let size := wrap64 (size+8)
  (g.takeBlock h answer size).map fun (ptr,origin,g,h) =>
    if ptr = 0 then (0,origin,g,h) else (ptr+8,origin,g,h.store ptr (toBytes 8 size))

def FreeMsgBlock (g : GlobalObject) (h : Heap) (ptr : Nat) : Option (Option Origin × GlobalObject × Heap) :=
  if ptr = 0 then some (none,g,h)
  else
    let mem := ptr-8
    let size := word h.bytes mem
    if size > g.m_MaxPoolSize then (h.free mem).map fun h => (some .heap,g,h)
    else
      (indexOf size).bind fun index => (g.m_Pools[index]?).map fun pool =>
        let (pool,h) := pool.Free mem h
        (some (.pool index),{g with m_Pools := g.m_Pools.set index pool},h)

end GlobalObject

-- What a caller holds: the size it asked for and where the block came from.
structure Grant where
  size : Nat
  origin : Origin

structure Process where
  object : GlobalObject
  heap : Heap
  live : Nat → Option Grant

inductive Request where
  | alloc (size : UInt64) (answer : Nat → Nat)
  | free (ptr : Nat)
  | write (address : Nat) (bytes : List UInt8)

inductive Answer where
  | granted (ptr : Nat) (origin : Origin)
  | refused
  | freed (destination : Option Origin)
  | written

-- After Init, with nothing allocated.
def Process.start (bytes : Nat → UInt8) : Process := ⟨GlobalObject.Init,⟨bytes,fun _ => none⟩,fun _ => none⟩

def processStep (s : Process) : Request → Option (Answer × Process)
  | .alloc size answer =>
    (s.object.AllocMsgBlock s.heap answer size.toNat).map fun (ptr,origin,object,heap) =>
      if ptr = 0 then (.refused,⟨object,heap,s.live⟩)
      else (.granted ptr origin,⟨object,heap,Function.update s.live ptr (some ⟨size.toNat,origin⟩)⟩)
  | .free ptr =>
    (s.object.FreeMsgBlock s.heap ptr).map fun (destination,object,heap) =>
      (.freed destination,⟨object,heap,Function.update s.live ptr none⟩)
  | .write address bytes => some (.written,{s with heap := s.heap.store address bytes})

end GameServer.Server
