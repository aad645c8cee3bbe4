import GameServer.Common.Stream
import GameServer.Library.Memory
import Mathlib.Logic.Function.Basic

namespace GameServer.Common
open Bytes Memory

-- The bytes of the process, and the regions malloc() has handed out: address and length.
structure Heap where
  bytes : Nat → UInt8
  regions : Nat → Option Nat

namespace Heap

def store (h : Heap) (address : Nat) (bytes : List UInt8) : Heap := {h with bytes := Memory.store h.bytes address bytes}

-- malloc(), given what it answers to the sizes it can be asked for.
def malloc (h : Heap) (answer : Nat → Nat) (n : Nat) : Nat × Heap :=
  if answer n = 0 then (0,h) else (answer n,{h with regions := Function.update h.regions (answer n) (some n)})

-- `none`: free() of what malloc() has not handed out.
def free (h : Heap) (p : Nat) : Option Heap :=
  if p = 0 then some h else (h.regions p).map fun _ => {h with regions := Function.update h.regions p none}

end Heap

structure MemBlockPool where
  m_Size : Nat
  m_pBlockList : Nat
  deriving DecidableEq, Repr

namespace MemBlockPool

def sizeofMemBlock : Nat := 16
def DATA_OFFSET : Nat := 8

def Alloc (pool : MemBlockPool) (answer : Nat → Nat) (h : Heap) : Nat × MemBlockPool × Heap :=
  if pool.m_pBlockList ≠ 0 then
    (pool.m_pBlockList+DATA_OFFSET,{pool with m_pBlockList := word h.bytes pool.m_pBlockList},h)
  else
    let (block,h) := h.malloc answer (sizeofMemBlock+pool.m_Size)
    if block ≠ 0 then (block+DATA_OFFSET,pool,h) else (0,pool,h)

def Free (pool : MemBlockPool) (ptr : Nat) (h : Heap) : MemBlockPool × Heap :=
  if ptr = 0 then (pool,h)
  else
    let block := ptr-DATA_OFFSET
    ({pool with m_pBlockList := block},h.store block (toBytes 8 pool.m_pBlockList))

end MemBlockPool

end GameServer.Common
