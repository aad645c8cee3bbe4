import Mathlib.Algebra.Group.Int.Defs
import Mathlib.Data.Finset.Max
import GameServer.Library.History

namespace GameServer.Network

def workers : Nat := 2
def tcpConnIdxMax : Nat := 3

theorem workers_pos : 0 < workers := by decide

-- The object a slot points to: which allocation it is, the socket (or the
-- negative upstream index) it serves and the uid it was built with.
structure TcpConduit where
  serial : Nat
  socket : Int
  uid : Int
  deriving DecidableEq, Repr

structure TcpSlaveServer where
  slaveIdx : UInt32
  conduits : List (Option TcpConduit)
  emptySet : Finset Nat
  connUp : List Int
  count : UInt32
  held : Nat
  deriving DecidableEq

-- What newConduit or newConnection does: an object, NULL, or an exception.
inductive Made where
  | built (serial : Nat)
  | null
  | threw
  deriving DecidableEq, Repr

-- Both virtual calls of one accept: the construction, and whether
-- initConnection() of an upstream conduit throws afterwards.
structure Answer where
  made : Made
  initThrew : Bool := false
  deriving DecidableEq, Repr

namespace TcpSlaveServer

def empty (slaveIdx : UInt32) : TcpSlaveServer :=
  ⟨slaveIdx,[],∅,List.replicate tcpConnIdxMax (-1),0,0⟩

def lock (s : TcpSlaveServer) : TcpSlaveServer := {s with held := s.held+1}
def unlock (s : TcpSlaveServer) : TcpSlaveServer := {s with held := s.held-1}

def uid (s : TcpSlaveServer) (id : Nat) : Int :=
  ((id*workers + s.slaveIdx.toNat : Nat) : Int).bmod (2^32)

def setConnUp (s : TcpSlaveServer) (ss value : Int) : TcpSlaveServer :=
  if ss < 0 ∧ -1-ss < tcpConnIdxMax then {s with connUp := s.connUp.set (-1-ss).toNat value} else s

-- An upstream connection is built inside a try of its own, which turns every
-- exception into NULL; an exception of newConduit reaches the outer catch.
def create (ss : Int) (answer : Answer) : Made :=
  if ss < 0 then
    match answer.made with
    | .built serial => if answer.initThrew then .null else .built serial
    | .null | .threw => .null
  else answer.made

-- `none`: the loop over _emptySet keeps an index past the table and never ends.
-- The append path reads the source's nested `if(ss < 0)` as written: a client
-- whose conduit is NULL leaves neither by that branch nor by the catch.
def _accepted (server : TcpSlaveServer) (ss : Int) (answer : Answer) : Option TcpSlaveServer :=
  let s := server.lock
  if filled : s.emptySet.Nonempty then
    let id := s.emptySet.min' filled
    if id < s.conduits.length then
      match create ss answer with
      | .built serial =>
        let placed := {s with
          emptySet := s.emptySet.erase id
          conduits := s.conduits.set id (some ⟨serial,ss,s.uid id⟩)}
        let published := (placed.setConnUp ss (s.uid id)).unlock
        some {published with count := published.count+1}
      | .null | .threw => some (s.setConnUp ss (-1)).unlock
    else none
  else
    let id := s.conduits.length
    let append := fun conduit : Option TcpConduit =>
      let pushed := {s with conduits := s.conduits ++ [conduit],count := s.count+1}
      some (pushed.setConnUp ss (s.uid id)).unlock
    match create ss answer with
    | .built serial => append (some ⟨serial,ss,s.uid id⟩)
    | .null => if ss < 0 then some (s.setConnUp ss (-1)).unlock else append none
    | .threw => some (s.setConnUp ss (-1)).unlock

-- The do-while of _remove, entered with rrid+1 slots: forget rrid, step down
-- while the slot below is NULL. Gives the new size and the new set.
def trim (conduits : List (Option TcpConduit)) : Nat → Finset Nat → Nat × Finset Nat
  | 0,emptySet => (0,emptySet)
  | rrid+1,emptySet =>
    let forgot := if emptySet.Nonempty then emptySet.erase rrid else emptySet
    if 0 < rrid ∧ conduits.getD (rrid-1) none = none then trim conduits rrid forgot else (rrid,forgot)

-- UInt32 rid = id / WORKERS
def slot (id : Int) : Nat := ((id.tdiv workers) % 2^32).toNat

def countDown (s : TcpSlaveServer) : TcpSlaveServer :=
  if s.count > 0 then {s with count := s.count-1} else s

def _remove (server : TcpSlaveServer) (id : Int) : TcpSlaveServer :=
  let s := server.lock
  let rid := slot id
  let removed :=
    if rid < s.conduits.length ∧ s.conduits.getD rid none ≠ none then
      let conduits := s.conduits.set rid none
      let trimmed :=
        if rid = conduits.length-1 then
          let (size,emptySet) := trim conduits (rid+1) s.emptySet
          {s with conduits := conduits.take size,emptySet := emptySet}
        else {s with conduits := conduits,emptySet := insert rid s.emptySet}
      trimmed.countDown
    else s
  removed.unlock

-- The slot table and the counter are cleared; _emptySet is not touched.
def destroy (server : TcpSlaveServer) : TcpSlaveServer :=
  {server with conduits := [],count := 0}

end TcpSlaveServer

inductive Op where
  | accepted (ss : Int) (answer : Answer)
  | remove (id : Int)
  | destroy
  deriving DecidableEq

def slaveStep (s : TcpSlaveServer) : Op → Option (Unit × TcpSlaveServer)
  | .accepted ss answer => (s._accepted ss answer).map ((),·)
  | .remove id => some ((),s._remove id)
  | .destroy => some ((),s.destroy)

end GameServer.Network
