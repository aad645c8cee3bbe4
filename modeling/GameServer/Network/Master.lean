import Mathlib.Logic.Function.Basic
import GameServer.Network.Worker

namespace GameServer.Network
open TcpSlaveServer

structure TcpMasterServer where
  _workers : Fin workers → Worker

-- What find comes to: a conduit, _empty, or an index outside an array.
inductive Found where
  | conduit (c : TcpConduit)
  | empty
  | outside
  deriving DecidableEq, Repr

namespace TcpMasterServer

def init : TcpMasterServer := ⟨fun i => Worker.empty (UInt32.ofNat i)⟩

-- The worker with the fewest conduits, the first of them.
def least (m : TcpMasterServer) : Fin workers :=
  (List.finRange workers).foldl
    (fun idx i => if (m._workers i).server.count < (m._workers idx).server.count then i else idx) ⟨0,workers_pos⟩

def set (m : TcpMasterServer) (i : Fin workers) (w : Worker) : TcpMasterServer := ⟨Function.update m._workers i w⟩

-- The turn of on_server_read for one socket.
def on_server_read (m : TcpMasterServer) (sock : Int) : TcpMasterServer :=
  m.set m.least ((m._workers m.least).accepted sock)

-- _workers[id%WORKERS]; a negative remainder is no index.
def workerOf (id : Int) : Option (Fin workers) :=
  if 0 ≤ id.tmod workers then some ⟨(id.tmod workers).toNat % workers,Nat.mod_lt _ (by decide)⟩ else none

def connUp (m : TcpMasterServer) : List Int := (m._workers ⟨0,workers_pos⟩).server.connUp

-- `none`: not back within so many calls.
def find (m : TcpMasterServer) : Nat → Int → Option Found
  | 0,_ => none
  | calls+1,id =>
    if id = -1 then some .empty
    else match workerOf id with
      | none => some .outside
      | some i =>
        if slot id ≥ (m._workers i).server.conduits.length then some .empty
        else match m.connUp[slot id]? with
          | none => some .outside
          | some next => m.find calls next

-- The conduit a close shuts down, if any; `none` is an index outside an array.
def close (m : TcpMasterServer) (id : Int) : Option (Option TcpConduit) :=
  if id = -1 then some none
  else (workerOf id).map fun i =>
    if slot id ≥ (m._workers i).server.conduits.length then none
    else (m._workers i).server.conduits.getD (slot id) none

def closeConn (m : TcpMasterServer) (id : Int) : Option (Option TcpConduit) :=
  let rid := -1-id
  if rid ≥ tcpConnIdxMax then some none
  else if rid < 0 then m.close id
  else (m.connUp[rid.toNat]?).bind m.close

end TcpMasterServer

inductive MasterCommand where
  | client (sock : Int)
  | worker (i : Fin workers) (command : Command)
  | close (id : Int)
  | closeConn (id : Int)
  deriving DecidableEq

-- The answer is the conduit that the step took from a table or shut down.
def masterStep (m : TcpMasterServer) : MasterCommand → Option (Option TcpConduit × TcpMasterServer)
  | .client sock => some (none,m.on_server_read sock)
  | .worker i command => (workerStep (m._workers i) command).map fun (gone,w) => (gone,m.set i w)
  | .close id => (m.close id).map (·,m)
  | .closeConn id => (m.closeConn id).map (·,m)

end GameServer.Network
