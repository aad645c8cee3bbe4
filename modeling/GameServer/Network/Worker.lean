import GameServer.Network.TcpServer

namespace GameServer.Network

-- _OpStruct. The entry of a remove holds the id alone; `asker`, the conduit it
-- was issued for, stands beside it for the statements and is read by nothing.
inductive OpStruct where
  | accepted (data : Int)
  | remove (data : Int) (asker : TcpConduit)
  deriving DecidableEq, Repr

-- A slave server with what was posted to it, what onOpCheck still has to go
-- through and how many conduits it has made.
structure Worker where
  server : TcpSlaveServer
  opList : List OpStruct
  rlist : List OpStruct
  made : Nat
  deriving DecidableEq

-- One turn of the loop of on_read: what parsePacket gives, whether the copy
-- finds memory and whether a compressed body unzips to its announced size.
structure Parsed where
  cmd : Int32
  len : Int32
  memory : Bool
  unzips : Bool
  deriving DecidableEq, Repr

def Answer.numbered (answer : Answer) (serial : Nat) : Answer :=
  match answer.made with
  | .built _ => {answer with made := .built serial}
  | .null | .threw => answer

namespace Worker

def empty (slaveIdx : UInt32) : Worker := ⟨TcpSlaveServer.empty slaveIdx,[],[],0⟩

def accepted (w : Worker) (ss : Int) : Worker := {w with opList := w.opList ++ [.accepted ss]}

def remove (w : Worker) (c : TcpConduit) : Worker := {w with opList := w.opList ++ [.remove c.uid c]}

-- `none`: stype below 1 indexes _connUp in front of its first entry.
def initConnection (w : Worker) (stype : Int) : Option Worker :=
  if stype-1 ≥ tcpConnIdxMax then some w
  else if stype-1 < 0 then none
  else if w.server.connUp.getD (stype-1).toNat (-1) ≥ 0 then some w
  else some {w with
    server := {w.server with connUp := w.server.connUp.set (stype-1).toNat 0}
    opList := w.opList ++ [.accepted (-stype)]}

def lostConnection (w : Worker) (stype : Int) : Option Worker :=
  if stype-1 ≥ tcpConnIdxMax then some w
  else if stype-1 < 0 then none
  else some {w with server := {w.server with connUp := w.server.connUp.set (stype-1).toNat (-1)}}

-- TcpConduit::forceClose
def forceClose (w : Worker) (c : TcpConduit) : Worker := w.remove c

-- A bad command leaves on_read, a body that does not unzip goes round again.
def closes (p : Parsed) : Bool :=
  if p.cmd < 0 then true
  else if p.len ≤ 0 then false
  else p.memory && p.cmd &&& 0x1000000 != 0 && !p.unzips

def on_read (w : Worker) (c : TcpConduit) (p : Parsed) : Worker := if closes p then w.forceClose c else w

-- BEV_EVENT_EOF | BEV_EVENT_ERROR | BEV_EVENT_TIMEOUT
def ends (wht : Int16) : Bool := wht &&& 0x70 > 0

def on_event (w : Worker) (c : TcpConduit) (wht : Int16) : Worker := if ends wht then w.forceClose c else w

-- onOpCheck swaps the list under _opMutex and then works through its copy.
def onOpCheck (w : Worker) : Worker :=
  match w.rlist with
  | [] => {w with rlist := w.opList,opList := []}
  | _ :: _ => w

-- One turn of its loop, and the conduit it took from the table.
def serve (w : Worker) (answer : Answer) : Option (Option TcpConduit × Worker) :=
  match w.rlist with
  | [] => some (none,w)
  | .accepted ss :: rest =>
    (w.server._accepted ss (answer.numbered w.made)).map fun server =>
      (none,{w with server := server,rlist := rest,made := w.made+1})
  | .remove id _ :: rest =>
    some (w.server.conduits.getD (TcpSlaveServer.slot id) none,{w with server := w.server._remove id,rlist := rest})

end Worker

inductive Command where
  | accepted (ss : Int)
  | initConnection (stype : Int)
  | lostConnection (stype : Int)
  | on_read (c : TcpConduit) (p : Parsed)
  | on_event (c : TcpConduit) (wht : Int16)
  | remove (c : TcpConduit)
  | onOpCheck
  | serve (answer : Answer)
  deriving DecidableEq

-- Whatever reaches a worker, in any order. TcpConduit::closeConn only shuts the
-- socket down, which comes back as an event of the conduit.
def workerStep (w : Worker) : Command → Option (Option TcpConduit × Worker)
  | .accepted ss => some (none,w.accepted ss)
  | .initConnection stype => (w.initConnection stype).map (none,·)
  | .lostConnection stype => (w.lostConnection stype).map (none,·)
  | .on_read c p => some (none,w.on_read c p)
  | .on_event c wht => some (none,w.on_event c wht)
  | .remove c => some (none,w.remove c)
  | .onOpCheck => some (none,w.onOpCheck)
  | .serve answer => w.serve answer

-- What a step of a worker can do: it posts and swaps lists, writes one entry of
-- _connUp, or serves the first entry of its copy.
inductive Moved (w : Worker) : Command → Worker → Prop where
  | posted (server : next.server = w.server) : Moved w command next
  | queued (stype : Int) (known : stype-1 < tcpConnIdxMax) (down : w.server.connUp.getD (stype-1).toNat (-1) < 0) :
      Moved w (.initConnection stype) {w with
        server := {w.server with connUp := w.server.connUp.set (stype-1).toNat 0}
        opList := w.opList ++ [.accepted (-stype)]}
  | lost (stype : Int) : Moved w (.lostConnection stype) {w with
      server := {w.server with connUp := w.server.connUp.set (stype-1).toNat (-1)}}
  | accepted (ss : Int) (answer : Answer) (head : w.rlist = .accepted ss :: rest)
      (accepted : w.server._accepted ss (answer.numbered w.made) = some server) :
      Moved w (.serve answer) {w with server := server,rlist := rest,made := w.made+1}
  | removed (id : Int) (head : w.rlist = .remove id asker :: rest) :
      Moved w (.serve answer) {w with server := w.server._remove id,rlist := rest}

theorem step_moved (moved : workerStep w command = some (gone,next)) : Moved w command next := by
  cases command with
  | accepted ss => cases Option.some.inj moved; exact .posted rfl
  | initConnection stype =>
      obtain ⟨after,posted,equal⟩ := Option.map_eq_some_iff.mp moved
      cases equal
      unfold Worker.initConnection at posted
      split at posted
      · cases Option.some.inj posted; exact .posted rfl
      split at posted
      · cases posted
      split at posted
      · cases Option.some.inj posted; exact .posted rfl
      · rename_i known _ down
        cases Option.some.inj posted
        exact .queued stype (by omega) (Int.not_le.mp down)
  | lostConnection stype =>
      obtain ⟨after,posted,equal⟩ := Option.map_eq_some_iff.mp moved
      cases equal
      unfold Worker.lostConnection at posted
      split at posted
      · cases Option.some.inj posted; exact .posted rfl
      split at posted
      · cases posted
      · cases Option.some.inj posted; exact .lost stype
  | on_read c p =>
      cases Option.some.inj moved
      unfold Worker.on_read
      split <;> exact .posted rfl
  | on_event c wht =>
      cases Option.some.inj moved
      unfold Worker.on_event
      split <;> exact .posted rfl
  | remove c => cases Option.some.inj moved; exact .posted rfl
  | onOpCheck =>
      cases Option.some.inj moved
      unfold Worker.onOpCheck
      split <;> exact .posted rfl
  | serve answer =>
      simp only [workerStep,Worker.serve] at moved
      split at moved
      · cases Option.some.inj moved; exact .posted rfl
      · rename_i ss rest head
        obtain ⟨server,accepted,equal⟩ := Option.map_eq_some_iff.mp moved
        cases equal
        exact .accepted ss answer head accepted
      · rename_i id asker rest head
        cases Option.some.inj moved
        exact .removed id head

end GameServer.Network
