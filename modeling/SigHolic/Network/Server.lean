/-
  SigHolic.Network.Server — the server (network/network.cpp with socket/TcpClient.cpp): the
  accept loop, the worker threads and the system they run on, as one machine.

  Threads. Thread 0 is `Network::Run`; the others are `WorkerThread`s, any number of them.
  A thread is the stack of the statements it has still to run. `exec` runs the top one: it
  changes the server and says what runs next. A statement is one critical section
  (`m_pSendLock`, a pool's lock, the registry), one read of a shared pointer, or a piece
  of code whose data no other thread touches. Each statement of a function pushes the next
  one, so a thread inside a function has one statement of it on its stack, with the
  functions it called above it.

  The system. An operation posted by `WSASend` or `WSARecv` is in flight until a worker
  picks its completion up (`dispatch`), in any order, with any result. A completed receive
  has stored its bytes at the posted range. `accept` hands out handles that are not open;
  a closed handle may come back. The outcome of each `WSASend`, `WSARecv` and `BindSocket`
  is part of the event. `write` and `flush` are calls of `TcpClient`'s user interface from
  a thread of the application on a registered session.

  `crashed` is set by what ends the process: a null session pointer dereferenced, a list
  node that is gone used (the broadcast's `client` refers into it, and `++it` starts from
  it), a `throw`, an access outside an array. Nothing runs after.

  `log` is ghost state: what the server did, in order; so is the packet number `k` that
  `ProcessPacket` carries along.

  Simpler than the source:
  - `new` does not fail here (`Startup` adds the runs in which it does);
  - a completion reaches a worker even when its operation was posted off the port. These
    are more runs than the source has; where a completion has to come, the runs post on
    the port only (`Bindful` in `Binding`), or send nothing before a session is bound;
  - a session object lives for ever. The source destroys one with the last `shared_ptr` to
    it, also when a broadcast, whose `client` is a reference, is inside a call on it.

  Not modelled: printing, `err_display`, `getpeername` and `WSAGetOverlappedResult` (their
  results are printed only; the dereference in their argument is `getSocket`), `Cleanup`,
  and `RunWithAcceptEx` (it only sleeps).
-/

import SigHolic.Base.Runs
import SigHolic.Base.Tally
import SigHolic.Iocp.OverlappedIoPool
import SigHolic.Socket.TcpClient
import SigHolic.Socket.TcpSessionManager

namespace SigHolic.Network

open SigHolic.Base.Area SigHolic.Utility.Buffer SigHolic.Iocp SigHolic.Socket

inductive IoKind where
  | recv
  | send
  deriving DecidableEq, Repr

/-- An operation in flight. The poster is known to the system only. -/
structure IoOp where
  kind : IoKind
  client : Nat
  socket : Nat
  buf : WsaBuf

def IoOp.io (op : IoOp) : Nat := op.buf.io

/-- A completion a worker handles: `data` is `op.io`, `cbTransferred` is `transferred`. -/
structure Completion where
  op : IoOp
  transferred : Nat

inductive Result where
  | failed
  | received (data : List UInt8)
  | sent (transferred : Nat)

inductive Crash where
  | fault (f : Fault)
  | nullClient
  | dangling
  deriving DecidableEq, Repr

inductive Stmt where
  -- Network::Run and MakeClientSessionEx
  | newSession (socket : Nat)
  | dequeueRecv (c socket : Nat)
  | bindRecv (c o socket : Nat)
  | dequeueSend (c o socket : Nat)
  | bindSend (c o sendO socket : Nat)
  | initializeSocket (c o socket : Nat)
  | addTcpClient (c o socket : Nat)
  | bindSocket (c o socket : Nat)
  | firstRecv (c o : Nat)
  -- WorkerThread
  | getSocket (op : IoOp)
  | checkExpired (j : Completion)
  | checkBound (j : Completion)
  | takeSession (j : Completion)
  | recvBranch (c : Nat) (j : Completion)
  | recvNext (c : Nat) (j : Completion)
  | recvAsync (c : Nat) (j : Completion)
  | sendBranch (c : Nat) (j : Completion)
  | onSend (c : Nat) (j : Completion)
  | sendNext (c : Nat) (j : Completion)
  -- TcpClient::OnReceived, TryProcessPacket and ProcessPacket
  | onReceived (c : Nat) (j : Completion)
  | tryProcessPacket (c : Nat) (j : Completion)
  | processLoop (c : Nat) (j : Completion)
  | loopTail (c : Nat) (j : Completion)
  | processPacket (c : Nat) (j : Completion) (packet : Packet)
  | verifyFlag (c : Nat) (j : Completion) (k : Nat) (packet : Packet)
  | echo (c : Nat) (j : Completion) (k : Nat) (packet : Packet)
  | bcastBegin (c : Nat) (j : Completion) (k : Nat) (packet : Packet)
  | bcastCheck (c : Nat) (j : Completion) (k : Nat) (packet : Packet) (client : Nat)
  | bcastWrite (c : Nat) (j : Completion) (k : Nat) (packet : Packet) (client : Nat)
  | bcastFlush (c : Nat) (j : Completion) (k : Nat) (packet : Packet) (client : Nat)
  | bcastNext (c : Nat) (j : Completion) (k : Nat) (packet : Packet) (client : Nat)
  -- TcpClient::FlushSendBuffer and Close
  | flushSendBuffer (c : Nat)
  | close (c : Nat)
  | setClosing (c : Nat)
  -- CloseSession
  | closeSession (data : Nat)
  | removeTcpClient (c : Nat)
  | unbindRecv (c : Nat)
  | enqueueRecv (c o : Nat)
  | unbindSend (c : Nat)
  | enqueueSend (c o : Nat)

inductive Obs where
  /-- The system stored received bytes in the session's array. -/
  | received (c : Nat) (data : List UInt8)
  /-- `ProcessPacket` was called with the session's `k`-th packet. -/
  | handed (c k : Nat) (packet : Packet)
  /-- `WriteSendBuffer` of `client` took a packet, for the application (`none`) or for the
      `k`-th packet of session `c` (`some (c, k)`). -/
  | wrote (sender : Option (Nat × Nat)) (client : Nat) (packet : Packet)
  /-- `OnSend` removed bytes from the send buffer. -/
  | acked (c : Nat) (data : List UInt8)
  /-- A worker looked the session of a completion up: who posted it, who gets it. -/
  | delivered (poster c : Nat)
  /-- `::closesocket`, and the accept its handle stood for. -/
  | closesocket (c : Nat) (conn : Option Nat)
  | enqueuedRecv (c o : Nat)
  | enqueuedSend (c o : Nat)

structure Server where
  clients : Nat → TcpClient
  nextClient : Nat
  heap : IoHeap
  recvPool : OverlappedIoPool
  sendPool : OverlappedIoPool
  /-- `TcpSessionManager`'s `m_clients`. -/
  registry : List Nat
  inflight : List IoOp
  /-- The open handles, each with the session made for its accept. -/
  sockets : Nat → Option Nat
  /-- The handles associated with the completion port. -/
  port : List Nat
  threads : List (List Stmt)
  crashed : Option Crash
  log : List Obs

def invalidSocket : Nat := 2 ^ 32 - 1

namespace Server

def withClient (s : Server) (c : Nat) (x : TcpClient) : Server := { s with clients := Function.update s.clients c x }

def crash (s : Server) (x : Crash) : Server := { s with crashed := some x }

def post (s : Server) (kind : IoKind) (c : Nat) (buf : WsaBuf) : Server :=
  { s with inflight := s.inflight ++ [⟨kind, c, (s.clients c).socket, buf⟩] }

def setClientObject (s : Server) (o : Nat) (client : Option Nat) : Server :=
  { s with heap := s.heap.setClientObject o client }

def getClientObject (s : Server) (o : Nat) : Option Nat := s.heap.getClientObject o

def observe (s : Server) (x : Obs) : Server := { s with log := s.log ++ [x] }

def handedTo (s : Server) (c : Nat) : Nat := s.log.countP fun | .handed c' _ _ => c' == c | _ => false

def newClient (s : Server) : Server :=
  { s with clients := Function.update s.clients s.nextClient .new, nextClient := s.nextClient + 1 }

def writeSendBuffer (s : Server) (sender : Option (Nat × Nat)) (client : Nat) (packet : Packet) : Int × Server :=
  match (s.clients client).writeSendBuffer packet with
  | .error f => (0, s.crash (.fault f))
  | .ok (n, x) =>
    (n, if n = -1 then s.withClient client x else (s.withClient client x).observe (.wrote sender client packet))

def flushSendBuffer (s : Server) (c : Nat) (wsa : Bool) : Server :=
  match (s.clients c).flushSendBuffer wsa with
  | .error f => s.crash (.fault f)
  | .ok (_, x, none) => s.withClient c x
  | .ok (_, x, some buf) => (s.withClient c x).post .send c buf

def recvAsync (s : Server) (c : Nat) (wsa : Bool) : Server :=
  match (s.clients c).recvAsync wsa with
  | .error f => s.crash (.fault f)
  | .ok (_, x, none) => s.withClient c x
  | .ok (_, x, some buf) => (s.withClient c x).post .recv c buf

def closesocket (s : Server) (c : Nat) : Server :=
  let socket := (s.clients c).socket
  { s with
    sockets := Function.update s.sockets socket none
    port := s.port.filter (· ≠ socket)
    log := s.log ++ [.closesocket c (s.sockets socket)] }

def setClosing (s : Server) (c : Nat) : Server := s.withClient c { s.clients c with isClosing := true }

def bindRecv (s : Server) (c o : Nat) : Server :=
  (s.withClient c { s.clients c with recvOverlapped := some o }).setClientObject o (some c)

def bindSend (s : Server) (c o : Nat) : Server :=
  (s.withClient c { s.clients c with sendOverlapped := some o }).setClientObject o (some c)

def addTcpClient (s : Server) (c : Nat) : Server :=
  { s with registry := TcpSessionManager.addTcpClient s.registry c }

def removeTcpClient (s : Server) (c : Nat) : Server :=
  { s with registry := TcpSessionManager.removeTcpClient s.registry c }

def enqueueRecv (s : Server) (c o : Nat) : Server :=
  { s with recvPool := s.recvPool.enqueue o, log := s.log ++ [.enqueuedRecv c o] }

def enqueueSend (s : Server) (c o : Nat) : Server :=
  { s with sendPool := s.sendPool.enqueue o, log := s.log ++ [.enqueuedSend c o] }

/-! ## One statement -/

/-- The server after the statement, and the statements that run next. -/
def exec (s : Server) (wsa : Bool) : Stmt → Server × List Stmt
  -- Network::Run and MakeClientSessionEx
  | .newSession socket => (s.newClient, [.dequeueRecv s.nextClient socket])
  | .dequeueRecv c socket =>
    match s.recvPool.dequeue s.heap with
    | .error f => (s.crash (.fault f), [])
    | .ok (o, heap, pool) => ({ s with heap := heap, recvPool := pool }, [.bindRecv c o socket])
  | .bindRecv c o socket => (s.bindRecv c o, [.dequeueSend c o socket])
  | .dequeueSend c o socket =>
    match s.sendPool.dequeue s.heap with
    | .error f => (s.crash (.fault f), [])
    | .ok (sendO, heap, pool) => ({ s with heap := heap, sendPool := pool }, [.bindSend c o sendO socket])
  | .bindSend c o sendO socket => (s.bindSend c sendO, [.initializeSocket c o socket])
  | .initializeSocket c o socket =>
    (s.withClient c ((s.clients c).initializeSocket socket), [.addTcpClient c o socket])
  | .addTcpClient c o socket => (s.addTcpClient c, [.bindSocket c o socket])
  | .bindSocket c o socket =>
    -- `Run` does not look at what `BindSocket` returns
    (if wsa then { s with port := s.port ++ [socket] } else s, [.firstRecv c o])
  | .firstRecv _ o =>
    match s.getClientObject o with
    | none => (s.crash .nullClient, [])
    | some c => (s.recvAsync c wsa, [])
  -- WorkerThread
  | .getSocket op =>
    match s.getClientObject op.io with
    | none => (s.crash .nullClient, [])
    | some _ => (s, [])
  | .checkExpired j => (s, if s.getClientObject j.op.io = none then [] else [.checkBound j])
  | .checkBound j => (s, if s.getClientObject j.op.io = none then [.closeSession j.op.io] else [.takeSession j])
  | .takeSession j =>
    match s.getClientObject j.op.io with
    | none => (s.crash .nullClient, [])
    | some c => (s.observe (.delivered j.op.client c), [.recvBranch c j])
  | .recvBranch c j =>
    let x := s.clients c
    (s, if x.recvOverlapped = some j.op.io ∧ x.recvIoState = .pending then [.onReceived c j] else [.sendBranch c j])
  | .recvNext c j =>
    (s, if (s.clients c).isValid then [.recvAsync c j] else [.closeSession j.op.io, .sendBranch c j])
  | .recvAsync c j => (s.recvAsync c wsa, [.sendBranch c j])
  | .sendBranch c j =>
    let x := s.clients c
    (s, if x.sendOverlapped = some j.op.io ∧ x.sendIoState = .pending then [.onSend c j] else [])
  | .onSend c j =>
    match (s.clients c).onSend j.transferred with
    | .error f => (s.crash (.fault f), [])
    | .ok x =>
      ((s.withClient c x).observe (.acked c ((s.clients c).sendBuffer.contents.take j.transferred)), [.sendNext c j])
  | .sendNext c j => (s, if (s.clients c).isValid then [.flushSendBuffer c] else [.closeSession j.op.io])
  -- TcpClient::OnReceived, TryProcessPacket and ProcessPacket
  | .onReceived c j => (s.withClient c ((s.clients c).addReceived j.transferred), [.tryProcessPacket c j])
  | .tryProcessPacket c j =>
    (s, if (s.clients c).recvBuffer.getLength < 2 then [.recvNext c j] else [.processLoop c j])
  | .processLoop c j =>
    match (s.clients c).readPacket with
    | .error f => (s.crash (.fault f), [])
    | .ok none => (s, [.flushSendBuffer c, .recvNext c j])
    | .ok (some (packet, x)) => (s.withClient c x, [.processPacket c j packet])
  | .loopTail c j =>
    (s, if (s.clients c).recvBuffer.getLength > 2 then [.processLoop c j] else [.flushSendBuffer c, .recvNext c j])
  | .processPacket c j packet =>
    -- a bad checksum closes the socket, and the flag is looked at all the same
    let k := s.handedTo c
    (s.observe (.handed c k packet),
      if packet.checkSum = 0x55 then [.verifyFlag c j k packet] else [.close c, .verifyFlag c j k packet])
  | .verifyFlag c j k packet =>
    (s, if packet.flag = 0x01 then [.echo c j k packet]
      else if packet.flag = 0x02 then [.bcastBegin c j k packet]
      else [.close c, .loopTail c j])
  | .echo c j k packet =>
    let r := s.writeSendBuffer (some (c, k)) c packet
    (r.2, if r.1 < 0 then [.close c, .loopTail c j] else [.loopTail c j])
  | .bcastBegin c j k packet =>
    (s, match s.registry.head? with
      | none => [.loopTail c j]
      | some client => [.bcastCheck c j k packet client])
  -- `client` refers into the list, so each use of it is a use of the node
  | .bcastCheck c j k packet client =>
    if client ∈ s.registry then
      (s, if (s.clients client).isValid then [.bcastWrite c j k packet client] else [.bcastNext c j k packet client])
    else (s.crash .dangling, [])
  | .bcastWrite c j k packet client =>
    -- a session without room ends the broadcast and closes the sender
    if client ∈ s.registry then
      let r := s.writeSendBuffer (some (c, k)) client packet
      (r.2, if r.1 < 0 then [.close c, .loopTail c j] else [.bcastFlush c j k packet client])
    else (s.crash .dangling, [])
  | .bcastFlush c j k packet client =>
    if client ∈ s.registry then (s, [.flushSendBuffer client, .bcastNext c j k packet client])
    else (s.crash .dangling, [])
  | .bcastNext c j k packet client =>
    match TcpSessionManager.nextClient s.registry client with
    | none => (s.crash .dangling, [])
    | some none => (s, [.loopTail c j])
    | some (some client') => (s, [.bcastCheck c j k packet client'])
  -- TcpClient::FlushSendBuffer and Close
  | .flushSendBuffer c => (s.flushSendBuffer c wsa, [])
  | .close c => (s.closesocket c, [.setClosing c])
  | .setClosing c => (s.setClosing c, [])
  -- CloseSession
  | .closeSession data =>
    (s, match s.getClientObject data with
      | none => []
      | some c => [.removeTcpClient c])
  | .removeTcpClient c => (s.removeTcpClient c, [.unbindRecv c])
  | .unbindRecv c =>
    match (s.clients c).recvOverlapped with
    | none => (s, [.unbindSend c])
    | some o => (s.setClientObject o none, [.enqueueRecv c o])
  | .enqueueRecv c o => (s.enqueueRecv c o, [.unbindSend c])
  | .unbindSend c =>
    match (s.clients c).sendOverlapped with
    | none => (s, [.close c])
    | some o => (s.setClientObject o none, [.enqueueSend c o])
  | .enqueueSend c o => (s.enqueueSend c o, [.close c])

/-! ## Events -/

inductive Ev where
  /-- `Accept` returned. -/
  | accept (socket : Nat)
  /-- Worker `t` picks the completion of the `i`-th operation in flight up. -/
  | dispatch (t i : Nat) (r : Result)
  /-- Thread `t` runs its next statement; `wsa` is the outcome of the `WSASend`, `WSARecv` or
      `CreateIoCompletionPort` in it. -/
  | run (t : Nat) (wsa : Bool)
  | write (c : Nat) (packet : Packet)
  | flush (c : Nat) (wsa : Bool)

def idle (s : Server) (t : Nat) : Bool :=
  match s.threads[t]? with
  | some [] => true
  | _ => false

def setThread (s : Server) (t : Nat) (st : List Stmt) : Server := { s with threads := s.threads.set t st }

def failedBranch (op : IoOp) : List Stmt := [.getSocket op, .closeSession op.io]

/-- What the worker runs for a result, `none` when the operation cannot end so. -/
def branch (op : IoOp) : Result → Option (List Stmt)
  | .failed => some (.getSocket op :: failedBranch op)
  | .received data =>
    if op.kind = .recv ∧ data.length ≤ op.buf.len then
      some (if data.length = 0 then failedBranch op else [.checkExpired ⟨op, data.length⟩])
    else none
  | .sent transferred =>
    if op.kind = .send ∧ transferred ≤ op.buf.len then
      some (if transferred = 0 then failedBranch op else [.checkExpired ⟨op, transferred⟩])
    else none

/-- What a completed operation has left in its poster's arrays. -/
def land (s : Server) (op : IoOp) : Result → Server
  | .received data =>
    let x := s.clients op.client
    (s.withClient op.client { x with recvBuffer := x.recvBuffer.store op.buf.off data }).observe
      (.received op.client data)
  | _ => s

def accept (s : Server) (socket : Nat) : Server :=
  if s.idle 0 then
    if socket = invalidSocket then s.setThread 0 [.newSession socket]
    else if s.sockets socket = none then
      { s.setThread 0 [.newSession socket] with sockets := Function.update s.sockets socket (some s.nextClient) }
    else s
  else s

def dispatch (s : Server) (t i : Nat) (r : Result) : Server :=
  if 0 < t ∧ s.idle t then
    match s.inflight[i]? with
    | none => s
    | some op =>
      match branch op r with
      | none => s
      | some st => { (s.land op r).setThread t st with inflight := s.inflight.eraseIdx i }
  else s

def run (s : Server) (t : Nat) (wsa : Bool) : Server :=
  match s.threads[t]? with
  | some (i :: st) => (s.exec wsa i).1.setThread t ((s.exec wsa i).2 ++ st)
  | _ => s

def write (s : Server) (c : Nat) (packet : Packet) : Server :=
  if c ∈ s.registry then (s.writeSendBuffer none c packet).2 else s

def flush (s : Server) (c : Nat) (wsa : Bool) : Server := if c ∈ s.registry then s.flushSendBuffer c wsa else s

def handle (s : Server) : Ev → Server
  | .accept socket => s.accept socket
  | .dispatch t i r => s.dispatch t i r
  | .run t wsa => s.run t wsa
  | .write c packet => s.write c packet
  | .flush c wsa => s.flush c wsa

def step (s : Server) (e : Ev) : Server := if s.crashed ≠ none then s else s.handle e

/-! ## The start -/

def grown : IoHeap × OverlappedIoPool × OverlappedIoPool :=
  let r := OverlappedIoPool.growPoolSize ⟨fun _ => ⟨none⟩, 0⟩ .empty 2048
  let q := OverlappedIoPool.growPoolSize r.2.1 .empty 2048
  (q.2.1, r.2.2, q.2.2)

def boot (n : Nat) : Server :=
  ⟨fun _ => .new, 0, grown.1, grown.2.1, grown.2.2, [], [], fun _ => none, [], List.replicate (n + 1) [], none, []⟩

def Boot (s : Server) : Prop := ∃ n, s = boot n

/-- The states of the runs all of whose steps meet `ok`. -/
abbrev Reach (ok : Server → Ev → Prop) : Server → Prop := Base.Runs.Reach Boot step ok

/-- `boot`, with the two pools written out. -/
theorem boot_eq (n : Nat) : boot n =
    ⟨fun _ => .new, 0, ⟨fun _ => ⟨none⟩, 4096⟩, ⟨List.range' 0 2048, [(0, 2048)]⟩,
      ⟨List.range' 2048 2048, [(2048, 2048)]⟩, [], [], fun _ => none, [], List.replicate (n + 1) [], none, []⟩ := by
  have h1 := OverlappedIoPool.growPoolSize_eq ⟨fun _ => ⟨none⟩, 0⟩ .empty (n := 2048) (by decide)
  have hio : ∀ h : IoHeap, (∀ a, h.io a = ⟨none⟩) → ∀ k, h.alloc k = ⟨fun _ => ⟨none⟩, h.next + k⟩ := by
    intro h hh k
    simp [IoHeap.alloc, hh]
  have h2 := OverlappedIoPool.growPoolSize_eq ⟨fun _ => ⟨none⟩, 2048⟩ .empty (n := 2048) (by decide)
  unfold boot grown
  rw [hio _ (fun _ => rfl)] at h1 h2
  simp only [Nat.cast_ofNat] at h1 h2
  rw [h1]
  simp only [Nat.zero_add]
  rw [h2]
  rfl

/-! ## What the pieces leave alone -/

@[simp] theorem withClient_same (s : Server) (c : Nat) (x : TcpClient) : (s.withClient c x).clients c = x := by
  simp [withClient]

theorem withClient_ne (s : Server) {c d : Nat} (x : TcpClient) (h : d ≠ c) : (s.withClient c x).clients d = s.clients d := by
  simp [withClient, h]

theorem step_eq {s : Server} (h : s.crashed = none) (e : Ev) : s.step e = s.handle e := by simp [step, h]

theorem step_crashed {s : Server} (h : s.crashed ≠ none) (e : Ev) : s.step e = s := by simp [step, h]

theorem idle_iff {s : Server} {t : Nat} : s.idle t = true ↔ s.threads[t]? = some [] := by
  unfold idle
  split <;> simp_all

theorem flushSendBuffer_threads (s : Server) (c : Nat) (wsa : Bool) : (s.flushSendBuffer c wsa).threads = s.threads := by
  unfold flushSendBuffer
  split <;> rfl

theorem recvAsync_threads (s : Server) (c : Nat) (wsa : Bool) : (s.recvAsync c wsa).threads = s.threads := by
  unfold recvAsync
  split <;> rfl

theorem land_threads (s : Server) (op : IoOp) (r : Result) : (s.land op r).threads = s.threads := by
  cases r <;> rfl

theorem writeSendBuffer_threads (s : Server) (sender : Option (Nat × Nat)) (client : Nat) (packet : Packet) :
    (s.writeSendBuffer sender client packet).2.threads = s.threads := by
  unfold writeSendBuffer
  repeat' split
  all_goals rfl

theorem exec_threads (s : Server) (wsa : Bool) (i : Stmt) : (s.exec wsa i).1.threads = s.threads := by
  cases i <;> simp only [exec] <;> (repeat' split) <;>
    first
    | rfl
    | exact recvAsync_threads s _ wsa
    | exact flushSendBuffer_threads s _ wsa
    | exact writeSendBuffer_threads s _ _ _

open Base.Tally in
/-- A statement's weight goes, the weights of what it pushes come. -/
theorem tally_run (f : Stmt → Nat) {s : Server} {t : Nat} {i : Stmt} {st : List Stmt} (wsa : Bool)
    (h : s.threads[t]? = some (i :: st)) :
    tally f (s.run t wsa).threads + f i = tally f s.threads + weight f (s.exec wsa i).2 := by
  have hset := tally_set f h ((s.exec wsa i).2 ++ st)
  simp only [run, h, setThread, exec_threads]
  rw [weight_cons, weight_append] at hset
  omega

end Server

end SigHolic.Network
