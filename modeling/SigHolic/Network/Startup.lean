/-
  SigHolic.Network.Startup — `Network::Initialize` and what it calls (network/network.cpp,
  iocp/Iocp.cpp, socket/TcpServer.cpp), whatever the system answers.

  `main` calls `Initialize`, which reports nothing, and then `Run`. So `Run` accepts also
  when nobody listens, and makes a session for the `INVALID_SOCKET` each call returns; and
  it accepts also when there is no worker that could handle a completion.

  Each session takes a quarter of a megabyte twice, and nobody handles what `new` throws when
  there is none left. So here, and only here, `new` may fail (`stepNew`).

  Proved: in every run of a server that is not up in one of these ways, each accept leaves
  one more registered session, no session is ever let go of and nothing is ever given back
  or handed over; how large the pools are is determined by the number of accepts; and the
  process ends exactly when an allocation fails (`a_server_that_is_not_up_only_grows`).
-/

import SigHolic.Network.Accounts
import SigHolic.Network.PoolSize

namespace SigHolic.Network

open SigHolic.Base.Runs SigHolic.Utility.Buffer SigHolic.Iocp SigHolic.Socket

namespace Server

/-- What the system answers to the calls of `Network::Initialize`. That `::bind` fails is printed and no more. -/
structure OsAnswers where
  /-- `::WSAStartup` returns zero. -/
  startup : Bool
  /-- `::CreateIoCompletionPort` returns a port. -/
  port : Bool
  /-- `_beginthreadex` starts the `i`-th thread. -/
  thread : Nat → Bool
  /-- What `::socket` returns. -/
  socket : Nat
  /-- `::listen` succeeds. -/
  listen : Bool

/-- The loop of `StartIocpThread`: what it returns, and how many threads there are. -/
def startThreads (thread : Nat → Bool) (i : Nat) : Nat → Int × Nat
  | 0 => (0, i)
  | n + 1 => if thread i then startThreads thread (i + 1) n else (-2, i)

def startIocpThread (a : OsAnswers) (numberOfThread : Nat) : Int × Nat :=
  if a.port then startThreads a.thread 0 numberOfThread else (-1, 0)

def bindListen (a : OsAnswers) : Nat :=
  if a.socket = invalidSocket then invalidSocket else if a.listen then a.socket else invalidSocket

/-- When `StartNetwork` fails, `Initialize` returns at once. -/
def notStarted : Server :=
  ⟨fun _ => .new, 0, ⟨fun _ => ⟨none⟩, 0⟩, .empty, .empty, [], [], fun _ => none, [], [[]], none, []⟩

def networkInitialize (a : OsAnswers) : Server := if a.startup then boot (startIocpThread a 4).2 else notStarted

def listening (a : OsAnswers) : Bool := a.startup && bindListen a != invalidSocket

def isUp (a : OsAnswers) : Bool := listening a && decide (0 < (startIocpThread a 4).2)

/-- `StartIocpThread` returns zero when every thread is there. -/
theorem startThreads_zero_iff (thread : Nat → Bool) (n i : Nat) :
    (startThreads thread i n).2 ≤ i + n ∧ ((startThreads thread i n).1 = 0 ↔ (startThreads thread i n).2 = i + n) := by
  induction n generalizing i with
  | zero => simp [startThreads]
  | succ n ih =>
    unfold startThreads
    split
    · have := ih (i + 1)
      rwa [Nat.add_right_comm, Nat.add_assoc] at this
    · simp

/-! ## Runs of a server that is not up -/

def calls (s : Server) : Ev → Option Nat
  | .run t _ =>
    match s.threads[t]? with
    | some (.recvAsync c _ :: _) | some (.flushSendBuffer c :: _) => some c
    | some (.firstRecv _ o :: _) => s.getClientObject o
    | _ => none
  | .flush c _ => some c
  | _ => none

def Ev.succeeds : Ev → Bool
  | .run _ wsa | .flush _ wsa => wsa
  | _ => false

/-- Calls on `INVALID_SOCKET` fail. -/
def Refuses (s : Server) (e : Ev) : Prop :=
  ∀ c, s.calls e = some c → (s.clients c).socket = invalidSocket → Ev.succeeds e = false

/-- `::accept` fails when nobody listens. -/
def Admits (a : OsAnswers) (s : Server) (e : Ev) : Prop :=
  (listening a = false → ∀ socket, e = .accept socket → socket = invalidSocket) ∧ s.Refuses e

instance (s : Server) (e : Ev) : Decidable (s.Refuses e) :=
  match h : s.calls e with
  | none => isTrue (by simp [Refuses, h])
  | some c => decidable_of_iff ((s.clients c).socket = invalidSocket → Ev.succeeds e = false) (by simp [Refuses, h])

instance (a : OsAnswers) (s : Server) (e : Ev) : Decidable (Admits a s e) :=
  decidable_of_iff
    ((listening a = true ∨ (match e with | .accept socket => decide (socket = invalidSocket) | _ => true) = true) ∧
      s.Refuses e)
    (by unfold Admits; cases e <;> cases listening a <;> simp)

def accepts (s : Server) : Ev → Bool
  | .accept socket => s.idle 0 && (decide (socket = invalidSocket) || (s.sockets socket).isNone)
  | _ => false

def accepted (s : Server) : List Ev → Nat
  | [] => 0
  | e :: es => (if s.accepts e then 1 else 0) + accepted (s.step e) es

/-- How many structures a pool has that began with so many blocks, when so many have been taken. -/
def grownTo (blocks taken : Nat) : Nat :=
  OverlappedIoPool.defaultIoPoolSize *
    max blocks ((taken + (OverlappedIoPool.defaultIoPoolSize - 1)) / OverlappedIoPool.defaultIoPoolSize)

def Taken (p : OverlappedIoPool) (blocks taken : Nat) : Prop :=
  (p.dataPool.map Prod.snd).sum = grownTo blocks taken ∧ p.waitingQueue.length + taken = grownTo blocks taken

/-- The statement `Run` is at after `k` accepts, when `m` sessions are registered, and how many structures have been taken
    from either pool. -/
inductive Stage (s : Server) (m : Nat) : List Stmt → (r q k : Nat) → Prop
  | accepting : s.nextClient = m → Stage s m [] m m m
  | newSession {socket : Nat} : s.nextClient = m → Stage s m [.newSession socket] m m (m + 1)
  | dequeueRecv {socket : Nat} : s.nextClient = m + 1 → Stage s m [.dequeueRecv m socket] m m (m + 1)
  | bindRecv {o socket : Nat} : s.nextClient = m + 1 → Stage s m [.bindRecv m o socket] (m + 1) m (m + 1)
  | dequeueSend {o socket : Nat} : s.nextClient = m + 1 → s.structureOf m .recv = some o → s.getClientObject o = some m →
      Stage s m [.dequeueSend m o socket] (m + 1) m (m + 1)
  | bindSend {o sendO socket : Nat} : s.nextClient = m + 1 → s.structureOf m .recv ≠ none → s.getClientObject o = some m →
      Stage s m [.bindSend m o sendO socket] (m + 1) (m + 1) (m + 1)
  | initializeSocket {o socket : Nat} : s.nextClient = m + 1 → (∀ kind, s.structureOf m kind ≠ none) →
      s.getClientObject o = some m → Stage s m [.initializeSocket m o socket] (m + 1) (m + 1) (m + 1)
  | addTcpClient {o socket : Nat} : s.nextClient = m + 1 → (∀ kind, s.structureOf m kind ≠ none) →
      s.getClientObject o = some m → Stage s m [.addTcpClient m o socket] (m + 1) (m + 1) (m + 1)
  | bindSocket {c o socket : Nat} : s.nextClient = m → c + 1 = m → s.getClientObject o = some c →
      Stage s m [.bindSocket c o socket] m m m
  | firstRecv {c o : Nat} : s.nextClient = m → c + 1 = m → s.getClientObject o = some c → Stage s m [.firstRecv c o] m m m

/-- After `k` accepts: what `Run` takes stays with the sessions it makes. -/
structure Hoards (blocks k : Nat) (s : Server) : Prop where
  running : s.crashed = none
  sendOk : SendOk s
  rooted : Rooted s
  stage : ∃ st m r q, s.threads[0]? = some st ∧ s.registry = List.range m ∧ s.Stage m st r q k ∧
    Taken s.recvPool blocks r ∧ Taken s.sendPool blocks q
  waiting : ∀ t, 0 < t → t < s.threads.length → s.threads[t]? = some []
  bound : ∀ c ∈ s.registry, ∀ kind, s.structureOf c kind ≠ none
  silent : ∀ x ∈ s.log, ∃ c packet, x = .wrote none c packet

/-! ## One step -/

/-- One more structure is taken. -/
theorem taken_dequeue {p p' : OverlappedIoPool} {blocks taken : Nat} (h : Taken p blocks taken) {heap heap' : IoHeap} {o : Nat}
    (hd : p.dequeue heap = .ok (o, heap', p')) : Taken p' blocks (taken + 1) := by
  obtain ⟨hsize, hrest⟩ := h
  rcases OverlappedIoPool.dequeue_spec heap p with ⟨o', queue, hq, he⟩ | ⟨hq, he⟩ <;> (rw [he] at hd; cases hd)
  · rw [hq, List.length_cons] at hrest
    have hsame : grownTo blocks (taken + 1) = grownTo blocks taken := by
      unfold grownTo OverlappedIoPool.defaultIoPoolSize at *
      omega
    refine ⟨?_, ?_⟩
    · rw [hsame, ← hsize]
    · show queue.length + (taken + 1) = _
      rw [hsame]
      omega
  · rw [hq, List.length_nil, Nat.zero_add] at hrest
    have hmore : grownTo blocks (taken + 1) = grownTo blocks taken + OverlappedIoPool.defaultIoPoolSize := by
      unfold grownTo OverlappedIoPool.defaultIoPoolSize at *
      omega
    refine ⟨?_, ?_⟩
    · simp [hmore, hsize]
    · show (List.range' _ _).length + (taken + 1) = _
      rw [List.length_range', hmore, ← hrest]
      unfold OverlappedIoPool.defaultIoPoolSize
      omega

section Step

variable {s s' : Server} {blocks k : Nat}

theorem Stage.same {m r q : Nat} {st : List Stmt} (h : s.Stage m st r q k) (hn : s'.nextClient = s.nextClient)
    (hb : ∀ c kind, s'.structureOf c kind = s.structureOf c kind) (hg : ∀ o, s'.getClientObject o = s.getClientObject o) :
    s'.Stage m st r q k := by
  cases h with
  | accepting h => exact .accepting (hn.trans h)
  | newSession h => exact .newSession (hn.trans h)
  | dequeueRecv h => exact .dequeueRecv (hn.trans h)
  | bindRecv h => exact .bindRecv (hn.trans h)
  | dequeueSend h h1 h2 => exact .dequeueSend (hn.trans h) ((hb _ _).trans h1) ((hg _).trans h2)
  | bindSend h h1 h2 => exact .bindSend (hn.trans h) ((hb _ _).symm ▸ h1) ((hg _).trans h2)
  | initializeSocket h h1 h2 => exact .initializeSocket (hn.trans h) (fun kind => (hb _ kind).symm ▸ h1 kind) ((hg _).trans h2)
  | addTcpClient h h1 h2 => exact .addTcpClient (hn.trans h) (fun kind => (hb _ kind).symm ▸ h1 kind) ((hg _).trans h2)
  | bindSocket h h1 h2 => exact .bindSocket (hn.trans h) h1 ((hg _).trans h2)
  | firstRecv h h1 h2 => exact .firstRecv (hn.trans h) h1 ((hg _).trans h2)

/-- What leaves the making of sessions alone. -/
theorem Hoards.same (h : Hoards blocks k s) (hs : SameBindings s s') (ht : s'.threads = s.threads) (hc : s'.crashed = none)
    (hok : SendOk s') (hrooted : Rooted s') (hlog : ∀ x ∈ s'.log, x ∈ s.log ∨ ∃ c packet, x = .wrote none c packet) :
    Hoards blocks k s' := by
  obtain ⟨st, m, r, q, hst, hreg, hstage, hr, hq⟩ := h.stage
  refine ⟨hc, hok, hrooted, ⟨st, m, r, q, ht ▸ hst, hs.registry.trans hreg, ?_, hs.recvPool ▸ hr, hs.sendPool ▸ hq⟩,
    ht ▸ h.waiting, ?_, ?_⟩
  · exact hstage.same hs.nextClient (fun c kind => hs.structureOf c kind) fun o => by rw [getClientObject, hs.heap]; rfl
  · intro c hin kind
    rw [hs.structureOf]
    exact h.bound c (hs.registry ▸ hin) kind
  · intro x hx
    rcases hlog x hx with hold | hnew
    · exact h.silent x hold
    · exact hnew

/-- `Run` goes on. -/
theorem Hoards.goes_on {k' m r q : Nat} {st : List Stmt} (h : Hoards blocks k s) (ht : s'.threads = s.threads)
    (hc : s'.crashed = none) (hok : SendOk s') (hreg : s'.registry = List.range m) (hstage : s'.Stage m st r q k')
    (hr : Taken s'.recvPool blocks r)
    (hq : Taken s'.sendPool blocks q) (hrooted : Rooted (s'.setThread 0 st))
    (hbound : ∀ c ∈ s'.registry, ∀ kind, s'.structureOf c kind ≠ none) (hlog : s'.log = s.log) :
    Hoards blocks k' (s'.setThread 0 st) := by
  obtain ⟨st₀, -, -, -, h₀, -⟩ := h.stage
  have hlen : 0 < s.threads.length := (List.getElem?_eq_some_iff.mp h₀).1
  refine ⟨hc, hok, hrooted, ⟨st, m, r, q, ?_, hreg, hstage.same rfl (fun _ _ => rfl) fun _ => rfl, hr, hq⟩,
    ?_, hbound, ?_⟩
  · show (s'.threads.set 0 st)[0]? = some st
    rw [ht, List.getElem?_set_self hlen]
  · intro t h0 hlt
    show (s'.threads.set 0 st)[t]? = some []
    have hlt' : t < (s'.threads.set 0 st).length := hlt
    rw [List.length_set, ht] at hlt'
    rw [ht, List.getElem?_set_ne (by omega)]
    exact h.waiting t h0 hlt'
  · intro x hx
    exact h.silent x (hlog ▸ hx)

theorem run_zero {i : Stmt} {wsa : Bool} (ht : s.threads[0]? = some [i]) :
    s.run 0 wsa = (s.exec wsa i).1.setThread 0 (s.exec wsa i).2 := by
  simp only [run, ht, List.append_nil]

/-- `Run` comes to the statement after `i`. -/
theorem Hoards.run_on {k' m r q : Nat} {i : Stmt} {st : List Stmt} {wsa : Bool} (h : Hoards blocks k s)
    (ht : s.threads[0]? = some [i]) (hexec : s.exec wsa i = (s', st)) (hc : s'.crashed = none) (hreg : s'.registry = List.range m)
    (hstage : s'.Stage m st r q k') (hr : Taken s'.recvPool blocks r) (hq : Taken s'.sendPool blocks q)
    (hbound : ∀ c ∈ s'.registry, ∀ kind, s'.structureOf c kind ≠ none) (hlog : s'.log = s.log) :
    Hoards blocks k' (s.run 0 wsa) := by
  have hrun : s.run 0 wsa = s'.setThread 0 st := by rw [run_zero ht, hexec]
  have hthreads : s'.threads = s.threads := by simpa only [hexec] using exec_threads s wsa i
  have hok : SendOk s' := by simpa only [hexec] using sendOk_exec h.sendOk wsa i
  have hrooted := rooted_step h.rooted (.run 0 wsa)
  rw [step_eq h.running, handle, hrun] at hrooted
  rw [hrun]
  exact h.goes_on hthreads hc hok hreg hstage hr hq hrooted hbound hlog

section Run

variable {m c o sendO socket : Nat} {wsa : Bool} (hreg : s.registry = List.range m)
include hreg

/-- The session at the making is not registered, and what it gets leaves the registered ones as they are. -/
theorem Hoards.bound_beside (h : Hoards blocks k s) (hsame : ∀ d < m, ∀ kind, s'.structureOf d kind = s.structureOf d kind) :
    ∀ d ∈ s.registry, ∀ kind, s'.structureOf d kind ≠ none := by
  intro d hd kind
  rw [hsame d (List.mem_range.mp (hreg ▸ hd)) kind]
  exact h.bound d hd kind

theorem hoards_newSession (h : Hoards blocks (m + 1) s) (hr : Taken s.recvPool blocks m) (hq : Taken s.sendPool blocks m)
    (ht : s.threads[0]? = some [.newSession socket]) (hn : s.nextClient = m) : Hoards blocks (m + 1) (s.run 0 wsa) := by
  refine h.run_on ht rfl h.running hreg ?_ hr hq ?_ rfl
  · rw [hn]
    apply Stage.dequeueRecv
    show s.nextClient + 1 = _
    rw [hn]
  · apply h.bound_beside hreg
    intro d hd kind
    have hne : d ≠ s.nextClient := by omega
    cases kind <;> simp [structureOf, newClient, hne]

theorem hoards_dequeueRecv (h : Hoards blocks (m + 1) s) (hr : Taken s.recvPool blocks m) (hq : Taken s.sendPool blocks m)
    (ht : s.threads[0]? = some [.dequeueRecv m socket]) (hn : s.nextClient = m + 1) : Hoards blocks (m + 1) (s.run 0 wsa) := by
  obtain ⟨o, heap, pool, hd, -⟩ := OverlappedIoPool.dequeue_moves s.heap s.recvPool
  have hexec : s.exec wsa (.dequeueRecv m socket) = ({ s with heap := heap, recvPool := pool }, [.bindRecv m o socket]) := by
    simp only [exec, hd]
  exact h.run_on ht hexec h.running hreg (.bindRecv hn) (taken_dequeue hr hd) hq h.bound rfl

theorem hoards_bindRecv (h : Hoards blocks (m + 1) s) (hr : Taken s.recvPool blocks (m + 1))
    (hq : Taken s.sendPool blocks m) (ht : s.threads[0]? = some [.bindRecv m o socket])
    (hn : s.nextClient = m + 1) : Hoards blocks (m + 1) (s.run 0 wsa) := by
  refine h.run_on ht rfl h.running hreg (.dequeueSend hn ?_ ?_) hr hq ?_ rfl
  · simp [structureOf, bindRecv, setClientObject]
  · simp [getClientObject, bindRecv, setClientObject]
  · apply h.bound_beside hreg
    intro d hd kind
    cases kind <;> simp [structureOf, bindRecv, setClientObject, withClient_ne _ _ (Nat.ne_of_lt hd)]

theorem hoards_dequeueSend (h : Hoards blocks (m + 1) s) (hr : Taken s.recvPool blocks (m + 1))
    (hq : Taken s.sendPool blocks m) (ht : s.threads[0]? = some [.dequeueSend m o socket])
    (hn : s.nextClient = m + 1) (hset : s.structureOf m .recv = some o) (hget : s.getClientObject o = some m) :
    Hoards blocks (m + 1) (s.run 0 wsa) := by
  obtain ⟨sendO, heap, pool, hd, -, -, hclient⟩ := OverlappedIoPool.dequeue_moves s.heap s.sendPool
  -- a pool that grows takes addresses no structure has
  have hlow : o < s.heap.next := h.rooted.fresh .recv o (h.rooted.bound .recv m o hset)
  have hkept : heap.getClientObject o = some m := by
    rw [hclient, if_neg (by omega)]
    exact hget
  have hexec : s.exec wsa (.dequeueSend m o socket) =
      ({ s with heap := heap, sendPool := pool }, [.bindSend m o sendO socket]) := by
    simp only [exec, hd]
  refine h.run_on ht hexec h.running hreg (.bindSend hn ?_ hkept) hr (taken_dequeue hq hd) h.bound rfl
  show s.structureOf m .recv ≠ none
  rw [hset]
  simp

theorem hoards_bindSend (h : Hoards blocks (m + 1) s) (hr : Taken s.recvPool blocks (m + 1))
    (hq : Taken s.sendPool blocks (m + 1)) (ht : s.threads[0]? = some [.bindSend m o sendO socket])
    (hn : s.nextClient = m + 1) (hset : s.structureOf m .recv ≠ none) (hget : s.getClientObject o = some m) :
    Hoards blocks (m + 1) (s.run 0 wsa) := by
  refine h.run_on ht rfl h.running hreg (.initializeSocket hn ?_ ?_) hr hq ?_ rfl
  · intro kind
    cases kind with
    | recv => simpa [structureOf, bindSend, setClientObject] using hset
    | send => simp [structureOf, bindSend, setClientObject]
  · show (s.heap.setClientObject sendO (some m)).getClientObject o = some m
    by_cases heq : o = sendO
    · rw [heq, IoHeap.get_set_same]
    · rw [IoHeap.get_set_ne _ _ heq]
      exact hget
  · apply h.bound_beside hreg
    intro d hd kind
    cases kind <;> simp [structureOf, bindSend, setClientObject, withClient_ne _ _ (Nat.ne_of_lt hd)]

theorem hoards_initializeSocket (h : Hoards blocks (m + 1) s) (hr : Taken s.recvPool blocks (m + 1))
    (hq : Taken s.sendPool blocks (m + 1)) (ht : s.threads[0]? = some [.initializeSocket m o socket]) (hn : s.nextClient = m + 1)
    (hset : ∀ kind, s.structureOf m kind ≠ none) (hget : s.getClientObject o = some m) :
    Hoards blocks (m + 1) (s.run 0 wsa) := by
  refine h.run_on ht rfl h.running hreg (.addTcpClient hn ?_ hget) hr hq ?_ rfl
  · intro kind
    have hset := hset kind
    cases kind <;> simpa [structureOf, TcpClient.initializeSocket] using hset
  · apply h.bound_beside hreg
    intro d hd kind
    cases kind <;> simp [structureOf, withClient_ne _ _ (Nat.ne_of_lt hd)]

theorem hoards_addTcpClient (h : Hoards blocks (m + 1) s) (hr : Taken s.recvPool blocks (m + 1))
    (hq : Taken s.sendPool blocks (m + 1)) (ht : s.threads[0]? = some [.addTcpClient m o socket]) (hn : s.nextClient = m + 1)
    (hset : ∀ kind, s.structureOf m kind ≠ none) (hget : s.getClientObject o = some m) :
    Hoards blocks (m + 1) (s.run 0 wsa) := by
  have hadded : (s.addTcpClient m).registry = List.range (m + 1) := by
    show s.registry.filter (· ≠ m) ++ [m] = _
    rw [List.filter_eq_self.mpr, hreg, List.range_succ]
    intro d hd
    rw [hreg, List.mem_range] at hd
    simpa using Nat.ne_of_lt hd
  refine h.run_on ht rfl h.running hadded (.bindSocket hn rfl hget) hr hq ?_ rfl
  intro d hd kind
  rw [hadded, List.mem_range, Nat.lt_succ_iff_lt_or_eq] at hd
  rcases hd with hd | rfl
  · exact h.bound d (hreg ▸ List.mem_range.mpr hd) kind
  · exact hset kind

theorem hoards_bindSocket (h : Hoards blocks m s) (hr : Taken s.recvPool blocks m) (hq : Taken s.sendPool blocks m)
    (ht : s.threads[0]? = some [.bindSocket c o socket]) (hn : s.nextClient = m) (hc : c + 1 = m)
    (hget : s.getClientObject o = some c) : Hoards blocks m (s.run 0 wsa) := by
  cases wsa <;> exact h.run_on ht rfl h.running hreg (.firstRecv hn hc hget) hr hq h.bound rfl

theorem hoards_firstRecv (h : Hoards blocks m s) (hr : Taken s.recvPool blocks m) (hq : Taken s.sendPool blocks m)
    (ht : s.threads[0]? = some [.firstRecv c o]) (hn : s.nextClient = m) (hc : c + 1 = m)
    (hget : s.getClientObject o = some c) : Hoards blocks m (s.run 0 wsa) := by
  have hs := same_recvAsync s c wsa
  have hset : s.structureOf c .recv ≠ none := h.bound c (by rw [hreg, List.mem_range]; omega) .recv
  have hexec : s.exec wsa (.firstRecv c o) = (s.recvAsync c wsa, []) := by simp only [exec, hget]
  refine h.run_on ht hexec ?_ (hs.registry.trans hreg) (.accepting (hs.nextClient.trans hn)) ?_ ?_ ?_ ?_
  · rw [recvAsync_uncrashed hset, h.running]
  · rw [hs.recvPool]
    exact hr
  · rw [hs.sendPool]
    exact hq
  · intro d hd kind
    rw [hs.structureOf]
    exact h.bound d (hs.registry ▸ hd) kind
  · rw [recvAsync_rest]

end Run

/-- A statement: nothing but `Run` has one. -/
theorem hoards_run (h : Hoards blocks k s) (t : Nat) (wsa : Bool) : Hoards blocks k (s.run t wsa) := by
  obtain ⟨st, m, r, q, h₀, hreg, hstage, hr, hq⟩ := h.stage
  by_cases ht : t = 0
  case neg =>
    have hidle : s.run t wsa = s := by
      by_cases hlt : t < s.threads.length
      · simp only [run, h.waiting t (by omega) hlt]
      · simp only [run, List.getElem?_eq_none (Nat.le_of_not_lt hlt)]
    rw [hidle]
    exact h
  subst ht
  cases hstage with
  | accepting hn =>
    rw [show s.run 0 wsa = s by simp only [run, h₀]]
    exact h
  | newSession hn => exact hoards_newSession hreg h hr hq h₀ hn
  | dequeueRecv hn => exact hoards_dequeueRecv hreg h hr hq h₀ hn
  | bindRecv hn => exact hoards_bindRecv hreg h hr hq h₀ hn
  | dequeueSend hn hset hget => exact hoards_dequeueSend hreg h hr hq h₀ hn hset hget
  | bindSend hn hset hget => exact hoards_bindSend hreg h hr hq h₀ hn hset hget
  | initializeSocket hn hset hget => exact hoards_initializeSocket hreg h hr hq h₀ hn hset hget
  | addTcpClient hn hset hget => exact hoards_addTcpClient hreg h hr hq h₀ hn hset hget
  | bindSocket hn hc hget => exact hoards_bindSocket hreg h hr hq h₀ hn hc hget
  | firstRecv hn hc hget => exact hoards_firstRecv hreg h hr hq h₀ hn hc hget

/-- A step that is no completion: what `Run` takes, it keeps. -/
theorem hoards_step (h : Hoards blocks k s) {e : Ev} (hno : ∀ t i r, e = .dispatch t i r → s.dispatch t i r = s) :
    Hoards blocks (k + if s.accepts e then 1 else 0) (s.step e) := by
  have hok := sendOk_step h.sendOk e
  have hrooted := rooted_step h.rooted e
  rw [step_eq h.running] at hok hrooted ⊢
  cases e with
  | accept socket =>
    by_cases haccepts : s.accepts (.accept socket) = true
    · have hidle : s.idle 0 = true := by
        simp only [accepts, Bool.and_eq_true] at haccepts
        exact haccepts.1
      obtain ⟨st, m, r, q, h₀, hreg, hstage, hr, hq⟩ := h.stage
      rw [idle_iff.mp hidle] at h₀
      cases h₀
      cases hstage with
      | accepting hn =>
        rw [if_pos haccepts]
        by_cases hinvalid : socket = invalidSocket
        · have he : s.handle (.accept socket) = s.setThread 0 [.newSession socket] := by simp [handle, accept, hidle, hinvalid]
          rw [he] at hok hrooted ⊢
          exact h.goes_on rfl h.running h.sendOk hreg (.newSession hn) hr hq hrooted h.bound rfl
        · have hfree : s.sockets socket = none := by simpa [accepts, hidle, hinvalid] using haccepts
          have he : s.handle (.accept socket) =
              ({ s with sockets := Function.update s.sockets socket (some s.nextClient) } : Server).setThread 0
                [.newSession socket] := by
            simp [handle, accept, hidle, hinvalid, hfree, setThread]
          rw [he] at hok hrooted ⊢
          exact h.goes_on rfl h.running h.sendOk hreg (.newSession hn) hr hq hrooted h.bound rfl
    · have he : s.handle (.accept socket) = s := by
        by_cases hidle : s.idle 0 = true
        · have hno : socket ≠ invalidSocket ∧ s.sockets socket ≠ none := by
            simpa [accepts, hidle, not_or] using haccepts
          simp [handle, accept, hidle, hno.1, hno.2]
        · simp [handle, accept, hidle]
      rw [he, if_neg haccepts]
      exact h
  | dispatch t i r =>
    rw [handle, hno t i r rfl]
    exact h
  | run t wsa => exact hoards_run h t wsa
  | write c packet =>
    show Hoards blocks k (s.write c packet)
    rw [handle] at hok hrooted
    by_cases hreg : c ∈ s.registry
    · rw [write, if_pos hreg] at hok hrooted ⊢
      refine h.same (same_writeSendBuffer s none c packet) (writeSendBuffer_threads s none c packet) ?_ hok hrooted ?_
      · rw [writeSendBuffer_uncrashed h.sendOk, h.running]
      · intro x hx
        by_cases hf : (s.clients c).Fits packet
        · obtain ⟨b, hw, -⟩ := write_taken (h.sendOk c) hf none
          rw [hw] at hx
          rcases List.mem_append.mp hx with hx | hx
          · exact Or.inl hx
          · exact Or.inr ⟨c, packet, List.mem_singleton.mp hx⟩
        · rw [write_refused (h.sendOk c) hf none] at hx
          exact Or.inl hx
    · rw [write, if_neg hreg]
      exact h
  | flush c wsa =>
    show Hoards blocks k (s.flush c wsa)
    rw [handle] at hok hrooted
    by_cases hreg : c ∈ s.registry
    · rw [flush, if_pos hreg] at hok hrooted ⊢
      refine h.same (same_flushSendBuffer s c wsa) (flushSendBuffer_threads s c wsa) ?_ hok hrooted ?_
      · rw [flushSendBuffer_uncrashed (h.bound c hreg .send), h.running]
      · intro x hx
        rw [flushSendBuffer_rest] at hx
        exact Or.inl hx
    · rw [flush, if_neg hreg]
      exact h

/-! ## Nobody listens -/

def forSocket : Stmt → Option Nat
  | .newSession socket | .dequeueRecv _ socket | .bindRecv _ _ socket | .dequeueSend _ _ socket | .bindSend _ _ _ socket
  | .initializeSocket _ _ socket => some socket
  | _ => none

def ahead (s : Server) : Stmt → Option Nat
  | .addTcpClient c _ _ => some (s.clients c).socket
  | i => forSocket i

/-- Every session is there for an accept that failed, and nothing has been posted. -/
structure Deaf (s : Server) : Prop where
  still : s.inflight = []
  registered : ∀ c ∈ s.registry, (s.clients c).socket = invalidSocket
  making : ∀ i st socket, s.threads[0]? = some (i :: st) → s.ahead i = some socket → socket = invalidSocket

/-- Only `Run` has statements to run. -/
theorem Hoards.front (h : Hoards blocks k s) {t : Nat} {i : Stmt} {st : List Stmt} (ht : s.threads[t]? = some (i :: st)) :
    t = 0 ∧ st = [] ∧ ∃ m r q, s.registry = List.range m ∧ s.Stage m [i] r q k := by
  obtain ⟨st₀, m, r, q, h₀, hreg, hstage, -, -⟩ := h.stage
  by_cases hne : t = 0
  · subst hne
    rw [ht] at h₀
    cases h₀
    have hnil : st = [] := by cases hstage <;> rfl
    subst hnil
    exact ⟨rfl, rfl, m, r, q, hreg, hstage⟩
  · rw [h.waiting t (Nat.pos_of_ne_zero hne) (List.getElem?_eq_some_iff.mp ht).1] at ht
    cases ht

/-- The session whose operation is posted in a step is registered, and its call has succeeded. -/
theorem posted_registered (h : Hoards blocks k s) {e : Ev} {op : IoOp} (hp : s.Posted e op) :
    op.client ∈ s.registry ∧ s.calls e = some op.client ∧ Ev.succeeds e = true := by
  obtain ⟨-, -, ⟨-, hrecv⟩ | ⟨-, hsend⟩ | ⟨t, st, c, o, rfl, ht, -, hget⟩⟩ := hp
  · unfold receiving at hrecv
    split at hrecv
    · split at hrecv
      · rename_i ht
        obtain ⟨-, -, m, r, q, -, hstage⟩ := h.front ht
        cases hstage
      · cases hrecv
    · cases hrecv
  · unfold sending at hsend
    obtain ⟨hsend, -⟩ := Option.filter_eq_some_iff.mp hsend
    split at hsend
    · split at hsend
      · rename_i ht
        obtain ⟨-, -, m, r, q, -, hstage⟩ := h.front ht
        cases hstage
      · cases hsend
    · split at hsend
      · rename_i hm
        cases hsend
        exact ⟨hm, rfl, rfl⟩
      · cases hsend
    · cases hsend
  · obtain ⟨-, -, m, r, q, hreg, hstage⟩ := h.front ht
    refine ⟨?_, ?_, rfl⟩
    · cases hstage with
      | firstRecv hn hc hget' =>
        rw [hget] at hget'
        cases hget'
        rw [hreg, ← hc, List.mem_range]
        exact Nat.lt_succ_self _
    · simp only [calls, ht, hget]

theorem pushed_ahead {wsa : Bool} {i x : Stmt} (hm : x ∈ (s.exec wsa i).2) {socket : Nat}
    (h : (s.exec wsa i).1.ahead x = some socket) : s.ahead i = some socket := by
  cases i <;> simp only [exec] at hm h <;> (repeat' split at hm) <;>
    simp only [List.mem_cons, List.not_mem_nil, or_false] at hm <;>
    (first | subst hm | rcases hm with rfl | rfl) <;> simp_all [ahead, forSocket, TcpClient.initializeSocket]

/-- Nobody but the session at `Initialize` gets a socket. -/
theorem socket_same (h : Hoards blocks k s) (e : Ev) {c : Nat} (hc : c < s.nextClient)
    (hno : ∀ o socket, s.threads[0]? ≠ some [.initializeSocket c o socket]) :
    ((s.step e).clients c).socket = (s.clients c).socket := by
  rcases socket_step s e c with he | ⟨rfl, -⟩ | ⟨t, wsa, o, socket, st, rfl, ht, -⟩
  · exact he
  · exact absurd hc (Nat.lt_irrefl _)
  · obtain ⟨rfl, rfl, -⟩ := h.front ht
    exact absurd ht (hno o socket)

/-- The session about to be registered has its socket, and keeps it. -/
theorem added_same (h : Hoards blocks k s) (e : Ev) {c o socket : Nat} (ht : s.threads[0]? = some [.addTcpClient c o socket]) :
    ((s.step e).clients c).socket = (s.clients c).socket := by
  obtain ⟨-, -, m, r, q, -, hstage⟩ := h.front ht
  refine socket_same h e ?_ (by rw [ht]; simp)
  cases hstage with
  | addTcpClient hn => omega

theorem registered_same (h : Hoards blocks k s) (e : Ev) {c : Nat} (hc : c ∈ s.registry) :
    ((s.step e).clients c).socket = (s.clients c).socket := by
  obtain ⟨st, m, r, q, h₀, hreg, hstage, -⟩ := h.stage
  have hlt : c < m := List.mem_range.mp (hreg ▸ hc)
  have hborn : m ≤ s.nextClient := by cases hstage <;> omega
  refine socket_same h e (by omega) ?_
  intro o socket ht
  rw [h₀] at ht
  cases ht
  cases hstage
  exact Nat.lt_irrefl _ hlt

/-- Nothing is posted: the calls for the sessions there are fail. -/
theorem deaf_still (h : Hoards blocks k s) (hd : Deaf s) {e : Ev} (hrefuses : s.Refuses e) : (s.step e).inflight = [] := by
  apply List.eq_nil_iff_forall_not_mem.mpr
  intro op hop
  rcases inflight_step hop with hold | hp
  · rw [hd.still] at hold
    cases hold
  · obtain ⟨hreg, hcalls, hsucceeds⟩ := posted_registered h hp
    rw [hrefuses _ hcalls (hd.registered _ hreg)] at hsucceeds
    cases hsucceeds

theorem deaf_registered (h : Hoards blocks k s) (hd : Deaf s) {e : Ev} {c : Nat} (hc : c ∈ (s.step e).registry) :
    ((s.step e).clients c).socket = invalidSocket := by
  have hold : c ∈ s.registry → ((s.step e).clients c).socket = invalidSocket := fun hc => by
    rw [registered_same h e hc, hd.registered c hc]
  rcases registry_step s e with he | ⟨t, wsa, c', st, rfl, ht, -⟩ | ⟨t, wsa, c', o, socket, st, rfl, ht, he⟩
  · exact hold (he ▸ hc)
  · obtain ⟨-, -, m', r', q', -, hstage'⟩ := h.front ht
    cases hstage'
  · rw [he, TcpSessionManager.mem_addTcpClient] at hc
    rcases hc with hc | rfl
    · exact hold hc
    · obtain ⟨rfl, rfl, -⟩ := h.front ht
      rw [added_same h _ ht]
      exact hd.making _ _ _ ht rfl

/-- What leaves the threads alone leaves what `Run` is at. -/
theorem deaf_called (h : Hoards blocks k s) (hd : Deaf s) {e : Ev} (he : (s.step e).threads = s.threads) {i : Stmt}
    {st : List Stmt} {socket : Nat} (ht : (s.step e).threads[0]? = some (i :: st)) (hahead : (s.step e).ahead i = some socket) :
    socket = invalidSocket := by
  rw [he] at ht
  refine hd.making i st socket ht ?_
  rw [← hahead]
  cases i with
  | addTcpClient c o a =>
    obtain ⟨-, rfl, -⟩ := h.front ht
    simp only [ahead, added_same h e ht]
  | _ => rfl

theorem deaf_making (h : Hoards blocks k s) (hd : Deaf s) {e : Ev}
    (haccept : ∀ socket, e = .accept socket → socket = invalidSocket) {i : Stmt} {st : List Stmt} {socket : Nat}
    (ht : (s.step e).threads[0]? = some (i :: st)) (hahead : (s.step e).ahead i = some socket) : socket = invalidSocket := by
  obtain ⟨st₀, -, -, -, h₀, -⟩ := h.stage
  have hlen := (List.getElem?_eq_some_iff.mp h₀).1
  rcases threads_step s e with
    he | ⟨socket', rfl, -, he⟩ | ⟨t, j, r, op, st', -, -, -, -, hop, -, -⟩ | ⟨t, wsa, i', st', rfl, -, ht', -⟩
  · exact deaf_called h hd he ht hahead
  · rw [he, List.getElem?_set_self hlen] at ht
    cases ht
    cases hahead
    exact haccept _ rfl
  · rw [hd.still] at hop
    cases hop
  · obtain ⟨rfl, rfl, -⟩ := h.front ht'
    rw [step_eq h.running, handle, run_zero ht'] at ht hahead
    have hset : ((s.exec wsa i').1.threads.set 0 (s.exec wsa i').2)[0]? = some (i :: st) := ht
    rw [exec_threads, List.getElem?_set_self hlen] at hset
    exact hd.making i' [] socket ht' (pushed_ahead (Option.some.inj hset ▸ List.mem_cons_self) hahead)

theorem deaf_step (h : Hoards blocks k s) (hd : Deaf s) {e : Ev}
    (haccept : ∀ socket, e = .accept socket → socket = invalidSocket)
    (hrefuses : s.Refuses e) : Deaf (s.step e) :=
  ⟨deaf_still h hd hrefuses, fun _ => deaf_registered h hd, fun _ _ _ => deaf_making h hd haccept⟩

end Step

/-! ## From the start -/

theorem hoards_notStarted : Hoards 0 0 notStarted := by
  have hnone : ∀ x, ¬ notStarted.Has x := by
    rintro x ⟨st, hst, hx⟩
    rw [List.mem_singleton.mp hst] at hx
    cases hx
  refine ⟨rfl, fun _ => PulledBuffer.new_ok, ⟨⟨?_, ?_, ?_, ?_⟩, fun x hx => absurd hx (hnone x), ?_⟩,
    ⟨[], 0, 0, 0, rfl, rfl, .accepting rfl, ⟨rfl, rfl⟩, ⟨rfl, rfl⟩⟩, ?_, ?_, ?_⟩
  · rintro o ⟨b, hb, -⟩
    cases hb
  · rintro kind o ⟨b, hb, -⟩
    cases kind <;> cases hb
  · intro kind o ho
    cases kind <;> cases ho
  · intro kind c o ho
    cases kind <;> cases ho
  · intro op hop
    cases hop
  · intro t h0 ht
    exact absurd ht (Nat.not_lt_of_le h0)
  · intro c hc
    cases hc
  · intro x hx
    cases hx

theorem hoards_boot (n : Nat) : Hoards 1 0 (boot n) := by
  refine ⟨rfl, fun _ => PulledBuffer.new_ok, rooted_boot n, ?_, ?_, ?_, ?_⟩
  · rw [boot_eq]
    refine ⟨[], 0, 0, 0, rfl, rfl, .accepting rfl, ?_, ?_⟩ <;> simp [Taken, grownTo, OverlappedIoPool.defaultIoPoolSize]
  · intro t h0 ht
    rw [boot_eq] at ht ⊢
    have hlt : t < n + 1 := by simpa using ht
    simp [hlt]
  · intro c hc
    cases hc
  · intro x hx
    cases hx

def firstBlocks (a : OsAnswers) : Nat := if a.startup then 1 else 0

theorem hoards_start (a : OsAnswers) : Hoards (firstBlocks a) 0 (networkInitialize a) := by
  unfold firstBlocks networkInitialize
  split
  · exact hoards_boot _
  · exact hoards_notStarted

def Unserved (a : OsAnswers) (s : Server) : Prop := (listening a = false ∧ Deaf s) ∨ s.threads.length = 1

theorem unserved_start {a : OsAnswers} (h : isUp a = false) : Unserved a (networkInitialize a) := by
  unfold isUp at h
  cases hl : listening a with
  | false =>
    refine Or.inl ⟨hl, ?_⟩
    unfold networkInitialize
    split
    · refine ⟨rfl, fun c hc => (nomatch hc), fun i st socket ht => ?_⟩
      rw [boot_eq] at ht
      simp [List.replicate_succ] at ht
    · refine ⟨rfl, fun c hc => (nomatch hc), fun i st socket ht => ?_⟩
      simp [notStarted] at ht
  | true =>
    right
    have hstart : a.startup = true := by
      simp only [listening, Bool.and_eq_true] at hl
      exact hl.1
    have hnone : (startIocpThread a 4).2 = 0 := by simpa [hl] using h
    simp [networkInitialize, hstart, hnone, boot_eq]

/-- There is no completion for a worker to pick up. -/
theorem Unserved.dispatch {a : OsAnswers} {s : Server} (h : Unserved a s) (t i : Nat) (r : Result) : s.dispatch t i r = s := by
  rcases h with ⟨-, hd⟩ | hlen
  · simp [Server.dispatch, hd.still]
  · unfold Server.dispatch
    rw [if_neg]
    rintro ⟨h0, hidle⟩
    have ht := (List.getElem?_eq_some_iff.mp (idle_iff.mp hidle)).1
    omega

theorem unserved_step {a : OsAnswers} {s : Server} {blocks k : Nat} (h : Hoards blocks k s) (hu : Unserved a s) {e : Ev}
    (hadmits : Admits a s e) : Unserved a (s.step e) := by
  rcases hu with ⟨hl, hd⟩ | hlen
  · exact Or.inl ⟨hl, deaf_step h hd (hadmits.1 hl) hadmits.2⟩
  · right
    rw [threads_length, hlen]

/-! ## Allocations -/

/-- `new` is called in this step, or a container takes an element: a session with its buffers, a block of structures, a node
    of the registry or of a pool's queue. -/
def allocates (s : Server) : Ev → Bool
  | .run t _ =>
    match s.threads[t]? with
    | some (.newSession _ :: _) | some (.addTcpClient _ _ _ :: _) | some (.enqueueRecv _ _ :: _) | some (.enqueueSend _ _ :: _) =>
      true
    | some (.dequeueRecv _ _ :: _) => s.recvPool.waitingQueue.isEmpty
    | some (.dequeueSend _ _ _ :: _) => s.sendPool.waitingQueue.isEmpty
    | _ => false
  | _ => false

/-- A step, with the outcome of the allocations in it. When one throws the process ends: nobody catches `std::bad_alloc`. -/
def stepNew (s : Option Server) (x : Ev × Bool) : Option Server :=
  s.bind fun s => if s.allocates x.1 && !x.2 then none else some (s.step x.1)

def Allocates (s : Option Server) (x : Ev × Bool) : Prop := ∀ s' ∈ s, s'.allocates x.1 = true → x.2 = true

def AdmitsNew (a : OsAnswers) (s : Option Server) (x : Ev × Bool) : Prop := ∀ s' ∈ s, Admits a s' x.1

instance (s : Option Server) (x : Ev × Bool) : Decidable (Allocates s x) := inferInstanceAs (Decidable (∀ s' ∈ s, _))

instance (a : OsAnswers) (s : Option Server) (x : Ev × Bool) : Decidable (AdmitsNew a s x) :=
  inferInstanceAs (Decidable (∀ s' ∈ s, _))

theorem foldl_stepNew_none (es : List (Ev × Bool)) : es.foldl stepNew none = none := by
  induction es with
  | nil => rfl
  | cons x es ih => exact ih

theorem stepNew_some {s s' : Server} {x : Ev × Bool} (h : stepNew (some s) x = some s') : s' = s.step x.1 := by
  simp only [stepNew, Option.bind_some] at h
  split at h
  · cases h
  · exact (Option.some.inj h).symm

/-- The process is there as long as its allocations succeed. -/
theorem survives_iff (es : List (Ev × Bool)) : ∀ s : Server,
    es.foldl stepNew (some s) ≠ none ↔ Along stepNew Allocates (some s) es := by
  induction es with
  | nil => exact fun s => ⟨fun _ => trivial, fun _ => Option.some_ne_none s⟩
  | cons x es ih =>
    intro s
    show es.foldl stepNew (stepNew (some s) x) ≠ none ↔ Allocates (some s) x ∧
        Along stepNew Allocates (stepNew (some s) x) es
    cases hx : stepNew (some s) x with
    | none =>
      have hfails : ¬ Allocates (some s) x := by
        intro hok
        simp only [stepNew, Option.bind_some, ite_eq_left_iff, reduceCtorEq, imp_false, Bool.and_eq_true, Bool.not_eq_true',
          not_not] at hx
        rw [hok s rfl hx.1] at hx
        cases hx.2
      simp [foldl_stepNew_none, hfails]
    | some s' =>
      have hok : Allocates (some s) x := by
        rintro _ ⟨⟩ hnew
        by_contra hfail
        simp [stepNew, hnew, hfail] at hx
      rw [ih s']
      exact ⟨fun h => ⟨hok, h⟩, fun h => h.2⟩

theorem hoards_along {a : OsAnswers} {blocks : Nat} {es : List (Ev × Bool)} : ∀ {s : Server} {k : Nat}, Hoards blocks k s →
    Unserved a s → Along stepNew (AdmitsNew a) (some s) es → ∀ {s' : Server}, es.foldl stepNew (some s) = some s' →
    Hoards blocks (k + accepted s (es.map Prod.fst)) s' := by
  induction es with
  | nil =>
    intro s k h hu hrun s' hs
    cases hs
    exact h
  | cons x es ih =>
    intro s k h hu hrun s' hs
    obtain ⟨hadmits, hrest⟩ := hrun
    rw [List.foldl_cons] at hs
    cases hx : stepNew (some s) x with
    | none =>
      rw [hx, foldl_stepNew_none] at hs
      cases hs
    | some s₁ =>
      rw [hx] at hs hrest
      cases stepNew_some hx
      have hnext := hoards_step h (e := x.1) fun t i r _ => hu.dispatch t i r
      rw [List.map_cons, accepted, ← Nat.add_assoc]
      exact ih hnext (unserved_step h hu (hadmits s rfl)) hrest hs

/-- After `k` accepts: the sessions made are registered, for good, with their structures; the pools are as large as the accepts
    make them; and nothing was ever received, handed over, acknowledged, given back or closed. -/
structure OnlyGrows (a : OsAnswers) (s : Server) (k : Nat) : Prop where
  running : s.crashed = none
  registered : ∃ m, s.registry = List.range m ∧ m ≤ k ∧ k ≤ m + 1
  accepting : s.idle 0 = true → s.registry = List.range k ∧ ∀ kind, s.structures kind = grownTo (firstBlocks a) k
  bound : ∀ c ∈ s.registry, ∀ kind, s.structureOf c kind ≠ none
  silent : ∀ x ∈ s.log, ∃ c packet, x = .wrote none c packet

/-- Whatever the system answers while the process starts: when nobody listens or there is no worker, every run, whatever the
    application writes and flushes, only makes sessions, as long as allocation succeeds; when it fails, and only then, the
    process ends. -/
theorem a_server_that_is_not_up_only_grows {a : OsAnswers} (h : isUp a = false) {es : List (Ev × Bool)}
    (hrun : Along stepNew (AdmitsNew a) (some (networkInitialize a)) es) :
    (es.foldl stepNew (some (networkInitialize a)) ≠ none ↔ Along stepNew Allocates (some (networkInitialize a)) es) ∧
      ∀ s, es.foldl stepNew (some (networkInitialize a)) = some s →
        OnlyGrows a s (accepted (networkInitialize a) (es.map Prod.fst)) := by
  refine ⟨survives_iff es _, fun s hs => ?_⟩
  have hoards := hoards_along (hoards_start a) (unserved_start h) hrun hs
  rw [Nat.zero_add] at hoards
  generalize accepted (networkInitialize a) (es.map Prod.fst) = k at hoards ⊢
  obtain ⟨st, m, r, q, h₀, hreg, hstage, hr, hq⟩ := hoards.stage
  refine ⟨hoards.running, ⟨m, hreg, ?_⟩, ?_, hoards.bound, hoards.silent⟩
  · cases hstage <;> omega
  · intro hidle
    rw [idle_iff.mp hidle] at h₀
    cases h₀
    cases hstage
    refine ⟨hreg, ?_⟩
    intro kind
    cases kind
    · exact hr.1
    · exact hq.1

def unheard : OsAnswers := ⟨true, true, fun _ => true, 3, false⟩

def unheardRun : List (Ev × Bool) := List.map (fun e => (e, true)) (List.flatten [
  [.accept invalidSocket], List.replicate 9 (.run 0 false),
  [.write 0 (.load [1, 0, 1, 0x55, 7]), .flush 0 false, .accept invalidSocket], List.replicate 9 (.run 0 false)])

theorem two_failed_accepts_stay :
    (unheardRun.foldl stepNew (some (networkInitialize unheard))).map registry = some [0, 1] ∧
      (unheardRun.foldl stepNew (some (networkInitialize unheard)) ≠ none ↔
        Along stepNew Allocates (some (networkInitialize unheard)) unheardRun) ∧
      ∀ s, unheardRun.foldl stepNew (some (networkInitialize unheard)) = some s →
        OnlyGrows unheard s (accepted (networkInitialize unheard) (unheardRun.map Prod.fst)) := by
  refine ⟨?_, a_server_that_is_not_up_only_grows rfl ?_⟩
  all_goals
    rw [show networkInitialize unheard = boot 4 from rfl, boot_eq]
    decide +kernel

end Server

end SigHolic.Network
