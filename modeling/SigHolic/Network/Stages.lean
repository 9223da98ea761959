/-
  SigHolic.Network.Stages — the stages of a session (`MakeClientSessionEx` and `CloseSession`,
  network/network.cpp), for any interleaving of their statements.

  A session is being made, registered, or being torn down. What a statement holds of it is
  a weight; the weights are added up over the threads' stacks. `step_cases`: a step leaves
  all of this alone, or it runs one of the statements of the two functions.

  Proved: while each `CloseSession` enters alone, a session is at one stage at a time and
  gives each of its structures back at most once (`stages`).
-/

import SigHolic.Network.Steps

namespace SigHolic.Network

open SigHolic.Base.Tally SigHolic.Iocp SigHolic.Socket

/-! ## What a statement holds -/

namespace Stmt

/-- The structure is out of its queue, bound to no session, and in this statement's hands. -/
def holds (o : Nat) : Stmt → Nat
  | .bindRecv _ o' _ | .bindSend _ _ o' _ | .enqueueRecv _ o' | .enqueueSend _ o' => if o' = o then 1 else 0
  | _ => 0

/-- `MakeClientSessionEx` is at work on the session and has not registered it. -/
def making (c : Nat) : Stmt → Nat
  | .dequeueRecv c' _ | .bindRecv c' _ _ | .dequeueSend c' _ _ | .bindSend c' _ _ _ | .initializeSocket c' _ _
  | .addTcpClient c' _ _ => if c' = c then 1 else 0
  | _ => 0

/-- `CloseSession` has read the session and not yet unregistered it. -/
def entering (c : Nat) : Stmt → Nat
  | .removeTcpClient c' => if c' = c then 1 else 0
  | _ => 0

def leavingRecv (c : Nat) : Stmt → Nat
  | .unbindRecv c' | .enqueueRecv c' _ => if c' = c then 1 else 0
  | _ => 0

/-- `CloseSession` has unregistered the session and not yet given both structures back. -/
def leaving (c : Nat) : Stmt → Nat
  | .unbindRecv c' | .enqueueRecv c' _ | .unbindSend c' | .enqueueSend c' _ => if c' = c then 1 else 0
  | _ => 0

def hasRecv (c : Nat) : Stmt → Nat
  | .dequeueSend c' _ _ | .bindSend c' _ _ _ | .initializeSocket c' _ _ | .addTcpClient c' _ _ | .removeTcpClient c'
  | .unbindRecv c' => if c' = c then 1 else 0
  | _ => 0

def hasSend (c : Nat) : Stmt → Nat
  | .initializeSocket c' _ _ | .addTcpClient c' _ _ | .removeTcpClient c' | .unbindRecv c' | .enqueueRecv c' _
  | .unbindSend c' => if c' = c then 1 else 0
  | _ => 0

def lacksRecv (c : Nat) : Stmt → Nat
  | .dequeueRecv c' _ | .bindRecv c' _ _ | .enqueueRecv c' _ | .unbindSend c' | .enqueueSend c' _ => if c' = c then 1 else 0
  | _ => 0

def lacksSend (c : Nat) : Stmt → Nat
  | .dequeueRecv c' _ | .bindRecv c' _ _ | .dequeueSend c' _ _ | .bindSend c' _ _ _ | .enqueueSend c' _ =>
    if c' = c then 1 else 0
  | _ => 0

def plain : Stmt → Bool
  | .newSession _ | .dequeueRecv _ _ | .bindRecv _ _ _ | .dequeueSend _ _ _ | .bindSend _ _ _ _ | .initializeSocket _ _ _
  | .addTcpClient _ _ _ | .closeSession _ | .removeTcpClient _ | .unbindRecv _ | .enqueueRecv _ _ | .unbindSend _
  | .enqueueSend _ _ => false
  | _ => true

def uncounted : Stmt → Bool
  | .dequeueRecv _ _ | .bindRecv _ _ _ | .dequeueSend _ _ _ | .bindSend _ _ _ _ | .initializeSocket _ _ _ | .closeSession _
  | .unbindRecv _ | .unbindSend _ => true
  | _ => false

def light : Stmt → Bool
  | .closeSession _ | .newSession _ => true
  | i => i.plain

end Stmt

namespace Server

def recvEnqueues (s : Server) (c : Nat) : Nat :=
  s.log.countP fun | .enqueuedRecv c' _ => c' == c | _ => false

def sendEnqueues (s : Server) (c : Nat) : Nat :=
  s.log.countP fun | .enqueuedSend c' _ => c' == c | _ => false

/-- Two servers agree on all that making and tearing down sessions is about. -/
structure SameBindings (s s' : Server) : Prop where
  heap : s'.heap = s.heap
  recvPool : s'.recvPool = s.recvPool
  sendPool : s'.sendPool = s.sendPool
  registry : s'.registry = s.registry
  nextClient : s'.nextClient = s.nextClient
  recvOverlapped : ∀ c, (s'.clients c).recvOverlapped = (s.clients c).recvOverlapped
  sendOverlapped : ∀ c, (s'.clients c).sendOverlapped = (s.clients c).sendOverlapped
  recvEnqueues : ∀ c, s'.recvEnqueues c = s.recvEnqueues c
  sendEnqueues : ∀ c, s'.sendEnqueues c = s.sendEnqueues c

theorem SameBindings.refl (s : Server) : SameBindings s s :=
  ⟨rfl, rfl, rfl, rfl, rfl, fun _ => rfl, fun _ => rfl, fun _ => rfl, fun _ => rfl⟩

theorem SameBindings.trans {a b c : Server} (h : SameBindings a b) (h' : SameBindings b c) : SameBindings a c :=
  ⟨h'.heap.trans h.heap, h'.recvPool.trans h.recvPool, h'.sendPool.trans h.sendPool, h'.registry.trans h.registry,
    h'.nextClient.trans h.nextClient, fun x => (h'.recvOverlapped x).trans (h.recvOverlapped x),
    fun x => (h'.sendOverlapped x).trans (h.sendOverlapped x), fun x => (h'.recvEnqueues x).trans (h.recvEnqueues x),
    fun x => (h'.sendEnqueues x).trans (h.sendEnqueues x)⟩

theorem SameBindings.getClientObject {s s' : Server} (h : SameBindings s s') (o : Nat) :
    s'.getClientObject o = s.getClientObject o := by
  simp only [Server.getClientObject, h.heap]

theorem same_withClient (s : Server) {c : Nat} {x : TcpClient} (hr : x.recvOverlapped = (s.clients c).recvOverlapped)
    (hs : x.sendOverlapped = (s.clients c).sendOverlapped) : SameBindings s (s.withClient c x) := by
  refine ⟨rfl, rfl, rfl, rfl, rfl, ?_, ?_, fun _ => rfl, fun _ => rfl⟩
  · intro d
    by_cases e : d = c
    · subst e; rw [withClient_same, hr]
    · rw [withClient_ne s x e]
  · intro d
    by_cases e : d = c
    · subst e; rw [withClient_same, hs]
    · rw [withClient_ne s x e]

theorem same_post (s : Server) (kind : IoKind) (c : Nat) (buf : WsaBuf) : SameBindings s (s.post kind c buf) :=
  ⟨rfl, rfl, rfl, rfl, rfl, fun _ => rfl, fun _ => rfl, fun _ => rfl, fun _ => rfl⟩

theorem same_crash (s : Server) (x : Crash) : SameBindings s (s.crash x) :=
  ⟨rfl, rfl, rfl, rfl, rfl, fun _ => rfl, fun _ => rfl, fun _ => rfl, fun _ => rfl⟩

/-- An observation that is not a give-back. -/
theorem same_observe (s : Server) {x : Obs} (hr : ∀ c o, x ≠ .enqueuedRecv c o) (hs : ∀ c o, x ≠ .enqueuedSend c o) :
    SameBindings s (s.observe x) := by
  refine ⟨rfl, rfl, rfl, rfl, rfl, fun _ => rfl, fun _ => rfl, ?_, ?_⟩
  · intro c
    cases x <;> simp_all [Server.recvEnqueues, observe]
  · intro c
    cases x <;> simp_all [Server.sendEnqueues, observe]

theorem same_setThread (s : Server) (t : Nat) (st : List Stmt) : SameBindings s (s.setThread t st) :=
  ⟨rfl, rfl, rfl, rfl, rfl, fun _ => rfl, fun _ => rfl, fun _ => rfl, fun _ => rfl⟩

theorem same_writeSendBuffer (s : Server) (sender : Option (Nat × Nat)) (client : Nat) (packet : Packet) :
    SameBindings s (s.writeSendBuffer sender client packet).2 := by
  unfold writeSendBuffer
  split
  · exact same_crash s _
  · rename_i n x hw
    obtain ⟨b, rfl⟩ := TcpClient.writeSendBuffer_cases hw
    have hc := same_withClient s (c := client) (x := { s.clients client with sendBuffer := b }) rfl rfl
    split
    · exact hc
    · exact hc.trans (same_observe _ (by simp) (by simp))

theorem same_flushSendBuffer (s : Server) (c : Nat) (wsa : Bool) : SameBindings s (s.flushSendBuffer c wsa) := by
  unfold flushSendBuffer
  split
  · exact same_crash s _
  · rename_i x hw
    rcases TcpClient.flushSendBuffer_cases hw with ⟨rfl, -⟩ | ⟨-, -, rfl, -⟩ <;> exact same_withClient s rfl rfl
  · rename_i x buf hw
    refine SameBindings.trans ?_ (same_post _ _ _ _)
    rcases TcpClient.flushSendBuffer_cases hw with ⟨rfl, -⟩ | ⟨-, -, rfl, -⟩ <;> exact same_withClient s rfl rfl

theorem same_recvAsync (s : Server) (c : Nat) (wsa : Bool) : SameBindings s (s.recvAsync c wsa) := by
  unfold recvAsync
  split
  · exact same_crash s _
  · rename_i x hw
    obtain ⟨rfl, -⟩ := TcpClient.recvAsync_cases hw
    exact same_withClient s rfl rfl
  · rename_i x buf hw
    obtain ⟨rfl, -⟩ := TcpClient.recvAsync_cases hw
    refine SameBindings.trans ?_ (same_post _ _ _ _)
    exact same_withClient s rfl rfl

theorem same_land (s : Server) (op : IoOp) (r : Result) : SameBindings s (s.land op r) := by
  cases r with
  | failed => exact .refl s
  | sent n => exact .refl s
  | received data =>
    refine SameBindings.trans ?_ (same_observe _ (by intros; simp) (by intros; simp))
    exact same_withClient s rfl rfl

theorem same_closesocket (s : Server) (c : Nat) : SameBindings s (s.closesocket c) := by
  refine ⟨rfl, rfl, rfl, rfl, rfl, fun _ => rfl, fun _ => rfl, ?_, ?_⟩
  · intro d
    simp [Server.recvEnqueues, closesocket]
  · intro d
    simp [Server.sendEnqueues, closesocket]

/-- A plain statement makes and tears down nothing. -/
theorem exec_plain (s : Server) (wsa : Bool) {i : Stmt} (h : i.plain = true) : SameBindings s (s.exec wsa i).1 := by
  cases i with
  | newSession | dequeueRecv | bindRecv | dequeueSend | bindSend | initializeSocket | addTcpClient | closeSession
  | removeTcpClient | unbindRecv | enqueueRecv | unbindSend | enqueueSend => cases h
  | checkExpired | checkBound | recvBranch | recvNext | sendBranch | sendNext | tryProcessPacket | loopTail | verifyFlag
  | bcastBegin => exact .refl s
  | bindSocket =>
    simp only [exec]
    split
    · exact ⟨rfl, rfl, rfl, rfl, rfl, fun _ => rfl, fun _ => rfl, fun _ => rfl, fun _ => rfl⟩
    · exact .refl s
  | bcastCheck | bcastFlush =>
    simp only [exec]
    split
    · exact .refl s
    · exact same_crash s _
  | firstRecv c o =>
    simp only [exec]
    split
    · exact same_crash s _
    · exact same_recvAsync s _ wsa
  | getSocket op =>
    simp only [exec]
    split
    · exact same_crash s _
    · exact .refl s
  | takeSession j =>
    simp only [exec]
    split
    · exact same_crash s _
    · exact same_observe s (by simp) (by simp)
  | recvAsync c j => exact same_recvAsync s c wsa
  | onSend c j =>
    simp only [exec]
    split
    · exact same_crash s _
    · rename_i x hx
      obtain ⟨b, rfl⟩ := TcpClient.onSend_cases hx
      refine SameBindings.trans ?_ (same_observe _ (by simp) (by simp))
      exact same_withClient s rfl rfl
  | onReceived c j => exact same_withClient s (c := c) (x := (s.clients c).addReceived j.transferred) rfl rfl
  | processLoop c j =>
    simp only [exec]
    split
    · exact same_crash s _
    · exact .refl s
    · rename_i packet x hx
      obtain ⟨b, n, rfl⟩ := TcpClient.readPacket_cases hx
      exact same_withClient s rfl rfl
  | processPacket c j packet => exact same_observe s (by simp) (by simp)
  | echo c j k packet => exact same_writeSendBuffer s _ c packet
  | bcastWrite c j k packet client =>
    simp only [exec]
    split
    · exact same_writeSendBuffer s _ client packet
    · exact same_crash s _
  | bcastNext c j k packet client =>
    simp only [exec]
    split
    · exact same_crash s _
    · exact .refl s
    · exact .refl s
  | flushSendBuffer c => exact same_flushSendBuffer s c wsa
  | close c => exact same_closesocket s c
  | setClosing c => exact same_withClient s (c := c) (x := { s.clients c with isClosing := true }) rfl rfl

/-- What a plain statement pushes is plain, or calls `CloseSession`. -/
theorem exec_plain_light (s : Server) (wsa : Bool) {i : Stmt} (h : i.plain = true) :
    ∀ x ∈ (s.exec wsa i).2, x.light = true := by
  cases i <;> simp only [Stmt.plain, Bool.false_eq_true] at h <;> simp only [exec] <;> (repeat' split) <;>
    simp [Stmt.light, Stmt.plain]

/-! ## Steps -/

def Heavy (f : Stmt → Nat) : Prop := ∀ x : Stmt, x.light = true → f x = 0

theorem heavy_weight {f : Stmt → Nat} (hf : Heavy f) {st : List Stmt} (h : ∀ x ∈ st, x.light = true) : weight f st = 0 := by
  induction st with
  | nil => rfl
  | cons x st ih =>
    rw [weight_cons, hf x (h x (by simp)), ih fun y hy => h y (by simp [hy])]

theorem heavy_holds (o : Nat) : Heavy (Stmt.holds o) := by
  intro x h; cases x <;> first | rfl | cases h

theorem heavy_making (c : Nat) : Heavy (Stmt.making c) := by
  intro x h; cases x <;> first | rfl | cases h

theorem heavy_entering (c : Nat) : Heavy (Stmt.entering c) := by
  intro x h; cases x <;> first | rfl | cases h

theorem heavy_leavingRecv (c : Nat) : Heavy (Stmt.leavingRecv c) := by
  intro x h; cases x <;> first | rfl | cases h

theorem heavy_leaving (c : Nat) : Heavy (Stmt.leaving c) := by
  intro x h; cases x <;> first | rfl | cases h

theorem heavy_hasRecv (c : Nat) : Heavy (Stmt.hasRecv c) := by
  intro x h; cases x <;> first | rfl | cases h

theorem heavy_hasSend (c : Nat) : Heavy (Stmt.hasSend c) := by
  intro x h; cases x <;> first | rfl | cases h

structure Quiet (s s' : Server) : Prop extends SameBindings s s' where
  tally : ∀ {f : Stmt → Nat}, Heavy f → tally f s'.threads = tally f s.threads

theorem Quiet.refl (s : Server) : Quiet s s := ⟨.refl s, fun _ => rfl⟩

theorem quiet_setThread {s s' : Server} (h : SameBindings s s') (ht : s'.threads = s.threads) {t : Nat} {old new : List Stmt}
    (hold : s.threads[t]? = some old) (hl : ∀ x ∈ old, x.light = true) (hn : ∀ x ∈ new, x.light = true) :
    Quiet s (s'.setThread t new) := by
  refine ⟨h.trans (same_setThread s' t new), fun {f} hf => ?_⟩
  have := tally_set f hold new
  rw [heavy_weight hf hl, heavy_weight hf hn] at this
  simp only [setThread, ht]
  omega

theorem branch_light {op : IoOp} {r : Result} {st : List Stmt} (h : branch op r = some st) : ∀ x ∈ st, x.light = true := by
  intro x hx
  rcases mem_branch h hx with rfl | rfl | ⟨n, rfl, -⟩ <;> rfl

theorem quiet_accept (s : Server) (socket : Nat) : Quiet s (s.accept socket) := by
  unfold accept
  split
  · rename_i h0
    have hl : ∀ x ∈ [Stmt.newSession socket], x.light = true := by simp [Stmt.light]
    have hq := quiet_setThread (.refl s) rfl (idle_iff.mp h0) (by simp) hl
    repeat' split
    · exact hq
    · exact ⟨⟨rfl, rfl, rfl, rfl, rfl, fun _ => rfl, fun _ => rfl, fun _ => rfl, fun _ => rfl⟩, hq.tally⟩
    · exact .refl s
  · exact .refl s

theorem quiet_dispatch (s : Server) (t i : Nat) (r : Result) : Quiet s (s.dispatch t i r) := by
  unfold dispatch
  split
  · rename_i h0
    split
    · exact .refl s
    · rename_i op _
      split
      · exact .refl s
      · rename_i st hb
        have hq := quiet_setThread (same_land s op r) (land_threads s op r) (idle_iff.mp h0.2) (by simp) (branch_light hb)
        exact ⟨⟨hq.heap, hq.recvPool, hq.sendPool, hq.registry, hq.nextClient, hq.recvOverlapped, hq.sendOverlapped,
          hq.recvEnqueues, hq.sendEnqueues⟩, hq.tally⟩
  · exact .refl s

/-- A step is quiet, or it runs a statement that is not plain. -/
theorem step_cases (s : Server) (e : Ev) :
    Quiet s (s.step e) ∨ ∃ t wsa i st, e = .run t wsa ∧ s.threads[t]? = some (i :: st) ∧ i.plain = false ∧
      s.step e = s.run t wsa := by
  by_cases hc : s.crashed = none
  case neg => rw [step_crashed hc]; exact Or.inl (.refl s)
  rw [step_eq hc]
  cases e with
  | accept socket => exact Or.inl (quiet_accept s socket)
  | dispatch t i r => exact Or.inl (quiet_dispatch s t i r)
  | write c packet =>
    left
    simp only [handle, write]
    split
    · refine ⟨same_writeSendBuffer s _ c packet, fun _ => ?_⟩
      rw [writeSendBuffer_threads]
    · exact .refl s
  | flush c wsa =>
    left
    simp only [handle, flush]
    split
    · refine ⟨same_flushSendBuffer s c wsa, fun _ => ?_⟩
      rw [flushSendBuffer_threads]
    · exact .refl s
  | run t wsa =>
    rcases ht : s.threads[t]? with _ | _ | ⟨i, st⟩
    · left; simp only [handle, run, ht]; exact .refl s
    · left; simp only [handle, run, ht]; exact .refl s
    · cases hp : i.plain with
      | false => exact Or.inr ⟨t, wsa, i, st, rfl, ht, hp, rfl⟩
      | true =>
        left
        refine ⟨?_, fun {f} hf => ?_⟩
        · simp only [handle, run, ht]
          exact (exec_plain s wsa hp).trans (same_setThread _ _ _)
        · have := tally_run f wsa ht
          have hl : i.light = true := by unfold Stmt.light; split <;> simp_all
          rw [hf i hl, heavy_weight hf (exec_plain_light s wsa hp)] at this
          simp only [handle]
          omega

/-! ## The stages of a session -/

/-- The session whose `CloseSession` the step enters: the pointer it reads. -/
def closing (s : Server) : Ev → Option Nat
  | .run t _ =>
    match s.threads[t]? with
    | some (.closeSession data :: _) => s.getClientObject data
    | _ => none
  | _ => none

/-- `CloseSession` is entered for a session only while it is registered and nobody else has
    entered it and not yet unregistered the session. -/
def Alone (s : Server) (e : Ev) : Prop :=
  ∀ c, s.closing e = some c → c ∈ s.registry ∧ tally (Stmt.entering c) s.threads = 0

instance (s : Server) (e : Ev) : Decidable (Alone s e) :=
  match h : s.closing e with
  | none => isTrue (by simp [Alone, h])
  | some c => decidable_of_iff (c ∈ s.registry ∧ tally (Stmt.entering c) s.threads = 0) (by simp [Alone, h])

/-- A session is being made, registered, or being torn down, and gives each structure back
    once. -/
structure Stages (s : Server) : Prop where
  send : ∀ c, s.sendEnqueues c + tally (Stmt.making c) s.threads + s.registry.count c +
    tally (Stmt.leaving c) s.threads ≤ 1
  recv : ∀ c, s.recvEnqueues c + tally (Stmt.making c) s.threads + s.registry.count c +
    tally (Stmt.leavingRecv c) s.threads ≤ 1
  enter : ∀ c, tally (Stmt.entering c) s.threads ≤ s.registry.count c
  unborn : ∀ c, s.nextClient ≤ c → s.sendEnqueues c + s.recvEnqueues c + tally (Stmt.making c) s.threads +
    s.registry.count c + tally (Stmt.leaving c) s.threads = 0

theorem stages_quiet {s s' : Server} (h : Stages s) (hq : Quiet s s') : Stages s' := by
  constructor
  · intro c; rw [hq.sendEnqueues, hq.tally (heavy_making c), hq.registry, hq.tally (heavy_leaving c)]; exact h.send c
  · intro c; rw [hq.recvEnqueues, hq.tally (heavy_making c), hq.registry, hq.tally (heavy_leavingRecv c)]; exact h.recv c
  · intro c; rw [hq.tally (heavy_entering c), hq.registry]; exact h.enter c
  · intro c hc
    rw [hq.sendEnqueues, hq.recvEnqueues, hq.tally (heavy_making c), hq.registry, hq.tally (heavy_leaving c)]
    exact h.unborn c (hq.nextClient ▸ hc)

theorem count_addTcpClient (l : List Nat) (c d : Nat) :
    (TcpSessionManager.addTcpClient l c).count d = if d = c then 1 else l.count d := by
  unfold TcpSessionManager.addTcpClient
  by_cases e : d = c
  · subst e; simp [List.count_append, List.count_eq_zero]
  · simp [List.count_append, List.count_filter, e, Ne.symm e]

theorem count_removeTcpClient (l : List Nat) (c d : Nat) :
    (TcpSessionManager.removeTcpClient l c).count d = if d = c then 0 else l.count d := by
  unfold TcpSessionManager.removeTcpClient
  by_cases e : d = c
  · subst e; simp [List.count_eq_zero]
  · simp [List.count_filter, e]

theorem leavingRecv_le (s : Server) (c : Nat) : tally (Stmt.leavingRecv c) s.threads ≤ tally (Stmt.leaving c) s.threads := by
  apply tally_mono
  intro x
  cases x <;> simp [Stmt.leavingRecv, Stmt.leaving]

theorem exec_uncounted (s : Server) (wsa : Bool) {i : Stmt}
    (h : i.uncounted = true) :
    (s.exec wsa i).1.registry = s.registry ∧ (s.exec wsa i).1.log = s.log ∧
      (s.exec wsa i).1.nextClient = s.nextClient := by
  cases i <;> simp only [Stmt.uncounted, Bool.false_eq_true] at h <;> simp only [exec] <;> (repeat' split) <;>
    refine ⟨?_, ?_, ?_⟩ <;> first | rfl | trivial

/-- The fields of the server after a statement. -/
theorem run_fields {s : Server} {t : Nat} (wsa : Bool) {i : Stmt} {st : List Stmt} (ht : s.threads[t]? = some (i :: st)) :
    SameBindings (s.exec wsa i).1 (s.run t wsa) := by
  simp only [run, ht]
  exact same_setThread _ _ _

/-- The registry changes by adding or removing a session. -/
theorem registry_step (s : Server) (e : Ev) :
    (s.step e).registry = s.registry ∨
      (∃ t wsa c st, e = .run t wsa ∧ s.threads[t]? = some (.removeTcpClient c :: st) ∧
        (s.step e).registry = TcpSessionManager.removeTcpClient s.registry c) ∨
      ∃ t wsa c o socket st, e = .run t wsa ∧ s.threads[t]? = some (.addTcpClient c o socket :: st) ∧
        (s.step e).registry = TcpSessionManager.addTcpClient s.registry c := by
  rcases step_cases s e with hq | ⟨t, wsa, i, st, rfl, ht, hi, hs⟩
  · exact Or.inl hq.registry
  rw [hs, (run_fields wsa ht).registry]
  cases i with
  | addTcpClient c o socket => exact Or.inr (Or.inr ⟨t, wsa, c, o, socket, st, rfl, ht, rfl⟩)
  | removeTcpClient c => exact Or.inr (Or.inl ⟨t, wsa, c, st, rfl, ht, rfl⟩)
  | newSession | enqueueRecv | enqueueSend => exact Or.inl rfl
  | dequeueRecv | bindRecv | dequeueSend | bindSend | initializeSocket | closeSession | unbindRecv | unbindSend =>
    exact Or.inl (exec_uncounted s wsa rfl).1
  | _ => cases hi

/-- A step leaves the number of sessions alone, or makes the next one. -/
theorem nextClient_step (s : Server) (e : Ev) :
    (s.step e).nextClient = s.nextClient ∨
      ((s.step e).nextClient = s.nextClient + 1 ∧
        ∃ t wsa socket st, e = .run t wsa ∧ s.threads[t]? = some (.newSession socket :: st) ∧ s.crashed = none) := by
  by_cases hc : s.crashed = none
  case neg => rw [step_crashed hc]; exact Or.inl rfl
  rcases step_cases s e with hq | ⟨t, wsa, i, st, rfl, ht, -, hs⟩
  · exact Or.inl hq.nextClient
  · rw [hs, (run_fields wsa ht).nextClient]
    by_cases hi : ∃ socket, i = .newSession socket
    · obtain ⟨socket, rfl⟩ := hi
      exact Or.inr ⟨rfl, t, wsa, socket, st, rfl, ht, hc⟩
    · exact Or.inl (exec_nextClient s wsa fun socket he => hi ⟨socket, he⟩)

/-- Such a statement, other than the call of `CloseSession`, hands its session on. -/
theorem exec_moves (s : Server) (wsa : Bool) {i : Stmt} (h : i.uncounted = true) (hne : ∀ data, i ≠ .closeSession data)
    (c : Nat) :
    weight (Stmt.making c) (s.exec wsa i).2 = i.making c ∧ weight (Stmt.leaving c) (s.exec wsa i).2 ≤ i.leaving c ∧
      weight (Stmt.leavingRecv c) (s.exec wsa i).2 ≤ i.leavingRecv c ∧
      weight (Stmt.entering c) (s.exec wsa i).2 = i.entering c := by
  cases i with
  | dequeueRecv c' socket =>
    obtain ⟨o, h', p', hd, -⟩ := OverlappedIoPool.dequeue_moves s.heap s.recvPool
    simp [exec, hd, Stmt.making, Stmt.leaving, Stmt.leavingRecv, Stmt.entering]
  | dequeueSend c' o socket =>
    obtain ⟨o', h', p', hd, -⟩ := OverlappedIoPool.dequeue_moves s.heap s.sendPool
    simp [exec, hd, Stmt.making, Stmt.leaving, Stmt.leavingRecv, Stmt.entering]
  | bindRecv | bindSend | initializeSocket => simp [exec, Stmt.making, Stmt.leaving, Stmt.leavingRecv, Stmt.entering]
  | unbindRecv c' =>
    cases ho : (s.clients c').recvOverlapped <;>
      simp [exec, ho, Stmt.making, Stmt.leaving, Stmt.leavingRecv, Stmt.entering]
  | unbindSend c' =>
    cases ho : (s.clients c').sendOverlapped <;>
      simp [exec, ho, Stmt.making, Stmt.leaving, Stmt.leavingRecv, Stmt.entering]
  | closeSession data => exact absurd rfl (hne data)
  | _ => cases h

/-- What a statement, with those it calls, leaves of a session's counts is no more than what it found. -/
structure Conserves (s : Server) (wsa : Bool) (i : Stmt) (c : Nat) : Prop where
  send : (s.exec wsa i).1.sendEnqueues c + weight (Stmt.making c) (s.exec wsa i).2 + (s.exec wsa i).1.registry.count c +
    weight (Stmt.leaving c) (s.exec wsa i).2 ≤ s.sendEnqueues c + i.making c + s.registry.count c + i.leaving c
  recv : (s.exec wsa i).1.recvEnqueues c + weight (Stmt.making c) (s.exec wsa i).2 + (s.exec wsa i).1.registry.count c +
    weight (Stmt.leavingRecv c) (s.exec wsa i).2 ≤ s.recvEnqueues c + i.making c + s.registry.count c + i.leavingRecv c

theorem conserves_moves (s : Server) (wsa : Bool) {i : Stmt} (h : i.uncounted = true) (hne : ∀ data, i ≠ .closeSession data)
    (c : Nat) : Conserves s wsa i c := by
  obtain ⟨hr, hs, -⟩ := exec_uncounted s wsa h
  obtain ⟨hm, hl, hlr, -⟩ := exec_moves s wsa h hne c
  constructor <;> simp only [Server.sendEnqueues, Server.recvEnqueues, hr, hs, hm] <;> omega

theorem conserves_closeSession (s : Server) (wsa : Bool) (data c : Nat) : Conserves s wsa (.closeSession data) c := by
  cases hg : s.getClientObject data <;>
    constructor <;> simp [exec, hg, Stmt.making, Stmt.leaving, Stmt.leavingRecv]

/-- The session, made, is registered. -/
theorem conserves_addTcpClient (s : Server) (wsa : Bool) (c' o socket c : Nat) :
    Conserves s wsa (.addTcpClient c' o socket) c := by
  have hr : (s.exec wsa (.addTcpClient c' o socket)).1.registry = TcpSessionManager.addTcpClient s.registry c' := rfl
  have hs : (s.exec wsa (.addTcpClient c' o socket)).1.log = s.log := rfl
  constructor <;> simp only [Server.sendEnqueues, Server.recvEnqueues, hr, hs, count_addTcpClient, eq_comm (a := c)] <;>
    simp only [exec, Stmt.making, Stmt.leaving, Stmt.leavingRecv, weight_cons, weight_nil] <;> split <;> rename_i e
  case send.isTrue | recv.isTrue =>
    subst e
    omega
  all_goals omega

/-- A registered session is torn down. -/
theorem conserves_removeTcpClient {s : Server} (wsa : Bool) {c' : Nat} (hpos : 0 < s.registry.count c') (c : Nat) :
    Conserves s wsa (.removeTcpClient c') c := by
  have hr : (s.exec wsa (.removeTcpClient c')).1.registry = TcpSessionManager.removeTcpClient s.registry c' := rfl
  have hs : (s.exec wsa (.removeTcpClient c')).1.log = s.log := rfl
  constructor <;> simp only [Server.sendEnqueues, Server.recvEnqueues, hr, hs, count_removeTcpClient, eq_comm (a := c)] <;>
    simp only [exec, Stmt.making, Stmt.leaving, Stmt.leavingRecv, weight_cons, weight_nil] <;> split <;> rename_i e
  case send.isTrue | recv.isTrue =>
    subst e
    omega
  all_goals omega

/-- A structure given back was the session's to give. -/
theorem conserves_enqueueRecv (s : Server) (wsa : Bool) (c' o c : Nat) : Conserves s wsa (.enqueueRecv c' o) c := by
  have hr : (s.exec wsa (.enqueueRecv c' o)).1.registry = s.registry := rfl
  have hs : (s.exec wsa (.enqueueRecv c' o)).1.log = s.log ++ [.enqueuedRecv c' o] := rfl
  constructor <;> simp only [Server.sendEnqueues, Server.recvEnqueues, hr, hs, List.countP_append, List.countP_singleton,
    beq_iff_eq, Bool.false_eq_true, if_false] <;> simp only [exec, Stmt.making, Stmt.leaving, Stmt.leavingRecv, weight_cons,
    weight_nil] <;> omega

theorem conserves_enqueueSend (s : Server) (wsa : Bool) (c' o c : Nat) : Conserves s wsa (.enqueueSend c' o) c := by
  have hr : (s.exec wsa (.enqueueSend c' o)).1.registry = s.registry := rfl
  have hs : (s.exec wsa (.enqueueSend c' o)).1.log = s.log ++ [.enqueuedSend c' o] := rfl
  constructor <;> simp only [Server.sendEnqueues, Server.recvEnqueues, hr, hs, List.countP_append, List.countP_singleton,
    beq_iff_eq, Bool.false_eq_true, if_false] <;> simp only [exec, Stmt.making, Stmt.leaving, Stmt.leavingRecv, weight_cons,
    weight_nil] <;> omega

section Run

variable {s : Server} (h : Stages s) {t : Nat} {wsa : Bool} {i : Stmt} {st : List Stmt} (ht : s.threads[t]? = some (i :: st))
include h ht

/-- The entries count for registered sessions only: every statement keeps this. -/
theorem entering_run (hi : i.plain = false) (ha : Alone s (.run t wsa)) (c : Nat) :
    tally (Stmt.entering c) (s.run t wsa).threads ≤ (s.exec wsa i).1.registry.count c := by
  have he := tally_run (Stmt.entering c) wsa ht
  have henter := h.enter c
  have honce := h.send c
  cases i with
  | closeSession data =>
    have hx : s.closing (.run t wsa) = s.getClientObject data := by simp only [closing, ht]
    rw [(exec_uncounted s wsa (i := .closeSession data) rfl).1]
    cases hg : s.getClientObject data with
    | none =>
      simp only [exec, hg, Stmt.entering, weight_nil] at he
      omega
    | some c' =>
      obtain ⟨hmem, hnobody⟩ := ha c' (hx.trans hg)
      have hpos := List.count_pos_iff.mpr hmem
      simp only [exec, hg, Stmt.entering, weight_cons, weight_nil] at he
      split at he
      · rename_i e; subst e; omega
      · omega
  | addTcpClient c' o socket =>
    have hr : (s.exec wsa (.addTcpClient c' o socket)).1.registry = TcpSessionManager.addTcpClient s.registry c' := rfl
    simp only [exec, Stmt.entering, weight_cons, weight_nil] at he
    rw [hr, count_addTcpClient]
    split <;> omega
  | removeTcpClient c' =>
    have hr : (s.exec wsa (.removeTcpClient c')).1.registry = TcpSessionManager.removeTcpClient s.registry c' := rfl
    simp only [exec, Stmt.entering, weight_cons, weight_nil] at he
    rw [hr, count_removeTcpClient]
    by_cases e : c' = c
    · simp only [e, if_true] at he ⊢
      omega
    · simp only [e, Ne.symm e, if_false] at he ⊢
      omega
  | newSession | enqueueRecv | enqueueSend =>
    simp only [exec, Stmt.entering, weight_cons, weight_nil] at he
    show _ ≤ s.registry.count c
    omega
  | dequeueRecv | bindRecv | dequeueSend | bindSend | initializeSocket | unbindRecv | unbindSend =>
    rw [(exec_uncounted s wsa rfl).1]
    rw [(exec_moves s wsa rfl (by simp) c).2.2.2] at he
    omega
  | _ => cases hi

/-- A statement that makes no session keeps the stages, when it conserves the counts. -/
theorem stages_conserved (hn : (s.exec wsa i).1.nextClient = s.nextClient) (hc : ∀ c, Conserves s wsa i c)
    (he : ∀ c, tally (Stmt.entering c) (s.run t wsa).threads ≤ (s.exec wsa i).1.registry.count c) : Stages (s.run t wsa) := by
  have hf := run_fields wsa ht
  constructor <;> intro c
  case enter =>
    rw [hf.registry]
    exact he c
  all_goals
    have hm := tally_run (Stmt.making c) wsa ht
    have hl := tally_run (Stmt.leaving c) wsa ht
    have hlr := tally_run (Stmt.leavingRecv c) wsa ht
    have hle := leavingRecv_le s c
    have hsend := (hc c).send
    have hrecv := (hc c).recv
  case send =>
    have := h.send c
    rw [hf.sendEnqueues, hf.registry]
    omega
  case recv =>
    have := h.recv c
    rw [hf.recvEnqueues, hf.registry]
    omega
  case unborn =>
    intro hunborn
    have := h.unborn c (by rw [← hn, ← hf.nextClient]; exact hunborn)
    rw [hf.sendEnqueues, hf.recvEnqueues, hf.registry]
    omega

end Run

/-- A new session has no counts. -/
theorem stages_newSession {s : Server} (h : Stages s) {t : Nat} {wsa : Bool} {socket : Nat} {st : List Stmt}
    (ht : s.threads[t]? = some (.newSession socket :: st)) : Stages (s.run t wsa) := by
  have hf := run_fields wsa ht
  have hr : (s.exec wsa (.newSession socket)).1.registry = s.registry := rfl
  have hn : (s.exec wsa (.newSession socket)).1.nextClient = s.nextClient + 1 := rfl
  have hs : ∀ c, (s.exec wsa (.newSession socket)).1.sendEnqueues c = s.sendEnqueues c := fun _ => rfl
  have hv : ∀ c, (s.exec wsa (.newSession socket)).1.recvEnqueues c = s.recvEnqueues c := fun _ => rfl
  have hweights : ∀ c, tally (Stmt.making c) (s.run t wsa).threads = tally (Stmt.making c) s.threads +
        (if s.nextClient = c then 1 else 0) ∧
      tally (Stmt.leaving c) (s.run t wsa).threads = tally (Stmt.leaving c) s.threads ∧
      tally (Stmt.leavingRecv c) (s.run t wsa).threads = tally (Stmt.leavingRecv c) s.threads ∧
      tally (Stmt.entering c) (s.run t wsa).threads = tally (Stmt.entering c) s.threads :=
    fun c => ⟨tally_run (Stmt.making c) wsa ht, tally_run (Stmt.leaving c) wsa ht, tally_run (Stmt.leavingRecv c) wsa ht,
      tally_run (Stmt.entering c) wsa ht⟩
  constructor <;> intro c <;> obtain ⟨hm, hl, hlr, he⟩ := hweights c <;> have hunborn := h.unborn c <;>
    have hle := leavingRecv_le s c
  case send =>
    have := h.send c
    rw [hf.sendEnqueues, hf.registry, hs, hr, hm, hl]
    split <;> omega
  case recv =>
    have := h.recv c
    rw [hf.recvEnqueues, hf.registry, hv, hr, hm, hlr]
    split <;> omega
  case enter =>
    rw [hf.registry, hr, he]
    exact h.enter c
  case unborn =>
    intro hc
    rw [hf.nextClient, hn] at hc
    rw [hf.sendEnqueues, hf.recvEnqueues, hf.registry, hs, hv, hr, hm, hl, if_neg (by omega)]
    exact hunborn (by omega)

theorem stages_run {s : Server} (h : Stages s) {t : Nat} {wsa : Bool} {i : Stmt} {st : List Stmt}
    (ht : s.threads[t]? = some (i :: st)) (hi : i.plain = false) (ha : Alone s (.run t wsa)) :
    Stages (s.run t wsa) := by
  have he := entering_run h ht hi ha
  cases i with
  | newSession socket => exact stages_newSession h ht
  | addTcpClient c' o socket => exact stages_conserved h ht rfl (conserves_addTcpClient s wsa c' o socket) he
  | closeSession data =>
    exact stages_conserved h ht (exec_uncounted s wsa (i := .closeSession data) rfl).2.2 (conserves_closeSession s wsa data) he
  | removeTcpClient c' =>
    have hentered := tally_run (Stmt.entering c') wsa ht
    have henter := h.enter c'
    simp only [exec, Stmt.entering, weight_cons, weight_nil, if_true] at hentered
    exact stages_conserved h ht rfl (conserves_removeTcpClient wsa (by omega)) he
  | enqueueRecv c' o => exact stages_conserved h ht rfl (conserves_enqueueRecv s wsa c' o) he
  | enqueueSend c' o => exact stages_conserved h ht rfl (conserves_enqueueSend s wsa c' o) he
  | dequeueRecv | bindRecv | dequeueSend | bindSend | initializeSocket | unbindRecv | unbindSend =>
    exact stages_conserved h ht (exec_uncounted s wsa rfl).2.2 (conserves_moves s wsa rfl (by simp)) he
  | _ => cases hi

theorem stages_step {s : Server} {e : Ev} (h : Stages s) (ha : Alone s e) : Stages (s.step e) := by
  rcases step_cases s e with hq | ⟨t, wsa, i, st, rfl, ht, hi, hs⟩
  · exact stages_quiet h hq
  · rw [hs]; exact stages_run h ht hi ha

theorem stages_boot (n : Nat) : Stages (boot n) := by
  have h0 : ∀ f : Stmt → Nat, tally f (boot n).threads = 0 := fun f => tally_replicate f (n + 1)
  constructor <;> intro c <;> simp [h0, Server.sendEnqueues, Server.recvEnqueues] <;> simp [boot]

theorem stages {s : Server} (h : Reach Alone s) : Stages s :=
  h.invariant (fun _ ⟨n, hn⟩ => hn ▸ stages_boot n) fun _ _ hs ha => stages_step hs ha

end Server

end SigHolic.Network
