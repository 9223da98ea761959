/-
  SigHolic.Network.Draining — the server comes to rest when nothing new comes in
  (network/network.cpp, `Network::Run` and `WorkerThread`, with what they call).

  What is left to do is counted in four parts, the first the weightiest: the bytes
  received and not read as packets, the writes the packets in hand still make (the
  registry's length and what is about to join it bound a broadcast), the bytes in the send
  buffers, and the statements and operations under way. A round of `TryProcessPacket`'s
  loop reads bytes, an echo or a stop of a broadcast uses a write up, `OnSend` shortens a
  send buffer; everything else is one statement further.

  Proved, for every run that posts on sockets of the completion port only, torn down
  sessions and failed calls included: with no new connection, no new bytes and no call of
  the application, whichever thread runs next and whichever operation completes, the
  server settles: no statement is left to run and no send is in flight, unless the process
  has ended (`the_server_comes_to_rest`).
-/

import Mathlib.Algebra.BigOperators.Group.Finset.Basic
import SigHolic.Base.Settling
import SigHolic.Network.Binding
import SigHolic.Network.Buffers
import SigHolic.Network.Origins
import SigHolic.Network.RecvStream

namespace SigHolic.Network

open SigHolic.Base.Tally SigHolic.Base.Settling SigHolic.Utility.Buffer SigHolic.Iocp SigHolic.Socket

namespace Stmt

def incoming : Stmt → Nat
  | .checkExpired j | .checkBound j | .takeSession j | .recvBranch _ j => if j.op.kind = .recv then j.transferred else 0
  | .onReceived _ j => j.transferred
  | _ => 0

def joins : Stmt → Nat
  | .newSession _ | .dequeueRecv _ _ | .bindRecv _ _ _ | .dequeueSend _ _ _ | .bindSend _ _ _ _ | .initializeSocket _ _ _
  | .addTcpClient _ _ _ => 1
  | _ => 0

/-- The calls of `WriteSendBuffer` a packet in hand can still make, with `joining` sessions about to join. -/
def writesLeft (registry : List Nat) (joining : Nat) : Stmt → Nat
  | .processPacket _ _ _ | .verifyFlag _ _ _ _ => registry.length + joining + 1
  | .bcastBegin _ _ _ _ => registry.length + joining
  | .bcastCheck _ _ _ _ client | .bcastWrite _ _ _ _ client =>
    (TcpSessionManager.ahead registry client).length + joining + 1
  | .bcastFlush _ _ _ _ client | .bcastNext _ _ _ _ client => (TcpSessionManager.ahead registry client).length + joining
  | .echo _ _ _ _ => 1
  | _ => 0

def flightEffort : Nat := 11

/-- More than the efforts of the statements it pushes and the operation it posts, as long as nothing is read, written or
    acknowledged. -/
def effort : Stmt → Nat
  | .setClosing _ | .getSocket _ | .onSend _ _ | .bcastWrite _ _ _ _ _ | .echo _ _ _ _ => 1
  | .close _ | .sendBranch _ _ | .bcastCheck _ _ _ _ _ => 2
  | .enqueueSend _ _ => 3
  | .unbindSend _ => 4
  | .enqueueRecv _ _ => 5
  | .unbindRecv _ => 6
  | .removeTcpClient _ => 7
  | .closeSession _ => 8
  | .flushSendBuffer _ | .firstRecv _ _ => flightEffort + 1
  | .sendNext _ _ | .bindSocket _ _ _ => flightEffort + 2
  | .recvAsync _ _ | .addTcpClient _ _ _ => flightEffort + 3
  | .recvNext _ _ | .initializeSocket _ _ _ => flightEffort + 4
  | .bindSend _ _ _ _ => flightEffort + 5
  | .dequeueSend _ _ _ => flightEffort + 6
  | .bindRecv _ _ _ => flightEffort + 7
  | .dequeueRecv _ _ => flightEffort + 8
  | .newSession _ => flightEffort + 9
  | .processLoop _ _ => 2 * flightEffort + 6
  | .loopTail _ _ | .tryProcessPacket _ _ => 2 * flightEffort + 7
  | .bcastNext _ _ _ _ _ | .bcastBegin _ _ _ _ | .onReceived _ _ => 2 * flightEffort + 8
  | .verifyFlag _ _ _ _ => 2 * flightEffort + 10
  | .processPacket _ _ _ => 2 * flightEffort + 13
  | .bcastFlush _ _ _ _ _ => 3 * flightEffort + 10
  -- a send's completion does not get to `OnReceived`
  | .recvBranch _ j => if j.op.kind = .recv then 2 * flightEffort + 9 else 3
  | .takeSession j => if j.op.kind = .recv then 2 * flightEffort + 10 else 4
  | .checkBound j => if j.op.kind = .recv then 2 * flightEffort + 11 else 9
  | .checkExpired j => if j.op.kind = .recv then 2 * flightEffort + 12 else 10

end Stmt

namespace Server

/-! ## Sums over the sessions -/

def total (f : TcpClient → Nat) (s : Server) : Nat := ∑ c ∈ Finset.range s.nextClient, f (s.clients c)

theorem total_same {f : TcpClient → Nat} {s s' : Server} (hn : s'.nextClient = s.nextClient)
    (h : ∀ c, f (s'.clients c) = f (s.clients c)) : total f s' = total f s := by
  unfold total
  rw [hn]
  exact Finset.sum_congr rfl fun c _ => h c

/-- One session has changed. -/
theorem total_changed {f : TcpClient → Nat} {s s' : Server} (hn : s'.nextClient = s.nextClient) {c : Nat}
    (hc : c < s.nextClient)
    (h : ∀ d, d ≠ c → f (s'.clients d) = f (s.clients d)) :
    total f s' + f (s.clients c) = total f s + f (s'.clients c) := by
  have hmem : c ∈ Finset.range s.nextClient := Finset.mem_range.mpr hc
  unfold total
  rw [hn, ← Finset.add_sum_erase _ _ hmem, ← Finset.add_sum_erase _ (fun d => f (s.clients d)) hmem]
  have hrest : ∑ d ∈ (Finset.range s.nextClient).erase c, f (s'.clients d) =
      ∑ d ∈ (Finset.range s.nextClient).erase c, f (s.clients d) :=
    Finset.sum_congr rfl fun d hd => h d (Finset.ne_of_mem_erase hd)
  rw [hrest]
  omega

/-- A new session adds nothing. -/
theorem total_newSession {f : TcpClient → Nat} (h : f .new = 0) (s : Server) (wsa : Bool) (socket : Nat) :
    total f (s.exec wsa (.newSession socket)).1 = total f s := by
  unfold total
  simp only [exec, newClient, Finset.sum_range_succ, Function.update_self, h, Nat.add_zero]
  refine Finset.sum_congr rfl fun c hc => ?_
  rw [Function.update_of_ne (Nat.ne_of_lt (Finset.mem_range.mp hc))]

/-! ## The receive buffers -/

def RecvLow (s : Server) : Prop := ∀ c, -2 ^ 31 ≤ (s.clients c).recvBuffer.length

theorem recvLow_step {s : Server} (h : RecvLow s) (e : Ev) : RecvLow (s.step e) := by
  intro d
  rcases step_clients s e d with he | he
  · rw [he]
    exact h d
  · generalize (s.step e).clients d = x at he ⊢
    cases he with
    | stored => exact h d
    | flushed => exact h d
    | written hw =>
      obtain ⟨b, rfl⟩ := TcpClient.writeSendBuffer_cases hw
      exact h d
    | ran ht hx =>
      cases hx with
      | made => show (-2 ^ 31 : Int) ≤ 0; decide
      | received => exact int32_ge _
      | read hw => exact (TcpClient.readPacket_shortens hw).2
      | echoed hw | broadcast hw =>
        obtain ⟨b, rfl⟩ := TcpClient.writeSendBuffer_cases hw
        exact h d
      | sent hw =>
        obtain ⟨b, rfl⟩ := TcpClient.onSend_cases hw
        exact h d
      | _ => exact h d

theorem recvLow {ok : Server → Ev → Prop} {s : Server} (h : Reach ok s) : RecvLow s :=
  h.invariant (P := RecvLow) (fun _ ⟨_, hn⟩ => hn ▸ fun _ => by show (-2 ^ 31 : Int) ≤ 0; decide)
    fun _ e hs _ => recvLow_step hs e

/-! ## What is left to do -/

def unreadBytes (s : Server) : Nat := total (fun x => x.recvBuffer.length.toNat) s + tally Stmt.incoming s.threads

def joining (s : Server) : Nat := tally Stmt.joins s.threads

def writesLeft (s : Server) : Nat := tally (Stmt.writesLeft s.registry s.joining) s.threads

def unsentBytes (s : Server) : Nat := total (fun x => x.sendBuffer.length.toNat) s

def effort (s : Server) : Nat := tally Stmt.effort s.threads + Stmt.flightEffort * s.inflight.length

def rank (s : Server) : Rank := .mk s.unreadBytes s.writesLeft s.unsentBytes s.effort

/-! ## What one statement does to it -/

variable {s : Server} {t : Nat} {i : Stmt} {st : List Stmt}

theorem run_inflight (wsa : Bool) (ht : s.threads[t]? = some (i :: st)) :
    (s.run t wsa).inflight = (s.exec wsa i).1.inflight := by
  simp only [run, ht, setThread]

theorem run_clients (wsa : Bool) (ht : s.threads[t]? = some (i :: st)) (c : Nat) :
    (s.run t wsa).clients c = (s.exec wsa i).1.clients c := by
  simp only [run, ht, setThread]

theorem total_run (f : TcpClient → Nat) (wsa : Bool) (ht : s.threads[t]? = some (i :: st)) :
    total f (s.run t wsa) = total f (s.exec wsa i).1 := by
  refine total_same (run_fields wsa ht).nextClient fun c => ?_
  rw [run_clients wsa ht]

/-- Received bytes are handed on up to `OnReceived`, which a send's completion does not get to. -/
theorem exec_incoming (hr : Rooted s) (wsa : Bool) (hi : s.Has i) : weight Stmt.incoming (s.exec wsa i).2 ≤ i.incoming := by
  cases i with
  | recvBranch c j =>
    simp only [exec]
    split
    · rename_i hg
      have hk := hr.kind_of_structure hi rfl (show s.structureOf c .recv = some j.op.io from hg.1)
      simp [Stmt.incoming, hk]
    · simp [Stmt.incoming]
  | _ =>
    simp only [exec]
    (repeat' split) <;> simp [Stmt.incoming]

theorem newSession_total {f : TcpClient → Nat} (h : f .new = 0) {socket : Nat} (wsa : Bool)
    (ht : s.threads[t]? = some (.newSession socket :: st)) : total f (s.run t wsa) = total f s := by
  rw [total_run f wsa ht, total_newSession h]

/-- The statement has changed one session. -/
theorem run_total {f : TcpClient → Nat} {c : Nat} (wsa : Bool) (ht : s.threads[t]? = some (i :: st))
    (hn : ∀ socket, i ≠ .newSession socket) (hc : c < s.nextClient)
    (h : ∀ d, d ≠ c → (s.exec wsa i).1.clients d = s.clients d) :
    total f (s.run t wsa) + f (s.clients c) = total f s + f ((s.exec wsa i).1.clients c) := by
  rw [total_run f wsa ht]
  exact total_changed (exec_nextClient s wsa hn) hc fun d hd => by rw [h d hd]

/-- Bytes come into the receive buffers by `OnReceived` only, and leave them by being read. -/
theorem unread_run (hr : Rooted s) (ha : Actors s) (hlow : RecvLow s) (wsa : Bool) (ht : s.threads[t]? = some (i :: st)) :
    (s.run t wsa).unreadBytes ≤ s.unreadBytes := by
  have htally := tally_run Stmt.incoming wsa ht
  have hpushed := exec_incoming hr wsa (has_top ht)
  unfold unreadBytes
  by_cases hn : ∃ socket, i = .newSession socket
  · obtain ⟨socket, rfl⟩ := hn
    rw [newSession_total rfl wsa ht]
    omega
  have hne : ∀ socket, i ≠ .newSession socket := fun socket he => hn ⟨socket, he⟩
  by_cases hrecv : ∃ c j, i = .onReceived c j
  · obtain ⟨c, j, rfl⟩ := hrecv
    have hchanged := run_total (f := fun x => x.recvBuffer.length.toNat) wsa ht hne (ha.actor _ (has_top ht) c rfl)
      fun d hd => withClient_ne _ _ hd
    have hlen : ((s.exec wsa (.onReceived c j)).1.clients c).recvBuffer.length =
        int32 ((s.clients c).recvBuffer.length + j.transferred) := by
      simp only [exec, withClient_same]
      rfl
    have hc := hlow c
    have hle : int32 ((s.clients c).recvBuffer.length + j.transferred) ≤ (s.clients c).recvBuffer.length + j.transferred :=
      int32_le (by omega)
    simp only [hlen] at hchanged
    simp only [exec, weight_cons, weight_nil, Stmt.incoming] at htally
    omega
  by_cases hloop : ∃ c j, i = .processLoop c j
  · obtain ⟨c, j, rfl⟩ := hloop
    have hchanged := run_total (f := fun x => x.recvBuffer.length.toNat) wsa ht hne (ha.actor _ (has_top ht) c rfl)
      fun d hd => by
        simp only [exec]
        split
        · rfl
        · rfl
        · exact withClient_ne _ _ hd
    have hle : ((s.exec wsa (.processLoop c j)).1.clients c).recvBuffer.length.toNat ≤
        (s.clients c).recvBuffer.length.toNat := by
      simp only [exec]
      split
      · exact le_refl _
      · exact le_refl _
      · rename_i hw
        rw [withClient_same]
        exact (TcpClient.readPacket_shortens hw).1.le
    omega
  have hfills : i.fills = false := by
    cases i with
    | newSession socket => exact absurd rfl (hne socket)
    | onReceived c j => exact absurd ⟨c, j, rfl⟩ hrecv
    | processLoop c j => exact absurd ⟨c, j, rfl⟩ hloop
    | _ => rfl
  rw [total_run _ wsa ht, total_same (exec_nextClient s wsa hne) fun c => by rw [exec_recvBuffer s wsa hfills]]
  omega

/-- A packet read is gone from the bytes to read. -/
theorem unread_read (ha : Actors s) {c : Nat} {j : Completion} (wsa : Bool)
    (ht : s.threads[t]? = some (.processLoop c j :: st)) {packet : Packet} {x : TcpClient}
    (hw : (s.clients c).readPacket = .ok (some (packet, x))) : (s.run t wsa).unreadBytes < s.unreadBytes := by
  have htally := tally_run Stmt.incoming wsa ht
  have hchanged := run_total (f := fun x => x.recvBuffer.length.toNat) wsa ht (by simp) (ha.actor _ (has_top ht) c rfl)
    fun d hd => by
      simp only [exec, hw]
      exact withClient_ne _ _ hd
  have hlt := (TcpClient.readPacket_shortens hw).1
  simp only [exec, hw, withClient_same, weight_cons, weight_nil, Stmt.incoming] at hchanged htally
  unfold unreadBytes
  omega

/-! The writes left. -/

theorem exec_joins (s : Server) (wsa : Bool) (i : Stmt) : weight Stmt.joins (s.exec wsa i).2 ≤ i.joins := by
  cases i <;> simp only [exec] <;> (repeat' split) <;> simp [Stmt.joins]

theorem joining_run (wsa : Bool) (ht : s.threads[t]? = some (i :: st)) : (s.run t wsa).joining ≤ s.joining := by
  have htally := tally_run Stmt.joins wsa ht
  have hpushed := exec_joins s wsa i
  unfold joining
  omega

theorem writesLeft_mono {registry registry' : List Nat} {n n' : Nat} (hlen : registry'.length + n' ≤ registry.length + n)
    (hahead : ∀ c, (TcpSessionManager.ahead registry' c).length + n' ≤ (TcpSessionManager.ahead registry c).length + n)
    (x : Stmt) : x.writesLeft registry' n' ≤ x.writesLeft registry n := by
  cases x with
  | bcastCheck c j k packet client | bcastWrite c j k packet client | bcastFlush c j k packet client
  | bcastNext c j k packet client =>
    have := hahead client
    simp only [Stmt.writesLeft]
    omega
  | _ =>
    simp only [Stmt.writesLeft]
    omega

theorem exec_registry (s : Server) (wsa : Bool) {i : Stmt} (ha : ∀ c o socket, i ≠ .addTcpClient c o socket)
    (hr : ∀ c, i ≠ .removeTcpClient c) : (s.exec wsa i).1.registry = s.registry := by
  cases hp : i.plain with
  | true => exact (exec_plain s wsa hp).registry
  | false =>
  cases i with
  | addTcpClient c o socket => exact absurd rfl (ha c o socket)
  | removeTcpClient c => exact absurd rfl (hr c)
  | newSession | bindRecv | bindSend | initializeSocket | closeSession | enqueueRecv | enqueueSend => rfl
  | dequeueRecv | dequeueSend | unbindRecv | unbindSend =>
    simp only [exec]
    split <;> rfl
  | _ => cases hp

/-- With the registry as it is after the statement, no statement has more writes left than before. -/
theorem writesLeft_run (wsa : Bool) (ht : s.threads[t]? = some (i :: st)) (x : Stmt) :
    x.writesLeft (s.run t wsa).registry (s.run t wsa).joining ≤ x.writesLeft s.registry s.joining := by
  have hjoin := joining_run wsa ht
  have hreg := (run_fields wsa ht).registry
  by_cases hadd : ∃ c o socket, i = .addTcpClient c o socket
  · obtain ⟨c, o, socket, rfl⟩ := hadd
    have htally := tally_run Stmt.joins wsa ht
    simp only [exec, weight_cons, weight_nil, Stmt.joins] at htally
    have hone : (s.run t wsa).joining + 1 = s.joining := by
      unfold joining
      omega
    have hreg' : (s.run t wsa).registry = TcpSessionManager.addTcpClient s.registry c := hreg
    rw [hreg']
    refine writesLeft_mono ?_ ?_ x
    · have hle := List.length_filter_le (fun y => decide (y ≠ c)) s.registry
      simp only [TcpSessionManager.addTcpClient, List.length_append, List.length_singleton]
      omega
    · intro d
      have := TcpSessionManager.ahead_add s.registry d c
      omega
  by_cases hremove : ∃ c, i = .removeTcpClient c
  · obtain ⟨c, rfl⟩ := hremove
    have hreg' : (s.run t wsa).registry = TcpSessionManager.removeTcpClient s.registry c := hreg
    rw [hreg']
    refine writesLeft_mono ?_ ?_ x
    · have hle := List.length_filter_le (fun y => decide (y ≠ c)) s.registry
      simp only [TcpSessionManager.removeTcpClient]
      omega
    · intro d
      have := TcpSessionManager.ahead_remove s.registry d c
      omega
  · have hsame := exec_registry s wsa (fun c o socket he => hadd ⟨c, o, socket, he⟩) fun c he => hremove ⟨c, he⟩
    rw [hreg, hsame]
    exact writesLeft_mono (by omega) (fun d => by omega) x

def Stmt.usesWrite (s : Server) : Stmt → Bool
  | .echo _ _ _ _ | .bcastWrite _ _ _ _ _ => true
  | .bcastCheck _ _ _ _ client => !(s.clients client).isValid
  | _ => false

theorem exec_writes (hnd : s.registry.Nodup) (n : Nat) (wsa : Bool)
    (hl : ∀ c j, i = .processLoop c j → (s.clients c).readPacket = .ok none) :
    weight (Stmt.writesLeft s.registry n) (s.exec wsa i).2 + (if Stmt.usesWrite s i then 1 else 0) ≤
      i.writesLeft s.registry n := by
  cases i with
  | processLoop c j => simp [exec, hl c j rfl, Stmt.usesWrite, Stmt.writesLeft]
  | bcastNext c j k packet client =>
    simp only [exec]
    split
    · simp [Stmt.usesWrite]
    · simp [Stmt.usesWrite, Stmt.writesLeft]
    · rename_i client' hnext
      have hahead := TcpSessionManager.ahead_next hnd hnext
      simp only [weight_cons, weight_nil, Stmt.usesWrite, Stmt.writesLeft, Bool.false_eq_true, if_false]
      omega
  | bcastBegin c j k packet =>
    simp only [exec]
    cases hr : s.registry with
    | nil => simp [Stmt.usesWrite, Stmt.writesLeft]
    | cons x xs =>
      have hhead := TcpSessionManager.ahead_head x xs
      simp only [List.head?_cons, weight_cons, weight_nil, Stmt.usesWrite, Stmt.writesLeft, Bool.false_eq_true, if_false]
      omega
  | bcastCheck c j k packet client =>
    simp only [exec]
    cases hv : (s.clients client).isValid <;> split <;> simp [Stmt.usesWrite, Stmt.writesLeft, hv]
  | _ =>
    simp only [exec]
    (repeat' split) <;> simp_all [Stmt.usesWrite, Stmt.writesLeft]

/-- Only a packet read brings writes; a write, or a session passed over, uses one up. -/
theorem writes_run (hnd : s.registry.Nodup) (wsa : Bool) (ht : s.threads[t]? = some (i :: st))
    (hl : ∀ c j, i = .processLoop c j → (s.clients c).readPacket = .ok none) :
    (s.run t wsa).writesLeft + (if Stmt.usesWrite s i then 1 else 0) ≤ s.writesLeft := by
  have htally := tally_run (Stmt.writesLeft s.registry s.joining) wsa ht
  have hpushed := exec_writes hnd s.joining wsa hl
  have hmono := tally_mono (writesLeft_run wsa ht) (s.run t wsa).threads
  unfold writesLeft
  omega

/-! The bytes to send. -/

def Stmt.buffering : Stmt → Bool
  | .echo _ _ _ _ | .bcastWrite _ _ _ _ _ | .onSend _ _ => true
  | _ => false

theorem unsent_run (wsa : Bool) (ht : s.threads[t]? = some (i :: st)) (hb : Stmt.buffering i = false) :
    (s.run t wsa).unsentBytes = s.unsentBytes := by
  unfold unsentBytes
  by_cases hn : ∃ socket, i = .newSession socket
  · obtain ⟨socket, rfl⟩ := hn
    exact newSession_total rfl wsa ht
  · have hne : i.buffers = false := by
      cases i with
      | newSession socket => exact absurd ⟨socket, rfl⟩ hn
      | _ => first | rfl | cases hb
    rw [total_run _ wsa ht]
    refine total_same (exec_nextClient s wsa fun socket he => hn ⟨socket, he⟩) fun c => ?_
    rw [exec_sendBuffer s wsa hne]

/-- `OnSend` acknowledges something, or throws. -/
theorem unsent_acknowledged (ha : Actors s) (hok : SendOk s) {c : Nat} {j : Completion} (wsa : Bool)
    (ht : s.threads[t]? = some (.onSend c j :: st)) :
    (s.run t wsa).crashed ≠ none ∨ (s.run t wsa).unsentBytes < s.unsentBytes := by
  have hpos := ha.brought _ (has_top ht) j rfl
  rcases hw : (s.clients c).onSend j.transferred with f | x
  · left
    simp [run, ht, exec, hw, crash, setThread]
  · right
    obtain ⟨hle, b, rfl, hbok, hb⟩ := onSend_taken (hok c) hw
    have hchanged := run_total (f := fun x => x.sendBuffer.length.toNat) wsa ht (by simp) (ha.actor _ (has_top ht) c rfl)
      fun d hd => by
        simp only [exec, hw]
        exact withClient_ne _ _ hd
    have h1 := PulledBuffer.length_contents (hok c)
    have h2 := PulledBuffer.length_contents hbok
    rw [hb, List.length_drop] at h2
    have hx : ((s.exec wsa (.onSend c j)).1.clients c).sendBuffer = b := by
      simp only [exec, hw]
      exact congrArg TcpClient.sendBuffer (withClient_same _ _ _)
    simp only [hx] at hchanged
    unfold unsentBytes
    omega

/-! The statements and operations. -/

/-- What a statement pushes is less effort, posts included, unless something is read, written or acknowledged. -/
theorem exec_effort (hr : Rooted s) (wsa : Bool) (hi : s.Has i) (hw : Stmt.usesWrite s i = false)
    (hs : ∀ c j, i ≠ .onSend c j) (hl : ∀ c j, i = .processLoop c j → (s.clients c).readPacket = .ok none) :
    weight Stmt.effort (s.exec wsa i).2 + (if i.posts then Stmt.flightEffort else 0) < i.effort := by
  have hf : Stmt.flightEffort = 11 := rfl
  cases i with
  | onSend c j => exact absurd rfl (hs c j)
  | processLoop c j =>
    simp only [exec, hl c j rfl, weight_cons, weight_nil, Stmt.effort, Stmt.posts]
    simp
    omega
  | recvBranch c j =>
    simp only [exec]
    split
    · rename_i hg
      have hk := hr.kind_of_structure hi rfl (show s.structureOf c .recv = some j.op.io from hg.1)
      simp [Stmt.effort, Stmt.posts, hk]
    · cases hk : j.op.kind <;> simp [Stmt.effort, Stmt.posts, hk, hf]
  | checkExpired j | checkBound j | takeSession j =>
    simp only [exec]
    cases hk : j.op.kind <;> split <;> simp [Stmt.effort, Stmt.posts, hk, hf]
  | bcastCheck c j k packet client =>
    have hv : (s.clients client).isValid = true := by simpa [Stmt.usesWrite] using hw
    simp only [exec]
    split <;> simp [Stmt.effort, Stmt.posts]
  | bcastFlush c j k packet client =>
    simp only [exec]
    split <;> simp [Stmt.effort, Stmt.posts, hf]
  | echo | bcastWrite => cases hw
  | _ =>
    simp only [exec]
    (repeat' split) <;> simp_all [Stmt.effort, Stmt.posts]

theorem exec_posts (s : Server) (wsa : Bool) (i : Stmt) :
    (s.exec wsa i).1.inflight.length ≤ s.inflight.length + (if i.posts then 1 else 0) := by
  cases hp : i.posts with
  | false => rw [exec_inflight s wsa hp]; simp
  | true =>
    cases i with
    | firstRecv c o =>
      simp only [exec]
      split
      · exact Nat.le_succ _
      · rename_i c' _
        rcases recvAsync_inflight s c' wsa with he | ⟨io, he, -⟩ <;> simp [he]
    | recvAsync c j =>
      rcases recvAsync_inflight s c wsa with he | ⟨io, he, -⟩ <;> simp [exec, he]
    | flushSendBuffer c =>
      rcases flushSendBuffer_inflight s c wsa with he | ⟨io, he, -⟩ <;> simp [exec, he]
    | _ => cases hp

theorem effort_run (hr : Rooted s) (wsa : Bool) (ht : s.threads[t]? = some (i :: st)) (hw : Stmt.usesWrite s i = false)
    (hs : ∀ c j, i ≠ .onSend c j) (hl : ∀ c j, i = .processLoop c j → (s.clients c).readPacket = .ok none) :
    (s.run t wsa).effort < s.effort := by
  have htally := tally_run Stmt.effort wsa ht
  have hpushed := exec_effort hr wsa (has_top ht) hw hs hl
  have hposts := exec_posts s wsa i
  have hf : Stmt.flightEffort = 11 := rfl
  unfold effort
  rw [run_inflight wsa ht]
  split at hposts <;> simp_all <;> omega

/-- A statement leaves less to do, or ends the process. -/
theorem rank_run (hr : Rooted s) (ha : Actors s) (hlow : RecvLow s) (hok : SendOk s) (hnd : s.registry.Nodup) (wsa : Bool)
    (ht : s.threads[t]? = some (i :: st)) : (s.run t wsa).crashed ≠ none ∨ Rank.Less (s.run t wsa).rank s.rank := by
  have hunread := unread_run hr ha hlow wsa ht
  by_cases hloop : ∃ c j, i = .processLoop c j ∧ (s.clients c).readPacket ≠ .ok none
  · obtain ⟨c, j, rfl, hne⟩ := hloop
    rcases hw : (s.clients c).readPacket with f | packet
    · left
      simp [run, ht, exec, hw, crash, setThread]
    · rcases packet with _ | ⟨packet, x⟩
      · exact absurd hw hne
      · exact Or.inr (Rank.less (Or.inl (unread_read ha wsa ht hw)))
  have hnone : ∀ c j, i = .processLoop c j → (s.clients c).readPacket = .ok none := by
    intro c j he
    by_contra hne
    exact hloop ⟨c, j, he, hne⟩
  have hwrites := writes_run hnd wsa ht hnone
  cases hw : Stmt.usesWrite s i with
  | true =>
    rw [hw, if_pos rfl] at hwrites
    exact Or.inr (Rank.less (Or.inr ⟨hunread, Or.inl hwrites⟩))
  | false =>
  by_cases hsend : ∃ c j, i = .onSend c j
  · obtain ⟨c, j, rfl⟩ := hsend
    rcases unsent_acknowledged ha hok wsa ht with hcrash | hlt
    · exact Or.inl hcrash
    · exact Or.inr (Rank.less (Or.inr ⟨hunread, Or.inr ⟨by omega, Or.inl hlt⟩⟩))
  · have hne : ∀ c j, i ≠ .onSend c j := fun c j he => hsend ⟨c, j, he⟩
    have hbuffering : Stmt.buffering i = false := by
      cases i with
      | echo | bcastWrite => cases hw
      | onSend c j => exact absurd rfl (hne c j)
      | _ => rfl
    have heffort := effort_run hr wsa ht hw hne hnone
    exact Or.inr (Rank.less (Or.inr ⟨hunread,
        Or.inr ⟨by omega, Or.inr ⟨(unsent_run wsa ht hbuffering).le, heffort⟩⟩⟩))

/-! ## What a completion does to it -/

def Result.barren : Result → Bool
  | .received data => data.isEmpty
  | _ => true

theorem branch_efforts {op : IoOp} {r : Result} (hb : branch op r = some st) (hr : Result.barren r = true) :
    weight Stmt.incoming st = 0 ∧ weight Stmt.joins st = 0 ∧ (∀ registry n, weight (Stmt.writesLeft registry n) st = 0) ∧
      weight Stmt.effort st < Stmt.flightEffort := by
  rcases branch_cases hb with ⟨-, rfl | rfl⟩ | ⟨hempty, n, rfl, -, ⟨data, rfl, -, -⟩ | ⟨-, hk⟩⟩
  · simp [failedBranch, Stmt.incoming, Stmt.joins, Stmt.writesLeft, Stmt.effort, Stmt.flightEffort]
  · simp [failedBranch, Stmt.incoming, Stmt.joins, Stmt.writesLeft, Stmt.effort, Stmt.flightEffort]
  · have hnil : data = [] := by simpa [Result.barren] using hr
    simp [Result.empty, hnil] at hempty
  · simp [Stmt.incoming, Stmt.joins, Stmt.writesLeft, Stmt.effort, Stmt.flightEffort, hk]

theorem land_total (s : Server) (op : IoOp) (r : Result) :
    total (fun x => x.recvBuffer.length.toNat) (s.land op r) = total (fun x => x.recvBuffer.length.toNat) s ∧
      (s.land op r).unsentBytes = s.unsentBytes := by
  have hn : (s.land op r).nextClient = s.nextClient := by cases r <;> rfl
  refine ⟨total_same hn fun c => ?_, total_same hn fun c => ?_⟩
  · rcases land_clients s op r c with he | ⟨data, -, -, he⟩ <;> rw [he]
    rfl
  · rw [land_sendBuffer]

/-- A completion that brings no bytes leaves less to do. -/
theorem rank_dispatch {t i : Nat} {r : Result} {op : IoOp} (hi : s.inflight[i]? = some op) (h0 : 0 < t)
    (ht : s.threads[t]? = some []) (hb : branch op r = some st) (hr : Result.barren r = true) :
    Rank.Less (s.dispatch t i r).rank s.rank := by
  have hd : s.dispatch t i r = { (s.land op r).setThread t st with inflight := s.inflight.eraseIdx i } := by
    simp [dispatch, h0, idle_iff.mpr ht, hi, hb]
  obtain ⟨hin, hjoin, hwr, heff⟩ := branch_efforts hb hr
  obtain ⟨hrecv, hsend⟩ := land_total s op r
  have hset : ∀ f : Stmt → Nat, tally f (s.dispatch t i r).threads = tally f s.threads + weight f st := by
    intro f
    have hthreads : (s.dispatch t i r).threads = s.threads.set t st := by
      rw [hd]
      simp only [setThread, land_threads]
    have := tally_set f ht st
    rw [weight_nil] at this
    rw [hthreads]
    omega
  have hjoining : (s.dispatch t i r).joining = s.joining := by
    unfold joining
    rw [hset, hjoin, Nat.add_zero]
  have hreg : (s.dispatch t i r).registry = s.registry := (quiet_dispatch s t i r).registry
  have h1 : (s.dispatch t i r).unreadBytes = s.unreadBytes := by
    unfold unreadBytes
    rw [hset, hin, Nat.add_zero, ← hrecv, hd]
    rfl
  have h2 : (s.dispatch t i r).writesLeft = s.writesLeft := by
    unfold writesLeft
    rw [hjoining, hreg, hset, hwr, Nat.add_zero]
  have h3 : (s.dispatch t i r).unsentBytes = s.unsentBytes := by
    rw [← hsend, hd]
    rfl
  have hlen : (s.dispatch t i r).inflight.length + 1 = s.inflight.length := by
    have hlt := (List.getElem?_eq_some_iff.mp hi).1
    rw [hd]
    show (s.inflight.eraseIdx i).length + 1 = _
    rw [List.length_eraseIdx_of_lt hlt]
    omega
  have h4 : (s.dispatch t i r).effort < s.effort := by
    unfold effort
    rw [hset, ← hlen, Nat.mul_add]
    omega
  exact Rank.less (Or.inr ⟨h1.le, Or.inr ⟨h2.le, Or.inr ⟨h3.le, h4⟩⟩⟩)

/-! ## Coming to rest -/

/-- A thread has a statement to run, or a send is in flight that a worker can see to its end. -/
def Owed (s : Server) : Ev → Prop
  | .run t _ => ∃ i st, s.threads[t]? = some (i :: st)
  | .dispatch t i (.sent n) => 0 < t ∧ s.threads[t]? = some [] ∧ 0 < n ∧ ∃ op, s.inflight[i]? = some op ∧
      op.kind = .send ∧ n ≤ op.buf.len
  | _ => False

/-- A thread runs, or a worker takes a completion on that brings no bytes: what is sent, closed or failed. -/
def Unfed (s : Server) : Ev → Prop
  | .run t _ => ∃ i st, s.threads[t]? = some (i :: st)
  | .dispatch t i r => 0 < t ∧ s.threads[t]? = some [] ∧ Result.barren r = true ∧
      ∃ op, s.inflight[i]? = some op ∧ branch op r ≠ none
  | _ => False

def Rested (s : Server) : Prop := (∀ st ∈ s.threads, st = []) ∧ ∀ op ∈ s.inflight, op.kind = .recv

instance (s : Server) : Decidable (Rested s) :=
  inferInstanceAs (Decidable ((∀ st ∈ s.threads, st = []) ∧ ∀ op ∈ s.inflight, op.kind = .recv))

theorem threads_length (s : Server) (e : Ev) : (s.step e).threads.length = s.threads.length := by
  rcases threads_step s e with
    he | ⟨_, -, -, he⟩ | ⟨_, _, _, _, _, -, -, -, -, -, -, he⟩ | ⟨_, _, _, _, -, -, -, he⟩ <;> simp [he]

theorem unfed_rank (h : Reach (fun _ _ => True) s) (hc : s.crashed = none) {e : Ev} (he : s.Unfed e) :
    (s.step e).crashed ≠ none ∨ Rank.Less (s.step e).rank s.rank := by
  rw [step_eq hc]
  cases e with
  | run t wsa =>
    obtain ⟨i, st, ht⟩ := he
    exact rank_run (rooted h) (actors h) (recvLow h) (sendOk h) (equipped h).nodup wsa ht
  | dispatch t i r =>
    obtain ⟨h0, ht, hr, op, hi, hb⟩ := he
    obtain ⟨st, hb⟩ := Option.ne_none_iff_exists'.mp hb
    exact Or.inr (rank_dispatch hi h0 ht hb hr)
  | _ => exact he.elim

theorem owed_of_not_rested (h : Reach (fun _ _ => True) s) (hw : 1 < s.threads.length) (hr : ¬ s.Rested) : ∃ e, s.Owed e := by
  by_cases hbusy : ∃ st ∈ s.threads, st ≠ []
  · obtain ⟨st, hst, hne⟩ := hbusy
    obtain ⟨t, ht⟩ := List.mem_iff_getElem?.mp hst
    obtain ⟨i, st', rfl⟩ := List.exists_cons_of_ne_nil hne
    exact ⟨.run t true, i, st', ht⟩
  · have hidle : ∀ st ∈ s.threads, st = [] := by
      intro st hst
      by_contra hne
      exact hbusy ⟨st, hst, hne⟩
    have hsend : ∃ op ∈ s.inflight, op.kind ≠ .recv := by
      by_contra hnone
      push Not at hnone
      exact hr ⟨hidle, hnone⟩
    obtain ⟨op, hop, hk⟩ := hsend
    obtain ⟨i, hi⟩ := List.mem_iff_getElem?.mp hop
    have hks : op.kind = .send := by
      cases hkind : op.kind with
      | recv => exact absurd hkind hk
      | send => rfl
    have hlen := (actors h).sending op hop hks
    refine ⟨.dispatch 1 i (.sent 1), by decide, ?_, by decide, op, hi, hks, by omega⟩
    rw [List.getElem?_eq_getElem hw]
    exact congrArg some (hidle _ (List.getElem_mem hw))

/-- It settles in a state it can reach. -/
theorem settles_at_rest (h : Reach (fun _ _ => True) s) (hw : 1 < s.threads.length) :
    Settles step Unfed Owed (fun s => (s.crashed ≠ none ∨ s.Rested) ∧ Reach (fun _ _ => True) s) s := by
  have hsettles : Settles step Unfed Owed (fun s => s.crashed ≠ none ∨ s.Rested) s := by
    refine settles_of_rank (I := fun s => Reach (fun _ _ => True) s ∧ 1 < s.threads.length) Rank.less_wf rank ?_ ?_ ⟨h, hw⟩
    · intro s hs hne
      exact owed_of_not_rested hs.1 hs.2 fun hr => hne (Or.inr hr)
    · intro s e hs hne he
      have hc : s.crashed = none := by
        by_contra hcr
        exact hne (Or.inl hcr)
      rcases unfed_rank hs.1 hc he with hcr | hlt
      · exact Or.inl (Or.inl hcr)
      · refine Or.inr ⟨⟨.step e hs.1 trivial, ?_⟩, hlt⟩
        rw [threads_length]
        exact hs.2
  exact hsettles.keeps (fun _ e hs _ => .step e hs trivial) h

/-- A step that posts nothing and binds no socket. -/
theorem bindful_of_quiet {e : Ev} (hb : s.misbinds e = false) (hr : s.receiving e = none) (hf : s.firstReceiving e = none)
    (hs : s.sending e = none) : Bindful s e := by
  unfold Bindful
  rw [hr, hf, hs]
  exact ⟨hb, rfl, rfl, rfl⟩

/-- What has to happen may happen with every binding made and every post refused. -/
theorem owed_bindful {e : Ev} (he : s.Owed e) : ∃ e', s.Owed e' ∧ Bindful s e' := by
  cases e with
  | run t wsa =>
    obtain ⟨i, st, ht⟩ := he
    by_cases hbind : ∃ c o socket, i = .bindSocket c o socket
    · obtain ⟨c, o, socket, rfl⟩ := hbind
      refine ⟨.run t true, ⟨_, st, ht⟩, bindful_of_quiet rfl ?_ ?_ ?_⟩
      · simp only [receiving, ht]
      · simp only [firstReceiving, ht]
      · simp only [sending, ht]
        rfl
    · refine ⟨.run t false, ⟨i, st, ht⟩, bindful_of_quiet ?_ rfl rfl rfl⟩
      simp only [misbinds, ht]
      split
      · rename_i heq
        cases heq
        exact absurd ⟨_, _, _, rfl⟩ hbind
      · rfl
  | dispatch t i r => exact ⟨.dispatch t i r, he, bindful_of_quiet rfl rfl rfl rfl⟩
  | _ => exact he.elim

/-- The server comes to rest, whatever it has been through: from every state it can reach while what is posted is posted on
    the port, with no new connection, no new bytes and no call of the application, whichever thread runs next and however
    whichever operation completes, no statement is left to run and no send in flight in the end, unless the process has
    ended. -/
theorem the_server_comes_to_rest (h : Reach Bindful s) (hw : 1 < s.threads.length) :
    Settles step (fun s e => s.Unfed e ∧ Bindful s e) (fun s e => s.Owed e ∧ Bindful s e)
      (fun s => s.crashed ≠ none ∨ s.Rested) s := by
  have hsettles := (settles_at_rest (h.mono fun _ _ _ => trivial) hw).mono fun _ hs => hs.1
  refine hsettles.restrict (I := Reach Bindful) ?_ ?_ h
  · intro s' e hr he
    exact ⟨he.1, .step e hr he.2⟩
  · rintro s' - ⟨e, he⟩
    exact owed_bindful he

/-- Two sessions; the first one's broadcast has reached one of them, and the other's receive has failed and is being handled. -/
def amidBroadcastRun : List Ev := List.flatten [
  [.accept 5], List.replicate 9 (.run 0 true), [.accept 6], List.replicate 9 (.run 0 true),
  [.dispatch 1 0 (.received [1, 0, 2, 0x55, 7])], List.replicate 13 (.run 1 true), [.dispatch 2 0 .failed, .run 2 true]]

theorem a_broadcast_comes_to_rest :
    ¬ Rested (amidBroadcastRun.foldl step (boot 2)) ∧
      Settles step (fun s e => s.Unfed e ∧ Bindful s e) (fun s e => s.Owed e ∧ Bindful s e)
        (fun s => s.crashed ≠ none ∨ s.Rested) (amidBroadcastRun.foldl step (boot 2)) := by
  refine ⟨?_, the_server_comes_to_rest (.run (.start ⟨2, rfl⟩) ?_) ?_⟩
  all_goals rw [boot_eq]; decide +kernel

end Server

end SigHolic.Network
