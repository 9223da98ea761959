/-
  SigHolic.Network.Echo — from the bytes a session receives to the bytes it sends back
  (`OnReceived` to `OnSend`, socket/TcpClient.cpp, as `WorkerThread` runs them).

  An echo run: every frame received asks for an echo, every completion transfers something,
  and every echo finds room. Nothing else is asked: any sessions, any workers, any order,
  any cuts on both sides.

  Proved: such a run is calm (`echoing`), so what was taken into a send buffer is what was
  handed on, and what was handed on is what left the receive buffer. Whenever no worker
  is inside a handler, acknowledged bytes, send buffer and receive buffer together are
  the bytes received; and a session's bytes move in its own steps only.
-/

import SigHolic.Network.RecvStream
import SigHolic.Network.SendStream

namespace SigHolic.Network

open SigHolic.Base.Area SigHolic.Base.Tally SigHolic.Utility.Buffer SigHolic.Iocp SigHolic.Socket

def IsEcho (packet : Packet) : Prop := packet.checkSum = 0x55 ∧ packet.flag = 0x01

instance (packet : Packet) : Decidable (IsEcho packet) := inferInstanceAs (Decidable (_ ∧ _))

namespace Stmt

def departs : Stmt → Bool
  | .getSocket _ | .close _ | .setClosing _ | .closeSession _ | .removeTcpClient _ | .unbindRecv _ | .enqueueRecv _ _
  | .unbindSend _ | .enqueueSend _ _ | .bcastBegin _ _ _ _ | .bcastCheck _ _ _ _ _ | .bcastWrite _ _ _ _ _
  | .bcastFlush _ _ _ _ _ | .bcastNext _ _ _ _ _ => true
  | _ => false

def packet : Stmt → Option Packet
  | .processPacket _ _ packet | .verifyFlag _ _ _ packet | .echo _ _ _ packet => some packet
  | _ => none

def verifies (c : Nat) : Stmt → List UInt8
  | .verifyFlag _ j _ packet | .echo _ j _ packet => if j.op.kind = .recv ∧ j.op.client = c then packet.frame else []
  | _ => []

def session : Stmt → Option Nat
  | .newSession _ | .closeSession _ => none
  | .dequeueRecv c _ | .bindRecv c _ _ | .dequeueSend c _ _ | .bindSend c _ _ _ | .initializeSocket c _ _
  | .addTcpClient c _ _ | .bindSocket c _ _ | .firstRecv c _ => some c
  | .getSocket op => some op.client
  | .checkExpired j | .checkBound j | .takeSession j => some j.op.client
  | .recvBranch c _ | .recvNext c _ | .recvAsync c _ | .sendBranch c _ | .onSend c _ | .sendNext c _ | .onReceived c _
  | .tryProcessPacket c _ | .processLoop c _ | .loopTail c _ | .processPacket c _ _ | .verifyFlag c _ _ _ | .echo c _ _ _
  | .bcastBegin c _ _ _ | .bcastCheck c _ _ _ _ | .bcastWrite c _ _ _ _ | .bcastFlush c _ _ _ _ | .bcastNext c _ _ _ _ => some c
  | .flushSendBuffer c | .close c | .setClosing c | .removeTcpClient c | .unbindRecv c | .enqueueRecv c _ | .unbindSend c
  | .enqueueSend c _ => some c

end Stmt

namespace Server

/-! ## Echo runs -/

/-- The completion transfers something, and the session has received echo frames only. -/
def Echoes (s : Server) (op : IoOp) : Result → Prop
  | .failed => False
  | .received data => data ≠ [] ∧ ∀ f ∈ frames (s.receivedBy op.client ++ data), IsEcho (.load f)
  | .sent n => 0 < n

instance (s : Server) (op : IoOp) : (r : Result) → Decidable (s.Echoes op r)
  | .failed => inferInstanceAs (Decidable False)
  | .received _ => inferInstanceAs (Decidable (_ ∧ _))
  | .sent _ => inferInstanceAs (Decidable (_ < _))

def writing (s : Server) : Ev → Option (Nat × Packet)
  | .run t _ =>
    match s.threads[t]? with
    | some (.echo c _ _ packet :: _) => some (c, packet)
    | _ => none
  | _ => none

/-- A step of an echo run: what completes has transferred echo frames only, an echo finds room,
    and the application does not write. -/
def Echo (s : Server) (e : Ev) : Prop :=
  (match e with
    | .dispatch _ i r => ∀ op ∈ s.inflight[i]?, s.Echoes op r
    | .write _ _ => False
    | _ => True) ∧
    ∀ q ∈ s.writing e, (s.clients q.1).Fits q.2

instance (s : Server) : (e : Ev) → Decidable (Echo s e)
  | .accept _ => inferInstanceAs (Decidable (True ∧ ∀ _ ∈ _, _))
  | .dispatch _ _ _ => inferInstanceAs (Decidable ((∀ _ ∈ _, _) ∧ ∀ _ ∈ _, _))
  | .run _ _ => inferInstanceAs (Decidable (True ∧ ∀ _ ∈ _, _))
  | .write _ _ => inferInstanceAs (Decidable (False ∧ ∀ _ ∈ _, _))
  | .flush _ _ => inferInstanceAs (Decidable (True ∧ ∀ _ ∈ _, _))

def verifying (s : Server) (c : Nat) : List UInt8 := gather (Stmt.verifies c) s.threads

structure Echoing (s : Server) : Prop where
  stays : ∀ c, (s.clients c).isClosing = false
  quiet : ∀ x, s.Has x → x.departs = false
  valid : ∀ c, ∀ f ∈ frames (s.receivedBy c), IsEcho (.load f)
  echoes : ∀ x, s.Has x → ∀ packet, x.packet = some packet → IsEcho packet
  written : ∀ c, (s.handedFrames c).flatten = s.taken c ++ s.verifying c

/-- Nobody is inside `CloseSession`, so no step tears a session down. -/
theorem Echoing.calm {s : Server} (h : Echoing s) (e : Ev) : Calm s e := by
  unfold Calm closing
  split
  · split
    · rename_i ht
      cases h.quiet _ (has_top ht)
    · rfl
  · rfl

theorem stays_step {s : Server} (h : Echoing s) (e : Ev) (c : Nat) : ((s.step e).clients c).isClosing = false := by
  rcases step_clients s e c with h1 | h1
  · rw [h1]; exact h.stays c
  generalize (s.step e).clients c = x at h1 ⊢
  cases h1 with
  | stored | flushed => exact h.stays c
  | written hw => obtain ⟨b, rfl⟩ := TcpClient.writeSendBuffer_cases hw; exact h.stays c
  | ran ht h1 =>
    have hq := h.quiet _ (has_top ht)
    cases h1 with
    | made hn => rfl
    | read hw => obtain ⟨b, n, rfl⟩ := TcpClient.readPacket_cases hw; exact h.stays c
    | echoed hw | broadcast hw => obtain ⟨b, rfl⟩ := TcpClient.writeSendBuffer_cases hw; exact h.stays c
    | sent hw => obtain ⟨b, rfl⟩ := TcpClient.onSend_cases hw; exact h.stays c
    | closed => cases hq
    | _ => exact h.stays c

/-- A frame copied to the start of an array has the packet's header. -/
theorem isEcho_load {packet : Packet} : IsEcho (.load packet.frame) ↔ IsEcho packet := by
  have hlen : 4 ≤ packet.frame.length := by rw [Packet.length_frame, Packet.size, packetHeaderSize]; omega
  have hat : ∀ i < 4, Packet.load packet.frame i = packet i := by
    intro i hi
    rw [load_apply (by omega)]
    simp [Packet.frame, slice]
  unfold IsEcho Packet.checkSum Packet.flag
  rw [hat 3 (by omega), hat 2 (by omega)]

/-- The packet the loop reads is the next frame of what the session received. -/
theorem read_isEcho {s : Server} (ha : Attributed s) (hk : Tokens s) (hr : RecvSide s) (hs : RecvStream s) (h : Echoing s)
    {t c : Nat} {j : Completion} {st : List Stmt} (ht : s.threads[t]? = some (.processLoop c j :: st)) {packet : Packet}
    {x : TcpClient} (hw : (s.clients c).readPacket = .ok (some (packet, x))) : IsEcho packet := by
  obtain ⟨-, rfl, hrecv⟩ := ha.sound _ (has_top ht)
  obtain ⟨-, hf, -⟩ := TcpClient.readPacket_took (hr.ok j.op.client) hw
  obtain ⟨h1, -⟩ := alone_at hk (c := j.op.client) true ht (by simp [Stmt.receives, hrecv])
  simp only [Stmt.landing, Stmt.arriving] at h1
  have hst : s.stored j.op.client = [] := by rw [stored]; exact h1 ▸ slice_zero _ _
  have hp := (hs.parsed j.op.client).handed
  rw [hst, List.append_nil, unread, hf] at hp
  exact isEcho_load.mp (h.valid j.op.client _ (by rw [hp]; simp))

/-- The branch a worker of an echo run takes for a completion. -/
theorem branch_echo {s : Server} {op : IoOp} {r : Result} (hr : s.Echoes op r) {st : List Stmt} (h : branch op r = some st) :
    ∃ n, st = [.checkExpired ⟨op, n⟩] := by
  rcases branch_cases h with ⟨he, -⟩ | ⟨-, n, rfl, -⟩
  · cases r with
    | failed => cases hr
    | received data => exact absurd (by simpa [Result.empty] using he) hr.1
    | sent n => exact absurd (by simpa [Result.empty] using he) (Nat.ne_of_gt hr)
  · exact ⟨n, rfl⟩

section Step

variable {s : Server} (hok : SendOk s) (ha : Attributed s) (hk : Tokens s) (hr : RecvSide s) (hs : RecvStream s)
  (h : Echoing s)

/-- An echo with room is written, and the loop goes on. -/
theorem exec_echo (hok : SendOk s) {t c : Nat} {wsa : Bool} {j : Completion} {k : Nat} {packet : Packet} {st : List Stmt}
    (ht : s.threads[t]? = some (.echo c j k packet :: st)) (he : Echo s (.run t wsa)) :
    (s.exec wsa (.echo c j k packet)).2 = [.loopTail c j] ∧
      s.noted (.echo c j k packet) = [.wrote (some (c, k)) c packet] := by
  have hf : (s.clients c).Fits packet := he.2 (c, packet) (by simp [writing, ht])
  obtain ⟨b, hw, -⟩ := write_taken (hok c) hf (some (c, k))
  obtain ⟨b', hw', -⟩ := TcpClient.write_fits (hok c) hf
  refine ⟨?_, ?_⟩
  · simp only [exec, hw]
    rw [if_neg (by omega)]
  · simp only [noted, wroteBy, hw']
    rw [if_neg (by omega)]

include hok ha hk hr hs h in
/-- What a statement of an echo run pushes. -/
theorem pushed_echo {t : Nat} {wsa : Bool} {i : Stmt} {st : List Stmt} (ht : s.threads[t]? = some (i :: st))
    (he : Echo s (.run t wsa)) {x : Stmt} (hx : x ∈ (s.exec wsa i).2) :
    x.departs = false ∧ ∀ packet, x.packet = some packet → IsEcho packet := by
  have hsound := ha.sound i (has_top ht)
  have hq := h.quiet i (has_top ht)
  have hecho := h.echoes i (has_top ht)
  cases i with
  | checkBound j =>
    simp only [exec, hsound.2, reduceCtorEq, if_false, List.mem_singleton] at hx
    subst hx
    simp [Stmt.departs, Stmt.packet]
  | recvNext c j =>
    simp only [exec, TcpClient.isValid, h.stays c, Bool.not_false, if_true, List.mem_singleton] at hx
    subst hx
    simp [Stmt.departs, Stmt.packet]
  | sendNext c j =>
    simp only [exec, TcpClient.isValid, h.stays c, Bool.not_false, if_true, List.mem_singleton] at hx
    subst hx
    simp [Stmt.departs, Stmt.packet]
  | processLoop c j =>
    simp only [exec] at hx
    split at hx
    · cases hx
    · simp only [List.mem_cons, List.not_mem_nil, or_false] at hx
      rcases hx with rfl | rfl <;> simp [Stmt.departs, Stmt.packet]
    · rename_i packet x' hw
      rw [List.mem_singleton] at hx
      subst hx
      refine ⟨rfl, fun p hp => ?_⟩
      cases hp
      exact read_isEcho ha hk hr hs h ht hw
  | processPacket c j packet =>
    have hp := hecho packet rfl
    simp only [exec, hp.1, if_true, List.mem_singleton] at hx
    subst hx
    exact ⟨rfl, fun p hp' => by cases hp'; exact hp⟩
  | verifyFlag c j k packet =>
    have hp := hecho packet rfl
    simp only [exec, hp.2, if_true, List.mem_singleton] at hx
    subst hx
    exact ⟨rfl, fun p hp' => by cases hp'; exact hp⟩
  | echo c j k packet =>
    rw [(exec_echo hok ht he).1, List.mem_singleton] at hx
    subst hx
    simp [Stmt.departs, Stmt.packet]
  | getSocket | close | setClosing | closeSession | removeTcpClient | unbindRecv | enqueueRecv | unbindSend | enqueueSend
  | bcastBegin | bcastCheck | bcastWrite | bcastFlush | bcastNext => cases hq
  | _ =>
    simp only [exec] at hx
    (repeat' split at hx) <;> simp only [List.mem_cons, List.not_mem_nil, or_false] at hx <;>
      (first | subst hx | rcases hx with rfl | rfl) <;> simp [Stmt.departs, Stmt.packet]

include hok ha hk hr hs h in
theorem has_echo {e : Ev} (he : Echo s e) {x : Stmt} (hx : (s.step e).Has x) :
    x.departs = false ∧ ∀ packet, x.packet = some packet → IsEcho packet := by
  rcases has_step hx with hx | ⟨socket, rfl⟩ | ⟨op, -, t, i, r, st, rfl, hop, hbr, hm⟩ |
      ⟨t, wsa, i, st, rfl, ht, -, hm⟩
  · exact ⟨h.quiet x hx, h.echoes x hx⟩
  · simp [Stmt.departs, Stmt.packet]
  · obtain ⟨n, rfl⟩ := branch_echo (he.1 op hop) hbr
    rw [List.mem_singleton] at hm
    subst hm
    simp [Stmt.departs, Stmt.packet]
  · exact pushed_echo hok ha hk hr hs h ht he hm

include h in
theorem valid_step {e : Ev} (he : Echo s e) (c : Nat) : ∀ f ∈ frames ((s.step e).receivedBy c), IsEcho (.load f) := by
  rcases receivedBy_step s e c with hrc | ⟨t, i, op, data, rfl, hop, rfl, hrc⟩
  · rw [hrc]; exact h.valid c
  · rw [hrc]; exact (he.1 op hop).2

omit hok ha hk hr hs h in
theorem written_same {s' : Server} {c : Nat} (h : (s.handedFrames c).flatten = s.taken c ++ s.verifying c) (new : List Obs)
    (hl : s'.log = s.log ++ new) (hn : ∀ x ∈ new, x.handedFrame c = [] ∧ x.takes c = [])
    (hv : s'.verifying c = s.verifying c) : (s'.handedFrames c).flatten = s'.taken c ++ s'.verifying c := by
  have h1 : new.flatMap (Obs.handedFrame c) = [] := List.flatMap_eq_nil_iff.mpr fun x hx => (hn x hx).1
  have h2 : new.flatMap (Obs.takes c) = [] := List.flatMap_eq_nil_iff.mpr fun x hx => (hn x hx).2
  simp only [handedFrames, taken] at h
  simp only [handedFrames, taken, hl, List.flatMap_append, h1, h2, List.append_nil, hv]
  exact h

theorem verifies_of_receives (c : Nat) {x : Stmt} (h : x.receives c = 0) : x.verifies c = [] := by
  cases x <;> simp_all [Stmt.receives, Stmt.verifies]

/-- With the session's receive at the top of a stack, what is being verified is there. -/
theorem verifying_at (hk : Tokens s) {t c : Nat} (wsa : Bool) {i : Stmt} {st : List Stmt}
    (ht : s.threads[t]? = some (i :: st)) (hi : i.receives c = 1) :
    s.verifying c = i.verifies c ∧ (s.run t wsa).verifying c = (s.exec wsa i).2.flatMap (Stmt.verifies c) := by
  have h1 : tally (Stmt.receives c) s.threads ≤ 1 := by
    have := hk.recv c
    unfold recvTokens at this; omega
  have hg := gather_alone (fun a => verifies_of_receives c (x := a)) ht h1 (by omega)
  refine ⟨hg.1, ?_⟩
  simp only [verifying, run, ht, setThread, exec_threads]
  exact hg.2 _

include hok ha hk h in
theorem written_run {t c : Nat} {wsa : Bool} {i : Stmt} {st : List Stmt} (ht : s.threads[t]? = some (i :: st))
    (he : Echo s (.run t wsa)) :
    ((s.run t wsa).handedFrames c).flatten = (s.run t wsa).taken c ++ (s.run t wsa).verifying c := by
  have hsound := ha.sound i (has_top ht)
  have hq := h.quiet i (has_top ht)
  have hw := h.written c
  have hl : (s.run t wsa).log = s.log ++ s.noted i := by
    simp only [run, ht]
    exact exec_log s wsa i
  -- a statement that pushes what it verified, and notes nothing
  have hsame : (∀ x ∈ s.noted i, x.handedFrame c = [] ∧ x.takes c = []) →
      (s.exec wsa i).2.flatMap (Stmt.verifies c) = i.verifies c →
      ((s.run t wsa).handedFrames c).flatten = (s.run t wsa).taken c ++ (s.run t wsa).verifying c := by
    intro hn hv
    refine written_same hw _ hl hn ?_
    simp only [verifying, run, ht, setThread, exec_threads]
    refine gather_set _ ht ?_
    rw [List.flatMap_append, List.flatMap_cons, hv]
  cases i with
  | processPacket c' j packet =>
    obtain ⟨-, hcl, hrecv⟩ := hsound
    have hp := h.echoes _ (has_top ht) packet rfl
    by_cases e : c = c'
    · subst e
      obtain ⟨h1, h2⟩ := verifying_at hk (c := c) wsa ht (by simp [Stmt.receives, hrecv, ← hcl])
      simp only [exec, hp.1, if_true, Stmt.verifies, hrecv, ← hcl, and_self, List.flatMap_cons, List.flatMap_nil,
        List.append_nil] at h1 h2
      rw [h1, List.append_nil] at hw
      rw [h2]
      simp only [handedFrames, taken] at hw
      simp [handedFrames, taken, hl, noted, Obs.handedFrame, Obs.takes, hw]
    · refine hsame ?_ ?_
      · simp [noted, Obs.handedFrame, Obs.takes, Ne.symm e]
      · simp [exec, hp.1, Stmt.verifies, ← hcl, Ne.symm e]
  | verifyFlag c' j k packet =>
    have hp := h.echoes _ (has_top ht) packet rfl
    exact hsame (by simp [noted]) (by simp [exec, hp.2, Stmt.verifies])
  | echo c' j k packet =>
    obtain ⟨-, hcl, hrecv⟩ := hsound
    obtain ⟨hpush, hnote⟩ := exec_echo hok ht he
    by_cases e : c = c'
    · subst e
      obtain ⟨h1, h2⟩ := verifying_at hk (c := c) wsa ht (by simp [Stmt.receives, hrecv, ← hcl])
      simp only [hpush, Stmt.verifies, hrecv, ← hcl, and_self, if_true, List.flatMap_cons, List.flatMap_nil,
        List.append_nil] at h1 h2
      rw [h1] at hw
      rw [h2]
      simp only [handedFrames, taken] at hw
      simp [handedFrames, taken, hl, hnote, Obs.handedFrame, Obs.takes, hw]
    · refine hsame ?_ ?_
      · simp [hnote, Obs.handedFrame, Obs.takes, Ne.symm e]
      · simp [hpush, Stmt.verifies, ← hcl, Ne.symm e]
  | getSocket | close | setClosing | closeSession | removeTcpClient | unbindRecv | enqueueRecv | unbindSend | enqueueSend
  | bcastBegin | bcastCheck | bcastWrite | bcastFlush | bcastNext => cases hq
  | _ =>
    refine hsame ?_ ?_
    · simp only [noted]
      (repeat' split) <;> simp [Obs.handedFrame, Obs.takes]
    · simp only [exec]
      (repeat' split) <;> simp [Stmt.verifies]

include hok ha hk h in
theorem written_step {e : Ev} (he : Echo s e) (c : Nat) :
    ((s.step e).handedFrames c).flatten = (s.step e).taken c ++ (s.step e).verifying c := by
  have hw := h.written c
  by_cases hc : s.crashed = none
  case neg => rw [step_crashed hc]; exact hw
  rw [step_eq hc]
  cases e with
  | accept socket =>
    rcases accept_cases s socket with hacc | ⟨h0, hth, -, -, hl, -⟩ <;> simp only [handle]
    · rw [hacc]; exact hw
    · refine written_same hw [] (by simp [hl]) (by simp) ?_
      simp only [verifying, hth]
      exact gather_set _ h0 (by simp [Stmt.verifies])
  | dispatch t i r =>
    rcases dispatch_cases s t i r with hd | ⟨op, st, -, h0, hop, hb, hd⟩
    · simp only [handle, hd]; exact hw
    · refine written_same hw _ (handle_log s _) ?_ ?_
      · intro x hx
        simp only [observed] at hx
        repeat' split at hx
        all_goals first
          | cases hx
          | (cases r <;> simp only [Server.landed, List.mem_singleton, List.not_mem_nil] at hx
             subst hx
             exact ⟨rfl, rfl⟩)
      · obtain ⟨n, rfl⟩ := branch_echo (he.1 op hop) hb
        simp only [handle, hd, verifying, setThread, land_threads]
        exact gather_set _ h0 (by simp [Stmt.verifies])
  | run t wsa =>
    simp only [handle]
    rcases ht : s.threads[t]? with _ | _ | ⟨i, st⟩
    · simp only [run, ht]; exact hw
    · simp only [run, ht]; exact hw
    · exact written_run hok ha hk h ht he
  | write c' packet => exact absurd he.1 id
  | flush c' wsa =>
    simp only [handle, flush]
    split
    · refine written_same hw [] (by rw [flushSendBuffer_rest]; simp) (by simp) ?_
      simp only [verifying, flushSendBuffer_threads]
    · exact hw

end Step

theorem echoing_boot (n : Nat) : Echoing (boot n) := by
  have h1 : ∀ c, (boot n).verifying c = [] := by
    intro c
    refine gather_eq_nil (f := Stmt.receives c) (fun a => verifies_of_receives c (x := a)) ?_
    exact tally_replicate (Stmt.receives c) (n + 1)
  refine ⟨fun _ => rfl, fun x hx => absurd hx (not_has_boot n x), fun c f hf => ?_,
    fun x hx => absurd hx (not_has_boot n x), fun c => ?_⟩
  · cases hf
  · rw [h1]; rfl

/-- An echo run is calm: nobody leaves. -/
theorem echoing {s : Server} (h : Reach Echo s) : Reach Calm s ∧ Echoing s := by
  refine h.invariant (P := fun s => Reach Calm s ∧ Echoing s) ?_ ?_
  · intro s hs
    obtain ⟨n, rfl⟩ := hs
    exact ⟨.start ⟨n, rfl⟩, echoing_boot n⟩
  · intro s e hinv he
    obtain ⟨hc, hs⟩ := hinv
    have ho := (calm hc).1
    have ha := attributed ho
    have hk := tokens ho
    have hh : ∀ x, (s.step e).Has x → x.departs = false ∧ ∀ packet, x.packet = some packet → IsEcho packet :=
      fun x hx => has_echo (sendOk ho) ha hk (recvSide (calm hc).1) (recvStream hc) hs he hx
    exact ⟨.step e hc (hs.calm e), stays_step hs e, fun x hx => (hh x hx).1, valid_step hs he, fun x hx => (hh x hx).2,
      written_step (sendOk ho) ha hk hs he⟩

/-! ## Whose bytes move -/

def acting (s : Server) : Ev → Option Nat
  | .accept _ => none
  | .dispatch _ i _ => s.inflight[i]?.map IoOp.client
  | .run t _ => (s.threads[t]?.bind List.head?).bind Stmt.session
  | .write c _ | .flush c _ => some c

/-- What a step acknowledges, it acknowledges for the session whose step it is. -/
theorem acknowledged_step {s : Server} {e : Ev} {d : Nat} (hd : s.acting e ≠ some d) :
    (s.step e).acknowledged d = s.acknowledged d := by
  by_cases hc : s.crashed = none
  case neg => rw [step_crashed hc]
  rw [step_eq hc]
  suffices hn : ∀ x ∈ s.observed e, x.acks d = [] by
    simp only [acknowledged, handle_log, List.flatMap_append, List.flatMap_eq_nil_iff.mpr hn, List.append_nil]
  intro x hx
  by_cases hacked : ∃ c data, x = .acked c data
  · obtain ⟨c, data, rfl⟩ := hacked
    obtain ⟨t, wsa, i, st, rfl, ht, hm⟩ := mem_observed hx (by simp) (by simp)
    cases i with
    | onSend c' j =>
      simp only [noted] at hm
      split at hm
      · cases hm
      · rw [List.mem_singleton] at hm
        cases hm
        simp only [acting, ht, Option.bind_some, List.head?_cons, Stmt.session, ne_eq, Option.some.injEq] at hd
        simp [Obs.acks, hd]
    | echo => cases mem_wroteBy hm
    | bcastWrite => cases mem_wroteBy (mem_noted_write hm)
    | _ =>
      simp only [noted] at hm
      (repeat' split at hm) <;> simp at hm
  · cases x with
    | acked c data => exact absurd ⟨c, data, rfl⟩ hacked
    | _ => rfl

/-- A session's buffers change in its own steps only. -/
theorem buffers_step {s : Server} (hs : SendStream s) (hr : RecvStream s) (h : Echoing s) {e : Ev} (he : Echo s e) {d : Nat}
    (hd : s.acting e ≠ some d) : (s.step e).unsent d = s.unsent d ∧ (s.step e).unread d = s.unread d := by
  unfold unsent unread
  rcases step_clients s e d with h1 | h1
  · rw [h1]; exact ⟨rfl, rfl⟩
  generalize (s.step e).clients d = x at h1 ⊢
  cases h1 with
  | stored hop hcl => exact absurd (by simp [acting, hop, hcl]) hd
  | written => exact absurd he.1 id
  | flushed => exact ⟨rfl, rfl⟩
  | ran ht h1 =>
    have hq := h.quiet _ (has_top ht)
    simp only [acting, ht, Option.bind_some, List.head?_cons] at hd
    cases h1 with
    | made hn =>
      -- nothing was taken or received for a session before it is made
      have h1 := hs.conserved d
      rw [hs.unborn d (Nat.le_of_eq hn.symm)] at h1
      have h2 := (hr.parsed d).bytes
      rw [hr.unborn d (Nat.le_of_eq hn.symm), List.append_eq_nil_iff, List.append_eq_nil_iff] at h2
      exact ⟨(List.append_eq_nil_iff.mp h1).2.symm, h2.2.1.symm⟩
    | broadcast => cases hq
    | firstPosted => exact ⟨rfl, rfl⟩
    | _ => exact absurd rfl hd

/-! ## Between handlers -/

/-- With all workers between handlers no bytes are in a thread's hands. -/
theorem Resting.empty {ok : Server → Ev → Prop} {s : Server} (hr : Reach ok s) (h : Resting s) (c : Nat) :
    s.reading c = [] ∧ s.verifying c = [] ∧ s.stored c = [] := by
  have hmk : ∀ st ∈ s.threads, ∀ x ∈ st, x.makes = true := fun st hst x hx => h.makes hr ⟨st, hst, hx⟩
  have hno : ∀ x : Stmt, x.makes = true → x.reads c = [] ∧ x.verifies c = [] ∧ x.landing c = 0 := by
    intro x hx
    cases x <;> simp only [Stmt.makes, Bool.false_eq_true] at hx <;> exact ⟨rfl, rfl, rfl⟩
  refine ⟨?_, ?_, ?_⟩
  · simp only [reading, gather, List.flatMap_eq_nil_iff]
    exact fun st hst x hx => (hno x (hmk st hst x hx)).1
  · simp only [verifying, gather, List.flatMap_eq_nil_iff]
    exact fun st hst x hx => (hno x (hmk st hst x hx)).2.1
  · have h0 : tally (Stmt.landing c) s.threads = 0 := by
      rw [tally_eq_zero]
      exact fun st hst x hx => (hno x (hmk st hst x hx)).2.2
    rw [stored, h0, slice_zero]

/-- Any sessions, any interleaving, any cuts of what is received and sent: in an echo run,
    whenever no worker is inside a handler, a session's acknowledged bytes, send buffer and
    receive buffer are together exactly what it has received; and no other session's step
    changes any of these. -/
theorem every_byte_is_echoed {s : Server} (h : Reach Echo s) :
    (Resting s → ∀ c, s.acknowledged c ++ (s.clients c).sendBuffer.contents ++ (s.clients c).recvBuffer.contents =
      s.receivedBy c) ∧
    ∀ e d, Echo s e → s.acting e ≠ some d →
      (s.step e).acknowledged d = s.acknowledged d ∧
      ((s.step e).clients d).sendBuffer.contents = (s.clients d).sendBuffer.contents ∧
      ((s.step e).clients d).recvBuffer.contents = (s.clients d).recvBuffer.contents ∧
      (s.step e).receivedBy d = s.receivedBy d := by
  obtain ⟨hc, hs⟩ := echoing h
  refine ⟨?_, ?_⟩
  · intro hq c
    obtain ⟨h1, h2, h3⟩ := hq.empty h c
    have h4 := ((recvStream hc).parsed c).bytes
    have h5 := hs.written c
    have h6 := (sendStream hc).conserved c
    rw [h1, List.append_nil, h3, List.append_nil, h5, h2, List.append_nil, ← h6] at h4
    exact h4
  · intro e d he hd
    obtain ⟨h1, h2⟩ := buffers_step (sendStream hc) (recvStream hc) hs he hd
    refine ⟨acknowledged_step hd, h1, h2, ?_⟩
    rcases receivedBy_step s e d with h3 | ⟨t, i, op, data, rfl, hop, rfl, -⟩
    · exact h3
    · exact absurd (by simp [acting, hop]) hd

/-- Two sessions; the first gets a frame and a byte more, echoes the frame, and has two of its
    bytes acknowledged. -/
def echoRun : List Ev :=
  [.accept 5] ++ List.replicate 9 (.run 0 true) ++ [.accept 6] ++ List.replicate 9 (.run 0 true) ++
    [.dispatch 1 0 (.received [1, 0, 1, 0x55, 7, 1])] ++ List.replicate 15 (.run 1 true) ++ [.dispatch 1 1 (.sent 2)] ++
    List.replicate 8 (.run 1 true)

theorem a_frame_and_a_byte_are_echoed :
    (echoRun.foldl step (boot 1)).acknowledged 0 = [1, 0] ∧ Resting (echoRun.foldl step (boot 1)) ∧
      ∀ c, (echoRun.foldl step (boot 1)).acknowledged c ++ ((echoRun.foldl step (boot 1)).clients c).sendBuffer.contents ++
        ((echoRun.foldl step (boot 1)).clients c).recvBuffer.contents = (echoRun.foldl step (boot 1)).receivedBy c := by
  have hq : Resting (echoRun.foldl step (boot 1)) := by rw [boot_eq]; decide +kernel
  refine ⟨by rw [boot_eq]; decide +kernel, hq, (every_byte_is_echoed (.run (.start ⟨1, rfl⟩) ?_)).1 hq⟩
  rw [boot_eq]; decide +kernel

end Server

end SigHolic.Network
