/-
  SigHolic.Network.RecvSide — a session's receive on the way (`RecvAsync` and `OnReceived`,
  socket/TcpClient.cpp; `WorkerThread`, network/network.cpp).

  `RecvAsync` posts the free end of the receive buffer and nothing locks the buffer. What
  keeps it sound is that a session has one receive on the way (`Tokens`): in flight, with
  a worker that has not reached `OnReceived` (`lands`), or with a thread that handles it
  (`handles`). Only in the last case does the buffer's length change (`recv_change`).

  Proved, for orderly runs: the range posted stays the free end of the buffer until the
  bytes are counted, and the session is `IO_PENDING` till then (`recvSide`).
-/

import SigHolic.Network.Tokens

namespace SigHolic.Network

open SigHolic.Base.Area SigHolic.Base.Tally SigHolic.Utility.Buffer SigHolic.Iocp SigHolic.Socket

namespace Stmt

/-- The completion a worker has in hand before `OnReceived` has counted its bytes. -/
def arriving : Stmt → Option Completion
  | .checkExpired j | .checkBound j | .takeSession j | .recvBranch _ j | .onReceived _ j => some j
  | _ => none

def lands (c : Nat) (x : Stmt) : Nat :=
  match x.arriving with
  | some j => if j.op.kind = .recv ∧ j.op.client = c then 1 else 0
  | none => 0

def handles (c : Nat) : Stmt → Nat
  | .dequeueRecv c' _ | .bindRecv c' _ _ | .dequeueSend c' _ _ | .bindSend c' _ _ _ | .initializeSocket c' _ _
  | .addTcpClient c' _ _ | .bindSocket c' _ _ | .firstRecv c' _ => if c' = c then 1 else 0
  | .recvNext _ j | .recvAsync _ j | .tryProcessPacket _ j | .processLoop _ j | .loopTail _ j | .processPacket _ j _
  | .verifyFlag _ j _ _ | .echo _ j _ _ | .bcastBegin _ j _ _ | .bcastCheck _ j _ _ _ | .bcastWrite _ j _ _ _
  | .bcastFlush _ j _ _ _ | .bcastNext _ j _ _ _ => if j.op.kind = .recv ∧ j.op.client = c then 1 else 0
  | _ => 0

end Stmt

namespace Server

theorem receives_eq (c : Nat) (x : Stmt) : x.receives c = x.lands c + x.handles c := by
  cases x <;> simp [Stmt.receives, Stmt.lands, Stmt.arriving, Stmt.handles]

theorem tally_receives (s : Server) (c : Nat) :
    tally (Stmt.receives c) s.threads = tally (Stmt.lands c) s.threads + tally (Stmt.handles c) s.threads := by
  rw [← tally_add]
  congr 1
  funext x
  exact receives_eq c x

/-- A statement pushed is in some thread after the step. -/
theorem tally_pos_of_pushed {s : Server} {t : Nat} {wsa : Bool} {i : Stmt} {st : List Stmt} (ht : s.threads[t]? = some (i :: st))
    (f : Stmt → Nat) {x : Stmt} (hx : x ∈ (s.exec wsa i).2) (hf : 0 < f x) : 0 < tally f (s.run t wsa).threads := by
  have h1 := tally_run f wsa ht
  have h2 := weight_le_tally f ht
  have h3 := le_weight f hx
  rw [weight_cons] at h2
  omega

/-! ## What a step does to a receive buffer -/

/-- A step that changes the length of a session's receive buffer, or takes `IO_PENDING` down,
    makes the session or leaves its receive with a thread that handles it. -/
theorem recv_change {s : Server} (ha : Attributed s) (e : Ev) (c : Nat) :
    (c = s.nextClient ∧ (s.step e).clients c = .new) ∨ 0 < tally (Stmt.handles c) (s.step e).threads ∨
      (((s.step e).clients c).recvBuffer.length = (s.clients c).recvBuffer.length ∧
        ((s.clients c).recvIoState = .pending → ((s.step e).clients c).recvIoState = .pending)) := by
  by_cases hc : s.crashed = none
  case neg => rw [step_crashed hc]; exact Or.inr (Or.inr ⟨rfl, id⟩)
  rcases step_clients s e c with h1 | h1
  · rw [h1]; exact Or.inr (Or.inr ⟨rfl, id⟩)
  rw [step_eq hc] at h1 ⊢
  generalize (s.handle e).clients c = x at h1 ⊢
  cases h1 with
  | stored | flushed => exact Or.inr (Or.inr ⟨rfl, id⟩)
  | written hw =>
    obtain ⟨b, rfl⟩ := TcpClient.writeSendBuffer_cases hw
    exact Or.inr (Or.inr ⟨rfl, id⟩)
  | ran ht h1 =>
    have hsound := ha.sound _ (has_top ht)
    cases h1 with
    | made hn => exact Or.inl ⟨hn, rfl⟩
    | initialized => exact Or.inr (Or.inl (tally_pos_of_pushed ht _ (List.mem_singleton_self _) (by simp [Stmt.handles])))
    | received =>
      obtain ⟨-, rfl, hk⟩ := hsound
      exact Or.inr (Or.inl (tally_pos_of_pushed ht _ (List.mem_singleton_self _) (by simp [Stmt.handles, hk])))
    | read hw =>
      rename_i j packet
      obtain ⟨-, rfl, hk⟩ := hsound
      refine Or.inr (Or.inl (tally_pos_of_pushed ht _ (x := .processPacket j.op.client j packet) ?_ (by simp [Stmt.handles, hk])))
      simp [exec, hw]
    | echoed hw | broadcast hw =>
      obtain ⟨b, rfl⟩ := TcpClient.writeSendBuffer_cases hw
      exact Or.inr (Or.inr ⟨rfl, id⟩)
    | sent hw =>
      obtain ⟨b, rfl⟩ := TcpClient.onSend_cases hw
      exact Or.inr (Or.inr ⟨rfl, id⟩)
    | firstPosted | recvPosted => exact Or.inr (Or.inr ⟨rfl, fun _ => rfl⟩)
    | boundRecv | boundSend | flushed | closed => exact Or.inr (Or.inr ⟨rfl, id⟩)

/-! ## The receive on the way -/

/-- The operation's range is the free end of its poster's buffer, and the session waits for it. -/
structure Awaited (s : Server) (op : IoOp) : Prop where
  off : op.buf.off = (s.clients op.client).recvBuffer.getEmptyPtr
  len : op.buf.len = (s.clients op.client).recvBuffer.getEmptyLength
  pending : (s.clients op.client).recvIoState = .pending

structure RecvSide (s : Server) : Prop where
  ok : ∀ c, (s.clients c).recvBuffer.Ok
  flying : ∀ op ∈ s.inflight, op.kind = .recv → s.Awaited op
  arriving : ∀ x, s.Has x → ∀ j, x.arriving = some j → j.op.kind = .recv →
    s.Awaited j.op ∧ (j.transferred : Int) ≤ j.op.buf.len

/-- An operation with a structure of its poster's was posted by a session made. -/
theorem Linked.born {s : Server} {op : IoOp} (h : s.Linked op) (hx : Fixed s) : op.client < s.nextClient := by
  by_contra hn
  obtain ⟨h1, h2⟩ := hx.unborn op.client (by omega)
  unfold Linked structureOf at h
  cases hk : op.kind with
  | recv => rw [hk] at h; simp only [h1] at h; cases h
  | send => rw [hk] at h; simp only [h2] at h; cases h

theorem linked_of_arriving {s : Server} {x : Stmt} (h : s.Sound x) {j : Completion} (hj : x.arriving = some j) :
    s.Linked j.op := by
  cases x with
  | checkExpired | checkBound | takeSession | recvBranch | onReceived => cases hj; exact h.1
  | _ => cases hj

/-- While the session's receive is in flight or not counted yet, the buffer's length stands. -/
theorem awaited_kept {s : Server} {e : Ev} (ha : Attributed s) (ht : Tokens (s.step e)) {op : IoOp}
    (hborn : op.client < s.nextClient)
    (hlive : 0 < (s.step e).flights .recv op.client + tally (Stmt.lands op.client) (s.step e).threads)
    (h : s.Awaited op) : (s.step e).Awaited op := by
  rcases recv_change ha e op.client with ⟨hn, -⟩ | hh | ⟨hl, hp⟩
  · omega
  · have := ht.recv op.client
    rw [recvTokens, tally_receives] at this
    omega
  · refine ⟨?_, ?_, hp h.pending⟩
    · rw [h.off, PulledBuffer.getEmptyPtr, PulledBuffer.getEmptyPtr, hl]
    · rw [h.len, PulledBuffer.getEmptyLength, PulledBuffer.getEmptyLength, hl]

theorem recvAsync_posts {s : Server} {c io : Nat} (h : s.structureOf c .recv = some io) :
    (s.recvAsync c true).clients c = { s.clients c with recvIoState := .pending } := by
  have hio : (s.clients c).recvOverlapped = some io := h
  simp [recvAsync, TcpClient.recvAsync, hio, post, withClient]

/-- What `RecvAsync` posts is the free end of the buffer. -/
theorem posted_awaited {s : Server} {e : Ev} (hc : s.crashed = none) {op : IoOp} (hk : op.kind = .recv) (hp : s.Posted e op) :
    (s.step e).Awaited op := by
  obtain ⟨hl, hop, hp⟩ := hp
  rw [hk] at hop
  unfold Linked at hl
  rw [hk] at hl
  have key : ((s.step e).clients op.client) = { s.clients op.client with recvIoState := .pending } → (s.step e).Awaited op := by
    intro he
    refine ⟨?_, ?_, ?_⟩
    · rw [he, hop]; rfl
    · rw [he, hop]; rfl
    · rw [he]
  apply key
  rw [step_eq hc]
  rcases hp with ⟨-, hr⟩ | ⟨hs, -⟩ | ⟨t, st, c, o, rfl, ht, -, hg⟩
  · unfold receiving at hr
    split at hr
    · rename_i t
      split at hr
      · rename_i c j st ht
        cases hr
        simp only [handle, run, ht, exec]
        exact recvAsync_posts hl
      · cases hr
    · cases hr
  · rw [hk] at hs; cases hs
  · simp only [handle, run, ht, exec, hg]
    exact recvAsync_posts hl

theorem lands_of_arriving {x : Stmt} {j : Completion} (h : x.arriving = some j) (hk : j.op.kind = .recv) :
    x.lands j.op.client = 1 := by
  simp [Stmt.lands, h, hk]

/-- What a statement hands on of a receive not yet counted. -/
theorem pushed_arriving {s : Server} {wsa : Bool} {i x : Stmt} (hm : x ∈ (s.exec wsa i).2) {j : Completion}
    (h : x.arriving = some j) : i.arriving = some j := by
  cases i <;> simp only [exec] at hm <;> (repeat' split at hm) <;>
    simp only [List.mem_cons, List.not_mem_nil, or_false] at hm <;>
    (first | subst hm | rcases hm with rfl | rfl) <;>
    first
    | cases h; done
    | exact h

theorem branch_arriving {op : IoOp} {r : Result} {st : List Stmt} (h : branch op r = some st) {x : Stmt} (hx : x ∈ st)
    {j : Completion} (hj : x.arriving = some j) :
    j.op = op ∧ (j.transferred : Int) ≤ op.buf.len := by
  rcases mem_branch h hx with rfl | rfl | ⟨n, rfl, hle⟩
  · cases hj
  · cases hj
  · cases hj
    exact ⟨rfl, hle⟩

theorem recvOk_step {s : Server} {e : Ev} (ha : Attributed s) (h : RecvSide s) (c : Nat) :
    ((s.step e).clients c).recvBuffer.Ok := by
  rcases step_clients s e c with h1 | h1
  · rw [h1]; exact h.ok c
  generalize (s.step e).clients c = x at h1 ⊢
  cases h1 with
  | stored => exact ⟨(h.ok c).nonneg, (h.ok c).le⟩
  | flushed => exact h.ok c
  | written hw =>
    obtain ⟨b, rfl⟩ := TcpClient.writeSendBuffer_cases hw
    exact h.ok c
  | ran ht h1 =>
    have hsound := ha.sound _ (has_top ht)
    cases h1 with
    | made hn => exact PulledBuffer.new_ok
    | received =>
      rename_i j
      obtain ⟨-, rfl, hk⟩ := hsound
      obtain ⟨hw, hle⟩ := h.arriving _ (has_top ht) j rfl hk
      rw [hw.len] at hle
      exact (PulledBuffer.forceAddLength_spec (h.ok j.op.client) hle).1
    | read hw => exact (TcpClient.readPacket_took (h.ok c) hw).1
    | echoed hw | broadcast hw =>
      obtain ⟨b, rfl⟩ := TcpClient.writeSendBuffer_cases hw
      exact h.ok c
    | sent hw =>
      obtain ⟨b, rfl⟩ := TcpClient.onSend_cases hw
      exact h.ok c
    | initialized | firstPosted | recvPosted | boundRecv | boundSend | flushed | closed => exact h.ok c

theorem recvSide_step {s : Server} {e : Ev} (hx : Fixed s) (ha : Attributed s) (ht : Tokens (s.step e)) (h : RecvSide s) :
    RecvSide (s.step e) := by
  by_cases hc : s.crashed = none
  case neg => rw [step_crashed hc]; exact h
  refine ⟨recvOk_step ha h, ?_, ?_⟩
  · intro op hop hk
    rcases inflight_step hop with hop' | hp
    · have : 0 < (s.step e).flights .recv op.client := List.countP_pos_iff.mpr ⟨op, hop, by simp [hk]⟩
      exact awaited_kept ha ht ((ha.flying op hop').1.born hx) (by omega) (h.flying op hop' hk)
    · exact posted_awaited hc hk hp
  · intro x hh j hj hk
    have hlive : 0 < (s.step e).flights .recv j.op.client + tally (Stmt.lands j.op.client) (s.step e).threads := by
      have h1 := le_tally_of_has (Stmt.lands j.op.client) hh
      rw [lands_of_arriving hj hk] at h1
      omega
    rcases has_step hh with hh | ⟨socket, rfl⟩ | ⟨op, hop, _, _, r, st, _, _, hbr, hm⟩ |
        ⟨t, wsa, i, st, rfl, hth, -, hm⟩
    · obtain ⟨h1, h2⟩ := h.arriving x hh j hj hk
      exact ⟨awaited_kept ha ht ((linked_of_arriving (ha.sound x hh) hj).born hx) hlive h1, h2⟩
    · cases hj
    · obtain ⟨rfl, hle⟩ := branch_arriving hbr hm hj
      exact ⟨awaited_kept ha ht ((ha.flying _ hop).1.born hx) hlive (h.flying _ hop hk), hle⟩
    · have hi := has_top hth
      have hj' := pushed_arriving hm hj
      obtain ⟨h1, h2⟩ := h.arriving i hi j hj' hk
      exact ⟨awaited_kept ha ht ((linked_of_arriving (ha.sound i hi) hj').born hx) hlive h1, h2⟩

theorem recvSide_boot (n : Nat) : RecvSide (boot n) := by
  exact ⟨fun _ => PulledBuffer.new_ok, fun _ hop => (nomatch hop), fun x hx => absurd hx (not_has_boot n x)⟩

theorem recvSide {s : Server} (h : Reach Orderly s) : RecvSide s := by
  induction h with
  | start hs =>
    obtain ⟨n, rfl⟩ := hs
    exact recvSide_boot n
  | step e hr ho ih => exact recvSide_step (Orderly.fixed hr) (attributed hr) (tokens (.step e hr ho)) ih

end Server

end SigHolic.Network
