/-
  SigHolic.Network.Completions — whom a completion is handed to (`WorkerThread`,
  `CloseSession` and `Network::Run`, network/network.cpp).

  Proved, for orderly runs: completions go to their posters, and the worker's failed branch
  and the accept loop never dereference a null session. Without order both fail:
  `CloseSession`, entered from the receive's completion, recycles the send structure with
  its operation in flight, and that one's failure is then handled on a null session.
-/

import SigHolic.Network.Tokens

namespace SigHolic.Network

open SigHolic.Base.Tally SigHolic.Iocp SigHolic.Socket

namespace Server

/-! ## Attribution -/

/-- A bound structure is in no queue. -/
theorem Bound.not_queued {s : Server} (hb : Bound s) {o c : Nat} (h : s.getClientObject o = some c) :
    o ∉ s.recvPool.waitingQueue ∧ o ∉ s.sendPool.waitingQueue := by
  have h1 := hb.once o
  simp only [places, h, Option.isSome_some, Bool.toNat_true] at h1
  exact ⟨fun hm => by have := List.count_pos_iff.mpr hm; omega, fun hm => by have := List.count_pos_iff.mpr hm; omega⟩

/-- A session's operations of one kind on one structure are the structure's only ones. -/
theorem ios_nodup {s : Server} (hx : Fixed s) (ha : Attributed s) (ht : Tokens s) : (s.inflight.map IoOp.io).Nodup := by
  rw [List.nodup_iff_count_le_one]
  intro o
  by_cases hm : o ∈ s.inflight.map IoOp.io
  case neg => rw [List.count_eq_zero.mpr hm]; omega
  obtain ⟨op, hop, rfl⟩ := List.mem_map.mp hm
  obtain ⟨hl, hbd⟩ := ha.flying op hop
  have hle : (s.inflight.map IoOp.io).count op.io ≤ s.flights op.kind op.client := by
    rw [List.count, List.countP_map]
    apply List.countP_mono_left
    intro op' hop' he
    simp only [Function.comp_apply, beq_iff_eq] at he
    obtain ⟨hl', hbd'⟩ := ha.flying op' hop'
    rw [he, hbd] at hbd'
    have hcc : op'.client = op.client := (Option.some.inj hbd').symm
    rw [decide_eq_true_eq]
    refine ⟨kind_of_structure hx hl' ?_, hcc⟩
    rw [he, hcc]
    exact hl
  have h1 := ht.recv op.client
  have h2 := ht.send op.client
  cases hk : op.kind <;> rw [hk] at hle
  · simp only [recvTokens] at h1; omega
  · simp only [sendTokens] at h2; omega

def Delivered (s : Server) : Prop := ∀ p c, Obs.delivered p c ∈ s.log → p = c

theorem delivered_step {s : Server} {e : Ev} (ha : Attributed s) (h : Delivered s) : Delivered (s.step e) := by
  intro p c hm
  rcases mem_log_step hm with hm | ⟨-, hm⟩
  · exact h p c hm
  obtain ⟨t, wsa, i, st, rfl, ht, hm⟩ := mem_observed hm (by simp) (by simp)
  have hsound := ha.sound i (has_top ht)
  cases i with
  | takeSession j =>
    obtain ⟨-, hget⟩ := hsound
    simp only [noted, hget, List.mem_singleton, Obs.delivered.injEq] at hm
    rw [hm.1, hm.2]
  | onSend c j =>
    simp only [noted] at hm
    split at hm <;> simp at hm
  | echo => cases mem_wroteBy hm
  | bcastWrite => cases mem_wroteBy (mem_noted_write hm)
  | _ => simp [noted] at hm

theorem delivered {s : Server} (h : Reach Orderly s) : Delivered s :=
  h.invariant_of (fun _ hr => attributed hr) (fun _ ⟨n, hn⟩ p c hm => by rw [hn] at hm; cases hm)
    fun _ _ ha hs _ => delivered_step ha hs

/-- However accepts, dispatches and teardowns interleave, as long as they are orderly: an
    operation in flight has its structure bound to its poster and out of the queues, no
    completion went to another session, and no structure backs two operations. -/
theorem completions_are_attributed {s : Server} (h : Reach Orderly s) :
    (∀ op ∈ s.inflight, s.getClientObject op.io = some op.client ∧ op.io ∉ s.recvPool.waitingQueue ∧
      op.io ∉ s.sendPool.waitingQueue) ∧
    (∀ poster c, Obs.delivered poster c ∈ s.log → poster = c) ∧ (s.inflight.map IoOp.io).Nodup := by
  have ha := attributed h
  refine ⟨fun op hop => ?_, delivered h, ios_nodup (Orderly.fixed h) ha (tokens h)⟩
  have hget := (ha.flying op hop).2
  exact ⟨hget, (Orderly.bound h).not_queued hget⟩

def postingRun : List Ev :=
  [.accept 5] ++ List.replicate 9 (.run 0 true) ++ [.write 0 (.load [1, 0, 1, 0x55, 7]), .flush 0 true]

theorem two_operations_are_attributed :
    (postingRun.foldl step (boot 2)).inflight.length = 2 ∧
      ((postingRun.foldl step (boot 2)).inflight.map IoOp.io).Nodup := by
  refine ⟨by rw [boot_eq]; decide +kernel, (completions_are_attributed (.run (.start ⟨2, rfl⟩) ?_)).2.2⟩
  rw [boot_eq]; decide +kernel

/-- The receive fails and its worker tears the session down, while the send is in flight. -/
def recycledRun : List Ev := postingRun ++ [.dispatch 1 0 .failed] ++ List.replicate 10 (.run 1 true)

theorem teardown_recycles_a_pending_send :
    ¬ ∀ s, Reach (fun _ _ => True) s →
      (∀ op ∈ s.inflight, s.getClientObject op.io = some op.client ∧ op.io ∉ s.recvPool.waitingQueue ∧
        op.io ∉ s.sendPool.waitingQueue) ∧
      (∀ poster c, Obs.delivered poster c ∈ s.log → poster = c) ∧ (s.inflight.map IoOp.io).Nodup := by
  intro h
  obtain ⟨h1, -⟩ := h _ (.any ⟨2, rfl⟩ recycledRun)
  have hn : (recycledRun.foldl step (boot 2)).inflight.any fun op =>
      ((recycledRun.foldl step (boot 2)).getClientObject op.io).isNone := by rw [boot_eq]; decide +kernel
  obtain ⟨op, hop, hnone⟩ := List.any_eq_true.mp hn
  rw [(h1 op hop).1] at hnone
  cases hnone

/-! ## Null sessions -/

theorem writeSendBuffer_crashed (s : Server) (sender : Option (Nat × Nat)) (client : Nat) (packet : Packet) :
    (s.writeSendBuffer sender client packet).2.crashed = s.crashed ∨
      ∃ f, (s.writeSendBuffer sender client packet).2.crashed = some (.fault f) := by
  unfold writeSendBuffer
  split
  · exact Or.inr ⟨_, rfl⟩
  · split <;> exact Or.inl rfl

theorem flushSendBuffer_crashed (s : Server) (c : Nat) (wsa : Bool) :
    (s.flushSendBuffer c wsa).crashed = s.crashed ∨ ∃ f, (s.flushSendBuffer c wsa).crashed = some (.fault f) := by
  unfold flushSendBuffer
  split
  · exact Or.inr ⟨_, rfl⟩
  · exact Or.inl rfl
  · exact Or.inl rfl

theorem recvAsync_crashed (s : Server) (c : Nat) (wsa : Bool) :
    (s.recvAsync c wsa).crashed = s.crashed ∨ ∃ f, (s.recvAsync c wsa).crashed = some (.fault f) := by
  unfold recvAsync
  split
  · exact Or.inr ⟨_, rfl⟩
  · exact Or.inl rfl
  · exact Or.inl rfl

/-- A statement whose data are sound does not dereference a null session. -/
theorem exec_not_null {s : Server} (wsa : Bool) {i : Stmt} (h : s.Sound i) (hc : s.crashed = none) :
    (s.exec wsa i).1.crashed ≠ some .nullClient := by
  have hrecv : ∀ c, (s.recvAsync c wsa).crashed ≠ some .nullClient := by
    intro c
    rcases recvAsync_crashed s c wsa with he | ⟨f, he⟩ <;> rw [he] <;> simp [hc]
  have hwrite : ∀ sender client packet, (s.writeSendBuffer sender client packet).2.crashed ≠ some .nullClient := by
    intro sender client packet
    rcases writeSendBuffer_crashed s sender client packet with he | ⟨f, he⟩ <;> rw [he] <;> simp [hc]
  cases i with
  | getSocket op => simp [exec, h.2, hc]
  | takeSession j => simp [exec, h.2, hc, observe]
  | firstRecv c o => simp only [exec, h.2]; exact hrecv c
  | recvAsync c j => exact hrecv c
  | echo c j k packet => exact hwrite _ _ _
  | bcastWrite c j k packet client =>
    simp only [exec]
    split
    · exact hwrite _ _ _
    · simp [crash]
  | flushSendBuffer c =>
    simp only [exec]
    rcases flushSendBuffer_crashed s c wsa with he | ⟨f, he⟩ <;> rw [he] <;> simp [hc]
  | _ =>
    simp only [exec]
    (repeat' split) <;>
      first
      | (intro he; cases he.symm.trans hc)
      | simp [crash]

theorem not_null_step {s : Server} {e : Ev} (ha : Attributed s) (h : s.crashed ≠ some .nullClient) :
    (s.step e).crashed ≠ some .nullClient := by
  by_cases hc : s.crashed = none
  case neg => rw [step_crashed hc]; exact h
  rw [step_eq hc]
  cases e with
  | accept socket =>
    rcases accept_cases s socket with he | ⟨-, -, -, -, -, he⟩ <;> simp only [handle, he] <;> exact h
  | dispatch t i r =>
    rcases dispatch_cases s t i r with he | ⟨op, st, -, -, -, -, he⟩ <;> simp only [handle, he]
    · exact h
    · cases r <;> exact h
  | run t wsa =>
    simp only [handle]
    rcases ht : s.threads[t]? with _ | _ | ⟨i, st⟩ <;> simp only [run, ht]
    · exact h
    · exact h
    · exact exec_not_null wsa (ha.sound i (has_top ht)) hc
  | write c packet =>
    simp only [handle, write]
    split
    · rcases writeSendBuffer_crashed s none c packet with he | ⟨f, he⟩ <;> rw [he]
      · exact h
      · simp
    · exact h
  | flush c wsa =>
    simp only [handle, flush]
    split
    · rcases flushSendBuffer_crashed s c wsa with he | ⟨f, he⟩ <;> rw [he]
      · exact h
      · simp
    · exact h

/-- However completions and the accept loop interleave, as long as the run is orderly: a worker
    in the failed branch, and `Network::Run` before its `RecvAsync`, find a session bound. -/
theorem no_null_session_is_dereferenced {s : Server} (h : Reach Orderly s) :
    (∀ (t : Nat) (op : IoOp) (st : List Stmt), s.threads[t]? = some (.getSocket op :: st) →
      s.getClientObject op.io ≠ none) ∧
    (∀ (t c o : Nat) (st : List Stmt), s.threads[t]? = some (.firstRecv c o :: st) → s.getClientObject o ≠ none) ∧
    s.crashed ≠ some .nullClient := by
  have ha := attributed h
  refine ⟨?_, ?_, ?_⟩
  · intro t op st ht
    rw [(ha.sound _ (has_top ht)).2]; simp
  · intro t c o st ht
    rw [(ha.sound _ (has_top ht)).2]; simp
  · exact h.invariant_of (fun _ hr => attributed hr) (fun _ ⟨n, hn⟩ => by rw [hn]; simp [boot])
      fun _ _ ha hs _ => not_null_step ha hs

def failedRun : List Ev := postingRun ++ [.dispatch 1 0 .failed]

theorem a_failed_receive_finds_its_session :
    ((failedRun.foldl step (boot 2)).threads.map List.length)[1]? = some 3 ∧
      (failedRun.foldl step (boot 2)).crashed ≠ some .nullClient := by
  refine ⟨by rw [boot_eq]; decide +kernel, ?_⟩
  refine (no_null_session_is_dereferenced (.run (.start ⟨2, rfl⟩) ?_)).2.2
  rw [boot_eq]; decide +kernel

/-- The send's failure, handled after the receive's worker has torn the session down. -/
def nullRun : List Ev := recycledRun ++ [.dispatch 2 0 .failed, .run 2 true]

theorem a_late_failure_dereferences_null :
    ¬ ∀ s, Reach (fun _ _ => True) s →
      (∀ (t : Nat) (op : IoOp) (st : List Stmt), s.threads[t]? = some (.getSocket op :: st) →
        s.getClientObject op.io ≠ none) ∧
      (∀ (t c o : Nat) (st : List Stmt), s.threads[t]? = some (.firstRecv c o :: st) → s.getClientObject o ≠ none) ∧
      s.crashed ≠ some .nullClient := by
  intro h
  obtain ⟨-, -, h3⟩ := h _ (.any ⟨2, rfl⟩ nullRun)
  apply h3
  rw [boot_eq]; decide +kernel

end Server

end SigHolic.Network
