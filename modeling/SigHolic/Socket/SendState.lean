/-
  SigHolic.Socket.SendState — `m_SendIoState` and the `WSASend` it stands for (`SendAsync`,
  `FlushSendBuffer`, `EnqueueSendBuffer` and `OnSend`, socket/TcpClient.cpp; the send branch
  of `WorkerThread`, network/network.cpp), for one session.

  Each of the functions is a critical section of `m_pSendLock`, so the session's send side is
  a machine whose steps are their calls, from any threads. A call that posts says what
  `WSASend` answers. A completion of an operation in flight comes back with an error or with
  any number of its bytes. `WorkerThread` calls `OnSend` for some bytes, when the flag is up,
  and turns to `CloseSession` for an error or none, or when it finds the session invalid. What
  `CloseSession` does to the rest of the server is not part of this machine; a completion of
  a structure it has let go of is no longer the session's.

  `SendAsync` raises the flag, calls `WSASend` and does not take the flag down when the call
  fails; and only `OnSend` takes it down when the operation is over.

  Proved:
  - the flag says after every step of a run whether an operation is in flight, exactly when
    no `WSASend` of the run fails and every completion gets to `OnSend`
    (`the_flag_is_truthful_iff`);
  - otherwise the session sends nothing more (`stuck_run`).
-/

import Mathlib.Data.List.Induction
import SigHolic.Base.Runs
import SigHolic.Socket.TcpClient

namespace SigHolic.Socket.SendState

open SigHolic.Base.Runs SigHolic.Utility.Buffer

structure Side where
  client : TcpClient
  /-- The session's `WSASend`s in flight. -/
  inflight : List WsaBuf
  /-- The client object of the session's send structure is the session. -/
  bound : Bool
  /-- What ended the process. -/
  crashed : Option Fault

inductive Ev where
  /-- `EnqueueSendBuffer`, called by `WriteSendBuffer`. -/
  | writeSendBuffer (packet : Packet)
  | flushSendBuffer (wsaSend : Bool)
  | sendAsync (wsaSend : Bool)
  /-- A worker has the completion of the `i`-th operation in flight; `retval` is false when it failed. -/
  | completed (i : Nat) (retval : Bool) (transferred : Nat)
  /-- A worker has found the session invalid, or its receive failed. -/
  | closeSession

namespace Side

def crash (s : Side) (f : Fault) : Side := { s with crashed := some f }

def posted (s : Side) : Except Fault (Int × TcpClient × Option WsaBuf) → Side
  | .error f => s.crash f
  | .ok (_, x, buf) => { s with client := x, inflight := s.inflight ++ buf.toList }

def closeSession (s : Side) : Side := { s with bound := false, client := { s.client with isClosing := true } }

/-- `WorkerThread` with a completion of the session's send structure, up to `OnSend`. -/
def complete (s : Side) (buf : WsaBuf) (retval : Bool) (transferred : Nat) : Side :=
  if s.bound = false then s
  else if retval = false ∨ transferred = 0 then s.closeSession
  else if s.client.sendOverlapped = some buf.io ∧ s.client.sendIoState = .pending then
    match s.client.onSend transferred with
    | .error f => s.crash f
    | .ok x => { s with client := x }
  else s

def handle (s : Side) : Ev → Side
  | .writeSendBuffer packet =>
    match s.client.writeSendBuffer packet with
    | .error f => s.crash f
    | .ok (_, x) => { s with client := x }
  | .flushSendBuffer wsaSend => s.posted (s.client.flushSendBuffer wsaSend)
  | .sendAsync wsaSend => s.posted (s.client.sendAsync wsaSend)
  | .completed i retval transferred =>
    match s.inflight[i]? with
    | none => s
    | some buf =>
      if transferred ≤ buf.len then { s.complete buf retval transferred with inflight := s.inflight.eraseIdx i } else s
  | .closeSession => s.closeSession

def step (s : Side) (e : Ev) : Side := if s.crashed ≠ none then s else s.handle e

/-- The flag says whether an operation is in flight. -/
def Truthful (s : Side) : Prop := s.client.sendIoState = .pending ↔ s.inflight ≠ []

/-- The step calls `WSASend`, which fails, or takes a completion on that does not get to `OnSend`: it brings an error or no
    bytes, or `CloseSession` has let the structure go. -/
def fails (s : Side) : Ev → Bool
  | .flushSendBuffer false | .sendAsync false => s.client.sendBuffer.length > 0 && s.client.sendIoState != .pending
  | .completed i retval transferred =>
    (s.inflight[i]?).any fun buf => decide ((transferred : Int) ≤ buf.len) && (!s.bound || !retval || transferred == 0)
  | _ => false

structure Fresh (x : TcpClient) : Prop where
  ok : x.sendBuffer.Ok
  overlapped : x.sendOverlapped ≠ none
  idle : x.sendIoState ≠ .pending

/-! ## What the calls do to the flag -/

/-- Nothing has gone wrong, and the bytes in flight are still in the buffer. -/
structure Sane (s : Side) : Prop where
  running : s.crashed = none
  ok : s.client.sendBuffer.Ok
  overlapped : s.client.sendOverlapped ≠ none
  bytes : ∀ buf ∈ s.inflight, s.client.sendOverlapped = some buf.io ∧ 0 < buf.len ∧ buf.len ≤ s.client.sendBuffer.length
  one : s.inflight.length ≤ 1
  truthful : Truthful s

theorem sendAsync_empty {x : TcpClient} (hl : ¬ x.sendBuffer.length > 0) (ok : Bool) :
    x.sendAsync ok = .ok (0, { x with sendIoState := .connected }, none) := by
  unfold TcpClient.sendAsync
  rw [if_neg (by simpa [PulledBuffer.getLength] using hl)]

/-- With bytes to send, the two calls are one. -/
theorem flush_eq_sendAsync {x : TcpClient} (hl : x.sendBuffer.length > 0) (ok : Bool) :
    x.flushSendBuffer ok = x.sendAsync ok := by
  unfold TcpClient.flushSendBuffer
  rw [if_pos (by simpa [PulledBuffer.getLength] using hl)]

/-- Bytes in flight are bytes of the buffer. -/
theorem Sane.empty {s : Side} (h : Sane s) (hl : ¬ s.client.sendBuffer.length > 0) : s.inflight = [] := by
  rw [List.eq_nil_iff_forall_not_mem]
  intro buf hb
  obtain ⟨-, h1, h2⟩ := h.bytes buf hb
  omega

/-- A call that finds no bytes to send, or an operation in flight, posts nothing. -/
theorem sane_posted {s : Side} (h : Sane s) {x : TcpClient} {n : Int} (hb : x.sendBuffer = s.client.sendBuffer)
    (ho : x.sendOverlapped = s.client.sendOverlapped) (hf : x.sendIoState = .pending ↔ s.client.sendIoState = .pending) :
    Sane (s.posted (.ok (n, x, none))) := by
  refine ⟨h.running, ?_, ?_, ?_, ?_, ?_⟩
  · simp only [posted, hb]; exact h.ok
  · simp only [posted, ho]; exact h.overlapped
  · intro buf hm
    simp only [posted, Option.toList, List.append_nil] at hm
    simp only [posted, hb, ho]
    exact h.bytes buf hm
  · simpa only [posted, Option.toList, List.append_nil] using h.one
  · simpa only [Truthful, posted, Option.toList, List.append_nil, hf] using h.truthful

/-- With bytes to send and none in flight, a `WSASend` that does not fail is in flight afterwards. -/
theorem sane_post {s : Side} (h : Sane s) (hl : s.client.sendBuffer.length > 0) (hp : s.client.sendIoState ≠ .pending) :
    Sane (s.posted (s.client.flushSendBuffer true)) := by
  obtain ⟨io, hio⟩ := Option.ne_none_iff_exists'.mp h.overlapped
  have hnil : s.inflight = [] := by
    by_contra hn
    exact hp (h.truthful.mpr hn)
  rw [TcpClient.flush_posts hl hp hio]
  simp only [posted, if_true, Option.toList, hnil, List.nil_append]
  refine ⟨h.running, h.ok, h.overlapped, fun buf hm => ?_, Nat.le_refl 1, by simp [Truthful]⟩
  rw [List.mem_singleton] at hm
  subst hm
  exact ⟨hio, hl, Int.le_refl _⟩

theorem sane_flush {s : Side} (h : Sane s) {wsaSend : Bool} (hf : s.fails (.flushSendBuffer wsaSend) = false) :
    Sane (s.posted (s.client.flushSendBuffer wsaSend)) := by
  by_cases hl : s.client.sendBuffer.length > 0
  · by_cases hp : s.client.sendIoState = .pending
    · rw [TcpClient.flush_pending hp]
      exact sane_posted h rfl rfl Iff.rfl
    · cases wsaSend with
      | true => exact sane_post h hl hp
      | false => simp [fails, hl, hp] at hf
  · rw [TcpClient.flush_empty hl]
    exact sane_posted h rfl rfl Iff.rfl

theorem sane_sendAsync {s : Side} (h : Sane s) {wsaSend : Bool} (hf : s.fails (.sendAsync wsaSend) = false) :
    Sane (s.posted (s.client.sendAsync wsaSend)) := by
  by_cases hl : s.client.sendBuffer.length > 0
  · rw [← flush_eq_sendAsync hl]
    refine sane_flush h ?_
    cases wsaSend <;> exact hf
  · -- the flag is taken down: no bytes, so none in flight
    rw [sendAsync_empty hl]
    refine sane_posted h rfl rfl ?_
    have := h.truthful
    simp [Truthful, h.empty hl] at this
    simp [this]

theorem sane_write {s : Side} (h : Sane s) (packet : Packet) : Sane (s.handle (.writeSendBuffer packet)) := by
  by_cases hf : s.client.Fits packet
  · obtain ⟨b, hw, hok, hc⟩ := TcpClient.write_fits h.ok hf
    have hlen : s.client.sendBuffer.length ≤ b.length := by
      have h1 := PulledBuffer.length_contents hok
      have h2 := PulledBuffer.length_contents h.ok
      rw [hc, List.length_append] at h1
      omega
    simp only [handle, hw]
    refine ⟨h.running, hok, h.overlapped, fun buf hm => ?_, h.one, h.truthful⟩
    obtain ⟨h1, h2, h3⟩ := h.bytes buf hm
    exact ⟨h1, h2, Int.le_trans h3 hlen⟩
  · simp only [handle, TcpClient.write_full h.ok hf]
    exact ⟨h.running, h.ok, h.overlapped, h.bytes, h.one, h.truthful⟩

/-- The only operation in flight is no longer there. -/
theorem Sane.last {s : Side} (h : Sane s) {i : Nat} {buf : WsaBuf} (hi : s.inflight[i]? = some buf) :
    s.inflight.eraseIdx i = [] := by
  have h1 := h.one
  have h2 := (List.getElem?_eq_some_iff.mp hi).1
  rw [← List.length_eq_zero_iff, List.length_eraseIdx, if_pos h2]
  omega

/-- The only operation in flight completes: its bytes go, and the flag with them. -/
theorem sane_completed {s : Side} (h : Sane s) {i transferred : Nat} {retval : Bool}
    (hf : s.fails (.completed i retval transferred) = false) : Sane (s.handle (.completed i retval transferred)) := by
  cases hi : s.inflight[i]? with
  | none =>
    simp only [handle, hi]
    exact h
  | some buf =>
    by_cases ht : (transferred : Int) ≤ buf.len
    case neg =>
      simp only [handle, hi, ht, if_false]
      exact h
    simp only [fails, hi, ht, Option.any_some, decide_true, Bool.true_and, Bool.or_eq_false_iff, Bool.not_eq_false',
      beq_eq_false_iff_ne] at hf
    obtain ⟨⟨hb, rfl⟩, hpos⟩ := hf
    have hm := List.mem_of_getElem? hi
    obtain ⟨hio, -, hle⟩ := h.bytes buf hm
    have hp : s.client.sendIoState = .pending := h.truthful.mpr (List.ne_nil_of_mem hm)
    obtain ⟨b, hw, hok, -⟩ := TcpClient.onSend_spec h.ok (n := transferred) (by omega)
    simp only [handle, hi, ht, if_true, complete, hb, hpos, hio, hp, hw, h.last hi, Bool.true_eq_false, or_self,
      and_self, if_false]
    exact ⟨h.running, hok, by simp, by simp, by simp, by simp [Truthful]⟩

theorem sane_step {s : Side} (h : Sane s) {e : Ev} (hf : s.fails e = false) : Sane (s.step e) := by
  have hs : s.step e = s.handle e := by simp [step, h.running]
  rw [hs]
  cases e with
  | writeSendBuffer packet => exact sane_write h packet
  | flushSendBuffer wsaSend => exact sane_flush h hf
  | sendAsync wsaSend => exact sane_sendAsync h hf
  | completed i retval transferred => exact sane_completed h hf
  | closeSession => exact ⟨h.running, h.ok, h.overlapped, h.bytes, h.one, h.truthful⟩

theorem sane_run {s : Side} (h : Sane s) {es : List Ev} (ha : Along step (fun s e => s.fails e = false) s es) :
    Sane (es.foldl step s) := by
  induction es generalizing s with
  | nil => exact h
  | cons e es ih => exact ih (sane_step h ha.1) ha.2

/-! ## A call or a completion that fails -/

structure Stuck (s : Side) : Prop where
  ok : s.client.sendBuffer.Ok
  bytes : s.client.sendBuffer.length > 0
  flag : s.client.sendIoState = .pending
  quiet : s.inflight = []

/-- The flag went up for the call that failed. -/
theorem stuck_flush {s : Side} (h : Sane s) (hl : s.client.sendBuffer.length > 0) (hp : s.client.sendIoState ≠ .pending) :
    Stuck (s.posted (s.client.flushSendBuffer false)) := by
  obtain ⟨io, hio⟩ := Option.ne_none_iff_exists'.mp h.overlapped
  have hnil : s.inflight = [] := by
    by_contra hn
    exact hp (h.truthful.mpr hn)
  rw [TcpClient.flush_posts hl hp hio]
  exact ⟨h.ok, hl, rfl, by simp [posted, hnil]⟩

/-- The flag stays up for the operation that is over. -/
theorem stuck_completed {s : Side} (h : Sane s) {i transferred : Nat} {retval : Bool}
    (hf : s.fails (.completed i retval transferred) = true) : Stuck (s.handle (.completed i retval transferred)) := by
  simp only [fails, Option.any_eq_true] at hf
  obtain ⟨buf, hi, hfail⟩ := hf
  simp only [Bool.and_eq_true, decide_eq_true_eq, Bool.or_eq_true, Bool.not_eq_true', beq_iff_eq] at hfail
  obtain ⟨ht, hfail⟩ := hfail
  have hm := List.mem_of_getElem? hi
  obtain ⟨-, hpos, hle⟩ := h.bytes buf hm
  have hp : s.client.sendIoState = .pending := h.truthful.mpr (List.ne_nil_of_mem hm)
  simp only [handle, hi, ht, if_true, h.last hi]
  have hbytes : s.client.sendBuffer.length > 0 := by omega
  by_cases hb : s.bound = false
  · simp only [complete, hb, if_true]
    exact ⟨h.ok, hbytes, hp, rfl⟩
  · have hclose : retval = false ∨ transferred = 0 := by tauto
    simp only [complete, hb, hclose, if_true]
    exact ⟨h.ok, hbytes, hp, rfl⟩

theorem stuck_of_fails {s : Side} (h : Sane s) {e : Ev} (hf : s.fails e = true) : Stuck (s.step e) := by
  have hs : s.step e = s.handle e := by simp [step, h.running]
  rw [hs]
  cases e with
  | writeSendBuffer | closeSession => cases hf
  | completed => exact stuck_completed h hf
  | flushSendBuffer wsaSend =>
    cases wsaSend with
    | true => cases hf
    | false =>
      simp only [fails, Bool.and_eq_true, decide_eq_true_eq, bne_iff_ne, ne_eq] at hf
      exact stuck_flush h hf.1 hf.2
  | sendAsync wsaSend =>
    cases wsaSend with
    | true => cases hf
    | false =>
      simp only [fails, Bool.and_eq_true, decide_eq_true_eq, bne_iff_ne, ne_eq] at hf
      rw [handle, ← flush_eq_sendAsync hf.1]
      exact stuck_flush h hf.1 hf.2

/-- No call takes the flag down, and no completion will come that would. -/
theorem stuck_step {s : Side} (h : Stuck s) (e : Ev) : Stuck (s.step e) := by
  by_cases hc : s.crashed = none
  case neg => simpa [step, hc] using h
  have hs : s.step e = s.handle e := by simp [step, hc]
  rw [hs]
  have hkept : ∀ n, Stuck (s.posted (.ok (n, s.client, none))) := fun n =>
    ⟨h.ok, h.bytes, h.flag, by simp [posted, h.quiet]⟩
  cases e with
  | writeSendBuffer packet =>
    by_cases hf : s.client.Fits packet
    · obtain ⟨b, hw, hok, hcont⟩ := TcpClient.write_fits h.ok hf
      simp only [handle, hw]
      refine ⟨hok, ?_, h.flag, h.quiet⟩
      have h1 := PulledBuffer.length_contents hok
      have h2 := PulledBuffer.length_contents h.ok
      have h3 := h.bytes
      rw [hcont, List.length_append] at h1
      show b.length > 0
      omega
    · simp only [handle, TcpClient.write_full h.ok hf]
      exact ⟨h.ok, h.bytes, h.flag, h.quiet⟩
  | flushSendBuffer wsaSend =>
    rw [handle, TcpClient.flush_pending h.flag]
    exact hkept 0
  | sendAsync wsaSend =>
    rw [handle, ← flush_eq_sendAsync h.bytes, TcpClient.flush_pending h.flag]
    exact hkept 0
  | completed i retval transferred => simpa [handle, h.quiet] using h
  | closeSession => exact ⟨h.ok, h.bytes, h.flag, h.quiet⟩

/-- After a call or a completion that failed, whatever is called, the session sends nothing more. -/
theorem stuck_run {s : Side} (h : Stuck s) (es : List Ev) : Stuck (es.foldl step s) := by
  induction es generalizing s with
  | nil => exact h
  | cons e es ih => exact ih (stuck_step h e)

/-! ## When the flag is truthful -/

theorem sane_start {x : TcpClient} (h : Fresh x) : Sane ⟨x, [], true, none⟩ :=
  ⟨rfl, h.ok, h.overlapped, by simp, by simp, by simp [Truthful, h.idle]⟩

/-- For every sequence of calls and completions of a session: the flag says after each of them
    whether an operation is in flight, exactly when no `WSASend` they make fails and every
    completion gets to `OnSend`. -/
theorem the_flag_is_truthful_iff {x : TcpClient} (h : Fresh x) (es : List Ev) :
    (∀ pre, pre <+: es → Truthful (pre.foldl step ⟨x, [], true, none⟩)) ↔
      Along step (fun s e => s.fails e = false) ⟨x, [], true, none⟩ es := by
  constructor
  · intro ht
    induction es using List.reverseRecOn with
    | nil => trivial
    | append_singleton es e ih =>
      have ha := ih fun pre hp => ht pre (hp.trans (List.prefix_append es [e]))
      refine along_concat.mpr ⟨ha, ?_⟩
      -- the first call that fails leaves the flag up
      by_contra hf
      have hstuck := stuck_of_fails (sane_run (sane_start h) ha) (e := e) (by simpa using hf)
      have hlast := ht (es ++ [e]) (List.prefix_refl _)
      rw [List.foldl_concat] at hlast
      exact (hlast.mp hstuck.flag) hstuck.quiet
  · intro ha pre hp
    obtain ⟨rest, rfl⟩ := hp
    exact (sane_run (sane_start h) (along_of_append ha)).truthful

def newSession : TcpClient := { TcpClient.new with sendOverlapped := some 1 }

theorem newSession_fresh : Fresh newSession := ⟨PulledBuffer.new_ok, by decide, by decide⟩

def sentCalls : List Ev :=
  [.writeSendBuffer (.load [1, 0, 1, 0x55, 7]), .flushSendBuffer true, .writeSendBuffer (.load [1, 0, 1, 0x55, 8]),
    .flushSendBuffer false, .completed 0 true 3, .sendAsync true]

theorem two_sends_are_truthful :
    (sentCalls.foldl step ⟨newSession, [], true, none⟩).inflight.length = 1 ∧
      ∀ pre, pre <+: sentCalls → Truthful (pre.foldl step ⟨newSession, [], true, none⟩) :=
  ⟨by decide +kernel, (the_flag_is_truthful_iff newSession_fresh sentCalls).mpr (by decide +kernel)⟩

/-- The `WSASend` of the first flush fails; the flag is up with nothing in flight. -/
theorem a_failed_send_leaves_the_flag_up :
    ¬ ∀ x, Fresh x → ∀ es : List Ev, Truthful (es.foldl step ⟨x, [], true, none⟩) := by
  intro h
  have h1 := h _ newSession_fresh [.writeSendBuffer (.load [1, 0, 1, 0x55, 7]), .flushSendBuffer false]
  exact h1.mp (by decide +kernel) (List.length_eq_zero_iff.mp (by decide +kernel))

end Side

end SigHolic.Socket.SendState
