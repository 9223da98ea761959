/-
  SigHolic.Network.Accounts — what becomes of each receive of a session (`RecvAsync` to
  `RecvAsync`, `WorkerThread` and `Network::Run`, network/network.cpp).

  A session's receive begins with the session, and goes from hand to hand: a thread that is
  making the session, the system, a worker. It ends in two ways: a `WSARecv` fails
  (`refuses`), and nobody has it any more; or a worker turns to `CloseSession`
  (`abandons`), because nothing was received or because the session is not valid.

  Proved:
  - `recvTokens_step`: in an orderly run, each step keeps this account.
  - `calm_uncrashed`: while no session is torn down, nothing ends the process.
-/

import SigHolic.Network.RecvSide
import SigHolic.Network.SendStream

namespace SigHolic.Network

open SigHolic.Base.Tally SigHolic.Utility.Buffer SigHolic.Iocp SigHolic.Socket

namespace Server

/-- The operation whose completion worker `t` picks up in this step, and its result. -/
def picks (s : Server) : Ev → Option (IoOp × Result)
  | .dispatch t i r =>
    if 0 < t ∧ s.idle t then (s.inflight[i]?.filter fun op => (branch op r).isSome).map fun op => (op, r) else none
  | _ => none

def runs (s : Server) : Ev → Option Stmt
  | .run t _ => (s.threads[t]?).bind List.head?
  | _ => none

/-- The session whose `WSARecv` fails in this step. -/
def refuses (s : Server) (e : Ev) : Option Nat :=
  match e with
  | .run _ false =>
    match s.runs e with
    | some (.recvAsync c _) => some c
    | some (.firstRecv _ o) => s.getClientObject o
    | _ => none
  | _ => none

/-- The session whose receive a worker gives up in this step, to close it. -/
def abandons (s : Server) (e : Ev) : Option Nat :=
  match s.picks e, s.runs e with
  | some (op, r), _ => if op.kind = .recv ∧ r.empty = true then some op.client else none
  | _, some (.recvNext c _) => if (s.clients c).isValid then none else some c
  | _, _ => none

def creates (s : Server) (e : Ev) : Option Nat :=
  match s.runs e with
  | some (.newSession _) => some s.nextClient
  | _ => none

def mark (x : Option Nat) (c : Nat) : Nat := if x = some c then 1 else 0

@[simp] theorem mark_none (c : Nat) : mark none c = 0 := rfl

theorem runs_top {s : Server} {t : Nat} {wsa : Bool} {i : Stmt} {st : List Stmt} (ht : s.threads[t]? = some (i :: st)) :
    s.runs (.run t wsa) = some i := by
  simp [runs, ht]

/-- A completion is picked up, or nothing happens. -/
theorem dispatch_picks (s : Server) (t i : Nat) (r : Result) :
    (s.picks (.dispatch t i r) = none ∧ s.dispatch t i r = s) ∨
      ∃ op st, s.picks (.dispatch t i r) = some (op, r) ∧ s.threads[t]? = some [] ∧ s.inflight[i]? = some op ∧
        branch op r = some st ∧ s.dispatch t i r = { (s.land op r).setThread t st with inflight := s.inflight.eraseIdx i } := by
  by_cases h0 : 0 < t ∧ s.idle t = true
  case neg => exact Or.inl ⟨by simp only [picks, h0, if_false], by simp only [dispatch, h0, if_false]⟩
  cases hop : s.inflight[i]? with
  | none => exact Or.inl ⟨by simp [picks, hop], by simp only [dispatch, h0, hop, and_self, if_true]⟩
  | some op =>
    cases hb : branch op r with
    | none => exact Or.inl ⟨by simp [picks, hop, hb], by simp only [dispatch, h0, hop, hb, and_self, if_true]⟩
    | some st =>
      refine Or.inr ⟨op, st, ?_, idle_iff.mp h0.2, rfl, hb, ?_⟩
      · simp [picks, h0, hop, hb]
      · simp only [dispatch, h0, hop, hb, and_self, if_true]

/-! ## The receive's account -/

theorem branch_receives {op : IoOp} {r : Result} {st : List Stmt} (h : branch op r = some st) (c : Nat) :
    weight (Stmt.receives c) st = if r.empty = false ∧ op.kind = .recv ∧ op.client = c then 1 else 0 := by
  rcases branch_cases h with ⟨he, rfl | rfl⟩ | ⟨he, n, rfl, -⟩
  · simp [failedBranch, Stmt.receives, he]
  · simp [failedBranch, Stmt.receives, he]
  · simp [Stmt.receives, he]

/-- A statement that neither makes a session nor posts hands the receive on, unless it finds the
    session not valid. -/
theorem exec_receives_eq {s : Server} (hr : RecvSide s) (wsa : Bool) {i : Stmt} (hh : s.Has i) (hs : s.Sound i)
    (hc : (s.exec wsa i).1.crashed = none) (hn : ∀ socket, i ≠ .newSession socket) (hp : ∀ c' o, i ≠ .firstRecv c' o)
    (ha : ∀ c' j, i ≠ .recvAsync c' j) (hv : ∀ c' j, i = .recvNext c' j → (s.clients c').isValid = true) (c : Nat) :
    weight (Stmt.receives c) (s.exec wsa i).2 = i.receives c := by
  cases i with
  | newSession socket => exact absurd rfl (hn socket)
  | firstRecv c' o => exact absurd rfl (hp c' o)
  | recvAsync c' j => exact absurd rfl (ha c' j)
  | recvNext c' j => simp [exec, hv c' j rfl, Stmt.receives]
  | checkExpired j | checkBound j | takeSession j => simp [exec, hs.2, Stmt.receives]
  | recvBranch c' j =>
    obtain ⟨hl, rfl⟩ := hs
    by_cases hk : j.op.kind = .recv
    · have hpend := (hr.arriving _ hh j rfl hk).1.pending
      have ho : (s.clients j.op.client).recvOverlapped = some j.op.io := by
        unfold Linked at hl
        rwa [hk] at hl
      simp [exec, hpend, ho, Stmt.receives]
    · simp only [exec]
      split <;> simp [Stmt.receives, hk]
  | dequeueRecv | dequeueSend | processLoop | bcastNext =>
    simp only [exec] at hc ⊢
    split at hc
    · simp [crash] at hc
    all_goals simp_all [Stmt.receives]
  | bcastCheck | bcastWrite | bcastFlush =>
    simp only [exec] at hc ⊢
    split at hc
    case isFalse => simp [crash] at hc
    (repeat' split) <;> simp_all [Stmt.receives]
  | _ =>
    simp only [exec]
    (repeat' split) <;> simp [Stmt.receives]

/-- The receives of a session in flight after `RecvAsync`. -/
theorem recvAsync_flights {s : Server} {c : Nat} {wsa : Bool} (h : (s.clients c).recvOverlapped ≠ none) (d : Nat) :
    (s.recvAsync c wsa).flights .recv d = s.flights .recv d + if wsa = true ∧ c = d then 1 else 0 := by
  obtain ⟨io, hio⟩ := Option.ne_none_iff_exists'.mp h
  cases wsa with
  | false => simp [recvAsync, TcpClient.recvAsync, hio, flights, withClient]
  | true =>
    have : (s.recvAsync c true).inflight = s.inflight ++ [s.posting .recv c io] := by
      simp [recvAsync, TcpClient.recvAsync, hio, post, withClient, posting]
    rw [flights_post this]
    simp

section Run

variable {s : Server} (ha : Attributed s) {t : Nat} {wsa : Bool} {st : List Stmt} (c : Nat)
include ha

/-- A worker posts the next receive, or the call fails. -/
theorem recvTokens_recvAsync {c' : Nat} {j : Completion} (ht : s.threads[t]? = some (.recvAsync c' j :: st)) :
    (s.run t wsa).recvTokens c + mark (s.refuses (.run t wsa)) c = s.recvTokens c := by
  obtain ⟨hl, hcl, hk⟩ := ha.sound _ (has_top ht)
  have hio : (s.clients c').recvOverlapped ≠ none := by
    unfold Linked at hl
    rw [hk, ← hcl] at hl
    simp [show (s.clients c').recvOverlapped = some j.op.io from hl]
  have hf : (s.run t wsa).flights .recv c = (s.recvAsync c' wsa).flights .recv c := by
    simp only [run, ht]; rfl
  rw [recvAsync_flights hio] at hf
  have h1 := tally_run (Stmt.receives c) wsa ht
  simp only [exec, Stmt.receives, hk, true_and, ← hcl, weight_cons, weight_nil] at h1
  simp only [recvTokens, hf]
  cases wsa with
  | false =>
    simp only [refuses, runs_top ht, mark, Option.some.injEq, Bool.false_eq_true, false_and, if_false]
    omega
  | true =>
    simp only [refuses, mark_none, true_and]
    omega

/-- `Network::Run` posts the session's first receive, or the call fails. -/
theorem recvTokens_firstRecv {c' o : Nat} (ht : s.threads[t]? = some (.firstRecv c' o :: st)) :
    (s.run t wsa).recvTokens c + mark (s.refuses (.run t wsa)) c = s.recvTokens c := by
  obtain ⟨ho, hget⟩ := ha.sound _ (has_top ht)
  have hio : (s.clients c').recvOverlapped ≠ none := by rw [ho]; simp
  have hf : (s.run t wsa).flights .recv c = (s.recvAsync c' wsa).flights .recv c := by
    simp only [run, ht, exec, hget]; rfl
  rw [recvAsync_flights hio] at hf
  have h1 := tally_run (Stmt.receives c) wsa ht
  simp only [exec, hget, Stmt.receives, weight_nil] at h1
  simp only [recvTokens, hf]
  cases wsa with
  | false =>
    simp only [refuses, runs_top ht, hget, mark, Option.some.injEq, Bool.false_eq_true, false_and, if_false]
    omega
  | true =>
    simp only [refuses, mark_none, true_and]
    omega

theorem recvTokens_run (hr : RecvSide s) {i : Stmt} (ht : s.threads[t]? = some (i :: st))
    (hc : (s.run t wsa).crashed = none) :
    (s.run t wsa).recvTokens c + mark (s.refuses (.run t wsa)) c + mark (s.abandons (.run t wsa)) c =
      s.recvTokens c + mark (s.creates (.run t wsa)) c := by
  have hcr : (s.exec wsa i).1.crashed = none := by
    simp only [run, ht] at hc
    exact hc
  have h1 := tally_run (Stmt.receives c) wsa ht
  have hkept : i.posts = false → (s.run t wsa).flights .recv c = s.flights .recv c := by
    intro hp
    simp only [run, ht, flights]
    exact congrArg _ (exec_inflight s wsa hp)
  -- a statement that hands the receive on
  have hsame : (∀ socket, i ≠ .newSession socket) → (∀ c' o, i ≠ .firstRecv c' o) →
      (∀ c' j, i ≠ .recvAsync c' j) →
      (∀ c' j, i = .recvNext c' j → (s.clients c').isValid = true) →
      (s.run t wsa).flights .recv c = s.flights .recv c → (s.run t wsa).recvTokens c = s.recvTokens c := by
    intro hn hp ha' hv hf
    rw [exec_receives_eq hr wsa (has_top ht) (ha.sound i (has_top ht)) hcr hn hp ha' hv c] at h1
    simp only [recvTokens, hf]
    omega
  cases i with
  | newSession socket =>
    simp only [exec, Stmt.receives, weight_cons, weight_nil, Nat.add_zero] at h1
    simp only [refuses, abandons, creates, picks, runs_top ht, recvTokens, hkept rfl, mark, Option.some.injEq]
    split <;> simp <;> omega
  | recvAsync c' j =>
    have := @recvTokens_recvAsync s ha t wsa st c c' j ht
    simp only [abandons, creates, picks, runs_top ht, mark_none]
    omega
  | firstRecv c' o =>
    have := @recvTokens_firstRecv s ha t wsa st c c' o ht
    simp only [abandons, creates, picks, runs_top ht, mark_none]
    omega
  | recvNext c' j =>
    obtain ⟨-, hcl, hk⟩ := ha.sound _ (has_top ht)
    by_cases hv : (s.clients c').isValid = true
    · have := hsame (by simp) (by simp) (by simp) (by rintro c₁ j₁ ⟨⟩; exact hv) (hkept rfl)
      simp only [abandons, creates, picks, refuses, runs_top ht, hv, if_true]
      split <;> simp [this]
    · have h2 : weight (Stmt.receives c) (s.exec wsa (.recvNext c' j)).2 = 0 := by simp [exec, hv, Stmt.receives]
      simp only [h2, Stmt.receives, hk, true_and, ← hcl] at h1
      simp only [abandons, creates, picks, refuses, runs_top ht, hv, recvTokens, hkept rfl, mark]
      split <;> simp <;> omega
  | flushSendBuffer c' =>
    have hf : (s.run t wsa).flights .recv c = s.flights .recv c := by
      have hin : (s.run t wsa).inflight = (s.flushSendBuffer c' wsa).inflight := by simp only [run, ht]; rfl
      rcases flushSendBuffer_inflight s c' wsa with he | ⟨io, he, -⟩
      · simp only [flights, hin, he]
      · rw [flights_post (hin.trans he)]
        simp
    have := hsame (by simp) (by simp) (by simp) (by simp) hf
    simp only [abandons, creates, picks, refuses, runs_top ht]
    split <;> simp [this]
  | _ =>
    have := hsame (by simp) (by simp) (by simp) (by simp) (hkept rfl)
    simp only [abandons, creates, picks, refuses, runs_top ht]
    split <;> simp [this]

end Run

/-- A receive is picked up: the worker has it, or turns to `CloseSession`. -/
theorem recvTokens_dispatch (s : Server) (t i : Nat) (r : Result) (c : Nat) :
    (s.dispatch t i r).recvTokens c + mark (s.abandons (.dispatch t i r)) c = s.recvTokens c := by
  rcases dispatch_picks s t i r with ⟨hp, he⟩ | ⟨op, st, hp, h0, hop, hb, he⟩
  · simp [he, abandons, hp, runs]
  have h1 := flights_dispatch (s.dispatch t i r) hop (by rw [he]) .recv c
  have h2 := branch_receives hb c
  have h3 := tally_set (Stmt.receives c) h0 st
  have hth : (s.dispatch t i r).threads = s.threads.set t st := by simp only [he, setThread, land_threads]
  simp only [weight_nil, ← hth] at h3
  simp only [recvTokens, abandons, hp, mark]
  cases hem : r.empty <;> simp only [hem] at h2 <;> by_cases hk : op.kind = .recv <;> by_cases e : op.client = c <;>
    simp [hk, e] at h1 h2 ⊢ <;> omega

/-- Each step keeps the account of a session's receive. -/
theorem recvTokens_step {s : Server} (ha : Attributed s) (hr : RecvSide s) {e : Ev} (hc : (s.step e).crashed = none)
    (c : Nat) :
    (s.step e).recvTokens c + mark (s.refuses e) c + mark (s.abandons e) c = s.recvTokens c + mark (s.creates e) c := by
  have hcr : s.crashed = none := by
    by_contra hn
    rw [step_crashed hn] at hc
    exact hn hc
  rw [step_eq hcr] at hc ⊢
  cases e with
  | accept socket =>
    simp only [handle, refuses, abandons, creates, picks, runs, mark_none, Nat.add_zero]
    rcases accept_cases s socket with he | ⟨h0, hth, hin, -⟩
    · rw [he]
    · have := tally_set (Stmt.receives c) h0 [.newSession socket]
      simp only [Stmt.receives, weight_cons, weight_nil, ← hth] at this
      simp only [recvTokens, flights, hin]
      omega
  | dispatch t i r =>
    simp only [handle, refuses, creates, runs, mark_none, Nat.add_zero]
    exact recvTokens_dispatch s t i r c
  | run t wsa =>
    rcases ht : s.threads[t]? with _ | _ | ⟨i, st⟩
    · simp [handle, run, refuses, abandons, creates, picks, runs, ht]
      split <;> simp
    · simp [handle, run, refuses, abandons, creates, picks, runs, ht]
      split <;> simp
    · exact recvTokens_run ha c hr ht hc
  | write c' packet =>
    simp only [handle, refuses, abandons, creates, picks, runs, mark_none, Nat.add_zero, write]
    split
    · simp only [recvTokens, flights, writeSendBuffer_inflight, writeSendBuffer_threads]
    · rfl
  | flush c' wsa =>
    simp only [handle, refuses, abandons, creates, picks, runs, mark_none, Nat.add_zero, flush]
    split
    · simp only [recvTokens, flushSendBuffer_threads]
      rcases flushSendBuffer_inflight s c' wsa with he | ⟨io, he, -⟩
      · simp only [flights, he]
      · rw [flights_post he]
        simp
    · rfl

/-! ## Nothing ends the process -/

theorem recvAsync_uncrashed {s : Server} {c : Nat} (h : (s.clients c).recvOverlapped ≠ none) (wsa : Bool) :
    (s.recvAsync c wsa).crashed = s.crashed := by
  obtain ⟨io, hio⟩ := Option.ne_none_iff_exists'.mp h
  cases wsa <;> simp [recvAsync, TcpClient.recvAsync, hio, withClient, post]

theorem flushSendBuffer_uncrashed {s : Server} {c : Nat} (h : (s.clients c).sendOverlapped ≠ none) (wsa : Bool) :
    (s.flushSendBuffer c wsa).crashed = s.crashed := by
  obtain ⟨io, hio⟩ := Option.ne_none_iff_exists'.mp h
  by_cases hl : (s.clients c).sendBuffer.length > 0
  · by_cases hp : (s.clients c).sendIoState = .pending
    · simp [flushSendBuffer, TcpClient.flush_pending hp, withClient]
    · cases wsa <;> simp [flushSendBuffer, TcpClient.flush_posts hl hp hio, withClient, post]
  · simp [flushSendBuffer, TcpClient.flush_empty hl, withClient]

theorem writeSendBuffer_uncrashed {s : Server} (hok : SendOk s) (sender : Option (Nat × Nat)) (client : Nat)
    (packet : Packet) :
    (s.writeSendBuffer sender client packet).2.crashed = s.crashed := by
  by_cases hf : (s.clients client).Fits packet
  · obtain ⟨b, hw, -⟩ := write_taken (hok client) hf sender
    rw [hw]; rfl
  · rw [write_refused (hok client) hf sender]

theorem readPacket_ok {x : TcpClient} (h : x.recvBuffer.Ok) : ∃ r, x.readPacket = .ok r := by
  cases hn : Base.Framing.next wireSize x.recvBuffer.contents with
  | none => exact ⟨_, TcpClient.readPacket_none h hn⟩
  | some n =>
    obtain ⟨b, hw, -⟩ := TcpClient.readPacket_some h hn
    exact ⟨_, hw⟩

/-- A registered session has a send structure, in a run that tears none down. -/
theorem equipped_send {s : Server} (h : Reach Calm s) {c : Nat} (hc : c ∈ s.registry) :
    (s.clients c).sendOverlapped ≠ none := by
  obtain ⟨o, ho, -⟩ := (Orderly.bound (calm h).1).send c (by have := List.count_pos_iff.mpr hc; omega)
  rw [ho]; simp

theorem exec_uncrashed {s : Server} (h : Reach Calm s) (wsa : Bool) {i : Stmt} (hh : s.Has i) :
    (s.exec wsa i).1.crashed = s.crashed := by
  obtain ⟨ho, hreg⟩ := calm h
  have hsound := (attributed ho).sound i hh
  have habout := (hreg.about i hh).2
  cases i with
  | dequeueRecv c socket =>
    obtain ⟨o, h', p', hd, -⟩ := OverlappedIoPool.dequeue_moves s.heap s.recvPool
    simp only [exec, hd]
  | dequeueSend c o socket =>
    obtain ⟨o, h', p', hd, -⟩ := OverlappedIoPool.dequeue_moves s.heap s.sendPool
    simp only [exec, hd]
  | firstRecv c o =>
    simp only [exec, hsound.2]
    exact recvAsync_uncrashed (by rw [hsound.1]; simp) wsa
  | getSocket op => simp only [exec, hsound.2]
  | takeSession j => simp only [exec, hsound.2]; rfl
  | recvAsync c j =>
    obtain ⟨hl, rfl, hk⟩ := hsound
    unfold Linked at hl
    rw [hk] at hl
    exact recvAsync_uncrashed (by rw [show (s.clients j.op.client).recvOverlapped = some j.op.io from hl]; simp) wsa
  | onSend c j =>
    obtain ⟨-, x, hx⟩ := heeded (sendOk ho) (Orderly.fixed ho) (attributed ho) (tokens ho) (sendStream h) hh
    simp only [exec, hx]; rfl
  | processLoop c j =>
    obtain ⟨r, hr⟩ := readPacket_ok ((recvSide ho).ok c)
    cases r <;> simp only [exec, hr]
    rfl
  | echo c j k packet => exact writeSendBuffer_uncrashed (sendOk ho) _ _ _
  | bcastWrite c j k packet client =>
    simp only [exec, if_pos (habout client (by simp [Stmt.about]))]
    exact writeSendBuffer_uncrashed (sendOk ho) _ _ _
  | bcastCheck c j k packet client | bcastFlush c j k packet client =>
    simp only [exec, if_pos (habout client (by simp [Stmt.about]))]
  | bcastNext c j k packet client =>
    obtain ⟨n, hn, -⟩ := TcpSessionManager.nextClient_of_mem (habout client (by simp [Stmt.about]))
    cases n <;> simp only [exec, hn]
  | flushSendBuffer c => exact flushSendBuffer_uncrashed (equipped_send h (habout c (by simp [Stmt.about]))) wsa
  | bindSocket c o socket => simp only [exec]; split <;> rfl
  | unbindRecv c => simp only [exec]; split <;> rfl
  | unbindSend c => simp only [exec]; split <;> rfl
  | _ => rfl

/-- While no session is torn down, nothing ends the process. -/
theorem calm_uncrashed {s : Server} (h : Reach Calm s) : s.crashed = none := by
  induction h with
  | start hs =>
    obtain ⟨n, rfl⟩ := hs
    rfl
  | step e hr hc ih =>
    rename_i s
    rw [step_eq ih]
    cases e with
    | accept socket =>
      rcases accept_cases s socket with he | ⟨-, -, -, -, -, he⟩ <;> simp only [handle, he, ih]
    | dispatch t i r =>
      rcases dispatch_cases s t i r with he | ⟨op, st, -, -, -, -, he⟩ <;> simp only [handle, he, ih]
      cases r <;> exact ih
    | run t wsa =>
      rcases ht : s.threads[t]? with _ | _ | ⟨i, st⟩ <;> simp only [handle, run, ht, ih]
      exact (exec_uncrashed hr wsa (has_top ht)).trans ih
    | write c packet =>
      simp only [handle, write]
      split
      · rw [writeSendBuffer_uncrashed (sendOk hr), ih]
      · exact ih
    | flush c wsa =>
      simp only [handle, flush]
      split
      · rename_i hreg
        rw [flushSendBuffer_uncrashed (equipped_send hr hreg), ih]
      · exact ih

/-! ## Calls of `CloseSession` that have not begun -/

/-- A session's structures are bound to it, and `CloseSession` is called with such a structure. -/
structure Tied (s : Server) : Prop where
  structures : ∀ c kind o, s.structureOf c kind = some o → s.getClientObject o = some c
  sent : ∀ c j, s.Has (.sendNext c j) → s.Linked j.op ∧ j.op.kind = .send
  closing : ∀ data, s.Has (.closeSession data) → ∃ c, s.getClientObject data = some c

/-- A session gets a structure from a statement that holds it, and is bound to it. -/
theorem structureOf_step {s : Server} {e : Ev} {c : Nat} {kind : IoKind} {o : Nat}
    (h : (s.step e).structureOf c kind = some o) :
    s.structureOf c kind = some o ∨ ((s.step e).getClientObject o = some c ∧
      ∃ t wsa i st, e = .run t wsa ∧ s.threads[t]? = some (i :: st) ∧ i.holds o = 1) := by
  by_cases hcr : s.crashed = none
  case neg => rw [step_crashed hcr] at h; exact Or.inl h
  rcases structureOf_cases s e c kind with he | ⟨t, wsa, i, st, rfl, ht, hi⟩
  · exact Or.inl (he ▸ h)
  have hget : (s.exec wsa i).1.getClientObject o = some c → (s.step (.run t wsa)).getClientObject o = some c := by
    intro hg
    rw [step_eq hcr, handle, (run_fields _ ht).getClientObject]
    exact hg
  rcases hi with ⟨socket, -, -, hn⟩ | ⟨o', socket, rfl, -, hn⟩ | ⟨o', sendO, socket, rfl, -, hn⟩
  · cases hn.symm.trans h
  · cases hn.symm.trans h
    exact Or.inr ⟨hget ((getClientObject_set _ _ _ _).trans (if_pos rfl)), t, wsa, _, st, rfl, ht, by simp [Stmt.holds]⟩
  · cases hn.symm.trans h
    exact Or.inr ⟨hget ((getClientObject_set _ _ _ _).trans (if_pos rfl)), t, wsa, _, st, rfl, ht, by simp [Stmt.holds]⟩

/-- What calls `CloseSession`, and what has just run `OnSend`. -/
theorem pushed_closing {s : Server} {wsa : Bool} {i x : Stmt} (hm : x ∈ (s.exec wsa i).2) :
    (∀ c j, x = .sendNext c j → i = .onSend c j) ∧
      ∀ data, x = .closeSession data →
        (∃ j, i = .checkBound j ∧ s.getClientObject j.op.io = none) ∨
        ∃ c j, (i = .recvNext c j ∨ i = .sendNext c j) ∧ (s.clients c).isValid = false ∧ data = j.op.io := by
  cases i <;> simp only [exec] at hm <;> (repeat' split at hm) <;>
    simp only [List.mem_cons, List.not_mem_nil, or_false] at hm <;>
    (first | subst hm | rcases hm with rfl | rfl) <;> simp_all

theorem tied_step {s : Server} (h : Reach Calm s) {e : Ev} (hw : Tied s) : Tied (s.step e) := by
  obtain ⟨ho, hreg⟩ := calm h
  have hx := Orderly.fixed ho
  have hb := Orderly.bound ho
  have ha := attributed ho
  have hkept : ∀ {o c}, s.getClientObject o = some c → (s.step e).getClientObject o = some c := fun hg =>
    client_kept hb hg (by rw [hreg.unbinding e]; simp)
  have hbound : ∀ {op : IoOp}, s.Linked op → s.getClientObject op.io = some op.client := fun hl =>
    hw.structures _ _ _ hl
  refine ⟨?_, ?_, ?_⟩
  · intro c kind o hs
    rcases structureOf_step hs with h1 | ⟨h1, -⟩
    · exact hkept (hw.structures c kind o h1)
    · exact h1
  · intro c j hh
    rcases has_step hh with hh | ⟨socket, hn⟩ | ⟨op, hop, _, _, r, st, _, _, hbr, hm⟩ |
        ⟨t, wsa, i, st, rfl, ht, -, hm⟩
    · obtain ⟨h1, h2⟩ := hw.sent c j hh
      exact ⟨linked_kept hx e h1, h2⟩
    · cases hn
    · rcases mem_branch hbr hm with hn | hn | ⟨n, hn, -⟩ <;> cases hn
    · obtain rfl := (pushed_closing hm).1 c j rfl
      obtain ⟨h1, -, h2⟩ := ha.sound _ (has_top ht)
      exact ⟨linked_kept hx _ h1, h2⟩
  · intro data hh
    rcases has_step hh with hh | ⟨socket, hn⟩ | ⟨op, hop, _, _, r, st, _, _, hbr, hm⟩ |
        ⟨t, wsa, i, st, rfl, ht, -, hm⟩
    · obtain ⟨c, h1⟩ := hw.closing data hh
      exact ⟨c, hkept h1⟩
    · cases hn
    · rcases mem_branch hbr hm with hn | hn | ⟨n, hn, -⟩ <;> cases hn
      exact ⟨_, hkept (ha.flying op hop).2⟩
    · rcases (pushed_closing hm).2 data rfl with ⟨j, rfl, hnone⟩ | ⟨c, j, hi, -, rfl⟩
      · have := (ha.sound _ (has_top ht)).2
        rw [hnone] at this
        cases this
      · refine ⟨j.op.client, hkept (hbound ?_)⟩
        rcases hi with rfl | rfl
        · exact (ha.sound _ (has_top ht)).1
        · exact (hw.sent c j (has_top ht)).1

theorem tied {s : Server} (h : Reach Calm s) : Tied s := by
  induction h with
  | start hs =>
    obtain ⟨n, rfl⟩ := hs
    refine ⟨fun c kind o hs => ?_, fun c j hh => absurd hh (not_has_boot n _), fun data hh => absurd hh (not_has_boot n _)⟩
    cases kind <;> cases hs
  | step e hr _ ih => exact tied_step hr ih

end Server

end SigHolic.Network
