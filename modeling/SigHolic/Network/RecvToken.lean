/-
  SigHolic.Network.RecvToken — the receive path without a lock (`RecvAsync` and `OnReceived`,
  socket/TcpClient.cpp; `WorkerThread` and `Network::Run`, network/network.cpp).

  Nothing locks the receive buffer or `m_RecvIoState`. What protects them is that a session
  has one receive: it is with `Network::Run` until its `RecvAsync`, in flight, or with the
  worker that picked its completion up, until the worker's `RecvAsync` or, when there is
  none, its `CloseSession`.

  Proved, while no session is torn down: this is counted once for every session made, less
  the `WSARecv` that failed (`recvHolders_run`); the receive buffer stands while a receive
  is in flight; no completion of a receive is passed over; and `RecvAsync` always finds the
  session `IO_CONNECTED` (`settled`).
-/

import Mathlib.Data.List.Induction
import SigHolic.Network.Accounts

namespace SigHolic.Network

open SigHolic.Base.Runs SigHolic.Base.Tally SigHolic.Utility.Buffer SigHolic.Iocp SigHolic.Socket

namespace Stmt

def closes (o : Nat) : Stmt → Nat
  | .closeSession data => if data = o then 1 else 0
  | _ => 0

def handler : Stmt → Option Nat
  | .onReceived c _ | .tryProcessPacket c _ | .processLoop c _ | .loopTail c _ | .processPacket c _ _ | .verifyFlag c _ _ _
  | .echo c _ _ _ | .bcastBegin c _ _ _ | .bcastCheck c _ _ _ _ | .bcastWrite c _ _ _ _ | .bcastFlush c _ _ _ _
  | .bcastNext c _ _ _ _ => some c
  | _ => none

def settles : Stmt → Option Nat
  | .addTcpClient c _ _ | .bindSocket c _ _ | .firstRecv c _ | .recvNext c _ | .recvAsync c _ | .tryProcessPacket c _
  | .processLoop c _ | .loopTail c _ | .processPacket c _ _ | .verifyFlag c _ _ _ | .echo c _ _ _ | .bcastBegin c _ _ _
  | .bcastCheck c _ _ _ _ | .bcastWrite c _ _ _ _ | .bcastFlush c _ _ _ _ | .bcastNext c _ _ _ _ => some c
  | _ => none

end Stmt

namespace Server

/-! ## Who has the receive -/

def closers (s : Server) (c : Nat) : Nat :=
  match (s.clients c).recvOverlapped with
  | none => 0
  | some o => tally (Stmt.closes o) s.threads

/-- In how many hands the session's receive is: `Network::Run` before its `RecvAsync`, the
    system, the workers that picked its completion up. -/
def recvHolders (s : Server) (c : Nat) : Nat := s.recvTokens c + s.closers c

def refusals (c : Nat) : Server → List Ev → Nat
  | _, [] => 0
  | s, e :: es => mark (s.refuses e) c + refusals c (s.step e) es

theorem refusals_concat (c : Nat) (s : Server) (es : List Ev) (e : Ev) :
    refusals c s (es ++ [e]) = refusals c s es + mark ((es.foldl step s).refuses e) c := by
  induction es generalizing s with
  | nil => simp [refusals]
  | cons x es ih => simp only [List.cons_append, refusals, ih, List.foldl_cons]; omega

section Step

variable {s : Server} (h : Reach Calm s)
include h

/-- A structure with which a session receives is no other's. -/
theorem io_eq_iff {c o : Nat} (hc : (s.clients c).recvOverlapped = some o) {op : IoOp} (hl : s.Linked op) :
    op.io = o ↔ op.kind = .recv ∧ op.client = c := by
  have hw := tied h
  have h1 : s.getClientObject o = some c := hw.structures c .recv o hc
  have h2 : s.getClientObject op.io = some op.client := hw.structures _ _ _ hl
  constructor
  · intro heq
    subst heq
    rw [h2] at h1
    cases h1
    exact ⟨kind_of_structure (Orderly.fixed (calm h).1) hl hc, rfl⟩
  · intro hboth
    obtain ⟨hk, rfl⟩ := hboth
    unfold Linked at hl
    rw [hk] at hl
    exact Option.some.inj (hl.symm.trans hc)

/-- A worker comes to `CloseSession` with the session's receive by giving it up. -/
theorem closes_run {c o : Nat} (hc : (s.clients c).recvOverlapped = some o) {t : Nat} {wsa : Bool} {i : Stmt} {st : List Stmt}
    (ht : s.threads[t]? = some (i :: st)) (hcalm : Calm s (.run t wsa)) :
    tally (Stmt.closes o) (s.run t wsa).threads = tally (Stmt.closes o) s.threads + mark (s.abandons (.run t wsa)) c := by
  have ha := attributed (calm h).1
  have hsound := ha.sound i (has_top ht)
  have h1 := tally_run (Stmt.closes o) wsa ht
  have hkey : weight (Stmt.closes o) (s.exec wsa i).2 = i.closes o + mark (s.abandons (.run t wsa)) c := by
    simp only [abandons, picks, runs_top ht]
    cases i with
    | closeSession data =>
      -- with a session to close, the run would not be calm
      obtain ⟨c', hg⟩ := (tied h).closing data (has_top ht)
      simp only [Calm, closing, ht, hg] at hcalm
      cases hcalm
    | recvNext c' j =>
      obtain ⟨hl, rfl, hk⟩ := hsound
      have hio := io_eq_iff h hc hl
      cases hv : (s.clients j.op.client).isValid
      · simp only [exec, hv, Stmt.closes, weight_cons, weight_nil, mark, hio, hk, true_and, Option.some.injEq,
          Bool.false_eq_true, if_false]
        omega
      · simp [exec, hv, Stmt.closes]
    | sendNext c' j =>
      obtain ⟨hl, hk⟩ := (tied h).sent c' j (has_top ht)
      have hio := io_eq_iff h hc hl
      simp only [exec]
      split <;> simp [Stmt.closes, hio, hk]
    | checkBound j => simp [exec, hsound.2, Stmt.closes]
    | _ =>
      simp only [exec]
      (repeat' split) <;> simp [Stmt.closes]
  omega

/-- A structure whose session `CloseSession` would read was not just taken out of its queue. -/
theorem closes_unbound {o : Nat} (ho : s.getClientObject o = none) : tally (Stmt.closes o) s.threads = 0 := by
  rw [tally_eq_zero]
  intro st hst x hx
  cases x with
  | closeSession data =>
    obtain ⟨c, hg⟩ := (tied h).closing data ⟨st, hst, hx⟩
    have hne : data ≠ o := by
      intro he
      rw [he, ho] at hg
      cases hg
    simp [Stmt.closes, hne]
  | _ => rfl

/-- A session that has a receive to give up has its receive structure. -/
theorem abandons_structure {e : Ev} {c : Nat} (he : s.abandons e = some c) : (s.clients c).recvOverlapped ≠ none := by
  have ha := attributed (calm h).1
  have hkey : ∀ op : IoOp, s.Linked op → op.kind = .recv → (s.clients op.client).recvOverlapped ≠ none := by
    intro op hl hk
    unfold Linked at hl
    rw [hk] at hl
    rw [show (s.clients op.client).recvOverlapped = some op.io from hl]
    simp
  cases e with
  | dispatch t i r =>
    rcases dispatch_picks s t i r with ⟨hp, -⟩ | ⟨op, st, hp, -, hop, -, -⟩
    · simp [abandons, hp, runs] at he
    · simp only [abandons, hp] at he
      split at he
      · rename_i hk
        cases he
        exact hkey op (ha.flying op (List.mem_of_getElem? hop)).1 hk.1
      · cases he
  | run t wsa =>
    rcases ht : s.threads[t]? with _ | _ | ⟨i, st⟩
    · simp [abandons, picks, runs, ht] at he
    · simp [abandons, picks, runs, ht] at he
    · simp only [abandons, picks, runs_top ht] at he
      cases i with
      | recvNext c' j =>
        obtain ⟨hl, rfl, hk⟩ := ha.sound _ (has_top ht)
        simp only at he
        split at he
        · cases he
        · cases he
          exact hkey j.op hl hk
      | _ => cases he
  | _ => cases he

/-- Each step keeps the account of the calls of `CloseSession` with a session's receive. -/
theorem closers_step {e : Ev} (hcalm : Calm s e) (c : Nat) :
    (s.step e).closers c = s.closers c + mark (s.abandons e) c := by
  have hcr := calm_uncrashed h
  have hx := Orderly.fixed (calm h).1
  cases hc : (s.clients c).recvOverlapped with
  | some o =>
    have hc' : ((s.step e).clients c).recvOverlapped = some o := structures_kept hx e .recv hc
    simp only [closers, hc, hc']
    rw [step_eq hcr]
    cases e with
    | accept socket =>
      simp only [handle, abandons, picks, runs, mark_none, Nat.add_zero]
      rcases accept_cases s socket with he | ⟨h0, hth, -⟩
      · rw [he]
      · have := tally_set (Stmt.closes o) h0 [.newSession socket]
        simp only [Stmt.closes, weight_cons, weight_nil, ← hth] at this
        omega
    | dispatch t i r =>
      simp only [handle]
      rcases dispatch_picks s t i r with ⟨hp, he⟩ | ⟨op, st, hp, h0, hop, hb, he⟩
      · simp [he, abandons, hp, runs]
      have hio := io_eq_iff h hc ((attributed (calm h).1).flying op (List.mem_of_getElem? hop)).1
      have h1 := tally_set (Stmt.closes o) h0 st
      have hth : (s.dispatch t i r).threads = s.threads.set t st := by simp only [he, setThread, land_threads]
      simp only [weight_nil, ← hth] at h1
      have h2 : weight (Stmt.closes o) st = mark (s.abandons (.dispatch t i r)) c := by
        simp only [abandons, hp, mark]
        rcases branch_cases hb with ⟨hem, rfl | rfl⟩ | ⟨hem, n, rfl, -⟩
        · by_cases hk : op.kind = .recv <;> simp [failedBranch, Stmt.closes, hem, hio, hk]
        · by_cases hk : op.kind = .recv <;> simp [failedBranch, Stmt.closes, hem, hio, hk]
        · simp [Stmt.closes, hem]
      omega
    | run t wsa =>
      simp only [handle]
      rcases ht : s.threads[t]? with _ | _ | ⟨i, st⟩
      · simp [run, abandons, picks, runs, ht]
      · simp [run, abandons, picks, runs, ht]
      · exact closes_run h hc ht hcalm
    | write c' packet =>
      simp only [handle, abandons, picks, runs, mark_none, Nat.add_zero, write]
      split
      · rw [writeSendBuffer_threads]
      · rfl
    | flush c' wsa =>
      simp only [handle, abandons, picks, runs, mark_none, Nat.add_zero, flush]
      split
      · rw [flushSendBuffer_threads]
      · rfl
  | none =>
    have hab : mark (s.abandons e) c = 0 := by
      refine if_neg fun he => ?_
      exact abandons_structure h he hc
    simp only [closers, hc, hab]
    cases hc' : ((s.step e).clients c).recvOverlapped with
    | none => rfl
    | some o =>
      -- the structure has just come out of its queue, where it was bound to nobody
      rcases structureOf_step (show (s.step e).structureOf c .recv = some o from hc') with
        hn | ⟨-, t, wsa, i, st, rfl, ht, hi⟩
      · rw [show (s.clients c).recvOverlapped = some o from hn] at hc
        cases hc
      have h1 := closes_unbound h (Bound.held (Orderly.bound (calm h).1) ht hi)
      have h2 := tally_run (Stmt.closes o) wsa ht
      have h3 : weight (Stmt.closes o) (s.exec wsa i).2 = 0 := by
        cases i with
        | bindRecv | bindSend | enqueueRecv | enqueueSend => rfl
        | _ => cases hi
      simp only [step_eq hcr, handle]
      omega

theorem recvHolders_step {e : Ev} (hcalm : Calm s e) (c : Nat) :
    (s.step e).recvHolders c + mark (s.refuses e) c = s.recvHolders c + mark (s.creates e) c := by
  have ho := (calm h).1
  have h1 := recvTokens_step (attributed ho) (recvSide ho) (calm_uncrashed (.step e h hcalm)) c
  have h2 := closers_step h hcalm c
  simp only [recvHolders]
  omega

end Step

/-- A session is made by `new TcpClient()` and by nothing else. -/
theorem creates_step {s : Server} (hc : s.crashed = none) (e : Ev) (c : Nat) :
    (if c < (s.step e).nextClient then 1 else 0) = (if c < s.nextClient then 1 else 0) + mark (s.creates e) c := by
  have hsame : s.creates e = none → (s.step e).nextClient = s.nextClient →
      (if c < (s.step e).nextClient then 1 else 0) = (if c < s.nextClient then 1 else 0) + mark (s.creates e) c := by
    intro h1 h2
    rw [h1, h2, mark_none, Nat.add_zero]
  cases e with
  | run t wsa =>
    rcases ht : s.threads[t]? with _ | _ | ⟨i, st⟩
    · exact hsame (by simp [creates, runs, ht]) (by simp [step_eq hc, handle, run, ht])
    · exact hsame (by simp [creates, runs, ht]) (by simp [step_eq hc, handle, run, ht])
    have hn : (s.step (.run t wsa)).nextClient = (s.exec wsa i).1.nextClient := by
      rw [step_eq hc, handle, (run_fields wsa ht).nextClient]
    cases i with
    | newSession socket =>
      rw [hn]
      simp only [creates, runs_top ht, mark, exec, newClient, Option.some.injEq]
      rcases Nat.lt_trichotomy c s.nextClient with h | h | h
      · simp [h, show c < s.nextClient + 1 by omega, show s.nextClient ≠ c by omega]
      · simp [h]
      · simp [show ¬ c < s.nextClient by omega, show ¬ c < s.nextClient + 1 by omega, show s.nextClient ≠ c by omega]
    | _ =>
      refine hsame (by simp [creates, runs_top ht]) ?_
      rw [hn]
      exact exec_nextClient s wsa (by simp)
  | accept | dispatch | write | flush =>
    refine hsame rfl ?_
    rcases step_cases s _ with hq | ⟨t, wsa, i, st, hn, -⟩
    · exact hq.nextClient
    · cases hn

/-- In a run without `CloseSession`, a session's receive is in one hand, or a `WSARecv` failed. -/
theorem recvHolders_run {n : Nat} {es : List Ev} (h : Along step Calm (boot n) es) (c : Nat) :
    (es.foldl step (boot n)).recvHolders c + refusals c (boot n) es =
      if c < (es.foldl step (boot n)).nextClient then 1 else 0 := by
  induction es using List.reverseRecOn with
  | nil =>
    have h0 : ∀ f : Stmt → Nat, tally f (boot n).threads = 0 := fun f => tally_replicate f (n + 1)
    show (boot n).flights .recv c + tally (Stmt.receives c) (boot n).threads + 0 + 0 = 0
    rw [h0]
    rfl
  | append_singleton es e ih =>
    obtain ⟨h1, h2⟩ := along_concat.mp h
    have hr : Reach Calm (es.foldl step (boot n)) := .run (.start ⟨n, rfl⟩) h1
    have h3 := recvHolders_step hr h2 c
    have h4 := creates_step (calm_uncrashed hr) e c
    have h5 := ih h1
    rw [refusals_concat, List.foldl_concat]
    omega

/-! ## The state the next receive is posted in -/

theorem receives_of_settles {s : Server} {x : Stmt} (hs : s.Sound x) {c : Nat} (h : x.settles = some c) : x.receives c = 1 := by
  cases x with
  | addTcpClient | bindSocket | firstRecv =>
    cases h
    exact if_pos rfl
  | recvNext | recvAsync | tryProcessPacket | processLoop | loopTail | processPacket | verifyFlag | echo | bcastBegin
  | bcastCheck | bcastWrite | bcastFlush | bcastNext =>
    cases h
    exact if_pos ⟨hs.2.2, hs.2.1.symm⟩
  | _ => cases h

theorem receives_of_handler {s : Server} {x : Stmt} (hs : s.Sound x) {c : Nat} (h : x.handler = some c) : x.receives c = 1 := by
  cases x with
  | onReceived | tryProcessPacket | processLoop | loopTail | processPacket | verifyFlag | echo | bcastBegin | bcastCheck
  | bcastWrite | bcastFlush | bcastNext =>
    cases h
    exact if_pos ⟨hs.2.2, hs.2.1.symm⟩
  | _ => cases h

/-- The thread that will post the next receive is at work since `Initialize` or `OnReceived`. -/
theorem pushed_settles {s : Server} {wsa : Bool} {i x : Stmt} (hm : x ∈ (s.exec wsa i).2) {c : Nat} (h : x.settles = some c) :
    i.settles = some c ∨ (∃ o socket, i = .initializeSocket c o socket) ∨ ∃ j, i = .onReceived c j := by
  cases i <;> simp only [exec] at hm <;> (repeat' split at hm) <;>
    simp only [List.mem_cons, List.not_mem_nil, or_false] at hm <;>
    (first | subst hm | rcases hm with rfl | rfl) <;> simp_all [Stmt.settles]

/-- A session stays `IO_CONNECTED` until the thread that has its receive posts it. -/
theorem connected_kept {s : Server} (ha : Attributed s) (ht : Tokens s) {e : Ev} {c : Nat} (hborn : c < s.nextClient)
    (hlive : 0 < tally (Stmt.receives c) (s.step e).threads) (h : (s.clients c).recvIoState = .connected) :
    ((s.step e).clients c).recvIoState = .connected := by
  by_cases hc : s.crashed = none
  case neg => rw [step_crashed hc]; exact h
  -- the only hand the receive is in posts it, so no thread has it afterwards
  have hposts : ∀ {t wsa i st}, s.threads[t]? = some (i :: st) → e = .run t wsa → i.receives c = 1 →
      weight (Stmt.receives c) (s.exec wsa i).2 = 0 → False := by
    intro t wsa i st hth heq hi hz
    subst heq
    have h1 := tally_run (Stmt.receives c) wsa hth
    have h2 := ht.recv c
    rw [step_eq hc, handle] at hlive
    rw [recvTokens] at h2
    omega
  rcases step_clients s e c with h1 | h1
  · rw [h1]; exact h
  generalize (s.step e).clients c = x at h1 ⊢
  cases h1 with
  | stored | flushed => exact h
  | written hw => obtain ⟨b, rfl⟩ := TcpClient.writeSendBuffer_cases hw; exact h
  | ran hth h1 =>
    have hsound := ha.sound _ (has_top hth)
    cases h1 with
    | made hn => omega
    | initialized | received => rfl
    | firstPosted hg =>
      rename_i c' o
      obtain ⟨-, hg'⟩ := hsound
      rw [hg] at hg'
      cases hg'
      exact absurd (hposts hth rfl (by simp [Stmt.receives]) (by simp [exec, hg])) id
    | recvPosted =>
      obtain ⟨-, hcl, hk⟩ := hsound
      exact absurd (hposts hth rfl (by simp [Stmt.receives, hk, ← hcl]) (by simp [exec, Stmt.receives])) id
    | read hw => obtain ⟨b, n, rfl⟩ := TcpClient.readPacket_cases hw; exact h
    | echoed hw | broadcast hw => obtain ⟨b, rfl⟩ := TcpClient.writeSendBuffer_cases hw; exact h
    | sent hw => obtain ⟨b, rfl⟩ := TcpClient.onSend_cases hw; exact h
    | boundRecv | boundSend | flushed | closed => exact h

def Settled (s : Server) : Prop := ∀ x, s.Has x → ∀ c, x.settles = some c → (s.clients c).recvIoState = .connected

theorem settled_step {s : Server} {e : Ev} (hr : Reach Orderly s) (ho : Orderly s e) (h : Settled s) : Settled (s.step e) := by
  intro x hh c hx
  have hlive : 0 < tally (Stmt.receives c) (s.step e).threads := by
    have h1 := le_tally_of_has (Stmt.receives c) hh
    rw [receives_of_settles ((attributed (.step e hr ho)).sound x hh) hx] at h1
    exact h1
  have ha := attributed hr
  have hkept : ∀ y, s.Has y → y.settles = some c → ((s.step e).clients c).recvIoState = .connected := by
    intro y hy hyc
    refine connected_kept ha (tokens hr) ?_ hlive (h y hy c hyc)
    by_contra hn
    have h1 := (tokens_unborn (Orderly.stages hr) (Orderly.fixed hr) ha (c := c) (by omega)).1
    have h2 := le_tally_of_has (Stmt.receives c) hy
    rw [receives_of_settles (ha.sound y hy) hyc] at h2
    rw [recvTokens] at h1
    omega
  rcases has_step hh with hh | ⟨socket, rfl⟩ | ⟨op, -, _, _, r, st, _, _, hbr, hm⟩ | ⟨t, wsa, i, st, rfl, ht, hc, hm⟩
  · exact hkept x hh hx
  · cases hx
  · rcases mem_branch hbr hm with rfl | rfl | ⟨n, rfl, -⟩ <;> cases hx
  · have hcl : ((s.step (.run t wsa)).clients c) = (s.exec wsa i).1.clients c := by
      simp only [step_eq hc, handle, run, ht]; rfl
    rcases pushed_settles hm hx with hi | ⟨o, socket, rfl⟩ | ⟨j, rfl⟩
    · exact hkept i (has_top ht) hi
    · rw [hcl]; simp [exec, TcpClient.initializeSocket]
    · rw [hcl]; simp [exec, TcpClient.addReceived]

theorem settled {s : Server} (h : Reach Orderly s) : Settled s := by
  induction h with
  | start hs =>
    obtain ⟨n, rfl⟩ := hs
    exact fun x hx => absurd hx (not_has_boot n x)
  | step e hr ho ih => exact settled_step hr ho ih

/-! ## The receive path is one thread's -/

/-- The operation is in flight, or a worker has its completion and has not reached `OnReceived`. -/
def OnTheWay (s : Server) (op : IoOp) : Prop := op ∈ s.inflight ∨ ∃ x j, s.Has x ∧ x.arriving = some j ∧ j.op = op

/-- What a session's receive can rely on without a lock. -/
structure Exclusive (s : Server) (c : Nat) : Prop where
  /-- One thread at most is in `OnReceived` or in what it calls. -/
  one : ∀ (t t' : Nat) (st st' : List Stmt) (x x' : Stmt), s.threads[t]? = some st → s.threads[t']? = some st' →
    x ∈ st → x' ∈ st' → x.handler = some c → x'.handler = some c → t = t'
  /-- The buffer's length is what it was when `RecvAsync` posted its end. -/
  stands : ∀ op, s.OnTheWay op → op.kind = .recv → op.client = c → (s.clients c).recvBuffer.length = op.buf.off
  /-- The completion of a receive passes the test for `IO_PENDING`. -/
  heard : ∀ j wsa, s.Has (.recvBranch c j) → j.op.kind = .recv → (s.exec wsa (.recvBranch c j)).2 = [.onReceived c j]
  /-- `RecvAsync` has nothing to warn about. -/
  first : ∀ o, s.Has (.firstRecv c o) → s.getClientObject o = some c ∧ (s.clients c).recvIoState = .connected
  next : ∀ j, s.Has (.recvAsync c j) → (s.clients c).recvIoState = .connected

theorem exclusive {s : Server} (h : Reach Orderly s) (c : Nat) : Exclusive s c := by
  have ha := attributed h
  have hr := recvSide h
  refine ⟨?_, ?_, ?_, ?_, ?_⟩
  · intro t t' st st' x x' ht ht' hx hx' hc hc'
    have h1 := receives_of_handler (ha.sound x ⟨st, List.mem_of_getElem? ht, hx⟩) hc
    have h2 := receives_of_handler (ha.sound x' ⟨st', List.mem_of_getElem? ht', hx'⟩) hc'
    have h3 := (tokens h).recv c
    rw [recvTokens] at h3
    exact tally_unique (Stmt.receives c) ht ht' hx hx' (by omega) (by omega) (by omega)
  · intro op hop hk hcl
    have hw : s.Awaited op := by
      rcases hop with hop | ⟨x, j, hh, hj, rfl⟩
      · exact hr.flying op hop hk
      · exact (hr.arriving x hh j hj hk).1
    rw [hw.off, hcl, PulledBuffer.getEmptyPtr]
  · intro j wsa hh hk
    obtain ⟨hl, rfl⟩ := ha.sound _ hh
    have hp := (hr.arriving _ hh j rfl hk).1.pending
    have ho : (s.clients j.op.client).recvOverlapped = some j.op.io := by
      unfold Linked at hl
      rwa [hk] at hl
    simp [exec, hp, ho]
  · intro o hh
    exact ⟨(ha.sound _ hh).2, settled h _ hh c rfl⟩
  · intro j hh
    exact settled h _ hh c rfl

/-- Before the first `CloseSession`, a session's receive is in one hand unless a `WSARecv` has
    failed; so the receive path needs no lock. -/
theorem the_receive_is_in_one_hand {n : Nat} {es : List Ev} (h : Along step Calm (boot n) es) (c : Nat) :
    (es.foldl step (boot n)).recvHolders c + refusals c (boot n) es =
        (if c < (es.foldl step (boot n)).nextClient then 1 else 0) ∧
      Exclusive (es.foldl step (boot n)) c :=
  ⟨recvHolders_run h c, exclusive (calm (.run (.start ⟨n, rfl⟩) h)).1 c⟩

/-- Two sessions; the first one's bytes are with worker 1, the second one's `WSARecv` fails. -/
def twoHandsRun : List Ev := List.flatten [
  [.accept 5], List.replicate 9 (.run 0 true), [.dispatch 1 0 (.received [1, 0, 1, 0x55, 7])], List.replicate 5 (.run 1 true),
  [.accept 6], List.replicate 8 (.run 0 true), [.run 0 false]]

theorem one_held_one_lost :
    (twoHandsRun.foldl step (boot 2)).recvHolders 0 = 1 ∧ (twoHandsRun.foldl step (boot 2)).recvHolders 1 = 0 ∧
      Exclusive (twoHandsRun.foldl step (boot 2)) 0 := by
  have h : Along step Calm (boot 2) twoHandsRun := by rw [boot_eq]; decide +kernel
  have h0 := the_receive_is_in_one_hand h 0
  have h1 := (the_receive_is_in_one_hand h 1).1
  have r0 : refusals 0 (boot 2) twoHandsRun = 0 := by rw [boot_eq]; decide +kernel
  have r1 : refusals 1 (boot 2) twoHandsRun = 1 := by rw [boot_eq]; decide +kernel
  have hn : (twoHandsRun.foldl step (boot 2)).nextClient = 2 := by rw [boot_eq]; decide +kernel
  rw [r0, hn] at h0
  rw [r1, hn] at h1
  simp only [Nat.reduceLT, if_true] at h0 h1
  exact ⟨by omega, by omega, h0.2⟩

end Server

end SigHolic.Network
