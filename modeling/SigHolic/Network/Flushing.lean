/-
  SigHolic.Network.Flushing — bytes in a send buffer are on their way (`FlushSendBuffer`,
  `ProcessPacket` and `OnSend`, socket/TcpClient.cpp; `WorkerThread`, network/network.cpp).

  A packet may be appended while a send of the session is in flight, or between its `OnSend`
  and the flush after it; `FlushSendBuffer` does nothing while the flag is up. So somebody
  must owe the session a flush: the send on the way (its completion ends in a flush), the
  worker between `OnSend` and that flush, the session's own handler (it ends in a flush),
  or a broadcast that has just written to the session.

  Proved, while no session is torn down, no `WSASend` fails and the packets come from the
  handlers: the flag is up only for a send on the way, and a valid session with bytes to
  send is owed a flush (`flushed`); so with no worker in a handler it has a send in flight
  (`no_flush_is_lost`).
-/

import SigHolic.Network.Orphans

namespace SigHolic.Network

open SigHolic.Base.Tally SigHolic.Utility.Buffer SigHolic.Iocp SigHolic.Socket

namespace Stmt

/-- The thread will come to the session's `FlushSendBuffer`, if the session is valid. -/
def owes (c : Nat) : Stmt → Nat
  | .flushSendBuffer c' | .sendNext c' _ | .processLoop c' _ | .loopTail c' _ | .processPacket c' _ _ | .verifyFlag c' _ _ _
  | .echo c' _ _ _ | .bcastBegin c' _ _ _ | .bcastCheck c' _ _ _ _ | .bcastWrite c' _ _ _ _ | .bcastNext c' _ _ _ _ =>
    if c' = c then 1 else 0
  | .bcastFlush c' _ _ _ client => if c' = c ∨ client = c then 1 else 0
  | _ => 0

end Stmt

namespace Server

def flushes (s : Server) : Ev → Option (Nat × Bool)
  | .run t wsa =>
    match s.threads[t]? with
    | some (.flushSendBuffer c :: _) => some (c, wsa)
    | _ => none
  | .flush c wsa => if c ∈ s.registry then some (c, wsa) else none
  | _ => none

def refusesSend (s : Server) (e : Ev) : Option Nat :=
  match s.flushes e with
  | some (c, false) => if 0 < (s.clients c).sendBuffer.length ∧ (s.clients c).sendIoState ≠ .pending then some c else none
  | _ => none

/-- No session is torn down, packets come from the handlers, and no `WSASend` fails. -/
def Flowing (s : Server) (e : Ev) : Prop := Calm s e ∧ e.writes = false ∧ s.refusesSend e = none

instance (s : Server) (e : Ev) : Decidable (Flowing s e) := inferInstanceAs (Decidable (_ ∧ _ ∧ _))

/-! ## The send on the way -/

/-- A statement hands a send's completion on, up to `OnSend`. -/
theorem sends_handed_on {s : Server} (h : Reach Calm s) (wsa : Bool) {i : Stmt} (hh : s.Has i) {c : Nat}
    (hne : ∀ j, i ≠ .onSend c j) : i.sends c ≤ weight (Stmt.sends c) (s.exec wsa i).2 := by
  have ho := (calm h).1
  have hsound := (attributed ho).sound i hh
  have hheed := heeded (sendOk ho) (Orderly.fixed ho) (attributed ho) (tokens ho) (sendStream h) hh
  cases i with
  | checkExpired j | checkBound j | takeSession j => simp [exec, hsound.2, Stmt.sends]
  | recvBranch c' j =>
    by_cases hk : j.op.kind = .send
    · obtain ⟨-, hr⟩ := hheed hk
      simp [exec, hr, Stmt.sends]
    · simp [Stmt.sends, hk]
  | sendBranch c' j =>
    by_cases hk : j.op.kind = .send
    · obtain ⟨-, hs, hp⟩ := hheed hk
      simp [exec, hs, hp, Stmt.sends]
    · simp [Stmt.sends, hk]
  | onSend c' j =>
    obtain ⟨-, rfl, -⟩ := hsound
    have hcl : ¬ j.op.client = c := by
      intro heq
      subst heq
      exact hne j rfl
    simp [Stmt.sends, hcl]
  | _ => exact Nat.zero_le _

/-- What is in flight stays there until a worker picks its completion up. -/
theorem inflight_grows (s : Server) {e : Ev} (hne : ∀ t i r, e ≠ .dispatch t i r) : s.inflight <+: (s.step e).inflight := by
  rcases inflight_cases s e with he | ⟨t, i, r, rfl, -⟩ | ⟨op, he, -⟩
  · exact he ▸ List.prefix_refl _
  · exact absurd rfl (hne t i r)
  · rw [he]
    exact List.prefix_append _ _

section Step

variable {s : Server} (h : Reach Calm s) {e : Ev} {c : Nat}
include h

/-- A session about to be closed stays so: in a calm run nobody gets to close it. -/
theorem doomed_stays (hd : c ∈ s.registry ∧ Doomed s c) : c ∈ (s.step e).registry ∧ Doomed (s.step e) c := by
  obtain ⟨ho, hreg⟩ := calm h
  have hr' := registry_kept hreg e hd.1
  exact ⟨hr', doomed_kept (Orderly.bound ho) (Orderly.stages ho) (calm_uncrashed h) hd.1 hr' hd.2⟩

/-- A send stays on the way until `OnSend`, unless its completion brings no bytes. -/
theorem sendTokens_kept (hpos : 0 < s.sendTokens c) :
    0 < (s.step e).sendTokens c ∨ (c ∈ (s.step e).registry ∧ Doomed (s.step e) c) ∨
      ∃ t wsa j st, e = .run t wsa ∧ s.threads[t]? = some (.onSend c j :: st) := by
  obtain ⟨ho, hreg⟩ := calm h
  have hc := calm_uncrashed h
  have hgrow : (∀ t i r, e ≠ .dispatch t i r) → s.flights .send c ≤ (s.step e).flights .send c := fun hne =>
    (inflight_grows s hne).sublist.countP_le
  have hsame : (∀ t i r, e ≠ .dispatch t i r) → (s.step e).threads = s.threads → 0 < (s.step e).sendTokens c := by
    intro hne hth
    have := hgrow hne
    simp only [sendTokens, hth] at hpos ⊢
    omega
  cases e with
  | accept socket =>
    left
    rcases accept_cases s socket with he | ⟨h0, hth, -⟩
    · exact hsame (by simp) (by rw [step_eq hc, handle, he])
    · have h1 := tally_set (Stmt.sends c) h0 [.newSession socket]
      have h2 := hgrow (by simp)
      simp only [Stmt.sends, weight_cons, weight_nil, ← hth] at h1
      rw [step_eq hc, handle] at h2 ⊢
      simp only [sendTokens] at hpos ⊢
      omega
  | dispatch t i r =>
    rcases dispatch_picks s t i r with ⟨-, he⟩ | ⟨op, st, -, h0, hop, hb, he⟩
    · rw [step_eq hc, handle, he]; exact Or.inl hpos
    by_cases hlost : r.empty = true ∧ op.client = c
    · obtain ⟨hem, hcl⟩ := hlost
      have hm : c ∈ s.registry := hcl ▸ hreg.flying op (List.mem_of_getElem? hop)
      refine Or.inr (Or.inl ⟨registry_kept hreg _ hm, ?_⟩)
      exact doomed_of_empty (Orderly.bound ho) (Orderly.stages ho) hc hm (attributed ho) h0 hop hb hem hcl he
    · left
      have h1 := flights_dispatch (s.dispatch t i r) hop (by rw [he]) .send c
      have h2 := tally_set (Stmt.sends c) h0 st
      have hth : (s.dispatch t i r).threads = s.threads.set t st := by simp only [he, setThread, land_threads]
      have h3 : (if op.kind = .send ∧ op.client = c then 1 else 0) ≤ weight (Stmt.sends c) st := by
        rcases branch_cases hb with ⟨hem, -⟩ | ⟨-, n, rfl, -⟩
        · have hne : ¬ op.client = c := fun hcl => hlost ⟨hem, hcl⟩
          simp [hne]
        · simp [Stmt.sends]
      simp only [weight_nil, ← hth] at h2
      rw [step_eq hc, handle]
      simp only [sendTokens] at hpos ⊢
      omega
  | run t wsa =>
    rcases ht : s.threads[t]? with _ | _ | ⟨i, st⟩
    · exact Or.inl (hsame (by simp) (by simp only [step_eq hc, handle, run, ht]))
    · exact Or.inl (hsame (by simp) (by simp only [step_eq hc, handle, run, ht]))
    by_cases hon : ∃ j, i = .onSend c j
    · obtain ⟨j, rfl⟩ := hon
      exact Or.inr (Or.inr ⟨t, wsa, j, st, rfl, ht⟩)
    · left
      have h1 := tally_run (Stmt.sends c) wsa ht
      have h2 := sends_handed_on h wsa (has_top ht) fun j he => hon ⟨j, he⟩
      have h3 := hgrow (by simp)
      rw [step_eq hc, handle] at h3 ⊢
      simp only [sendTokens] at hpos ⊢
      omega
  | write c' packet =>
    refine Or.inl (hsame (by simp) ?_)
    simp only [step_eq hc, handle, write]
    split
    · rw [writeSendBuffer_threads]
    · rfl
  | flush c' wsa =>
    refine Or.inl (hsame (by simp) ?_)
    simp only [step_eq hc, handle, flush]
    split
    · rw [flushSendBuffer_threads]
    · rfl

/-- `OnSend` of the session takes the flag down, and a flush follows. -/
theorem onSend_clears {t : Nat} {wsa : Bool} {j : Completion} {st : List Stmt} (ht : s.threads[t]? = some (.onSend c j :: st)) :
    ((s.step (.run t wsa)).clients c).sendIoState = .connected ∧ 0 < tally (Stmt.owes c) (s.step (.run t wsa)).threads := by
  have ho := (calm h).1
  obtain ⟨-, x, hx⟩ := heeded (sendOk ho) (Orderly.fixed ho) (attributed ho) (tokens ho) (sendStream h) (has_top ht)
  obtain ⟨b, hb⟩ := TcpClient.onSend_cases hx
  rw [step_eq (calm_uncrashed h), handle]
  constructor
  · have : (s.run t wsa).clients c = x := by simp [run, ht, exec, hx, setThread, observe]
    rw [this, hb]
  · exact tally_pos_of_pushed ht _ (x := .sendNext c j) (by simp [exec, hx]) (by simp [Stmt.owes])

/-- A flush with bytes to send and the flag down posts. -/
theorem flush_flies {wsa : Bool} (hf : s.flushes e = some (c, wsa)) (hl : 0 < (s.clients c).sendBuffer.length)
    (hp : (s.clients c).sendIoState ≠ .pending) (hr : s.refusesSend e = none) : 0 < (s.step e).sendTokens c := by
  have hc := calm_uncrashed h
  have hw : wsa = true := by
    cases wsa with
    | true => rfl
    | false => simp [refusesSend, hf, hl, hp] at hr
  subst hw
  have key : c ∈ s.registry → (s.step e).inflight = (s.flushSendBuffer c true).inflight → 0 < (s.step e).sendTokens c := by
    intro hreg hin
    obtain ⟨io, hio⟩ := Option.ne_none_iff_exists'.mp (equipped_send h hreg)
    have hpost : (s.flushSendBuffer c true).inflight = s.inflight ++ [s.posting .send c io] := by
      simp [flushSendBuffer, TcpClient.flush_posts hl hp hio, withClient, post, posting]
    have := flights_post (hin.trans hpost) .send c
    simp only [posting_kind, posting_client, and_self, if_true] at this
    simp only [sendTokens]
    omega
  cases e with
  | run t wsa =>
    rcases ht : s.threads[t]? with _ | _ | ⟨i, st⟩
    · simp [flushes, ht] at hf
    · simp [flushes, ht] at hf
    cases i with
    | flushSendBuffer c' =>
      simp only [flushes, ht] at hf
      cases hf
      refine key (((calm h).2.about _ (has_top ht)).2 c (by simp [Stmt.about])) ?_
      simp only [step_eq hc, handle, run, ht]; rfl
    | _ => simp [flushes, ht] at hf
  | flush c' wsa =>
    simp only [flushes] at hf
    split at hf
    · rename_i hreg
      cases hf
      refine key hreg ?_
      simp only [step_eq hc, handle, flush, hreg, if_true]
    · cases hf
  | _ => cases hf

/-! ## Who owes a flush -/

/-- Each statement of a handler hands the obligation on; only the flush itself ends it. -/
theorem owes_handed_on (wsa : Bool) {i : Stmt} (hh : s.Has i) (hne : i ≠ .flushSendBuffer c)
    (hv : (s.clients c).isValid = true) : i.owes c ≤ weight (Stmt.owes c) (s.exec wsa i).2 := by
  have hun := (exec_uncrashed h wsa hh).trans (calm_uncrashed h)
  cases i with
  | flushSendBuffer c' =>
    have hc' : ¬ c' = c := by
      intro heq
      subst heq
      exact hne rfl
    simp [Stmt.owes, hc']
  | sendNext c' j =>
    by_cases hc' : c' = c
    · subst hc'; simp [exec, hv, Stmt.owes]
    · simp [Stmt.owes, hc']
  | processLoop c' j =>
    obtain ⟨r, hr⟩ := readPacket_ok ((recvSide (calm h).1).ok c')
    cases r <;> simp [exec, hr, Stmt.owes]
  | bcastNext c' j k packet client =>
    simp only [exec] at hun ⊢
    split at hun
    · cases hun
    all_goals simp [Stmt.owes]
  | bcastCheck c' j k packet client | bcastWrite c' j k packet client =>
    simp only [exec] at hun ⊢
    split at hun
    · rw [if_pos ‹_›]
      (repeat' split) <;> simp only [Stmt.owes, weight_cons, weight_nil] <;> split_ifs <;> omega
    · cases hun
  | bcastFlush c' j k packet client =>
    simp only [exec] at hun ⊢
    split at hun
    · rw [if_pos ‹_›]
      simp only [Stmt.owes, weight_cons, weight_nil]
      split_ifs <;> omega
    · cases hun
  | loopTail | processPacket | verifyFlag | echo | bcastBegin =>
    simp only [exec]
    (repeat' split) <;> simp [Stmt.owes]
  | _ => exact Nat.zero_le _

theorem owes_kept (hv : (s.clients c).isValid = true) (hpos : 0 < tally (Stmt.owes c) s.threads) :
    0 < tally (Stmt.owes c) (s.step e).threads ∨ ∃ wsa, s.flushes e = some (c, wsa) := by
  rcases threads_step s e with
    he | ⟨socket, -, h0, he⟩ | ⟨t, i, r, op, st, -, -, -, h0, -, -, he⟩ | ⟨t, wsa, i, st, rfl, hc, ht, he⟩
  · rw [he]; exact Or.inl hpos
  · have := tally_set (Stmt.owes c) h0 [.newSession socket]
    rw [he]
    simp only [weight_nil] at this
    left; omega
  · have := tally_set (Stmt.owes c) h0 st
    rw [he]
    simp only [weight_nil] at this
    left; omega
  · by_cases hi : i = .flushSendBuffer c
    · subst hi
      exact Or.inr ⟨wsa, by simp [flushes, ht]⟩
    · have h1 := tally_run (Stmt.owes c) wsa ht
      have h2 := owes_handed_on h wsa (has_top ht) hi hv
      rw [step_eq hc, handle]
      left; omega

/-- Bytes come into a send buffer with somebody to flush them. -/
theorem bytes_come (hw : e.writes = false) (hv : ((s.step e).clients c).isValid = true)
    (hl : 0 < ((s.step e).clients c).sendBuffer.length) :
    ((s.clients c).isValid = true ∧ 0 < (s.clients c).sendBuffer.length) ∨ 0 < tally (Stmt.owes c) (s.step e).threads := by
  have hc := calm_uncrashed h
  have hpushed : ∀ {t wsa i st x}, s.threads[t]? = some (i :: st) → x ∈ (s.exec wsa i).2 → 0 < x.owes c →
      e = .run t wsa → 0 < tally (Stmt.owes c) (s.step e).threads := by
    intro t wsa i st x ht hx hox heq
    subst heq
    rw [step_eq hc, handle]
    exact tally_pos_of_pushed ht _ hx hox
  rcases step_clients s e c with h1 | h1
  · rw [h1] at hv hl; exact Or.inl ⟨hv, hl⟩
  generalize (s.step e).clients c = x at h1 hv hl
  cases h1 with
  | stored | flushed => exact Or.inl ⟨hv, hl⟩
  | written => cases hw
  | ran ht h1 =>
    cases h1 with
    | made => cases hl
    | closed => cases hv
    | echoed hwr =>
      rename_i j k packet n
      refine Or.inr (hpushed (x := .loopTail c j) ht ?_ (by simp [Stmt.owes]) rfl)
      simp only [exec]
      split <;> simp
    | broadcast hwr =>
      rename_i c' j k packet n
      by_cases hf : (s.clients c).Fits packet
      · refine Or.inr (hpushed (x := .bcastFlush c' j k packet c) ht ?_ (by simp [Stmt.owes]) rfl)
        obtain ⟨b, hw', -⟩ := write_taken (sendOk (calm h).1 c) hf (some (c', k))
        have hreg : c ∈ s.registry := ((calm h).2.about _ (has_top ht)).2 c (by simp [Stmt.about])
        simp only [exec, if_pos hreg, hw']
        rw [if_neg (by simp)]
        simp
      · rw [TcpClient.write_full (sendOk (calm h).1 c) hf] at hwr
        cases hwr
        exact Or.inl ⟨hv, hl⟩
    | sent => exact Or.inr (onSend_clears h ht).2
    | read hr => obtain ⟨b, n, rfl⟩ := TcpClient.readPacket_cases hr; exact Or.inl ⟨hv, hl⟩
    | _ => exact Or.inl ⟨hv, hl⟩

end Step

/-- The flag is up only for a send on the way, and bytes to send are owed a flush, or a worker
    is about to close the session. -/
structure Flushed (s : Server) : Prop where
  flag : ∀ c, (s.clients c).sendIoState = .pending → 0 < s.sendTokens c ∨ (c ∈ s.registry ∧ Doomed s c)
  owed : ∀ c, (s.clients c).isValid = true → 0 < (s.clients c).sendBuffer.length →
    0 < s.sendTokens c ∨ 0 < tally (Stmt.owes c) s.threads ∨ (c ∈ s.registry ∧ Doomed s c)

section Step

variable {s : Server} (h : Reach Calm s) {e : Ev} (hflow : Flowing s e) (hs : Flushed s) (c : Nat)
include h hflow hs

theorem flag_step (hp' : ((s.step e).clients c).sendIoState = .pending) :
    0 < (s.step e).sendTokens c ∨ (c ∈ (s.step e).registry ∧ Doomed (s.step e) c) := by
  by_cases hp : (s.clients c).sendIoState = .pending
  · rcases hs.flag c hp with h1 | h1
    · rcases sendTokens_kept h (e := e) h1 with h2 | h2 | ⟨t, wsa, j, st, rfl, ht⟩
      · exact Or.inl h2
      · exact Or.inr h2
      · rw [(onSend_clears h ht).1] at hp'
        cases hp'
    · exact Or.inr (doomed_stays h h1)
  · -- the flag went up in this step, for a send that was posted
    left
    rcases step_clients s e c with h1 | h1
    · rw [h1] at hp'; exact absurd hp' hp
    generalize hx : (s.step e).clients c = x at h1 hp'
    cases h1 with
    | flushed hl hn =>
      rename_i wsa
      by_cases hreg : c ∈ s.registry
      · have hf : s.flushes (.flush c wsa) = some (c, wsa) := by simp [flushes, hreg]
        exact flush_flies h hf hl hn hflow.2.2
      · rw [step_eq (calm_uncrashed h)] at hx
        simp only [handle, flush, hreg, if_false] at hx
        rw [hx] at hp
        exact absurd hp' hp
    | stored => exact absurd hp' hp
    | written hw => obtain ⟨b, rfl⟩ := TcpClient.writeSendBuffer_cases hw; exact absurd hp' hp
    | ran ht h1 =>
      rename_i t wsa i st
      cases h1 with
      | made => cases hp'
      | flushed hl hn =>
        have hf : s.flushes (.run t wsa) = some (c, wsa) := by simp [flushes, ht]
        exact flush_flies h hf hl hn hflow.2.2
      | sent hw => obtain ⟨b, rfl⟩ := TcpClient.onSend_cases hw; cases hp'
      | read hw => obtain ⟨b, n, rfl⟩ := TcpClient.readPacket_cases hw; exact absurd hp' hp
      | echoed hw | broadcast hw => obtain ⟨b, rfl⟩ := TcpClient.writeSendBuffer_cases hw; exact absurd hp' hp
      | _ => exact absurd hp' hp

theorem owed_step (hv' : ((s.step e).clients c).isValid = true) (hl' : 0 < ((s.step e).clients c).sendBuffer.length) :
    0 < (s.step e).sendTokens c ∨ 0 < tally (Stmt.owes c) (s.step e).threads ∨
      (c ∈ (s.step e).registry ∧ Doomed (s.step e) c) := by
  have htoken : 0 < s.sendTokens c → 0 < (s.step e).sendTokens c ∨ 0 < tally (Stmt.owes c) (s.step e).threads ∨
      (c ∈ (s.step e).registry ∧ Doomed (s.step e) c) := by
    intro h1
    rcases sendTokens_kept h (e := e) h1 with h2 | h2 | ⟨t, wsa, j, st, rfl, ht⟩
    · exact Or.inl h2
    · exact Or.inr (Or.inr h2)
    · exact Or.inr (Or.inl (onSend_clears h ht).2)
  rcases bytes_come h hflow.2.1 hv' hl' with ⟨hv, hl⟩ | ho
  · rcases hs.owed c hv hl with h1 | h1 | h1
    · exact htoken h1
    · rcases owes_kept h (e := e) hv h1 with h2 | ⟨wsa, hf⟩
      · exact Or.inr (Or.inl h2)
      · -- the flush that was owed is called: it posts, or finds a send on the way
        by_cases hp : (s.clients c).sendIoState = .pending
        · rcases hs.flag c hp with h2 | h2
          · exact htoken h2
          · exact Or.inr (Or.inr (doomed_stays h h2))
        · exact Or.inl (flush_flies h hf hl hp hflow.2.2)
    · exact Or.inr (Or.inr (doomed_stays h h1))
  · exact Or.inr (Or.inl ho)

end Step

theorem flushed {s : Server} (h : Reach Flowing s) : Flushed s := by
  induction h with
  | start hs =>
    obtain ⟨n, rfl⟩ := hs
    exact ⟨fun _ hp => (nomatch hp), fun _ _ hl => (nomatch hl)⟩
  | step e hr hf ih =>
    have hcalm := hr.mono fun _ _ hf => hf.1
    exact ⟨fun c => flag_step hcalm hf ih c, fun c => owed_step hcalm hf ih c⟩

/-- Any sessions, any interleaving of the workers, no `WSASend` failing: before the first
    `CloseSession`, whenever no worker is inside a handler, each valid session with bytes in
    its send buffer has a `WSASend` in flight. -/
theorem no_flush_is_lost {s : Server} (h : Reach Flowing s) (hq : Resting s) {c : Nat} (hv : (s.clients c).isValid = true)
    (hl : 0 < (s.clients c).sendBuffer.length) : 0 < s.flights .send c := by
  have hzero : ∀ f : Stmt → Nat, (∀ x : Stmt, x.makes = true → f x = 0) → tally f s.threads = 0 := by
    intro f hf
    rw [tally_eq_zero]
    exact fun st hst x hx => hf x (hq.makes h ⟨st, hst, hx⟩)
  rcases (flushed h).owed c hv hl with h1 | h1 | ⟨-, h1⟩
  · have h2 := hzero (Stmt.sends c) (by intro x hx; cases x <;> first | rfl | cases hx)
    rw [sendTokens] at h1
    omega
  · have h2 := hzero (Stmt.owes c) (by intro x hx; cases x <;> first | rfl | cases hx)
    omega
  · rcases h1 with ⟨data, hh, -⟩ | hh <;> cases hq.makes h hh

/-- Two sessions; the first broadcasts a frame, and a second frame comes into both send buffers
    while the first one's sends are in flight. -/
def relayedRun : List Ev := List.flatten [
  [.accept 5], List.replicate 9 (.run 0 true), [.accept 6], List.replicate 9 (.run 0 true),
  [.dispatch 1 0 (.received [1, 0, 2, 0x55, 7, 1, 0, 2, 0x55, 8])], List.replicate 33 (.run 1 true),
  [.dispatch 1 1 (.sent 3)], List.replicate 9 (.run 1 true)]

theorem both_sessions_are_sending :
    Resting (relayedRun.foldl step (boot 1)) ∧ 0 < (relayedRun.foldl step (boot 1)).flights .send 0 ∧
      0 < (relayedRun.foldl step (boot 1)).flights .send 1 := by
  have h : Reach Flowing (relayedRun.foldl step (boot 1)) := .run (.start ⟨1, rfl⟩) (by rw [boot_eq]; decide +kernel)
  have hq : Resting (relayedRun.foldl step (boot 1)) := by rw [boot_eq]; decide +kernel
  refine ⟨hq, no_flush_is_lost h hq ?_ ?_, no_flush_is_lost h hq ?_ ?_⟩
  all_goals rw [boot_eq]; decide +kernel

end Server

end SigHolic.Network
