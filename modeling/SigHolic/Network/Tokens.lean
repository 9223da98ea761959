/-
  SigHolic.Network.Tokens — one receive and one send of a session at a time.

  A session's receive is on the way from its posting (or from the making of the session) to
  the posting of the next; its send from its posting to `OnSend`. In an orderly run there
  is at most one of each, and `m_SendIoState` is `IO_PENDING` while a send is.
-/

import SigHolic.Network.Attribution

namespace SigHolic.Network

open SigHolic.Base.Tally SigHolic.Iocp SigHolic.Socket

namespace Stmt

def flags : Stmt → Bool
  | .newSession _ | .flushSendBuffer _ | .onSend _ _ => true
  | _ => false

/-- The session's receive: `Network::Run` has still to post it, or a worker is handling it and
    has not posted the next. -/
def receives (c : Nat) : Stmt → Nat
  | .dequeueRecv c' _ | .bindRecv c' _ _ | .dequeueSend c' _ _ | .bindSend c' _ _ _ | .initializeSocket c' _ _
  | .addTcpClient c' _ _ | .bindSocket c' _ _ | .firstRecv c' _ => if c' = c then 1 else 0
  | .checkExpired j | .checkBound j | .takeSession j | .recvBranch _ j | .recvNext _ j | .recvAsync _ j | .onReceived _ j
  | .tryProcessPacket _ j | .processLoop _ j | .loopTail _ j | .processPacket _ j _ | .verifyFlag _ j _ _ | .echo _ j _ _
  | .bcastBegin _ j _ _ | .bcastCheck _ j _ _ _ | .bcastWrite _ j _ _ _ | .bcastFlush _ j _ _ _ | .bcastNext _ j _ _ _ =>
    if j.op.kind = .recv ∧ j.op.client = c then 1 else 0
  | _ => 0

/-- The session's send: a worker has its completion and `OnSend` has not run. -/
def sends (c : Nat) : Stmt → Nat
  | .checkExpired j | .checkBound j | .takeSession j | .recvBranch _ j | .sendBranch _ j | .onSend _ j =>
    if j.op.kind = .send ∧ j.op.client = c then 1 else 0
  | _ => 0

end Stmt

namespace Server

/-! ## One receive and one send at a time -/

def flights (s : Server) (kind : IoKind) (c : Nat) : Nat := s.inflight.countP fun op => op.kind = kind ∧ op.client = c

def recvTokens (s : Server) (c : Nat) : Nat := s.flights .recv c + tally (Stmt.receives c) s.threads

def sendTokens (s : Server) (c : Nat) : Nat := s.flights .send c + tally (Stmt.sends c) s.threads

/-- A session has at most one receive and one send on the way, from its posting to the end of
    its handling, and its send flag is up while there is one. -/
structure Tokens (s : Server) : Prop where
  recv : ∀ c, s.recvTokens c ≤ 1
  send : ∀ c, s.sendTokens c ≤ 1
  pending : ∀ c, 0 < s.sendTokens c → (s.clients c).sendIoState = .pending

theorem flights_post {s s' : Server} {op : IoOp} (h : s'.inflight = s.inflight ++ [op]) (kind : IoKind) (c : Nat) :
    s'.flights kind c = s.flights kind c + if op.kind = kind ∧ op.client = c then 1 else 0 := by
  simp only [flights, h, List.countP_append, List.countP_singleton, decide_eq_true_eq]

theorem flights_dispatch {s : Server} (s' : Server) {i : Nat} {op : IoOp} (hop : s.inflight[i]? = some op)
    (h : s'.inflight = s.inflight.eraseIdx i) (kind : IoKind) (c : Nat) :
    s'.flights kind c + (if op.kind = kind ∧ op.client = c then 1 else 0) = s.flights kind c := by
  have hperm := List.getElem_cons_eraseIdx_perm (List.getElem?_eq_some_iff.mp hop).1
  rw [(List.getElem?_eq_some_iff.mp hop).2] at hperm
  have := hperm.countP_eq fun op => decide (op.kind = kind ∧ op.client = c)
  simp only [List.countP_cons, decide_eq_true_eq] at this
  simp only [flights, h]
  exact this

/-- A session that has no structure has nothing on the way. -/
theorem no_flights {s : Server} (h : Attributed s) {c : Nat} {kind : IoKind} (hn : s.structureOf c kind = none) :
    s.flights kind c = 0 := by
  unfold flights
  rw [List.countP_eq_zero]
  intro op hop hk
  simp only [decide_eq_true_eq] at hk
  obtain ⟨rfl, rfl⟩ := hk
  have := (h.flying op hop).1
  unfold Linked at this
  rw [hn] at this
  cases this

theorem Sound.linked {s : Server} {x : Stmt} (h : s.Sound x) {c : Nat} :
    (x.sends c = 1 → ∃ op, s.Linked op ∧ op.client = c) ∧
      (x.receives c = 1 → x.making c = 1 ∨ (∃ o, (s.clients c).recvOverlapped = some o) ∨ ∃ op, s.Linked op ∧
        op.client = c) := by
  constructor
  · intro h1
    cases x with
    | checkExpired j | checkBound j | takeSession j | recvBranch _ j | sendBranch _ j | onSend _ j =>
      simp only [Stmt.sends, ite_eq_left_iff, Nat.zero_ne_one, imp_false, not_not] at h1
      exact ⟨j.op, h.1, h1.2⟩
    | _ => cases h1
  · intro h1
    cases x with
    | dequeueRecv | bindRecv | dequeueSend | bindSend | initializeSocket | addTcpClient => exact Or.inl h1
    | bindSocket c' | firstRecv c' =>
      simp only [Stmt.receives, ite_eq_left_iff, Nat.zero_ne_one, imp_false, not_not] at h1
      subst h1
      exact Or.inr (Or.inl ⟨_, h.1⟩)
    | checkExpired j | checkBound j | takeSession j | recvBranch _ j | recvNext _ j | recvAsync _ j | onReceived _ j
    | tryProcessPacket _ j | processLoop _ j | loopTail _ j | processPacket _ j | verifyFlag _ j | echo _ j
    | bcastBegin _ j | bcastCheck _ j | bcastWrite _ j | bcastFlush _ j | bcastNext _ j =>
      simp only [Stmt.receives, ite_eq_left_iff, Nat.zero_ne_one, imp_false, not_not] at h1
      exact Or.inr (Or.inr ⟨j.op, h.1, h1.2⟩)
    | _ => cases h1

theorem sends_le_one (c : Nat) (x : Stmt) : x.sends c ≤ 1 := by
  cases x <;> simp only [Stmt.sends] <;> first | omega | (split <;> omega)

theorem receives_le_one (c : Nat) (x : Stmt) : x.receives c ≤ 1 := by
  cases x <;> simp only [Stmt.receives] <;> first | omega | (split <;> omega)

theorem tokens_unborn {s : Server} (hg : Stages s) (hx : Fixed s) (h : Attributed s) {c : Nat} (hc : s.nextClient ≤ c) :
    s.recvTokens c = 0 ∧ s.sendTokens c = 0 := by
  obtain ⟨hr, hs⟩ := hx.unborn c hc
  have hl : ∀ op, s.Linked op → op.client ≠ c := by
    intro op hl heq
    subst heq
    unfold Linked structureOf at hl
    cases hk : op.kind <;> simp only [hk] at hl
    · rw [hr] at hl; cases hl
    · rw [hs] at hl; cases hl
  have h1 : tally (Stmt.sends c) s.threads = 0 := by
    rw [tally_eq_zero]
    intro st hst x hm
    by_contra hne
    have h1 : x.sends c = 1 := by have := sends_le_one c x; omega
    obtain ⟨op, ho, hcl⟩ := (h.sound x ⟨st, hst, hm⟩).linked.1 h1
    exact hl op ho hcl
  have h2 : tally (Stmt.receives c) s.threads = 0 := by
    rw [tally_eq_zero]
    intro st hst x hm
    by_contra hne
    have h1 : x.receives c = 1 := by have := receives_le_one c x; omega
    rcases (h.sound x ⟨st, hst, hm⟩).linked.2 h1 with hm' | ⟨o, ho⟩ | ⟨op, ho, hcl⟩
    · have := le_tally (Stmt.making c) hst hm
      have := hg.unborn c hc
      omega
    · rw [hr] at ho; cases ho
    · exact hl op ho hcl
  have h3 : s.flights .recv c = 0 := no_flights h hr
  have h4 : s.flights .send c = 0 := no_flights h hs
  exact ⟨by rw [recvTokens, h3, h2], by rw [sendTokens, h4, h1]⟩

/-- No statement makes a second receive of one. -/
theorem exec_receives (s : Server) (wsa : Bool) (c : Nat) {i : Stmt} (h : ∀ socket, i ≠ .newSession socket) :
    weight (Stmt.receives c) (s.exec wsa i).2 ≤ i.receives c := by
  cases i with
  | newSession socket => exact absurd rfl (h socket)
  | _ =>
    simp only [exec]
    (repeat' split) <;> simp [Stmt.receives]

theorem exec_sends {s : Server} (wsa : Bool) (c : Nat) {i : Stmt} (h : s.Sound i) :
    weight (Stmt.sends c) (s.exec wsa i).2 ≤ i.sends c := by
  cases i with
  | recvNext c' j | recvAsync c' j =>
    have hk : j.op.kind = .recv := h.2.2
    simp only [exec]
    (repeat' split) <;> simp [Stmt.sends, hk]
  | _ =>
    simp only [exec]
    (repeat' split) <;> simp [Stmt.sends]

theorem writeSendBuffer_sendIoState (s : Server) (sender : Option (Nat × Nat)) (client : Nat) (packet : Packet) (d : Nat) :
    ((s.writeSendBuffer sender client packet).2.clients d).sendIoState = (s.clients d).sendIoState := by
  rcases writeSendBuffer_clients s sender client packet d with he | ⟨rfl, n, hw⟩
  · rw [he]
  · obtain ⟨b, hb⟩ := TcpClient.writeSendBuffer_cases hw
    rw [hb]

theorem recvAsync_sendIoState (s : Server) (c : Nat) (wsa : Bool) (d : Nat) :
    ((s.recvAsync c wsa).clients d).sendIoState = (s.clients d).sendIoState := by
  rcases recvAsync_clients s c wsa d with he | ⟨rfl, he⟩ <;> rw [he]

theorem exec_sendIoState (s : Server) (wsa : Bool) {i : Stmt} (h : i.flags = false) (d : Nat) :
    ((s.exec wsa i).1.clients d).sendIoState = (s.clients d).sendIoState := by
  refine exec_field TcpClient.sendIoState s wsa (fun d x hx => ?_) d
  cases hx with
  | made | flushed | sent => cases h
  | read hw => obtain ⟨b, n, rfl⟩ := TcpClient.readPacket_cases hw; rfl
  | echoed hw | broadcast hw => obtain ⟨b, rfl⟩ := TcpClient.writeSendBuffer_cases hw; rfl
  | _ => rfl

/-- A flush that posts raises the flag. -/
theorem flushSendBuffer_posted (s : Server) (c : Nat) (wsa : Bool) (h : (s.flushSendBuffer c wsa).inflight ≠ s.inflight) :
    ((s.flushSendBuffer c wsa).clients c).sendIoState = .pending := by
  unfold flushSendBuffer at h ⊢
  split at h
  · exact absurd rfl h
  · exact absurd rfl h
  · rename_i x buf hw
    rcases TcpClient.flushSendBuffer_cases hw with ⟨-, ⟨⟩⟩ | ⟨-, -, rfl, -⟩
    simp [post]

theorem tokens_mono {s s' : Server} (h : Tokens s) (hr : ∀ c, s'.recvTokens c ≤ s.recvTokens c)
    (hs : ∀ c, s'.sendTokens c ≤ s.sendTokens c)
    (hf : ∀ c, (s'.clients c).sendIoState = (s.clients c).sendIoState) : Tokens s' :=
  ⟨fun c => Nat.le_trans (hr c) (h.recv c), fun c => Nat.le_trans (hs c) (h.send c), fun c hc => by
    rw [hf]; exact h.pending c (Nat.lt_of_lt_of_le hc (hs c))⟩

/-- A flush posts only when nothing of the session is on the way. -/
theorem tokens_flush {s s' : Server} (h : Tokens s) {c : Nat} {wsa : Bool}
    (hi : s'.inflight = (s.flushSendBuffer c wsa).inflight) (hcl : s'.clients = (s.flushSendBuffer c wsa).clients)
    (hr : ∀ d, tally (Stmt.receives d) s'.threads ≤ tally (Stmt.receives d) s.threads)
    (hs : ∀ d, tally (Stmt.sends d) s'.threads ≤ tally (Stmt.sends d) s.threads) : Tokens s' := by
  have hpend : ∀ d, (s.clients d).sendIoState = .pending → (s'.clients d).sendIoState = .pending := by
    intro d hd
    rw [hcl]
    rcases flushSendBuffer_clients s c wsa d with he | ⟨rfl, -, -, he⟩ <;> rw [he]
    exact hd
  rcases flushSendBuffer_inflight s c wsa with he | ⟨io, he, -, -, -, hnp⟩
  · have hfl : ∀ kind d, s'.flights kind d = s.flights kind d := fun kind d => by simp only [flights, hi, he]
    refine ⟨?_, ?_, fun d hd => hpend d (h.pending d ?_)⟩
    · intro d
      have := h.recv d
      have := hr d
      simp only [recvTokens, hfl] at *
      omega
    · intro d
      have := h.send d
      have := hs d
      simp only [sendTokens, hfl] at *
      omega
    · have := hs d
      simp only [sendTokens, hfl] at *
      omega
  · have hfl := flights_post (hi.trans he)
    simp only [posting_kind, posting_client] at hfl
    have hzero : s.sendTokens c = 0 := by
      by_contra hne
      exact hnp (h.pending c (by omega))
    have hup := flushSendBuffer_posted s c wsa (by rw [he]; simp)
    refine ⟨?_, ?_, ?_⟩
    · intro d
      have := h.recv d
      have := hr d
      have := hfl .recv d
      simp only [reduceCtorEq, false_and, if_false] at this
      simp only [recvTokens] at *
      omega
    · intro d
      have h1 := h.send d
      have h2 := hs d
      have h3 := hfl .send d
      simp only [true_and] at h3
      simp only [sendTokens] at *
      by_cases e : c = d
      · subst e; simp only [if_true] at h3; omega
      · simp only [e, if_false] at h3; omega
    · intro d hd
      by_cases e : c = d
      · subst e; rw [hcl]; exact hup
      · have h2 := hs d
        have h3 := hfl .send d
        simp only [true_and, e, if_false] at h3
        refine hpend d (h.pending d ?_)
        simp only [sendTokens] at *
        omega

section Run

variable {s : Server} (h : Tokens s) {t : Nat} {wsa : Bool} {st : List Stmt}
include h

theorem tokens_newSession (hg : Stages s) (hx : Fixed s) (ha : Attributed s) {socket : Nat}
    (ht : s.threads[t]? = some (.newSession socket :: st)) : Tokens (s.run t wsa) := by
  obtain ⟨hzr, hzs⟩ := tokens_unborn hg hx ha (Nat.le_refl s.nextClient)
  have hrun : s.run t wsa = s.newClient.setThread t (.dequeueRecv s.nextClient socket :: st) := by
    simp only [run, ht, exec]; rfl
  have hfl : ∀ kind c, (s.run t wsa).flights kind c = s.flights kind c := fun kind c => by rw [hrun]; rfl
  have hr := fun c => tally_run (Stmt.receives c) wsa ht
  have hs := fun c => tally_run (Stmt.sends c) wsa ht
  simp only [exec, Stmt.receives, Stmt.sends, weight_cons, weight_nil, Nat.add_zero] at hr hs
  refine ⟨?_, ?_, ?_⟩
  · intro c
    have h1 := h.recv c
    simp only [recvTokens, hfl, hr] at *
    by_cases e : s.nextClient = c
    · subst e; simp only [if_true]; omega
    · simp only [e, if_false]; omega
  · intro c
    have h1 := h.send c
    simp only [sendTokens, hfl, hs] at *
    exact h1
  · intro c hc
    have hc' : 0 < s.sendTokens c := by simpa only [sendTokens, hfl, hs] using hc
    have e : c ≠ s.nextClient := by rintro rfl; omega
    have := h.pending c hc'
    rw [hrun]
    simpa [newClient, setThread, e] using this

/-- A receive posted in place of one handled. -/
theorem tokens_posted {s' : Server} {c : Nat} (hi : s'.inflight = (s.recvAsync c wsa).inflight)
    (hcl : s'.clients = (s.recvAsync c wsa).clients)
    (hr : ∀ d, tally (Stmt.receives d) s'.threads + (if d = c then 1 else 0) ≤ tally (Stmt.receives d) s.threads)
    (hs : ∀ d, tally (Stmt.sends d) s'.threads ≤ tally (Stmt.sends d) s.threads) : Tokens s' := by
  refine tokens_mono h ?_ ?_ ?_
  · intro d
    have h1 := hr d
    rcases recvAsync_inflight s c wsa with he | ⟨io, he, -, -⟩
    · simp only [recvTokens, flights, hi, he]; omega
    · have h2 := flights_post (hi.trans he) .recv d
      simp only [posting_kind, posting_client, true_and] at h2
      simp only [recvTokens]
      by_cases e : d = c
      · subst e; simp only [if_true] at h1 h2; omega
      · simp only [e, Ne.symm e, if_false] at h1 h2; omega
  · intro d
    have h1 := hs d
    rcases recvAsync_inflight s c wsa with he | ⟨io, he, -, -⟩
    · simp only [sendTokens, flights, hi, he]; omega
    · have h2 := flights_post (hi.trans he) .send d
      simp only [posting_kind, reduceCtorEq, false_and, if_false] at h2
      simp only [sendTokens]
      omega
  · intro d
    rw [hcl]; exact recvAsync_sendIoState s c wsa d

theorem tokens_onSend (ha : Attributed s) {c : Nat} {j : Completion} (ht : s.threads[t]? = some (.onSend c j :: st)) :
    Tokens (s.run t wsa) := by
  obtain ⟨-, hcl, hk⟩ := ha.sound _ (has_top ht)
  have hfl : ∀ kind d, (s.run t wsa).flights kind d = s.flights kind d := by
    intro kind d
    simp only [run, ht, flights]
    exact congrArg _ (exec_inflight s wsa rfl)
  have hr : ∀ d, tally (Stmt.receives d) (s.run t wsa).threads ≤ tally (Stmt.receives d) s.threads := by
    intro d
    have h1 := tally_run (Stmt.receives d) wsa ht
    have h2 := exec_receives s wsa d (i := .onSend c j) (by simp)
    omega
  have hs : ∀ d, tally (Stmt.sends d) (s.run t wsa).threads + (if c = d then 1 else 0) = tally (Stmt.sends d) s.threads := by
    intro d
    have h1 := tally_run (Stmt.sends d) wsa ht
    have h2 : weight (Stmt.sends d) (s.exec wsa (.onSend c j)).2 = 0 := by
      simp only [exec]
      split <;> simp [Stmt.sends]
    simp only [h2, Stmt.sends, hk, true_and, ← hcl] at h1
    omega
  have hstate : ∀ d, d ≠ c → ((s.run t wsa).clients d).sendIoState = (s.clients d).sendIoState := by
    intro d hd
    simp only [run, ht, exec]
    split
    · rfl
    · rename_i x hw
      exact congrArg TcpClient.sendIoState (withClient_ne s x hd)
  refine ⟨?_, ?_, ?_⟩
  · intro d
    have := h.recv d
    have := hr d
    simp only [recvTokens, hfl] at *
    omega
  · intro d
    have := h.send d
    have := hs d
    simp only [sendTokens, hfl] at *
    omega
  · intro d hd
    have h1 := h.send d
    have h2 := hs d
    simp only [sendTokens, hfl] at h1 hd
    have e : c ≠ d := by
      rintro rfl; simp only [if_true] at h2; omega
    simp only [e, if_false, Nat.add_zero] at h2
    rw [hstate d (Ne.symm e)]
    refine h.pending d ?_
    simp only [sendTokens]
    omega

theorem tokens_run (hg : Stages s) (hx : Fixed s) (ha : Attributed s) {i : Stmt}
    (ht : s.threads[t]? = some (i :: st)) : Tokens (s.run t wsa) := by
  have hsound := ha.sound i (has_top ht)
  have hs : ∀ d, tally (Stmt.sends d) (s.run t wsa).threads ≤ tally (Stmt.sends d) s.threads := by
    intro d
    have h1 := tally_run (Stmt.sends d) wsa ht
    have h2 := exec_sends wsa d hsound
    omega
  have hr : (∀ socket, i ≠ .newSession socket) →
      ∀ d, tally (Stmt.receives d) (s.run t wsa).threads ≤ tally (Stmt.receives d) s.threads := by
    intro hne d
    have h1 := tally_run (Stmt.receives d) wsa ht
    have h2 := exec_receives s wsa d hne
    omega
  have hin : (s.run t wsa).inflight = (s.exec wsa i).1.inflight := by simp only [run, ht]; rfl
  have hcl : (s.run t wsa).clients = (s.exec wsa i).1.clients := by simp only [run, ht]; rfl
  have hkept : i.posts = false → (s.run t wsa).inflight = s.inflight := fun hp => hin.trans (exec_inflight s wsa hp)
  have hst : i.flags = false → ∀ d, ((s.run t wsa).clients d).sendIoState = (s.clients d).sendIoState := by
    intro hp d
    rw [hcl]; exact exec_sendIoState s wsa hp d
  cases i with
  | newSession => exact tokens_newSession h hg hx ha ht
  | onSend => exact tokens_onSend h ha ht
  | flushSendBuffer c => exact tokens_flush h hin hcl (hr (by simp)) hs
  | firstRecv c o =>
    obtain ⟨-, hget⟩ := hsound
    simp only [exec, hget] at hin hcl
    refine tokens_posted h hin hcl (fun d => ?_) hs
    have h1 := tally_run (Stmt.receives d) wsa ht
    simp only [exec, hget, Stmt.receives, weight_nil] at h1
    by_cases e : c = d
    · subst e; simp only [if_true] at *; omega
    · simp only [e, Ne.symm e, if_false] at *; omega
  | recvAsync c j =>
    obtain ⟨-, rfl, hk⟩ := hsound
    refine tokens_posted h hin hcl (fun d => ?_) hs
    have h1 := tally_run (Stmt.receives d) wsa ht
    simp only [exec, Stmt.receives, hk, true_and, weight_cons, weight_nil] at h1
    by_cases e : j.op.client = d
    · subst e; simp only [if_true] at *; omega
    · simp only [e, Ne.symm e, if_false] at *; omega
  | _ =>
    refine tokens_mono h ?_ ?_ (hst rfl)
    · intro d
      have := hr (by simp) d
      simp only [recvTokens, flights, hkept rfl]
      omega
    · intro d
      have := hs d
      simp only [sendTokens, flights, hkept rfl]
      omega

end Run

/-- What a worker takes on with a completion is what was in flight. -/
theorem branch_weight {op : IoOp} {r : Result} {st : List Stmt} (h : branch op r = some st) (c : Nat) :
    weight (Stmt.receives c) st ≤ (if op.kind = .recv ∧ op.client = c then 1 else 0) ∧
      weight (Stmt.sends c) st ≤ if op.kind = .send ∧ op.client = c then 1 else 0 := by
  rcases branch_cases h with ⟨-, rfl | rfl⟩ | ⟨-, n, rfl, -⟩
  · simp [failedBranch, Stmt.receives, Stmt.sends]
  · simp [failedBranch, Stmt.receives, Stmt.sends]
  · simp [Stmt.receives, Stmt.sends]

theorem land_sendIoState (s : Server) (op : IoOp) (r : Result) (d : Nat) :
    ((s.land op r).clients d).sendIoState = (s.clients d).sendIoState := by
  rcases land_clients s op r d with he | ⟨data, rfl, rfl, he⟩ <;> rw [he]

theorem tokens_step {s : Server} {e : Ev} (hg : Stages s) (hx : Fixed s) (ha : Attributed s) (h : Tokens s) :
    Tokens (s.step e) := by
  by_cases hc : s.crashed = none
  case neg => rw [step_crashed hc]; exact h
  rw [step_eq hc]
  cases e with
  | accept socket =>
    rcases accept_cases s socket with he | ⟨h0, hth, hin, hcl, -⟩ <;> simp only [handle]
    · rw [he]; exact h
    have hw : ∀ f : Stmt → Nat, f (.newSession socket) = 0 → tally f (s.accept socket).threads = tally f s.threads := by
      intro f hf
      have := tally_set f h0 [.newSession socket]
      rw [weight_cons, weight_nil, hf] at this
      rw [hth]
      omega
    refine tokens_mono h (fun c => ?_) (fun c => ?_) fun c => by rw [hcl]
    · simp only [recvTokens, flights, hin, hw (Stmt.receives c) rfl, Nat.le_refl]
    · simp only [sendTokens, flights, hin, hw (Stmt.sends c) rfl, Nat.le_refl]
  | dispatch t i r =>
    rcases dispatch_cases s t i r with he | ⟨op, st, -, h0, hop, hb, he⟩ <;> simp only [handle]
    · rw [he]; exact h
    have hw : ∀ f : Stmt → Nat, tally f (s.dispatch t i r).threads = tally f s.threads + weight f st := by
      intro f
      have := tally_set f h0 st
      rw [weight_nil] at this
      simp only [he, setThread, land_threads]
      omega
    refine tokens_mono h ?_ ?_ ?_
    · intro c
      have h1 := flights_dispatch (s.dispatch t i r) hop (by rw [he]) .recv c
      have h2 := (branch_weight hb c).1
      simp only [recvTokens, hw]
      omega
    · intro c
      have h1 := flights_dispatch (s.dispatch t i r) hop (by rw [he]) .send c
      have h2 := (branch_weight hb c).2
      simp only [sendTokens, hw]
      omega
    · intro c
      rw [he]; exact land_sendIoState s op r c
  | write c packet =>
    simp only [handle, write]
    split
    · refine tokens_mono h ?_ ?_ (writeSendBuffer_sendIoState s none c packet)
      · intro d
        simp only [recvTokens, flights, writeSendBuffer_inflight, writeSendBuffer_threads, Nat.le_refl]
      · intro d
        simp only [sendTokens, flights, writeSendBuffer_inflight, writeSendBuffer_threads, Nat.le_refl]
    · exact h
  | flush c wsa =>
    simp only [handle, flush]
    split
    · refine tokens_flush h rfl rfl (fun d => ?_) fun d => ?_ <;>
      · rw [flushSendBuffer_threads]
    · exact h
  | run t wsa =>
    simp only [handle]
    rcases ht : s.threads[t]? with _ | _ | ⟨i, st⟩
    · simp only [run, ht]; exact h
    · simp only [run, ht]; exact h
    · exact tokens_run h hg hx ha ht

theorem tokens_boot (n : Nat) : Tokens (boot n) := by
  have h0 : ∀ f : Stmt → Nat, tally f (boot n).threads = 0 := fun f => tally_replicate f (n + 1)
  have h1 : ∀ kind c, (boot n).flights kind c = 0 := fun _ _ => rfl
  refine ⟨?_, ?_, ?_⟩
  · intro c
    simp [recvTokens, h0, h1]
  · intro c
    simp [sendTokens, h0, h1]
  · intro c hc
    simp [sendTokens, h0, h1] at hc

theorem tokens {s : Server} (h : Reach Orderly s) : Tokens s :=
  h.invariant_of (fun _ hr => And.intro (Orderly.stages hr) (And.intro (Orderly.fixed hr) (attributed hr)))
    (fun _ ⟨n, hn⟩ => hn ▸ tokens_boot n) fun _ _ ⟨hg, hx, ha⟩ ht _ => tokens_step hg hx ha ht

end Server

end SigHolic.Network
