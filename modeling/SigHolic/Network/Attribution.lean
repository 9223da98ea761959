/-
  SigHolic.Network.Attribution — whose operation a completion is (`WorkerThread`,
  `CloseSession` and `Network::Run`, network/network.cpp).

  A run is orderly when each `CloseSession` enters alone, a structure's `Client` is cleared
  only when no operation in flight and no thread still needs it, and a session posts only
  with a structure that is bound to it. `CloseSession` looks at none of these: it recycles
  both structures whichever completion it was entered from.

  Proved, for orderly runs: an operation in flight has its structure bound to the session
  that posted it (`flying`), a session has at most one receive and one send between posting
  and handling (`tokens`); so a completion is delivered to its poster, and no null session
  is dereferenced.
-/

import SigHolic.Network.Teardown

namespace SigHolic.Network

open SigHolic.Base.Tally SigHolic.Iocp SigHolic.Socket

namespace Stmt

def looksUp (o : Nat) : Stmt → Nat
  | .getSocket op => if op.io = o then 1 else 0
  | .checkExpired j | .checkBound j | .takeSession j => if j.op.io = o then 1 else 0
  | .bindSocket _ o' _ | .firstRecv _ o' => if o' = o then 1 else 0
  | _ => 0

def beforeRecv (c : Nat) : Stmt → Nat
  | .dequeueRecv c' _ | .bindRecv c' _ _ => if c' = c then 1 else 0
  | _ => 0

def beforeSend (c : Nat) : Stmt → Nat
  | .dequeueRecv c' _ | .bindRecv c' _ _ | .dequeueSend c' _ _ | .bindSend c' _ _ _ => if c' = c then 1 else 0
  | _ => 0

def binds : Stmt → Bool
  | .newSession _ | .bindRecv _ _ _ | .bindSend _ _ _ _ => true
  | _ => false

end Stmt

namespace Server

/-! ## Orderly runs -/

/-- The structure whose `Client` the step clears. -/
def unbinding (s : Server) : Ev → Option Nat
  | .run t _ =>
    match s.threads[t]? with
    | some (.unbindRecv c :: _) => (s.clients c).recvOverlapped
    | some (.unbindSend c :: _) => (s.clients c).sendOverlapped
    | _ => none
  | _ => none

/-- A structure is cleared only when no operation in flight was posted with it and no thread
    has still to look its session up. -/
def Unused (s : Server) (e : Ev) : Prop :=
  ∀ o, s.unbinding e = some o → (∀ op ∈ s.inflight, op.io ≠ o) ∧ tally (Stmt.looksUp o) s.threads = 0

instance (s : Server) (e : Ev) : Decidable (Unused s e) :=
  match h : s.unbinding e with
  | none => isTrue (by simp [Unused, h])
  | some o =>
    decidable_of_iff ((∀ op ∈ s.inflight, op.io ≠ o) ∧ tally (Stmt.looksUp o) s.threads = 0) (by simp [Unused, h])

def isBound (s : Server) (c : Nat) (overlapped : Option Nat) : Bool :=
  overlapped.any fun o => s.getClientObject o == some c

def receiving (s : Server) : Ev → Option Nat
  | .run t true =>
    match s.threads[t]? with
    | some (.recvAsync c _ :: _) => some c
    | _ => none
  | _ => none

def sending (s : Server) (e : Ev) : Option Nat :=
  let caller : Option Nat := match e with
    | .run t true =>
      match s.threads[t]? with
      | some (.flushSendBuffer c :: _) => some c
      | _ => none
    | .flush c true => if c ∈ s.registry then some c else none
    | _ => none
  caller.filter fun c => 0 < (s.clients c).sendBuffer.length && (s.clients c).sendIoState != .pending

/-- A session posts only with a structure that is bound to it. -/
def Attached (s : Server) (e : Ev) : Prop :=
  (∀ c, s.receiving e = some c → s.isBound c (s.clients c).recvOverlapped = true) ∧
    ∀ c, s.sending e = some c → s.isBound c (s.clients c).sendOverlapped = true

instance (s : Server) (e : Ev) : Decidable (Attached s e) :=
  decidable_of_iff
    (((s.receiving e).all fun c => s.isBound c (s.clients c).recvOverlapped) = true ∧
      ((s.sending e).all fun c => s.isBound c (s.clients c).sendOverlapped) = true)
    (by unfold Attached; cases s.receiving e <;> cases s.sending e <;> simp)

def Orderly (s : Server) (e : Ev) : Prop := Alone s e ∧ Unused s e ∧ Attached s e

instance (s : Server) (e : Ev) : Decidable (Orderly s e) := inferInstanceAs (Decidable (_ ∧ _ ∧ _))

theorem isBound_iff {s : Server} {c : Nat} {x : Option Nat} :
    s.isBound c x = true ↔ ∃ o, x = some o ∧ s.getClientObject o = some c := by
  cases x <;> simp [isBound]

theorem Orderly.stages {s : Server} (h : Reach Orderly s) : Stages s := Server.stages (h.mono fun _ _ he => he.1)

theorem Orderly.bound {s : Server} (h : Reach Orderly s) : Bound s := Server.bound (h.mono fun _ _ he => he.1)

/-! ## A session's structures stay the ones it was made with -/

structure Fixed (s : Server) : Prop where
  unborn : ∀ c, s.nextClient ≤ c → (s.clients c).recvOverlapped = none ∧ (s.clients c).sendOverlapped = none
  recv : ∀ c, 0 < tally (Stmt.beforeRecv c) s.threads → (s.clients c).recvOverlapped = none
  send : ∀ c, 0 < tally (Stmt.beforeSend c) s.threads → (s.clients c).sendOverlapped = none
  apart : ∀ c o, (s.clients c).recvOverlapped = some o → (s.clients c).sendOverlapped ≠ some o

/-- Only these statements change which structures a session has. -/
theorem exec_structures (s : Server) (wsa : Bool) {i : Stmt} (h : i.binds = false) :
    (s.exec wsa i).1.nextClient = s.nextClient ∧
      (∀ c, ((s.exec wsa i).1.clients c).recvOverlapped = (s.clients c).recvOverlapped) ∧
      ∀ c, ((s.exec wsa i).1.clients c).sendOverlapped = (s.clients c).sendOverlapped := by
  refine ⟨?_, exec_field TcpClient.recvOverlapped s wsa fun d x hx => ?_,
    exec_field TcpClient.sendOverlapped s wsa fun d x hx => ?_⟩
  · exact exec_nextClient s wsa fun socket e => by rw [e] at h; cases h
  all_goals cases hx with
  | made | boundRecv | boundSend => cases h
  | read hw => obtain ⟨b, n, rfl⟩ := TcpClient.readPacket_cases hw; rfl
  | echoed hw | broadcast hw => obtain ⟨b, rfl⟩ := TcpClient.writeSendBuffer_cases hw; rfl
  | sent hw => obtain ⟨b, rfl⟩ := TcpClient.onSend_cases hw; rfl
  | _ => rfl

/-- What a step does to a session's structure of a kind. -/
theorem structureOf_cases (s : Server) (e : Ev) (c : Nat) (kind : IoKind) :
    (s.step e).structureOf c kind = s.structureOf c kind ∨
      ∃ t wsa i st, e = .run t wsa ∧ s.threads[t]? = some (i :: st) ∧
        ((∃ socket, i = .newSession socket ∧ c = s.nextClient ∧ (s.step e).structureOf c kind = none) ∨
          (∃ o socket, i = .bindRecv c o socket ∧ kind = .recv ∧ (s.step e).structureOf c kind = some o) ∨
          ∃ o sendO socket, i = .bindSend c o sendO socket ∧ kind = .send ∧
            (s.step e).structureOf c kind = some sendO) := by
  rcases step_cases s e with hq | ⟨t, wsa, i, st, rfl, ht, -, hs⟩
  · left
    cases kind
    · exact hq.recvOverlapped c
    · exact hq.sendOverlapped c
  have hrun : (s.step (.run t wsa)).structureOf c kind = (s.exec wsa i).1.structureOf c kind := by
    rw [hs]
    cases kind
    · exact (run_fields wsa ht).recvOverlapped c
    · exact (run_fields wsa ht).sendOverlapped c
  rw [hrun]
  cases hb : i.binds with
  | false =>
    left
    obtain ⟨-, h1, h2⟩ := exec_structures s wsa hb
    cases kind
    · exact h1 c
    · exact h2 c
  | true =>
    cases i with
    | newSession socket =>
      by_cases hc : c = s.nextClient
      · refine Or.inr ⟨t, wsa, _, st, rfl, ht, Or.inl ⟨socket, rfl, hc, ?_⟩⟩
        cases kind <;> simp [structureOf, exec, newClient, hc, TcpClient.new]
      · left
        cases kind <;> simp [structureOf, exec, newClient, hc]
    | bindRecv c' o socket =>
      by_cases hc : c = c' ∧ kind = .recv
      · obtain ⟨rfl, rfl⟩ := hc
        refine Or.inr ⟨t, wsa, _, st, rfl, ht, Or.inr (Or.inl ⟨o, socket, rfl, rfl, ?_⟩)⟩
        simp [structureOf, exec, bindRecv, setClientObject, withClient]
      · left
        by_cases hcc : c = c' <;> cases kind <;> simp_all [structureOf, exec, bindRecv, setClientObject, withClient]
    | bindSend c' o sendO socket =>
      by_cases hc : c = c' ∧ kind = .send
      · obtain ⟨rfl, rfl⟩ := hc
        refine Or.inr ⟨t, wsa, _, st, rfl, ht, Or.inr (Or.inr ⟨o, sendO, socket, rfl, rfl, ?_⟩)⟩
        simp [structureOf, exec, bindSend, setClientObject, withClient]
      · left
        by_cases hcc : c = c' <;> cases kind <;> simp_all [structureOf, exec, bindSend, setClientObject, withClient]
    | _ => cases hb

theorem heavy_beforeRecv (c : Nat) : Heavy (Stmt.beforeRecv c) := by
  intro x h; cases x <;> first | rfl | cases h

theorem heavy_beforeSend (c : Nat) : Heavy (Stmt.beforeSend c) := by
  intro x h; cases x <;> first | rfl | cases h

theorem beforeSend_le (s : Server) (c : Nat) :
    tally (Stmt.beforeRecv c) s.threads ≤ tally (Stmt.beforeSend c) s.threads ∧
      tally (Stmt.beforeSend c) s.threads ≤ tally (Stmt.making c) s.threads := by
  constructor <;>
  · apply tally_mono
    intro x
    cases x <;> simp [Stmt.beforeRecv, Stmt.beforeSend, Stmt.making]

theorem exec_beforeRecv (s : Server) (wsa : Bool) (c : Nat) {i : Stmt} (h : i.binds = false) :
    weight (Stmt.beforeRecv c) (s.exec wsa i).2 ≤ i.beforeRecv c := by
  cases i <;> simp only [Stmt.binds, Bool.true_eq_false] at h <;> simp only [exec] <;> (repeat' split) <;>
    simp [Stmt.beforeRecv]

theorem exec_beforeSend (s : Server) (wsa : Bool) (c : Nat) {i : Stmt} (h : i.binds = false) :
    weight (Stmt.beforeSend c) (s.exec wsa i).2 ≤ i.beforeSend c := by
  cases i <;> simp only [Stmt.binds, Bool.true_eq_false] at h <;> simp only [exec] <;> (repeat' split) <;>
    simp [Stmt.beforeSend]

/-- The step keeps every session's structures, and no session gets back to where it has none. -/
theorem fixed_kept {s s' : Server} (h : Fixed s) (hn : s'.nextClient = s.nextClient)
    (hr : ∀ c, (s'.clients c).recvOverlapped = (s.clients c).recvOverlapped)
    (hs : ∀ c, (s'.clients c).sendOverlapped = (s.clients c).sendOverlapped)
    (hR : ∀ c, tally (Stmt.beforeRecv c) s'.threads ≤ tally (Stmt.beforeRecv c) s.threads)
    (hS : ∀ c, tally (Stmt.beforeSend c) s'.threads ≤ tally (Stmt.beforeSend c) s.threads) : Fixed s' := by
  constructor
  · intro c hc
    rw [hr, hs]
    exact h.unborn c (hn ▸ hc)
  · intro c hc
    rw [hr]
    exact h.recv c (Nat.lt_of_lt_of_le hc (hR c))
  · intro c hc
    rw [hs]
    exact h.send c (Nat.lt_of_lt_of_le hc (hS c))
  · intro c o ho
    rw [hr] at ho
    rw [hs]
    exact h.apart c o ho

theorem fixed_newSession {s : Server} (h : Fixed s) {t socket : Nat} (wsa : Bool) {st : List Stmt}
    (ht : s.threads[t]? = some (.newSession socket :: st)) : Fixed (s.run t wsa) := by
  have hf := run_fields wsa ht
  have hn : (s.run t wsa).nextClient = s.nextClient + 1 := hf.nextClient
  have hnew : (s.exec wsa (.newSession socket)).1.clients s.nextClient = .new := by simp [exec, newClient]
  have hold : ∀ c, c ≠ s.nextClient → (s.exec wsa (.newSession socket)).1.clients c = s.clients c := by
    intro c hc; simp [exec, newClient, hc]
  constructor
  · intro c hc
    rw [hf.recvOverlapped, hf.sendOverlapped, hold c (by omega)]
    exact h.unborn c (by omega)
  · intro c hc
    rw [hf.recvOverlapped]
    by_cases e : c = s.nextClient
    · rw [e, hnew]; rfl
    · have := tally_run (Stmt.beforeRecv c) wsa ht
      simp only [exec, Stmt.beforeRecv, weight_cons, weight_nil, Ne.symm e, if_false] at this
      rw [hold c e]
      exact h.recv c (by omega)
  · intro c hc
    rw [hf.sendOverlapped]
    by_cases e : c = s.nextClient
    · rw [e, hnew]; rfl
    · have := tally_run (Stmt.beforeSend c) wsa ht
      simp only [exec, Stmt.beforeSend, weight_cons, weight_nil, Ne.symm e, if_false] at this
      rw [hold c e]
      exact h.send c (by omega)
  · intro c o
    rw [hf.recvOverlapped, hf.sendOverlapped]
    by_cases e : c = s.nextClient
    · rw [e, hnew]; simp [TcpClient.new]
    · rw [hold c e]; exact h.apart c o

theorem fixed_bindRecv {s : Server} (h : Fixed s) (hg : Stages s) {t c₀ o₀ socket : Nat} (wsa : Bool) {st : List Stmt}
    (ht : s.threads[t]? = some (.bindRecv c₀ o₀ socket :: st)) : Fixed (s.run t wsa) := by
  have hf := run_fields wsa ht
  have hn : (s.run t wsa).nextClient = s.nextClient := hf.nextClient
  have hown : (s.exec wsa (.bindRecv c₀ o₀ socket)).1.clients c₀ = { s.clients c₀ with recvOverlapped := some o₀ } :=
    withClient_same _ _ _
  have hold : ∀ c, c ≠ c₀ → (s.exec wsa (.bindRecv c₀ o₀ socket)).1.clients c = s.clients c :=
    fun c hc => withClient_ne _ _ hc
  have hR := fun c => tally_run (Stmt.beforeRecv c) wsa ht
  have hS := fun c => tally_run (Stmt.beforeSend c) wsa ht
  simp only [exec, Stmt.beforeRecv, Stmt.beforeSend, weight_cons, weight_nil] at hR hS
  have hmake := weight_le_tally (Stmt.making c₀) ht
  simp only [Stmt.making, weight_cons, if_true] at hmake
  have hsend : (s.clients c₀).sendOverlapped = none := by
    have := weight_le_tally (Stmt.beforeSend c₀) ht
    simp only [Stmt.beforeSend, weight_cons, if_true] at this
    exact h.send c₀ (by omega)
  have hsame : ∀ c, ((s.run t wsa).clients c).sendOverlapped = (s.clients c).sendOverlapped := by
    intro c
    rw [hf.sendOverlapped]
    by_cases e : c = c₀
    · rw [e, hown]
    · rw [hold c e]
  constructor
  · intro c hc
    have := hg.unborn c (hn ▸ hc)
    have e : c ≠ c₀ := by rintro rfl; omega
    rw [hf.recvOverlapped, hold c e, hsame]
    exact h.unborn c (hn ▸ hc)
  · intro c hc
    have h1 := hR c
    -- the session was being made once only, so it is past this
    have e : c ≠ c₀ := by
      intro heq
      subst heq
      have := beforeSend_le s c
      have := hg.send c
      simp only [if_true] at h1
      omega
    rw [hf.recvOverlapped, hold c e]
    exact h.recv c (by omega)
  · intro c hc
    have h1 := hS c
    rw [hsame]
    exact h.send c (by omega)
  · intro c o ho
    rw [hsame]
    by_cases e : c = c₀
    · rw [e, hsend]; simp
    · rw [hf.recvOverlapped, hold c e] at ho
      exact h.apart c o ho

theorem fixed_bindSend {s : Server} (h : Fixed s) (hg : Stages s) (hb : Bound s) {t c₀ o₁ o₀ socket : Nat} (wsa : Bool)
    {st : List Stmt} (ht : s.threads[t]? = some (.bindSend c₀ o₁ o₀ socket :: st)) : Fixed (s.run t wsa) := by
  have hf := run_fields wsa ht
  have hn : (s.run t wsa).nextClient = s.nextClient := hf.nextClient
  have hnone : s.getClientObject o₀ = none := hb.held ht (by simp [Stmt.holds])
  have hown : (s.exec wsa (.bindSend c₀ o₁ o₀ socket)).1.clients c₀ =
      { s.clients c₀ with sendOverlapped := some o₀ } :=
    withClient_same _ _ _
  have hold : ∀ c, c ≠ c₀ → (s.exec wsa (.bindSend c₀ o₁ o₀ socket)).1.clients c = s.clients c :=
    fun c hc => withClient_ne _ _ hc
  have hR := fun c => tally_run (Stmt.beforeRecv c) wsa ht
  have hS := fun c => tally_run (Stmt.beforeSend c) wsa ht
  simp only [exec, Stmt.beforeRecv, Stmt.beforeSend, weight_cons, weight_nil] at hR hS
  have hmake := weight_le_tally (Stmt.making c₀) ht
  simp only [Stmt.making, weight_cons, if_true] at hmake
  have hsame : ∀ c, ((s.run t wsa).clients c).recvOverlapped = (s.clients c).recvOverlapped := by
    intro c
    rw [hf.recvOverlapped]
    by_cases e : c = c₀
    · rw [e, hown]
    · rw [hold c e]
  constructor
  · intro c hc
    have := hg.unborn c (hn ▸ hc)
    have e : c ≠ c₀ := by rintro rfl; omega
    rw [hf.sendOverlapped, hold c e, hsame]
    exact h.unborn c (hn ▸ hc)
  · intro c hc
    have h1 := hR c
    rw [hsame]
    exact h.recv c (by omega)
  · intro c hc
    have h1 := hS c
    have e : c ≠ c₀ := by
      intro heq
      subst heq
      have := beforeSend_le s c
      have := hg.send c
      simp only [if_true] at h1
      omega
    rw [hf.sendOverlapped, hold c e]
    exact h.send c (by omega)
  · intro c o ho
    rw [hsame] at ho
    rw [hf.sendOverlapped]
    by_cases e : c = c₀
    · subst e
      -- its receive structure is bound, the new one was not
      have h1 := weight_le_tally (Stmt.hasRecv c) ht
      simp only [Stmt.hasRecv, weight_cons, if_true] at h1
      obtain ⟨o', h2, h3⟩ := hb.recv c (by omega)
      rw [hown]
      intro h0
      cases h0
      rw [h2] at ho
      cases ho
      exact ne_of_bound h3 hnone (by simp) rfl
    · rw [hold c e]; exact h.apart c o ho

theorem fixed_step {s : Server} {e : Ev} (hg : Stages s) (hb : Bound s) (h : Fixed s) : Fixed (s.step e) := by
  rcases step_cases s e with hq | ⟨t, wsa, i, st, rfl, ht, hi, hs⟩
  · exact fixed_kept h hq.nextClient hq.recvOverlapped hq.sendOverlapped
      (fun c => Nat.le_of_eq (hq.tally (heavy_beforeRecv c))) fun c => Nat.le_of_eq (hq.tally (heavy_beforeSend c))
  rw [hs]
  have hf := run_fields wsa ht
  cases hbd : i.binds with
  | false =>
    obtain ⟨h1, h2, h3⟩ := exec_structures s wsa hbd
    refine fixed_kept h (hf.nextClient.trans h1) (fun c => (hf.recvOverlapped c).trans (h2 c))
      (fun c => (hf.sendOverlapped c).trans (h3 c)) (fun c => ?_) fun c => ?_
    · have := tally_run (Stmt.beforeRecv c) wsa ht
      have := exec_beforeRecv s wsa c hbd
      omega
    · have := tally_run (Stmt.beforeSend c) wsa ht
      have := exec_beforeSend s wsa c hbd
      omega
  | true =>
    cases i with
    | newSession => exact fixed_newSession h wsa ht
    | bindRecv => exact fixed_bindRecv h hg wsa ht
    | bindSend => exact fixed_bindSend h hg hb wsa ht
    | _ => cases hbd

theorem fixed_boot (n : Nat) : Fixed (boot n) :=
  ⟨fun _ _ => ⟨rfl, rfl⟩, fun _ _ => rfl, fun _ _ => rfl, fun _ _ h => by cases h⟩

theorem fixed {s : Server} (h : Reach Alone s) : Fixed s :=
  h.invariant_of (fun _ hr => And.intro (stages hr) (Server.bound hr)) (fun _ ⟨n, hn⟩ => hn ▸ fixed_boot n)
    fun _ _ ⟨hg, hb⟩ hs _ => fixed_step hg hb hs

/-- A structure a session has, it keeps. -/
theorem structures_kept {s : Server} (h : Fixed s) (e : Ev) {c o : Nat} (kind : IoKind)
    (ho : s.structureOf c kind = some o) : (s.step e).structureOf c kind = some o := by
  rcases structureOf_cases s e c kind with he | ⟨t, wsa, i, st, rfl, ht, hi⟩
  · rw [he, ho]
  rcases hi with ⟨socket, rfl, rfl, -⟩ | ⟨o', socket, rfl, rfl, -⟩ | ⟨o', sendO, socket, rfl, rfl, -⟩
  · obtain ⟨hr, hs⟩ := h.unborn s.nextClient (Nat.le_refl _)
    cases kind
    · exact absurd (hr.symm.trans ho) (by simp)
    · exact absurd (hs.symm.trans ho) (by simp)
  · have hw := weight_le_tally (Stmt.beforeRecv c) ht
    simp only [Stmt.beforeRecv, weight_cons, if_true] at hw
    exact absurd ((h.recv c (by omega)).symm.trans ho) (by simp)
  · have hw := weight_le_tally (Stmt.beforeSend c) ht
    simp only [Stmt.beforeSend, weight_cons, if_true] at hw
    exact absurd ((h.send c (by omega)).symm.trans ho) (by simp)

/-- A bound structure stays bound unless the step clears it. -/
theorem client_kept {s : Server} (hb : Bound s) {e : Ev} {o c : Nat} (h : s.getClientObject o = some c)
    (hu : s.unbinding e ≠ some o) : (s.step e).getClientObject o = some c := by
  rcases step_cases s e with hq | ⟨t, wsa, i, st, rfl, ht, hi, hs⟩
  · rw [hq.getClientObject, h]
  rw [hs, (run_fields wsa ht).getClientObject]
  -- a structure fresh from the heap or in a statement's hands is another one
  have hfresh : ∀ (n : Nat), ¬ (s.heap.next ≤ o ∧ o < n) := by
    intro n hrange
    obtain ⟨hlo, -⟩ := hrange
    have := hb.fresh o hlo
    simp [places, h] at this
  have hne : ∀ {o₀}, i.holds o₀ = 1 → o ≠ o₀ := fun hh => ne_of_bound h (hb.held ht hh) (by simp)
  cases i with
  | newSession | initializeSocket | addTcpClient | closeSession | removeTcpClient | enqueueRecv | enqueueSend => exact h
  | dequeueRecv c₀ socket =>
    obtain ⟨o', h', p', hd, -, -, hget⟩ := OverlappedIoPool.dequeue_moves s.heap s.recvPool
    simp only [exec, hd, getClientObject, hget]
    rw [if_neg (hfresh _)]
    exact h
  | dequeueSend c₀ o₁ socket =>
    obtain ⟨o', h', p', hd, -, -, hget⟩ := OverlappedIoPool.dequeue_moves s.heap s.sendPool
    simp only [exec, hd, getClientObject, hget]
    rw [if_neg (hfresh _)]
    exact h
  | bindRecv c₀ o₀ socket =>
    rw [show (s.exec wsa (.bindRecv c₀ o₀ socket)).1 = s.bindRecv c₀ o₀ from rfl, bindRecv, getClientObject_set,
      if_neg (hne (by simp [Stmt.holds]))]
    exact h
  | bindSend c₀ o₁ o₀ socket =>
    rw [show (s.exec wsa (.bindSend c₀ o₁ o₀ socket)).1 = s.bindSend c₀ o₀ from rfl, bindSend, getClientObject_set,
      if_neg (hne (by simp [Stmt.holds]))]
    exact h
  | unbindRecv c₀ =>
    simp only [unbinding, ht] at hu
    cases ho : (s.clients c₀).recvOverlapped with
    | none => simpa only [exec, ho] using h
    | some o₀ =>
      simp only [exec, ho, getClientObject_set]
      rw [if_neg (fun e => hu (by rw [ho, e])), h]
  | unbindSend c₀ =>
    simp only [unbinding, ht] at hu
    cases ho : (s.clients c₀).sendOverlapped with
    | none => simpa only [exec, ho] using h
    | some o₀ =>
      simp only [exec, ho, getClientObject_set]
      rw [if_neg (fun e => hu (by rw [ho, e])), h]
  | _ => cases hi

/-! ## Attribution -/

def Linked (s : Server) (op : IoOp) : Prop := s.structureOf op.client op.kind = some op.io

theorem linked_kept {s : Server} (h : Fixed s) (e : Ev) {op : IoOp} (hl : s.Linked op) : (s.step e).Linked op :=
  structures_kept h e op.kind hl

/-- What a statement's data say while the run is orderly. -/
def Sound (s : Server) : Stmt → Prop
  | .dequeueSend c o _ | .bindSend c o _ _ | .initializeSocket c o _ | .addTcpClient c o _ =>
    (s.clients c).recvOverlapped = some o
  | .bindSocket c o _ | .firstRecv c o => (s.clients c).recvOverlapped = some o ∧ s.getClientObject o = some c
  | .getSocket op => s.Linked op ∧ s.getClientObject op.io = some op.client
  | .checkExpired j | .checkBound j | .takeSession j => s.Linked j.op ∧ s.getClientObject j.op.io = some j.op.client
  | .recvBranch c j | .sendBranch c j => s.Linked j.op ∧ c = j.op.client
  | .recvNext c j | .recvAsync c j | .onReceived c j | .tryProcessPacket c j | .processLoop c j | .loopTail c j
  | .processPacket c j _ | .verifyFlag c j _ _ | .echo c j _ _ | .bcastBegin c j _ _ | .bcastCheck c j _ _ _
  | .bcastWrite c j _ _ _ | .bcastFlush c j _ _ _ | .bcastNext c j _ _ _ =>
    s.Linked j.op ∧ c = j.op.client ∧ j.op.kind = .recv
  | .onSend c j => s.Linked j.op ∧ c = j.op.client ∧ j.op.kind = .send
  | _ => True

/-- Every operation in flight, and every statement about one, is its poster's. -/
structure Attributed (s : Server) : Prop where
  flying : ∀ op ∈ s.inflight, s.Linked op ∧ s.getClientObject op.io = some op.client
  sound : ∀ x, s.Has x → s.Sound x

section Kept

variable {s : Server} {e : Ev} (hb : Bound s) (hx : Fixed s) (hu : Unused s e)
include hb hx hu

theorem flying_kept {op : IoOp} (hm : op ∈ s.inflight) (h : s.Linked op ∧ s.getClientObject op.io = some op.client) :
    (s.step e).Linked op ∧ (s.step e).getClientObject op.io = some op.client :=
  ⟨linked_kept hx e h.1, client_kept hb h.2 fun hn => (hu _ hn).1 op hm rfl⟩

/-- What a statement's data say, they say after the step. -/
theorem sound_kept {x : Stmt} (hh : s.Has x) (h : s.Sound x) : (s.step e).Sound x := by
  have hget : ∀ {o c}, x.looksUp o = 1 → s.getClientObject o = some c → (s.step e).getClientObject o = some c := by
    intro o c h1 h2
    refine client_kept hb h2 fun hn => ?_
    have := le_tally_of_has (Stmt.looksUp o) hh
    rw [(hu o hn).2, h1] at this
    omega
  cases x with
  | dequeueSend | bindSend | initializeSocket | addTcpClient => exact structures_kept hx e .recv h
  | bindSocket | firstRecv => exact ⟨structures_kept hx e .recv h.1, hget (by simp [Stmt.looksUp]) h.2⟩
  | getSocket | checkExpired | checkBound | takeSession =>
    exact ⟨linked_kept hx e h.1, hget (by simp [Stmt.looksUp]) h.2⟩
  | recvBranch | sendBranch | recvNext | recvAsync | onReceived | tryProcessPacket | processLoop | loopTail
  | processPacket | verifyFlag | echo | bcastBegin | bcastCheck | bcastWrite | bcastFlush | bcastNext | onSend =>
    exact ⟨linked_kept hx e h.1, h.2⟩
  | _ => trivial

end Kept

/-- A session's two structures differ, so which one a completion has tells its kind. -/
theorem kind_of_structure {s : Server} (hx : Fixed s) {op : IoOp} (hl : s.Linked op) {kind : IoKind}
    (h : s.structureOf op.client kind = some op.io) : op.kind = kind := by
  unfold Linked structureOf at hl
  unfold structureOf at h
  cases hk : op.kind <;> cases kind <;> simp only [hk] at hl h ⊢
  · exact absurd h (hx.apart _ _ hl)
  · exact absurd hl (hx.apart _ _ h)

/-- What a statement pushes is about what it was about. -/
theorem sound_pushed {s : Server} (hb : Bound s) (hx : Fixed s) {t : Nat} {wsa : Bool} {i : Stmt} {st : List Stmt}
    (ht : s.threads[t]? = some (i :: st)) (hu : Unused s (.run t wsa)) (h : s.Sound i)
    (hs : s.step (.run t wsa) = s.run t wsa) : ∀ x ∈ (s.exec wsa i).2, (s.step (.run t wsa)).Sound x := by
  have hi' := sound_kept hb hx hu (has_top ht) h
  intro x hm
  cases i with
  | bindRecv c o socket =>
    simp only [exec, List.mem_singleton] at hm
    subst hm
    simp only [hs, Sound, (run_fields wsa ht).recvOverlapped]
    simp [exec, bindRecv, setClientObject, withClient]
  | dequeueSend c o socket =>
    obtain ⟨o', h', p', hd, -, -, -⟩ := OverlappedIoPool.dequeue_moves s.heap s.sendPool
    simp only [exec, hd, List.mem_singleton] at hm
    subst hm
    exact hi'
  | bindSend | initializeSocket | bindSocket | onReceived =>
    simp only [exec, List.mem_singleton] at hm
    subst hm
    exact hi'
  | addTcpClient c o socket =>
    simp only [exec, List.mem_singleton] at hm
    subst hm
    have hw := weight_le_tally (Stmt.hasRecv c) ht
    simp only [Stmt.hasRecv, weight_cons, if_true] at hw
    obtain ⟨o', h1, h2⟩ := hb.recv c (by omega)
    rw [show (s.clients c).recvOverlapped = some o from h] at h1
    cases h1
    exact ⟨hi', client_kept hb h2 (by simp [unbinding, ht])⟩
  | takeSession j =>
    simp only [exec, h.2, List.mem_singleton] at hm
    subst hm
    exact ⟨hi'.1, rfl⟩
  | recvBranch c j =>
    obtain ⟨hl, rfl⟩ := h
    simp only [exec] at hm
    split at hm
    · rename_i hc
      simp only [List.mem_singleton] at hm
      subst hm
      exact ⟨hi'.1, rfl, kind_of_structure hx hl hc.1⟩
    · simp only [List.mem_singleton] at hm
      subst hm
      exact hi'
  | sendBranch c j =>
    obtain ⟨hl, rfl⟩ := h
    simp only [exec] at hm
    split at hm
    · rename_i hc
      simp only [List.mem_singleton] at hm
      subst hm
      exact ⟨hi'.1, rfl, kind_of_structure hx hl hc.1⟩
    · cases hm
  | recvNext c j =>
    simp only [exec] at hm
    split at hm <;> simp only [List.mem_cons, List.not_mem_nil, or_false] at hm
    · subst hm; exact hi'
    · rcases hm with rfl | rfl
      · trivial
      · exact ⟨hi'.1, hi'.2.1⟩
  | recvAsync c j =>
    simp only [exec, List.mem_singleton] at hm
    subst hm
    exact ⟨hi'.1, hi'.2.1⟩
  | checkExpired | checkBound | tryProcessPacket | processLoop | loopTail | processPacket | verifyFlag | echo | bcastBegin
  | bcastCheck | bcastWrite | bcastFlush | bcastNext =>
    simp only [exec] at hm
    (repeat' split at hm) <;> simp only [List.mem_cons, List.not_mem_nil, or_false] at hm <;>
      (first | subst hm | rcases hm with rfl | rfl) <;> first | exact hi' | trivial
  | _ =>
    simp only [exec] at hm
    (repeat' split at hm) <;> simp only [List.mem_cons, List.not_mem_nil, or_false] at hm <;> subst hm <;> trivial

def Posted (s : Server) (e : Ev) (op : IoOp) : Prop :=
  s.Linked op ∧ op = s.posting op.kind op.client op.io ∧
    ((op.kind = .recv ∧ s.receiving e = some op.client) ∨ (op.kind = .send ∧ s.sending e = some op.client) ∨
      ∃ t st c o, e = .run t true ∧ s.threads[t]? = some (.firstRecv c o :: st) ∧ op.kind = .recv ∧
        s.getClientObject o = some op.client)

theorem linked_posting {s : Server} {kind : IoKind} {c io : Nat} (h : s.structureOf c kind = some io) :
    s.Linked (s.posting kind c io) := by
  unfold Linked
  rwa [posting_kind, posting_client, posting_io]

/-- What a step does to the operations in flight: a worker picks one up, or one is posted. -/
theorem inflight_cases (s : Server) (e : Ev) :
    (s.step e).inflight = s.inflight ∨ (∃ t i r, e = .dispatch t i r ∧ (s.step e).inflight = s.inflight.eraseIdx i) ∨
      ∃ op, (s.step e).inflight = s.inflight ++ [op] ∧ s.Posted e op := by
  by_cases hc : s.crashed = none
  case neg => rw [step_crashed hc]; exact Or.inl rfl
  rw [step_eq hc]
  -- a session's call posts nothing, or the session's operation with its structure
  have hpost : ∀ {kind : IoKind} {c io : Nat}, s.structureOf c kind = some io →
      ((kind = .recv ∧ s.receiving e = some c) ∨ (kind = .send ∧ s.sending e = some c) ∨
        ∃ t st c' o, e = .run t true ∧ s.threads[t]? = some (.firstRecv c' o :: st) ∧ kind = .recv ∧
          s.getClientObject o = some c) → s.Posted e (s.posting kind c io) := by
    intro kind c io hio hcall
    unfold Posted
    rw [posting_kind, posting_client, posting_io]
    exact ⟨linked_posting hio, rfl, hcall⟩
  cases e with
  | accept socket =>
    left
    rcases accept_cases s socket with he | ⟨-, -, he, -⟩
    · rw [handle, he]
    · exact he
  | dispatch t i r =>
    rcases dispatch_cases s t i r with he | ⟨op', st, -, -, -, -, he⟩
    · exact Or.inl (by rw [handle, he])
    · exact Or.inr (Or.inl ⟨t, i, r, rfl, by rw [handle, he]⟩)
  | write c packet =>
    left
    simp only [handle, write]
    split
    · exact writeSendBuffer_inflight s none c packet
    · rfl
  | flush c wsa =>
    simp only [handle, flush]
    split
    · rename_i hreg
      rcases flushSendBuffer_inflight s c wsa with he | ⟨io, he, rfl, hio, hn, hp⟩
      · exact Or.inl he
      · exact Or.inr (Or.inr ⟨_, he, hpost hio (Or.inr (Or.inl ⟨rfl, by simp [sending, hreg, hn, hp]⟩))⟩)
    · exact Or.inl rfl
  | run t wsa =>
    rcases ht : s.threads[t]? with _ | _ | ⟨i, st⟩
    · exact Or.inl (by simp only [handle, run, ht])
    · exact Or.inl (by simp only [handle, run, ht])
    have hin : (s.handle (.run t wsa)).inflight = (s.exec wsa i).1.inflight := by simp only [handle, run, ht]; rfl
    rw [hin]
    cases hp : i.posts with
    | false => exact Or.inl (exec_inflight s wsa hp)
    | true =>
      cases i with
      | firstRecv c o =>
        simp only [exec]
        split
        · exact Or.inl rfl
        · rename_i c' hg
          rcases recvAsync_inflight s c' wsa with he | ⟨io, he, rfl, hio⟩
          · exact Or.inl he
          · exact Or.inr (Or.inr ⟨_, he, hpost hio (Or.inr (Or.inr ⟨t, st, c, o, rfl, ht, rfl, hg⟩))⟩)
      | recvAsync c j =>
        rcases recvAsync_inflight s c wsa with he | ⟨io, he, rfl, hio⟩
        · exact Or.inl he
        · exact Or.inr (Or.inr ⟨_, he, hpost hio (Or.inl ⟨rfl, by simp [receiving, ht]⟩)⟩)
      | flushSendBuffer c =>
        rcases flushSendBuffer_inflight s c wsa with he | ⟨io, he, rfl, hio, hn, hp⟩
        · exact Or.inl he
        · exact Or.inr (Or.inr ⟨_, he, hpost hio (Or.inr (Or.inl ⟨rfl, by simp [sending, ht, hn, hp]⟩))⟩)
      | _ => cases hp

/-- The operations in flight after a step. -/
theorem inflight_step {s : Server} {e : Ev} {op : IoOp} (h : op ∈ (s.step e).inflight) :
    op ∈ s.inflight ∨ s.Posted e op := by
  rcases inflight_cases s e with he | ⟨t, i, r, rfl, he⟩ | ⟨op', he, hp⟩ <;> rw [he] at h
  · exact Or.inl h
  · exact Or.inl (List.mem_of_mem_eraseIdx h)
  · rcases List.mem_append.mp h with h | h
    · exact Or.inl h
    · rw [List.mem_singleton.mp h]
      exact Or.inr hp

/-- A step that posts clears nothing. -/
theorem Posted.unbinding {s : Server} {e : Ev} {op : IoOp} (h : s.Posted e op) : s.unbinding e = none := by
  obtain ⟨-, -, ⟨-, h⟩ | ⟨-, h⟩ | ⟨t, st, c, o, rfl, ht, -, -⟩⟩ := h
  · unfold receiving at h
    split at h
    · split at h
      · rename_i ht; simp only [Server.unbinding, ht]
      · cases h
    · cases h
  · unfold sending at h
    split at h
    · rename_i t
      split at h
      · rename_i ht; simp only [Server.unbinding, ht]
      · cases h
    · rfl
    · cases h
  · simp only [Server.unbinding, ht]

/-- The operation posted has a bound structure. -/
theorem Posted.bound {s : Server} {e : Ev} {op : IoOp} (h : s.Posted e op) (ha : Attached s e)
    (hsound : ∀ x, s.Has x → s.Sound x) : s.getClientObject op.io = some op.client := by
  obtain ⟨hl, -, ⟨hk, h⟩ | ⟨hk, h⟩ | ⟨t, st, c, o, rfl, ht, hk, hg⟩⟩ := h
  · obtain ⟨o, h1, h2⟩ := isBound_iff.mp (ha.1 _ h)
    unfold Linked at hl
    rw [hk] at hl
    cases h1.symm.trans hl
    exact h2
  · obtain ⟨o, h1, h2⟩ := isBound_iff.mp (ha.2 _ h)
    unfold Linked at hl
    rw [hk] at hl
    cases h1.symm.trans hl
    exact h2
  · obtain ⟨h1, h2⟩ := hsound _ (has_top ht)
    rw [hg] at h2
    cases h2
    unfold Linked at hl
    rw [hk] at hl
    cases h1.symm.trans hl
    exact hg

theorem branch_sound {s : Server} {op : IoOp} {r : Result} {st : List Stmt} (h : branch op r = some st)
    (hop : s.Linked op ∧ s.getClientObject op.io = some op.client) : ∀ x ∈ st, s.Sound x := by
  intro x hx
  rcases mem_branch h hx with rfl | rfl | ⟨n, rfl, -⟩
  · exact hop
  · trivial
  · exact hop

theorem attributed_step {s : Server} {e : Ev} (hb : Bound s) (hx : Fixed s) (h : Attributed s) (ho : Orderly s e) :
    Attributed (s.step e) := by
  obtain ⟨-, hu, ha⟩ := ho
  constructor
  · intro op hop
    rcases inflight_step hop with hop | hp
    · exact flying_kept hb hx hu hop (h.flying op hop)
    · exact ⟨linked_kept hx e hp.1, client_kept hb (hp.bound ha h.sound) (by rw [hp.unbinding]; simp)⟩
  · intro x hh
    rcases has_step hh with hh | ⟨socket, rfl⟩ | ⟨op, hop, _, _, r, st, _, _, hbr, hm⟩ |
        ⟨t, wsa, i, st, rfl, ht, hc, hm⟩
    · exact sound_kept hb hx hu hh (h.sound x hh)
    · trivial
    · exact branch_sound hbr (flying_kept hb hx hu hop (h.flying op hop)) x hm
    · exact sound_pushed hb hx ht hu (h.sound i (has_top ht)) (step_eq hc _) x hm

theorem attributed_boot (n : Nat) : Attributed (boot n) :=
  ⟨fun _ hop => (nomatch hop), fun x hx => absurd hx (not_has_boot n x)⟩

theorem Orderly.fixed {s : Server} (h : Reach Orderly s) : Fixed s := Server.fixed (h.mono fun _ _ he => he.1)

theorem attributed {s : Server} (h : Reach Orderly s) : Attributed s :=
  h.invariant_of (fun _ hr => And.intro (Orderly.bound hr) (Orderly.fixed hr)) (fun _ ⟨n, hn⟩ => hn ▸ attributed_boot n)
    fun _ _ ⟨hb, hx⟩ hs ho => attributed_step hb hx hs ho

end Server

end SigHolic.Network
