/-
  SigHolic.Network.Origins — what no run of the server changes, torn down twice or not.

  Proved, for every run: a structure belongs to the pool that allocated it, whoever has it and
  however often it was given back (`rooted`), so a send's completion never runs `OnReceived`;
  a thread acts for sessions that were made, a completion in hand has transferred something,
  a send in flight sends something (`actors`).
-/

import SigHolic.Network.Framing

namespace SigHolic.Network

open SigHolic.Base.Tally SigHolic.Utility.Buffer SigHolic.Iocp SigHolic.Socket

namespace Stmt

/-- The structure on its way from a pool to a session, or back. -/
def carried : IoKind → Stmt → Option Nat
  | .recv, .bindRecv _ o _ | .recv, .enqueueRecv _ o | .send, .bindSend _ _ o _ | .send, .enqueueSend _ o => some o
  | _, _ => none

def inHand : Stmt → Option Completion
  | .checkExpired j | .checkBound j | .takeSession j | .recvBranch _ j | .recvNext _ j | .recvAsync _ j | .sendBranch _ j
  | .onSend _ j | .sendNext _ j | .onReceived _ j | .tryProcessPacket _ j | .processLoop _ j | .loopTail _ j
  | .processPacket _ j _ | .verifyFlag _ j _ _ | .echo _ j _ _ | .bcastBegin _ j _ _ | .bcastCheck _ j _ _ _
  | .bcastWrite _ j _ _ _ | .bcastFlush _ j _ _ _ | .bcastNext _ j _ _ _ => some j
  | _ => none

def actor : Stmt → Option Nat
  | .dequeueRecv c _ | .bindRecv c _ _ | .dequeueSend c _ _ | .bindSend c _ _ _ | .recvBranch c _ | .recvNext c _
  | .recvAsync c _ | .sendBranch c _ | .onSend c _ | .sendNext c _ | .onReceived c _ | .tryProcessPacket c _
  | .processLoop c _ | .loopTail c _ | .processPacket c _ _ | .verifyFlag c _ _ _ | .echo c _ _ _ | .bcastBegin c _ _ _
  | .bcastCheck c _ _ _ _ | .bcastWrite c _ _ _ _ | .bcastFlush c _ _ _ _ | .bcastNext c _ _ _ _ => some c
  | _ => none

end Stmt

namespace Server

def poolOf (s : Server) : IoKind → OverlappedIoPool
  | .recv => s.recvPool
  | .send => s.sendPool

/-! ## A structure belongs to one pool -/

/-- The pools, the sessions and the operations in flight have each other's structures nowhere. -/
structure Origins (s : Server) : Prop where
  apart : ∀ o, s.recvPool.Allocated o → ¬ s.sendPool.Allocated o
  fresh : ∀ kind o, (s.poolOf kind).Allocated o → o < s.heap.next
  waiting : ∀ kind, ∀ o ∈ (s.poolOf kind).waitingQueue, (s.poolOf kind).Allocated o
  bound : ∀ kind c o, s.structureOf c kind = some o → (s.poolOf kind).Allocated o

def Stems (s : Server) (x : Stmt) : Prop :=
  (∀ kind o, x.carried kind = some o → (s.poolOf kind).Allocated o) ∧
    ∀ j, x.inHand = some j → (s.poolOf j.op.kind).Allocated j.op.io

theorem SameBindings.poolOf {s s' : Server} (h : SameBindings s s') (kind : IoKind) : s'.poolOf kind = s.poolOf kind := by
  cases kind
  · exact h.recvPool
  · exact h.sendPool

theorem SameBindings.structureOf {s s' : Server} (h : SameBindings s s') (c : Nat) (kind : IoKind) :
    s'.structureOf c kind = s.structureOf c kind := by
  cases kind
  · exact h.recvOverlapped c
  · exact h.sendOverlapped c

theorem origins_same {s s' : Server} (h : Origins s) (hs : SameBindings s s') : Origins s' := by
  constructor
  · rw [hs.recvPool, hs.sendPool]; exact h.apart
  · intro kind
    rw [hs.poolOf, hs.heap]
    exact h.fresh kind
  · intro kind
    rw [hs.poolOf]
    exact h.waiting kind
  · intro kind c o
    rw [hs.poolOf, hs.structureOf]
    exact h.bound kind c o

/-- Nothing but the sessions' structures has changed, and what is new of them comes from its pool. -/
theorem origins_bound {s s' : Server} (h : Origins s) (hp : ∀ kind, s'.poolOf kind = s.poolOf kind)
    (hn : s'.heap.next = s.heap.next)
    (hb : ∀ kind c o, s'.structureOf c kind = some o → s.structureOf c kind = some o ∨ (s.poolOf kind).Allocated o) :
    Origins s' := by
  constructor
  · intro o
    have hr : s'.recvPool = s.recvPool := hp .recv
    have hs : s'.sendPool = s.sendPool := hp .send
    rw [hr, hs]
    exact h.apart o
  · intro kind o ho
    rw [hp] at ho
    rw [hn]
    exact h.fresh kind o ho
  · intro kind
    rw [hp]
    exact h.waiting kind
  · intro kind c o ho
    rw [hp]
    rcases hb kind c o ho with ho | ho
    · exact h.bound kind c o ho
    · exact ho

/-- A structure is taken from a pool; a pool that grows takes addresses nobody has. -/
theorem origins_dequeue {s : Server} (s' : Server) (h : Origins s) (kind : IoKind) {o : Nat}
    (hd : (s.poolOf kind).dequeue s.heap = .ok (o, s'.heap, s'.poolOf kind))
    (hother : ∀ kind', kind' ≠ kind → s'.poolOf kind' = s.poolOf kind') (hc : s'.clients = s.clients) :
    Origins s' ∧ (s'.poolOf kind).Allocated o ∧ ∀ kind' a, (s.poolOf kind').Allocated a →
      (s'.poolOf kind').Allocated a := by
  obtain ⟨o', heap', p', hd', hn, hq, -⟩ := OverlappedIoPool.dequeue_moves s.heap (s.poolOf kind)
  rw [hd] at hd'
  cases hd'
  have halloc := OverlappedIoPool.dequeue_allocated hd
  have hmono : ∀ kind' a, (s.poolOf kind').Allocated a → (s'.poolOf kind').Allocated a := by
    intro kind' a ha
    by_cases hk : kind' = kind
    · subst hk
      exact (halloc a).mpr (Or.inl ha)
    · rwa [hother kind' hk]
  have hsplit : ∀ kind' a, (s'.poolOf kind').Allocated a →
      (s.poolOf kind').Allocated a ∨ (kind' = kind ∧ s.heap.next ≤ a ∧ a < s'.heap.next) := by
    intro kind' a ha
    by_cases hk : kind' = kind
    · subst hk
      exact ((halloc a).mp ha).imp_right fun hr => ⟨rfl, hr⟩
    · rw [hother kind' hk] at ha
      exact Or.inl ha
  -- the queue afterwards, and the structure taken, were waiting before or are new
  have hqueue : ∀ a, a ∈ (s'.poolOf kind).waitingQueue ∨ a = o → (s'.poolOf kind).Allocated a := by
    intro a ha
    by_cases hnew : s.heap.next ≤ a ∧ a < s'.heap.next
    · exact (halloc a).mpr (Or.inr hnew)
    have hcount := hq a
    rw [if_neg hnew] at hcount
    have hpos : 0 < (s.poolOf kind).waitingQueue.count a := by
      rcases ha with ha | ha
      · have := List.count_pos_iff.mpr ha
        omega
      · rw [if_pos ha.symm] at hcount
        omega
    exact (halloc a).mpr (Or.inl (h.waiting kind a (List.count_pos_iff.mp hpos)))
  refine ⟨⟨?_, ?_, ?_, ?_⟩, hqueue o (Or.inr rfl), hmono⟩
  · intro a hr hs
    rcases hsplit .recv a hr with hr | ⟨hk, hlo, -⟩ <;> obtain hs | ⟨hk', hlo', -⟩ := hsplit .send a hs
    · exact h.apart a hr hs
    · exact absurd (h.fresh .recv a hr) (by omega)
    · exact absurd (h.fresh .send a hs) (by omega)
    · rw [← hk] at hk'
      cases hk'
  · intro kind' a ha
    rcases hsplit kind' a ha with ha | ⟨-, -, hlt⟩
    · exact Nat.lt_of_lt_of_le (h.fresh kind' a ha) hn
    · exact hlt
  · intro kind' a ha
    by_cases hk : kind' = kind
    · subst hk
      exact hqueue a (Or.inl ha)
    · rw [hother kind' hk] at ha
      exact hmono kind' a (h.waiting kind' a ha)
  · intro kind' c a ha
    have hsame : s'.structureOf c kind' = s.structureOf c kind' := by
      cases kind' <;> simp only [structureOf, hc]
    rw [hsame] at ha
    exact hmono kind' a (h.bound kind' c a ha)

/-- A structure is given back to its pool. -/
theorem origins_enqueue {s : Server} (s' : Server) (h : Origins s) (kind : IoKind) {o : Nat} (ho : (s.poolOf kind).Allocated o)
    (he : s'.poolOf kind = (s.poolOf kind).enqueue o) (hother : ∀ kind', kind' ≠ kind → s'.poolOf kind' = s.poolOf kind')
    (hn : s'.heap = s.heap) (hc : s'.clients = s.clients) :
    Origins s' ∧ ∀ kind' a, (s.poolOf kind').Allocated a ↔ (s'.poolOf kind').Allocated a := by
  have hiff : ∀ kind' a, (s.poolOf kind').Allocated a ↔ (s'.poolOf kind').Allocated a := by
    intro kind' a
    by_cases hk : kind' = kind
    · subst hk
      rw [he]
      exact Iff.rfl
    · rw [hother kind' hk]
  refine ⟨⟨?_, ?_, ?_, ?_⟩, hiff⟩
  · intro a hr hs
    exact h.apart a ((hiff .recv a).mpr hr) ((hiff .send a).mpr hs)
  · intro kind' a ha
    rw [hn]
    exact h.fresh kind' a ((hiff kind' a).mpr ha)
  · intro kind' a ha
    rw [← hiff]
    by_cases hk : kind' = kind
    · subst hk
      rw [he] at ha
      rcases List.mem_append.mp ha with ha | ha
      · exact h.waiting kind' a ha
      · rw [List.mem_singleton.mp ha]
        exact ho
    · rw [hother kind' hk] at ha
      exact h.waiting kind' a ha
  · intro kind' c a ha
    rw [← hiff]
    have hsame : s'.structureOf c kind' = s.structureOf c kind' := by
      cases kind' <;> simp only [structureOf, hc]
    rw [hsame] at ha
    exact h.bound kind' c a ha

theorem structureOf_bindRecv (s : Server) (c o : Nat) {d o' : Nat} {kind : IoKind}
    (h : (s.bindRecv c o).structureOf d kind = some o') :
    s.structureOf d kind = some o' ∨ (kind = .recv ∧ o' = o) := by
  by_cases hd : d = c
  · subst hd
    cases kind
    · rw [show (s.bindRecv d o).structureOf d .recv = some o by simp [structureOf, bindRecv, setClientObject]] at h
      cases h
      exact Or.inr ⟨rfl, rfl⟩
    · left
      rwa [show (s.bindRecv d o).structureOf d .send = s.structureOf d .send by
        simp [structureOf, bindRecv, setClientObject]] at h
  · left
    cases kind <;> simpa only [structureOf, bindRecv, setClientObject, withClient_ne _ _ hd] using h

theorem structureOf_bindSend (s : Server) (c o : Nat) {d o' : Nat} {kind : IoKind}
    (h : (s.bindSend c o).structureOf d kind = some o') :
    s.structureOf d kind = some o' ∨ (kind = .send ∧ o' = o) := by
  by_cases hd : d = c
  · subst hd
    cases kind
    · left
      rwa [show (s.bindSend d o).structureOf d .recv = s.structureOf d .recv by
        simp [structureOf, bindSend, setClientObject]] at h
    · rw [show (s.bindSend d o).structureOf d .send = some o by simp [structureOf, bindSend, setClientObject]] at h
      cases h
      exact Or.inr ⟨rfl, rfl⟩
  · left
    cases kind <;> simpa only [structureOf, bindSend, setClientObject, withClient_ne _ _ hd] using h

/-- What a statement pushes goes on with the completion it had. -/
theorem exec_inHand (s : Server) (wsa : Bool) {i x : Stmt} (hx : x ∈ (s.exec wsa i).2) {j : Completion}
    (hj : x.inHand = some j) : i.inHand = some j := by
  cases i <;> simp only [exec] at hx <;> (repeat' split at hx) <;>
    simp only [List.mem_cons, List.not_mem_nil, or_false] at hx <;>
    first
    | exact hx.elim
    | (subst hx; first | exact hj | cases hj)
    | (obtain rfl | rfl := hx <;> first | exact hj | cases hj)

theorem carried_light {x : Stmt} (h : x.light = true) (kind : IoKind) : x.carried kind = none := by
  cases kind <;> cases x <;> first | rfl | cases h

/-- A statement keeps every structure with its pool. -/
theorem origins_exec {s : Server} (h : Origins s) (wsa : Bool) {i : Stmt} (hi : s.Stems i) :
    Origins (s.exec wsa i).1 ∧ ∀ kind a, (s.poolOf kind).Allocated a → ((s.exec wsa i).1.poolOf kind).Allocated a := by
  -- the pools are as before
  have hkept : ∀ {s' : Server}, (∀ kind, s'.poolOf kind = s.poolOf kind) → s'.heap.next = s.heap.next →
      (∀ kind c o, s'.structureOf c kind = some o → s.structureOf c kind = some o ∨ (s.poolOf kind).Allocated o) →
      Origins s' ∧ ∀ kind a, (s.poolOf kind).Allocated a → (s'.poolOf kind).Allocated a := by
    intro s' hpool hn hb
    refine ⟨origins_bound h hpool hn hb, ?_⟩
    intro kind a ha
    rwa [hpool]
  have hsame : ∀ {s' : Server}, (∀ kind, s'.poolOf kind = s.poolOf kind) → s'.heap.next = s.heap.next →
      (∀ kind c, s'.structureOf c kind = s.structureOf c kind) →
      Origins s' ∧ ∀ kind a, (s.poolOf kind).Allocated a → (s'.poolOf kind).Allocated a := by
    intro s' hpool hn hb
    refine hkept hpool hn ?_
    intro kind c o ho
    rw [hb] at ho
    exact Or.inl ho
  cases hp : i.plain with
  | true =>
    have hs := exec_plain s wsa hp
    exact hsame hs.poolOf (congrArg IoHeap.next hs.heap) fun kind c => hs.structureOf c kind
  | false =>
  cases i with
  | newSession socket =>
    refine hkept (fun kind => by cases kind <;> rfl) rfl ?_
    intro kind c o ho
    by_cases hc : c = s.nextClient
    · cases kind <;> simp [structureOf, exec, newClient, hc, TcpClient.new] at ho
    · left
      cases kind <;> simpa [structureOf, exec, newClient, hc] using ho
  | dequeueRecv c socket =>
    obtain ⟨o, heap, pool, hd, -⟩ := OverlappedIoPool.dequeue_moves s.heap s.recvPool
    obtain ⟨horigins, -, hmono⟩ := origins_dequeue { s with heap := heap, recvPool := pool } h .recv hd
      (fun kind hk => by cases kind <;> first | rfl | exact absurd rfl hk) rfl
    simp only [exec, hd]
    exact ⟨horigins, hmono⟩
  | dequeueSend c o₀ socket =>
    obtain ⟨o, heap, pool, hd, -⟩ := OverlappedIoPool.dequeue_moves s.heap s.sendPool
    obtain ⟨horigins, -, hmono⟩ := origins_dequeue { s with heap := heap, sendPool := pool } h .send hd
      (fun kind hk => by cases kind <;> first | rfl | exact absurd rfl hk) rfl
    simp only [exec, hd]
    exact ⟨horigins, hmono⟩
  | bindRecv c o socket =>
    refine hkept (fun kind => by cases kind <;> rfl) rfl ?_
    intro kind d o' ho'
    rcases structureOf_bindRecv s c o ho' with ho' | ⟨rfl, rfl⟩
    · exact Or.inl ho'
    · exact Or.inr (hi.1 .recv o' rfl)
  | bindSend c o₀ o socket =>
    refine hkept (fun kind => by cases kind <;> rfl) rfl ?_
    intro kind d o' ho'
    rcases structureOf_bindSend s c o ho' with ho' | ⟨rfl, rfl⟩
    · exact Or.inl ho'
    · exact Or.inr (hi.1 .send o' rfl)
  | initializeSocket c o socket =>
    refine hsame (fun kind => by cases kind <;> rfl) rfl ?_
    intro kind d
    by_cases hd : d = c <;> cases kind <;> simp [structureOf, exec, withClient, TcpClient.initializeSocket, hd]
  | enqueueRecv c o =>
    obtain ⟨horigins, hiff⟩ := origins_enqueue (s.enqueueRecv c o) h .recv (hi.1 .recv o rfl) rfl
      (fun kind hk => by cases kind <;> first | rfl | exact absurd rfl hk) rfl rfl
    exact ⟨horigins, fun kind a => (hiff kind a).mp⟩
  | enqueueSend c o =>
    obtain ⟨horigins, hiff⟩ := origins_enqueue (s.enqueueSend c o) h .send (hi.1 .send o rfl) rfl
      (fun kind hk => by cases kind <;> first | rfl | exact absurd rfl hk) rfl rfl
    exact ⟨horigins, fun kind a => (hiff kind a).mp⟩
  | addTcpClient | removeTcpClient | closeSession =>
    exact hsame (fun kind => by cases kind <;> rfl) rfl fun kind _ => by cases kind <;> rfl
  | unbindRecv c | unbindSend c =>
    simp only [exec]
    split <;> exact hsame (fun kind => by cases kind <;> rfl) rfl fun kind _ => by cases kind <;> rfl
  | _ => cases hp

/-- A structure on its way has been taken from its pool or from its session. -/
theorem carried_exec {s : Server} (h : Origins s) {wsa : Bool} {i x : Stmt} (hx : x ∈ (s.exec wsa i).2)
    {kind : IoKind} {o : Nat}
    (ho : x.carried kind = some o) : ((s.exec wsa i).1.poolOf kind).Allocated o := by
  cases i with
  | dequeueRecv c socket =>
    obtain ⟨o', heap, pool, hd, -⟩ := OverlappedIoPool.dequeue_moves s.heap s.recvPool
    obtain ⟨-, hnew, -⟩ := origins_dequeue { s with heap := heap, recvPool := pool } h .recv hd
      (fun kind hk => by cases kind <;> first | rfl | exact absurd rfl hk) rfl
    simp only [exec, hd, List.mem_singleton] at hx ⊢
    subst hx
    cases kind <;> cases ho
    exact hnew
  | dequeueSend c o₀ socket =>
    obtain ⟨o', heap, pool, hd, -⟩ := OverlappedIoPool.dequeue_moves s.heap s.sendPool
    obtain ⟨-, hnew, -⟩ := origins_dequeue { s with heap := heap, sendPool := pool } h .send hd
      (fun kind hk => by cases kind <;> first | rfl | exact absurd rfl hk) rfl
    simp only [exec, hd, List.mem_singleton] at hx ⊢
    subst hx
    cases kind <;> cases ho
    exact hnew
  | unbindRecv c =>
    simp only [exec] at hx ⊢
    split at hx <;> rw [List.mem_singleton] at hx <;> subst hx <;> cases kind <;> cases ho
    rename_i hr
    exact h.bound .recv c o hr
  | unbindSend c =>
    simp only [exec] at hx ⊢
    split at hx <;> rw [List.mem_singleton] at hx <;> subst hx <;> cases kind <;> cases ho
    rename_i hr
    exact h.bound .send c o hr
  | _ =>
    simp only [exec] at hx
    (repeat' split at hx) <;> simp only [List.mem_cons, List.not_mem_nil, or_false] at hx <;>
      first
      | exact hx.elim
      | (subst hx; cases kind <;> cases ho)
      | (obtain rfl | rfl := hx <;> cases kind <;> cases ho)

structure Rooted (s : Server) : Prop extends Origins s where
  stems : ∀ x, s.Has x → s.Stems x
  flying : ∀ op ∈ s.inflight, (s.poolOf op.kind).Allocated op.io

theorem origins_step {s : Server} (h : Rooted s) (e : Ev) :
    Origins (s.step e) ∧ ∀ kind a, (s.poolOf kind).Allocated a → ((s.step e).poolOf kind).Allocated a := by
  rcases step_cases s e with hq | ⟨t, wsa, i, st, rfl, ht, -, hs⟩
  · refine ⟨origins_same h.toOrigins hq.toSameBindings, ?_⟩
    intro kind a ha
    rwa [hq.poolOf]
  · rw [hs]
    have hf := run_fields wsa ht
    obtain ⟨horigins, hmono⟩ := origins_exec h.toOrigins wsa (h.stems i (has_top ht))
    refine ⟨origins_same horigins hf, ?_⟩
    intro kind a ha
    rw [hf.poolOf]
    exact hmono kind a ha

theorem rooted_step {s : Server} (h : Rooted s) (e : Ev) : Rooted (s.step e) := by
  obtain ⟨horigins, hmono⟩ := origins_step h e
  refine ⟨horigins, ?_, ?_⟩
  · intro x hx
    rcases has_step hx with
      hx | ⟨socket, rfl⟩ | ⟨op, hop, t, i, r, st, rfl, -, hb, hx⟩ | ⟨t, wsa, i, st, rfl, ht, hc, hx⟩
    · refine ⟨?_, ?_⟩
      · intro kind o ho
        exact hmono kind o ((h.stems x hx).1 kind o ho)
      · intro j hj
        exact hmono _ _ ((h.stems x hx).2 j hj)
    · refine ⟨?_, ?_⟩
      · intro kind o ho
        cases kind <;> cases ho
      · intro j hj
        cases hj
    · refine ⟨?_, ?_⟩
      · intro kind o ho
        rw [carried_light (branch_light hb x hx)] at ho
        cases ho
      · intro j hj
        rcases mem_branch hb hx with rfl | rfl | ⟨n, rfl, -⟩ <;> cases hj
        exact hmono _ _ (h.flying op hop)
    · refine ⟨?_, ?_⟩
      · intro kind o ho
        have hs : s.step (.run t wsa) = s.run t wsa := by rw [step_eq hc, handle]
        rw [hs, (run_fields wsa ht).poolOf]
        exact carried_exec h.toOrigins hx ho
      · intro j hj
        exact hmono _ _ ((h.stems i (has_top ht)).2 j (exec_inHand s wsa hx hj))
  · intro op hop
    rcases inflight_step hop with hop | ⟨hl, -⟩
    · exact hmono _ _ (h.flying op hop)
    · exact hmono _ _ (h.bound _ _ _ hl)

theorem rooted_boot (n : Nat) : Rooted (boot n) := by
  have hx := not_has_boot n
  rw [boot_eq] at hx ⊢
  refine ⟨⟨?_, ?_, ?_, ?_⟩, fun x h => absurd h (hx x), ?_⟩
  · intro o hr hs
    simp only [OverlappedIoPool.Allocated, List.mem_singleton, exists_eq_left] at hr hs
    omega
  · intro kind o ho
    cases kind <;> simp only [poolOf, OverlappedIoPool.Allocated, List.mem_singleton, exists_eq_left] at ho ⊢ <;> omega
  · intro kind o ho
    cases kind <;>
      simp only [poolOf, List.mem_range'_1, OverlappedIoPool.Allocated, List.mem_singleton, exists_eq_left] at ho ⊢ <;> omega
  · intro kind c o ho
    cases kind <;> cases ho
  · intro op hop
    cases hop

/-- Whatever the server does, a structure stays its pool's. -/
theorem rooted {ok : Server → Ev → Prop} {s : Server} (h : Reach ok s) : Rooted s :=
  h.invariant (P := Rooted) (fun _ ⟨n, hn⟩ => hn ▸ rooted_boot n) fun _ e hs _ => rooted_step hs e

/-- A completion's structure is the receive structure of sessions if it is a receive's, and the send structure if a send's. -/
theorem Rooted.kind_of_structure {s : Server} (h : Rooted s) {x : Stmt} (hx : s.Has x) {j : Completion}
    (hj : x.inHand = some j) {c : Nat} {kind : IoKind} (hs : s.structureOf c kind = some j.op.io) : j.op.kind = kind := by
  have hpool := (h.stems x hx).2 j hj
  have hbound := h.bound kind c _ hs
  by_contra hne
  cases hk : j.op.kind <;> cases kind <;> rw [hk] at hpool <;> first | exact hne hk | skip
  · exact h.apart _ hpool hbound
  · exact h.apart _ hbound hpool

/-! ## Whom a thread acts for -/

/-- A thread acts for a session that was made; a completion in hand has transferred something; a send in flight sends
    something; only a receive's completion runs `OnReceived`. -/
structure Actors (s : Server) : Prop where
  client : ∀ o c, s.getClientObject o = some c → c < s.nextClient
  actor : ∀ x, s.Has x → ∀ c, x.actor = some c → c < s.nextClient
  brought : ∀ x, s.Has x → ∀ j, x.inHand = some j → 0 < j.transferred
  sending : ∀ op ∈ s.inflight, op.kind = .send → 0 < op.buf.len
  received : ∀ c j, s.Has (.onReceived c j) → j.op.kind = .recv

/-- A structure's session was there before, or is the one it is bound to. -/
theorem exec_client (s : Server) (wsa : Bool) {i : Stmt} {o c : Nat} (h : (s.exec wsa i).1.getClientObject o = some c) :
    s.getClientObject o = some c ∨ i.actor = some c := by
  have hset : ∀ {a : Nat} {x : Option Nat}, (s.heap.setClientObject a x).getClientObject o = some c →
      s.getClientObject o = some c ∨ x = some c := by
    intro a x hx
    by_cases ha : o = a
    · subst ha
      rw [IoHeap.get_set_same] at hx
      exact Or.inr hx
    · rw [IoHeap.get_set_ne _ _ ha] at hx
      exact Or.inl hx
  have hdequeue : ∀ {p : OverlappedIoPool} {a : Nat} {heap : IoHeap} {p' : OverlappedIoPool},
      p.dequeue s.heap = .ok (a, heap, p') → heap.getClientObject o = some c → s.getClientObject o = some c := by
    intro p a heap p' hd hx
    obtain ⟨a', heap', p'', hd', -, -, hget⟩ := OverlappedIoPool.dequeue_moves s.heap p
    rw [hd] at hd'
    cases hd'
    rw [hget] at hx
    split at hx
    · cases hx
    · exact hx
  cases hp : i.plain with
  | true =>
    rw [(exec_plain s wsa hp).getClientObject] at h
    exact Or.inl h
  | false =>
  cases i with
  | dequeueRecv d socket | dequeueSend d o₀ socket =>
    simp only [exec] at h
    split at h
    · exact Or.inl h
    · rename_i hd
      exact Or.inl (hdequeue hd h)
  | bindRecv d a socket => exact hset h
  | bindSend d o₀ a socket => exact hset h
  | unbindRecv d | unbindSend d =>
    simp only [exec] at h
    split at h
    · exact Or.inl h
    · exact (hset h).imp_right fun hn => absurd hn (by simp)
  | newSession | initializeSocket | addTcpClient | closeSession | removeTcpClient | enqueueRecv | enqueueSend =>
    exact Or.inl h
  | _ => cases hp

/-- What a statement pushes goes on for the session it was for; a new session, and one looked up, are where it starts. -/
theorem exec_actor (s : Server) (wsa : Bool) {i x : Stmt} (hx : x ∈ (s.exec wsa i).2) {c : Nat} (hc : x.actor = some c) :
    i.actor = some c ∨ (∃ socket, i = .newSession socket ∧ c = s.nextClient) ∨
      ∃ j, i = .takeSession j ∧ s.getClientObject j.op.io = some c := by
  cases i with
  | newSession socket =>
    simp only [exec, List.mem_singleton] at hx
    subst hx
    cases hc
    exact Or.inr (Or.inl ⟨socket, rfl, rfl⟩)
  | takeSession j =>
    simp only [exec] at hx
    split at hx
    · cases hx
    · rename_i hg
      rw [List.mem_singleton] at hx
      subst hx
      cases hc
      exact Or.inr (Or.inr ⟨j, rfl, hg⟩)
  | _ =>
    left
    simp only [exec] at hx
    (repeat' split at hx) <;> simp only [List.mem_cons, List.not_mem_nil, or_false] at hx <;>
      first
      | exact hx.elim
      | (subst hx; first | exact hc | cases hc)
      | (obtain rfl | rfl := hx <;> first | exact hc | cases hc)

theorem exec_onReceived (s : Server) (wsa : Bool) {i : Stmt} {c : Nat} {j : Completion}
    (hx : .onReceived c j ∈ (s.exec wsa i).2) :
    i = .recvBranch c j ∧ (s.clients c).recvOverlapped = some j.op.io := by
  cases i <;> simp only [exec] at hx <;> (repeat' split at hx) <;>
    simp only [List.mem_cons, List.not_mem_nil, or_false, reduceCtorEq, Stmt.onReceived.injEq] at hx
  rename_i hg
  obtain ⟨rfl, rfl⟩ := hx
  exact ⟨rfl, hg.1⟩

theorem actors_step {s : Server} (hr : Rooted s) (h : Actors s) (e : Ev) : Actors (s.step e) := by
  have hn := nextClient_le s e
  constructor
  · intro o c ho
    rcases step_cases s e with hq | ⟨t, wsa, i, st, rfl, ht, -, hs⟩
    · rw [hq.getClientObject] at ho
      exact Nat.lt_of_lt_of_le (h.client o c ho) hn
    · rw [hs, (run_fields wsa ht).getClientObject] at ho
      rcases exec_client s wsa ho with ho | hc
      · exact Nat.lt_of_lt_of_le (h.client o c ho) hn
      · exact Nat.lt_of_lt_of_le (h.actor i (has_top ht) c hc) hn
  · intro x hx c hc
    rcases has_step hx with
      hx | ⟨socket, rfl⟩ | ⟨op, -, t, i, r, st, rfl, -, hb, hx⟩ | ⟨t, wsa, i, st, rfl, ht, hcr, hx⟩
    · exact Nat.lt_of_lt_of_le (h.actor x hx c hc) hn
    · cases hc
    · rcases mem_branch hb hx with rfl | rfl | ⟨n, rfl, -⟩ <;> cases hc
    · rcases exec_actor s wsa hx hc with hc | ⟨socket, rfl, rfl⟩ | ⟨j, -, hg⟩
      · exact Nat.lt_of_lt_of_le (h.actor i (has_top ht) c hc) hn
      · rw [step_eq hcr]
        simp [handle, run, ht, exec, newClient, setThread]
      · exact Nat.lt_of_lt_of_le (h.client _ c hg) hn
  · intro x hx j hj
    rcases has_step hx with
      hx | ⟨socket, rfl⟩ | ⟨op, -, t, i, r, st, rfl, -, hb, hx⟩ | ⟨t, wsa, i, st, rfl, ht, -, hx⟩
    · exact h.brought x hx j hj
    · cases hj
    · rcases branch_cases hb with ⟨-, rfl | rfl⟩ | ⟨hne, n, rfl, -, hres⟩
      · simp only [failedBranch, List.mem_cons, List.not_mem_nil, or_false] at hx
        rcases hx with rfl | rfl <;> cases hj
      · simp only [failedBranch, List.mem_cons, List.not_mem_nil, or_false] at hx
        rcases hx with rfl | rfl | rfl <;> cases hj
      · rw [List.mem_singleton] at hx
        subst hx
        cases hj
        show 0 < n
        rcases hres with ⟨data, rfl, rfl, -⟩ | ⟨rfl, -⟩
        · cases data
          · cases hne
          · simp
        · cases n
          · cases hne
          · omega
    · exact h.brought i (has_top ht) j (exec_inHand s wsa hx hj)
  · intro op hop hk
    rcases inflight_step hop with hop | ⟨-, hpost, hsend⟩
    · exact h.sending op hop hk
    · rw [hk] at hpost hsend
      rcases hsend with ⟨hk', -⟩ | ⟨-, hs⟩ | ⟨t, st, c, o, -, -, hk', -⟩
      · cases hk'
      · rw [hpost]
        show 0 < (s.clients op.client).sendBuffer.length
        have hfilter := (Option.filter_eq_some_iff.mp hs).2
        rw [Bool.and_eq_true, decide_eq_true_eq] at hfilter
        exact hfilter.1
      · cases hk'
  · intro c j hx
    rcases has_step hx with
      hx | ⟨socket, hx⟩ | ⟨op, -, t, i, r, st, rfl, -, hb, hx⟩ | ⟨t, wsa, i, st, rfl, ht, -, hx⟩
    · exact h.received c j hx
    · cases hx
    · rcases mem_branch hb hx with hx | hx | ⟨n, hx, -⟩ <;> cases hx
    · obtain ⟨rfl, hg⟩ := exec_onReceived s wsa hx
      exact hr.kind_of_structure (has_top ht) rfl hg

theorem actors_boot (n : Nat) : Actors (boot n) := by
  refine ⟨?_, ?_, ?_, ?_, ?_⟩
  · intro o c h
    rw [boot_eq] at h
    cases h
  · exact fun x hx => absurd hx (not_has_boot n x)
  · exact fun x hx => absurd hx (not_has_boot n x)
  · intro op hop
    cases hop
  · exact fun c j hx => absurd hx (not_has_boot n _)

theorem actors {ok : Server → Ev → Prop} {s : Server} (h : Reach ok s) : Actors s :=
  h.invariant_of (P := Actors) (fun _ hr => rooted hr) (fun _ ⟨n, hn⟩ => hn ▸ actors_boot n)
    fun _ e hr hs _ => actors_step hr hs e

end Server

end SigHolic.Network
