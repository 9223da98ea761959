/-
  SigHolic.Network.Sessions — sessions and their structures, call by call
  (`MakeClientSessionEx` and `CloseSession`, network/network.cpp, each one atomic step).

  `Half` is what one pool, the registry and the sessions' pointers of one kind have to do
  with each other; both pools keep one. `Half.take` and `Half.give` say what handing a
  structure to a new session and taking one back from a registered one do to it.

  Proved, for every sequence of calls, `CloseSession` with any structure: a structure is in
  the queue of its pool, unbound, or it is the structure of exactly the registered session
  it points to (`matched`). `make_runs` and `close_runs` connect the calls to the threads
  of the server: a call is its statements, run without interruption.
-/

import SigHolic.Network.Steps

namespace SigHolic.Network

open SigHolic.Base.Runs SigHolic.Utility.Buffer SigHolic.Iocp SigHolic.Socket

namespace Server

/-! ## The calls -/

/-- `MakeClientSessionEx`: the structure it returns, and the server after it. -/
def makeClientSessionEx (s : Server) (socket : Nat) : Except Fault (Nat × Server) := do
  let c := s.nextClient
  let s := s.newClient
  let (overlapped, heap, pool) ← s.recvPool.dequeue s.heap
  let s := Server.bindRecv { s with heap := heap, recvPool := pool } c overlapped
  let (sendOverlapped, heap, pool) ← s.sendPool.dequeue s.heap
  let s := Server.bindSend { s with heap := heap, sendPool := pool } c sendOverlapped
  let s := s.withClient c ((s.clients c).initializeSocket socket)
  .ok (overlapped, s.addTcpClient c)

def releaseRecv (s : Server) (c : Nat) : Server :=
  match (s.clients c).recvOverlapped with
  | none => s
  | some o => (s.setClientObject o none).enqueueRecv c o

def releaseSend (s : Server) (c : Nat) : Server :=
  match (s.clients c).sendOverlapped with
  | none => s
  | some o => (s.setClientObject o none).enqueueSend c o

def closeSession (s : Server) (data : Nat) : Server :=
  match s.getClientObject data with
  | none => s
  | some c =>
    let s := ((s.removeTcpClient c).releaseRecv c).releaseSend c
    (s.closesocket c).setClosing c

inductive Call where
  | makeClientSessionEx (socket : Nat)
  | closeSession (data : Nat)

def call (s : Server) : Call → Server
  | .makeClientSessionEx socket =>
    match s.makeClientSessionEx socket with
    | .error f => s.crash (.fault f)
    | .ok r => r.2
  | .closeSession data => s.closeSession data

end Server

/-! ## One pool and the sessions -/

/-- The structures of a pool are waiting, unbound, once each, or belong to the registered session
    they point to; registered sessions have one. -/
structure Half (p : OverlappedIoPool) (h : IoHeap) (registry : List Nat) (structureOf : Nat → Option Nat) : Prop where
  once : ∀ o, p.waitingQueue.count o ≤ 1
  queued : ∀ o ∈ p.waitingQueue, p.Allocated o ∧ h.getClientObject o = none
  out : ∀ o, p.Allocated o → o ∉ p.waitingQueue →
    ∃ c ∈ registry, h.getClientObject o = some c ∧ structureOf c = some o
  bound : ∀ c ∈ registry, ∃ o, structureOf c = some o ∧ p.Allocated o ∧ h.getClientObject o = some c
  below : ∀ o, p.Allocated o → o < h.next

namespace Half

variable {p p' : OverlappedIoPool} {h h' : IoHeap} {registry registry' : List Nat} {structureOf structureOf' : Nat → Option Nat}

/-- A structure handed out was waiting, or is of a new block. -/
theorem dequeued (H : Half p h registry structureOf) {o : Nat} (hd : p.dequeue h = .ok (o, h', p')) :
    p'.Allocated o ∧ o ∉ p'.waitingQueue ∧ (p.Allocated o ∨ h.next ≤ o) := by
  obtain ⟨o', h'', p'', he, hn, hcount, -⟩ := OverlappedIoPool.dequeue_moves h p
  rw [he] at hd
  cases hd
  have h1 := hcount o
  simp only [if_true] at h1
  have h2 := H.once o
  have hin : p.Allocated o ∨ (h.next ≤ o ∧ o < h'.next) := by
    by_cases hm : o ∈ p.waitingQueue
    · exact Or.inl (H.queued o hm).1
    · right
      by_contra hne
      rw [if_neg hne, List.count_eq_zero.mpr hm] at h1
      omega
  refine ⟨(OverlappedIoPool.dequeue_allocated he o).mpr hin, fun hm => ?_, hin.imp_right And.left⟩
  have h3 := List.count_pos_iff.mpr hm
  rcases hin with hal | hnew
  · have := H.below o hal
    rw [if_neg (by omega)] at h1
    omega
  · rw [if_pos hnew] at h1
    have h4 : o ∉ p.waitingQueue := fun hm => by have := H.below o (H.queued o hm).1; omega
    rw [List.count_eq_zero.mpr h4] at h1
    omega

/-- It is not of another pool. -/
theorem ne_dequeued (H : Half p h registry structureOf) {q : OverlappedIoPool} {o : Nat} (hd : p.dequeue h = .ok (o, h', p'))
    (hbelow : ∀ a, q.Allocated a → a < h.next) (hapart : ∀ a, p.Allocated a → ¬ q.Allocated a) :
    ∀ a, q.Allocated a → a ≠ o := by
  intro a ha heq
  subst heq
  rcases (H.dequeued hd).2.2 with hx | hx
  · exact hapart a hx ha
  · have := hbelow a ha
    omega

/-- A new session takes a structure. -/
theorem take (H : Half p h registry structureOf) {c o : Nat} (hc : c ∉ registry) (hd : p.dequeue h = .ok (o, h', p'))
    (hreg : ∀ d, d ∈ registry' ↔ d ∈ registry ∨ d = c) (structureOf' : Nat → Option Nat)
    (hown : structureOf' c = some o) (hrest : ∀ d, d ≠ c → structureOf' d = structureOf d) :
    Half p' (h'.setClientObject o (some c)) registry' structureOf' := by
  obtain ⟨hal, hnq, -⟩ := H.dequeued hd
  have hall := OverlappedIoPool.dequeue_allocated hd
  obtain ⟨o', h'', p'', he, hn, hcount, hget⟩ := OverlappedIoPool.dequeue_moves h p
  rw [he] at hd
  cases hd
  -- what the other structures point to
  have hold : ∀ a, a ≠ o → (h'.setClientObject o (some c)).getClientObject a =
      if h.next ≤ a ∧ a < h'.next then none else h.getClientObject a := fun a ha => by
    rw [IoHeap.get_set_ne _ _ ha, hget]
  have hcl : ∀ a, a ≠ o → (a ∈ p'.waitingQueue ↔ a ∈ p.waitingQueue ∨ (h.next ≤ a ∧ a < h'.next)) := by
    intro a ha
    have := hcount a
    rw [if_neg (Ne.symm ha)] at this
    rw [← List.count_pos_iff, ← List.count_pos_iff]
    by_cases hnew : h.next ≤ a ∧ a < h'.next
    · rw [if_pos hnew] at this
      simp only [hnew, and_self, or_true, iff_true]; omega
    · rw [if_neg hnew] at this
      simp only [hnew, or_false]; omega
  refine ⟨?_, ?_, ?_, ?_, ?_⟩
  · intro a
    have h1 := hcount a
    have h2 := H.once a
    by_cases hnew : h.next ≤ a ∧ a < h'.next
    · have h4 : a ∉ p.waitingQueue := fun hm => by have := H.below a (H.queued a hm).1; omega
      rw [if_pos hnew, List.count_eq_zero.mpr h4] at h1
      omega
    · rw [if_neg hnew] at h1
      omega
  · intro a ha
    have hne : a ≠ o := fun e => hnq (e ▸ ha)
    rw [hold a hne]
    rcases (hcl a hne).mp ha with hm | hnew
    · have hb := H.queued a hm
      have := H.below a hb.1
      rw [if_neg (by omega)]
      exact ⟨(hall a).mpr (Or.inl hb.1), hb.2⟩
    · rw [if_pos hnew]
      exact ⟨(hall a).mpr (Or.inr hnew), rfl⟩
  · intro a ha hq
    by_cases hne : a = o
    · subst hne
      exact ⟨c, (hreg c).mpr (Or.inr rfl), IoHeap.get_set_same _ _ _, hown⟩
    · have hq' : a ∉ p.waitingQueue ∧ ¬ (h.next ≤ a ∧ a < h'.next) := by
        rw [hcl a hne] at hq
        tauto
      obtain ⟨d, hd, hg, hs⟩ := H.out a (((hall a).mp ha).resolve_right hq'.2) hq'.1
      refine ⟨d, (hreg d).mpr (Or.inl hd), ?_, ?_⟩
      · rw [hold a hne, if_neg hq'.2, hg]
      · rw [hrest d (fun e => hc (e ▸ hd)), hs]
  · intro d hd
    rcases (hreg d).mp hd with hd | rfl
    · obtain ⟨a, hs, hal', hg⟩ := H.bound d hd
      have hb := H.below a hal'
      have hne : a ≠ o := by
        intro heq
        subst heq
        -- the structure handed out was bound to nobody
        have h1 := hcount a
        rw [if_pos rfl, if_neg (by omega)] at h1
        have hm : a ∈ p.waitingQueue := List.count_pos_iff.mp (by omega)
        rw [(H.queued a hm).2] at hg
        cases hg
      refine ⟨a, by rw [hrest d (fun e => hc (e ▸ hd)), hs], (hall a).mpr (Or.inl hal'), ?_⟩
      rw [hold a hne, if_neg (by omega), hg]
    · exact ⟨o, hown, hal, IoHeap.get_set_same _ _ _⟩
  · intro a ha
    rw [IoHeap.setClientObject_next]
    rcases (hall a).mp ha with hal' | hnew
    · have := H.below a hal'
      omega
    · exact hnew.2

/-- A registered session gives its structure back. -/
theorem give (H : Half p h registry structureOf) {c o : Nat} (hc : c ∈ registry) (ho : structureOf c = some o)
    (hreg : ∀ d, d ∈ registry' ↔ d ∈ registry ∧ d ≠ c) :
    Half (p.enqueue o) (h.setClientObject o none) registry' structureOf := by
  obtain ⟨o', ho', hal, hg⟩ := H.bound c hc
  rw [ho] at ho'
  cases ho'
  have hnq : o ∉ p.waitingQueue := fun hm => by rw [(H.queued o hm).2] at hg; cases hg
  refine ⟨?_, ?_, ?_, ?_, H.below⟩
  · intro a
    have := H.once a
    simp only [OverlappedIoPool.enqueue, List.count_append, List.count_singleton, beq_iff_eq]
    split
    · rename_i e
      subst e
      rw [List.count_eq_zero.mpr hnq]
    · exact this
  · intro a ha
    simp only [OverlappedIoPool.enqueue, List.mem_append, List.mem_singleton] at ha
    by_cases e : a = o
    · subst e; exact ⟨hal, IoHeap.get_set_same _ _ _⟩
    · have hb := H.queued a (ha.resolve_right e)
      exact ⟨hb.1, by rw [IoHeap.get_set_ne _ _ e]; exact hb.2⟩
  · intro a ha hq
    simp only [OverlappedIoPool.enqueue, List.mem_append, List.mem_singleton, not_or] at hq
    obtain ⟨d, hd, hgd, hs⟩ := H.out a ha hq.1
    refine ⟨d, (hreg d).mpr ⟨hd, ?_⟩, by rw [IoHeap.get_set_ne _ _ hq.2]; exact hgd, hs⟩
    intro heq
    subst heq
    rw [ho] at hs
    cases hs
    exact hq.2 rfl
  · intro d hd
    obtain ⟨hd, hne⟩ := (hreg d).mp hd
    obtain ⟨a, hs, hal', hgd⟩ := H.bound d hd
    refine ⟨a, hs, hal', ?_⟩
    rw [IoHeap.get_set_ne, hgd]
    intro heq
    subst heq
    rw [hg] at hgd
    cases hgd
    exact hne rfl

/-- What happens to structures of other pools. -/
theorem frame (H : Half p h registry structureOf) (hn : h.next ≤ h'.next)
    (hget : ∀ a, p.Allocated a → h'.getClientObject a = h.getClientObject a)
    (hs : ∀ c ∈ registry, structureOf' c = structureOf c) : Half p h' registry structureOf' := by
  refine ⟨H.once, ?_, ?_, ?_, fun a ha => Nat.lt_of_lt_of_le (H.below a ha) hn⟩
  · intro a ha
    have hb := H.queued a ha
    exact ⟨hb.1, (hget a hb.1).trans hb.2⟩
  · intro a ha hq
    obtain ⟨c, hc, hg, ho⟩ := H.out a ha hq
    exact ⟨c, hc, (hget a ha).trans hg, (hs c hc).trans ho⟩
  · intro c hc
    obtain ⟨o, ho, hal, hg⟩ := H.bound c hc
    exact ⟨o, (hs c hc).trans ho, hal, (hget o hal).trans hg⟩

/-- Where a structure is. -/
theorem place (H : Half p h registry structureOf) {o : Nat} (ho : p.Allocated o) :
    (p.waitingQueue.count o = 1 ∧ h.getClientObject o = none) ∨
      (o ∉ p.waitingQueue ∧ ∃ c ∈ registry, h.getClientObject o = some c ∧ structureOf c = some o) := by
  by_cases hm : o ∈ p.waitingQueue
  · have h1 := H.once o
    have h2 := List.count_pos_iff.mpr hm
    exact Or.inl ⟨by omega, (H.queued o hm).2⟩
  · exact Or.inr ⟨hm, H.out o ho hm⟩

theorem registered (H : Half p h registry structureOf) {c o : Nat} (ho : p.Allocated o) (hg : h.getClientObject o = some c) :
    c ∈ registry := by
  rcases H.place ho with ⟨-, hn⟩ | ⟨-, d, hd, hgd, -⟩
  · rw [hn] at hg; cases hg
  · rw [hg] at hgd
    cases hgd
    exact hd

theorem unique (H : Half p h registry structureOf) {c : Nat} (hc : c ∈ registry) :
    ∃! o, p.Allocated o ∧ h.getClientObject o = some c := by
  obtain ⟨o, ho, hal, hg⟩ := H.bound c hc
  refine ⟨o, ⟨hal, hg⟩, fun a ⟨ha, hga⟩ => ?_⟩
  rcases H.place ha with ⟨-, hn⟩ | ⟨-, d, -, hgd, had⟩
  · rw [hn] at hga; cases hga
  · rw [hga] at hgd
    cases hgd
    rw [ho] at had
    cases had
    rfl

end Half

namespace Server

/-! ## What the calls do -/

theorem make_spec (s : Server) (socket : Nat) : ∃ o h₁ p o' h₂ q s',
    s.recvPool.dequeue s.heap = .ok (o, h₁, p) ∧
    s.sendPool.dequeue (h₁.setClientObject o (some s.nextClient)) = .ok (o', h₂, q) ∧
    s.makeClientSessionEx socket = .ok (o, s') ∧ s'.heap = h₂.setClientObject o' (some s.nextClient) ∧
    s'.recvPool = p ∧ s'.sendPool = q ∧ s'.registry = TcpSessionManager.addTcpClient s.registry s.nextClient ∧
    s'.nextClient = s.nextClient + 1 ∧ (s'.clients s.nextClient).recvOverlapped = some o ∧
    (s'.clients s.nextClient).sendOverlapped = some o' ∧ ∀ d, d ≠ s.nextClient → s'.clients d = s.clients d := by
  obtain ⟨o, h₁, p, hd, -⟩ := OverlappedIoPool.dequeue_moves s.heap s.recvPool
  obtain ⟨o', h₂, q, hd', -⟩ := OverlappedIoPool.dequeue_moves (h₁.setClientObject o (some s.nextClient)) s.sendPool
  let s₁ := Server.bindRecv { s.newClient with heap := h₁, recvPool := p } s.nextClient o
  let s₂ := Server.bindSend { s₁ with heap := h₂, sendPool := q } s.nextClient o'
  refine ⟨o, h₁, p, o', h₂, q,
    (s₂.withClient s.nextClient ((s₂.clients s.nextClient).initializeSocket socket)).addTcpClient s.nextClient, hd, hd', ?_,
    rfl, rfl, rfl, rfl, rfl, ?_, ?_, fun d hd => ?_⟩
  · simp only [makeClientSessionEx, newClient, hd, ok_bind]
    simp only [bindRecv, setClientObject, withClient, hd', ok_bind]
    rfl
  all_goals simp [s₁, s₂, newClient, bindRecv, bindSend, setClientObject, withClient, addTcpClient,
    TcpClient.initializeSocket, *]

theorem close_spec {s : Server} {data c o o' : Nat} (hg : s.getClientObject data = some c)
    (hr : (s.clients c).recvOverlapped = some o) (hs : (s.clients c).sendOverlapped = some o') :
    (s.closeSession data).heap = (s.heap.setClientObject o none).setClientObject o' none ∧
    (s.closeSession data).recvPool = s.recvPool.enqueue o ∧ (s.closeSession data).sendPool = s.sendPool.enqueue o' ∧
    (s.closeSession data).registry = TcpSessionManager.removeTcpClient s.registry c ∧
    (s.closeSession data).nextClient = s.nextClient ∧
    (∀ d, ((s.closeSession data).clients d).recvOverlapped = (s.clients d).recvOverlapped) ∧
    ∀ d, ((s.closeSession data).clients d).sendOverlapped = (s.clients d).sendOverlapped := by
  simp only [closeSession, hg, removeTcpClient, releaseRecv, hr, setClientObject, enqueueRecv, releaseSend, hs, enqueueSend]
  refine ⟨rfl, rfl, rfl, rfl, rfl, fun d => ?_, fun d => ?_⟩
  all_goals
    by_cases e : d = c
    · subst e; simp [setClosing, withClient, closesocket]
    · simp [setClosing, withClient, closesocket, e]

/-! ## Every structure has its place -/

structure Matched (s : Server) : Prop where
  recv : Half s.recvPool s.heap s.registry fun c => (s.clients c).recvOverlapped
  send : Half s.sendPool s.heap s.registry fun c => (s.clients c).sendOverlapped
  apart : ∀ o, s.recvPool.Allocated o → ¬ s.sendPool.Allocated o
  owned : ∀ o c, s.getClientObject o = some c → s.recvPool.Allocated o ∨ s.sendPool.Allocated o
  born : ∀ c ∈ s.registry, c < s.nextClient

theorem matched_make {s : Server} (h : Matched s) (socket : Nat) : Matched (s.call (.makeClientSessionEx socket)) := by
  obtain ⟨o, h₁, p, o', h₂, q, s', hd, hd', hmk, hheap, hp, hq, hreg, hnext, hro, hso, hold⟩ := make_spec s socket
  simp only [call, hmk]
  have hc : s.nextClient ∉ s.registry := fun hm => by have := h.born _ hm; omega
  have hreg' : ∀ d, d ∈ s'.registry ↔ d ∈ s.registry ∨ d = s.nextClient := fun d => by
    rw [hreg, TcpSessionManager.mem_addTcpClient]
  have hne : ∀ d ∈ s.registry, d ≠ s.nextClient := fun d hd e => hc (e ▸ hd)
  obtain ⟨_, _, _, he, hn, _, hget⟩ := OverlappedIoPool.dequeue_moves s.heap s.recvPool
  rw [hd] at he
  cases he
  obtain ⟨_, _, _, he, hn', _, hget'⟩ :=
      OverlappedIoPool.dequeue_moves (h₁.setClientObject o (some s.nextClient)) s.sendPool
  rw [hd'] at he
  cases he
  rw [IoHeap.setClientObject_next] at hn' hget'
  have hall := OverlappedIoPool.dequeue_allocated hd
  have hall' := OverlappedIoPool.dequeue_allocated hd'
  rw [IoHeap.setClientObject_next] at hall'
  -- the receive half first; the send half sees a structure of another pool change
  have hR := h.recv.take hc hd hreg' (fun c => (s'.clients c).recvOverlapped) hro
    fun d hd => congrArg TcpClient.recvOverlapped (hold d hd)
  have hodd : ∀ a, s.sendPool.Allocated a → a ≠ o := h.recv.ne_dequeued hd h.send.below h.apart
  have hS : Half s.sendPool (h₁.setClientObject o (some s.nextClient)) s.registry fun c => (s.clients c).sendOverlapped := by
    refine h.send.frame hn (fun a ha => ?_) fun _ _ => rfl
    have := h.send.below a ha
    rw [IoHeap.get_set_ne _ _ (hodd a ha), hget, if_neg (by omega)]
  have hS' := hS.take hc hd' hreg' (fun c => (s'.clients c).sendOverlapped) hso
    fun d hd => congrArg TcpClient.sendOverlapped (hold d hd)
  have hapart : ∀ a, s.sendPool.Allocated a → ¬ p.Allocated a := by
    intro a ha hpa
    have := h.send.below a ha
    rcases (hall a).mp hpa with hx | hx
    · exact h.apart a hx ha
    · omega
  have hodd' : ∀ a, p.Allocated a → a ≠ o' := hS.ne_dequeued hd' hR.below hapart
  have hnow : ∀ a, a ≠ o' → (h₂.setClientObject o' (some s.nextClient)).getClientObject a =
      if h₁.next ≤ a ∧ a < h₂.next then none else (h₁.setClientObject o (some s.nextClient)).getClientObject a :=
    fun a ha => by rw [IoHeap.get_set_ne _ _ ha, hget']
  refine ⟨?_, ?_, ?_, ?_, ?_⟩
  · rw [hp, hheap]
    refine hR.frame (by rw [IoHeap.setClientObject_next, IoHeap.setClientObject_next]; exact hn') (fun a ha => ?_) fun _ _ => rfl
    have hb := hR.below a ha
    rw [IoHeap.setClientObject_next] at hb
    rw [hnow a (hodd' a ha), if_neg (by omega)]
  · rw [hq, hheap]; exact hS'
  · intro a ha hb
    rw [hp] at ha
    rw [hq] at hb
    have h1 := hR.below a ha
    rw [IoHeap.setClientObject_next] at h1
    rcases (hall a).mp ha with hx | hx <;> rcases (hall' a).mp hb with hy | hy
    · exact h.apart a hx hy
    · omega
    · have := h.send.below a hy
      omega
    · omega
  · intro a d hg
    rw [hp, hq, hall, hall']
    simp only [getClientObject, hheap] at hg
    by_cases e' : a = o'
    · have := (hS.dequeued hd').1
      rw [hall'] at this
      rw [e']; tauto
    · rw [hnow a e'] at hg
      split at hg
      · cases hg
      · by_cases e : a = o
        · have := (h.recv.dequeued hd).1
          rw [hall] at this
          rw [e]; tauto
        · rw [IoHeap.get_set_ne _ _ e, hget] at hg
          split at hg
          · cases hg
          · have := h.owned a d hg
            tauto
  · intro d hd
    rw [hnext]
    rcases (hreg' d).mp hd with hx | rfl
    · have := h.born d hx
      omega
    · omega

/-- A structure that points to a session points to a registered one. -/
theorem Matched.registered {s : Server} (h : Matched s) {o c : Nat} (hg : s.getClientObject o = some c) : c ∈ s.registry := by
  rcases h.owned o c hg with hal | hal
  · exact h.recv.registered hal hg
  · exact h.send.registered hal hg

theorem matched_close {s : Server} (h : Matched s) (data : Nat) : Matched (s.call (.closeSession data)) := by
  simp only [call]
  cases hg : s.getClientObject data with
  | none => simp only [closeSession, hg]; exact h
  | some c =>
    have hc := h.registered hg
    obtain ⟨o, hro, hal, hgo⟩ := h.recv.bound c hc
    obtain ⟨o', hso, hal', hgo'⟩ := h.send.bound c hc
    obtain ⟨hheap, hp, hq, hreg, hnext, hr, hs⟩ := close_spec hg hro hso
    have hreg' : ∀ d, d ∈ (s.closeSession data).registry ↔ d ∈ s.registry ∧ d ≠ c := fun d => by
      rw [hreg, TcpSessionManager.mem_removeTcpClient]
    have hne : o ≠ o' := fun e => h.apart o hal (e ▸ hal')
    have hS : Half s.sendPool (s.heap.setClientObject o none) s.registry fun c => (s.clients c).sendOverlapped :=
      h.send.frame (Nat.le_refl _) (fun a ha => IoHeap.get_set_ne _ _ fun e => h.apart o hal (e ▸ ha)) fun _ _ => rfl
    refine ⟨?_, ?_, ?_, ?_, ?_⟩
    · rw [hp, hheap]
      exact (h.recv.give hc hro hreg').frame (Nat.le_refl _)
        (fun a ha => IoHeap.get_set_ne _ _ fun e => h.apart a ha (e ▸ hal')) fun d _ => hr d
    · rw [hq, hheap]
      exact (hS.give hc hso hreg').frame (Nat.le_refl _) (fun _ _ => rfl) fun d _ => hs d
    · rw [hp, hq]; exact h.apart
    · intro a d hd
      rw [hp, hq]
      refine h.owned a d ?_
      simp only [getClientObject, hheap] at hd
      by_cases e' : a = o'
      · rw [e', IoHeap.get_set_same] at hd; cases hd
      · rw [IoHeap.get_set_ne _ _ e'] at hd
        by_cases e : a = o
        · rw [e, IoHeap.get_set_same] at hd; cases hd
        · rwa [IoHeap.get_set_ne _ _ e] at hd
    · intro d hd
      rw [hnext]
      exact h.born d ((hreg' d).mp hd).1

/-- A block just grown, with nobody registered. -/
theorem half_block {a k n : Nat} (hn : a + k ≤ n) (structureOf : Nat → Option Nat) :
    Half ⟨List.range' a k, [(a, k)]⟩ ⟨fun _ => ⟨none⟩, n⟩ [] structureOf := by
  have hal : ∀ o, OverlappedIoPool.Allocated ⟨List.range' a k, [(a, k)]⟩ o ↔ a ≤ o ∧ o < a + k := fun o => by
    simp [OverlappedIoPool.Allocated]
  refine ⟨?_, fun o ho => ⟨?_, rfl⟩, ?_, fun _ hc => absurd hc List.not_mem_nil, ?_⟩
  · intro o
    show (List.range' a k).count o ≤ 1
    rw [List.count_range_1']
    split <;> omega
  · exact (hal o).mpr (List.mem_range'_1.mp ho)
  · intro o ho hq
    exact absurd (List.mem_range'_1.mpr ((hal o).mp ho)) hq
  · intro o ho
    have := (hal o).mp ho
    show o < n
    omega

theorem matched_boot (n : Nat) : Matched (boot n) := by
  rw [boot_eq]
  refine ⟨half_block (by omega) _, half_block (by omega) _, fun o hr hs => ?_, fun o c hc => ?_,
    fun _ hc => absurd hc List.not_mem_nil⟩
  · simp only [OverlappedIoPool.Allocated, List.mem_singleton, exists_eq_left] at hr hs
    omega
  · cases hc

theorem matched_call {s : Server} (h : Matched s) : ∀ c, Matched (s.call c)
  | .makeClientSessionEx socket => matched_make h socket
  | .closeSession data => matched_close h data

/-- Any calls, in any order. -/
theorem matched {s : Server} (h : Base.Runs.Reach Boot call (fun _ _ => True) s) : Matched s := by
  refine h.invariant (P := Matched) ?_ fun s c hm _ => matched_call hm c
  intro s hs
  obtain ⟨n, rfl⟩ := hs
  exact matched_boot n

/-- The pools keep what they allocated. -/
theorem allocated_call {s : Server} (h : Matched s) (c : Call) (o : Nat) :
    (s.recvPool.Allocated o → (s.call c).recvPool.Allocated o) ∧
      (s.sendPool.Allocated o → (s.call c).sendPool.Allocated o) := by
  cases c with
  | makeClientSessionEx socket =>
    obtain ⟨o₁, h₁, p, o₂, h₂, q, s', hd, hd', hmk, -, hp, hq, -⟩ := make_spec s socket
    simp only [call, hmk]
    rw [hp, hq]
    exact ⟨fun ho => (OverlappedIoPool.dequeue_allocated hd o).mpr (Or.inl ho),
      fun ho => (OverlappedIoPool.dequeue_allocated hd' o).mpr (Or.inl ho)⟩
  | closeSession data =>
    simp only [call]
    cases hg : s.getClientObject data with
    | none => simp only [closeSession, hg]; exact ⟨id, id⟩
    | some c =>
      obtain ⟨a, hro, -⟩ := h.recv.bound c (h.registered hg)
      obtain ⟨b, hso, -⟩ := h.send.bound c (h.registered hg)
      obtain ⟨-, hp, hq, -⟩ := close_spec hg hro hso
      rw [hp, hq]
      exact ⟨id, id⟩

theorem allocated_calls {s : Server} (h : Matched s) (cs : List Call) (o : Nat) : Matched (cs.foldl call s) ∧
    (s.recvPool.Allocated o → (cs.foldl call s).recvPool.Allocated o) ∧
    (s.sendPool.Allocated o → (cs.foldl call s).sendPool.Allocated o) := by
  induction cs generalizing s with
  | nil => exact ⟨h, id, id⟩
  | cons c cs ih =>
    obtain ⟨hm, hr, hs⟩ := ih (matched_call h c)
    have hc := allocated_call h c o
    exact ⟨hm, fun ho => hr (hc.1 ho), fun ho => hs (hc.2 ho)⟩

/-- Every structure is waiting in the queue of its pool, once and unbound, or is the structure of the
    registered session it points to; every registered session has one of each kind; and what a pool
    allocated stays with it. -/
theorem sessions_and_structures_match {s : Server} (h : Base.Runs.Reach Boot call (fun _ _ => True) s) :
    (∀ o, s.recvPool.Allocated o →
      (s.recvPool.waitingQueue.count o = 1 ∧ s.getClientObject o = none) ∨
      (o ∉ s.recvPool.waitingQueue ∧
        ∃ c ∈ s.registry, s.getClientObject o = some c ∧ (s.clients c).recvOverlapped = some o)) ∧
    (∀ o, s.sendPool.Allocated o →
      (s.sendPool.waitingQueue.count o = 1 ∧ s.getClientObject o = none) ∨
      (o ∉ s.sendPool.waitingQueue ∧
        ∃ c ∈ s.registry, s.getClientObject o = some c ∧ (s.clients c).sendOverlapped = some o)) ∧
    (∀ c ∈ s.registry, (∃! o, s.recvPool.Allocated o ∧ s.getClientObject o = some c) ∧
      ∃! o, s.sendPool.Allocated o ∧ s.getClientObject o = some c) ∧
    ∀ (cs : List Call) o,
      (s.recvPool.Allocated o → (cs.foldl call s).recvPool.Allocated o ∧
        ¬ (cs.foldl call s).sendPool.Allocated o ∧ o ∉ (cs.foldl call s).sendPool.waitingQueue) ∧
      (s.sendPool.Allocated o → (cs.foldl call s).sendPool.Allocated o ∧
        ¬ (cs.foldl call s).recvPool.Allocated o ∧ o ∉ (cs.foldl call s).recvPool.waitingQueue) := by
  have hm := matched h
  refine ⟨fun o ho => hm.recv.place ho, fun o ho => hm.send.place ho,
    fun c hc => ⟨hm.recv.unique hc, hm.send.unique hc⟩, fun cs o => ?_⟩
  obtain ⟨hm', hr, hs⟩ := allocated_calls hm cs o
  refine ⟨fun ho => ⟨hr ho, hm'.apart o (hr ho), ?_⟩, fun ho => ⟨hs ho, ?_, ?_⟩⟩
  · intro hq
    exact hm'.apart o (hr ho) (hm'.send.queued o hq).1
  · intro hr
    exact hm'.apart o hr (hs ho)
  · intro hq
    exact hm'.apart o (hm'.recv.queued o hq).1 (hs ho)

/-- Two sessions, the first closed through its send structure, twice, and the second through its
    receive structure; then a third. -/
def callRun : List Call :=
  [.makeClientSessionEx 7, .makeClientSessionEx 8, .closeSession 2048, .closeSession 2048, .closeSession 1,
    .makeClientSessionEx 7]

theorem a_third_session_has_its_structures :
    (callRun.foldl call (boot 1)).registry = [2] ∧
      (∃! o, (callRun.foldl call (boot 1)).recvPool.Allocated o ∧
        (callRun.foldl call (boot 1)).getClientObject o = some 2) ∧
      ∃! o, (callRun.foldl call (boot 1)).sendPool.Allocated o ∧
        (callRun.foldl call (boot 1)).getClientObject o = some 2 := by
  have hr : (callRun.foldl call (boot 1)).registry = [2] := by rw [boot_eq]; decide +kernel
  exact ⟨hr, (sessions_and_structures_match (.any ⟨1, rfl⟩ callRun)).2.2.1 2 (by rw [hr]; decide)⟩

/-! ## The calls and the threads -/

abbrev RunsTo (t : Nat) (wsa : Bool) : Server → Server → Prop := Relation.ReflTransGen fun s s' => s.run t wsa = s'

theorem runsTo_exec {s s'' : Server} {t : Nat} {i : Stmt} {st : List Stmt} {wsa : Bool} (s' : Server) (new : List Stmt)
    (ht : t < s.threads.length) (he : (s.setThread t (i :: st)).exec wsa i = (s'.setThread t (i :: st), new))
    (h : RunsTo t wsa (s'.setThread t (new ++ st)) s'') : RunsTo t wsa (s.setThread t (i :: st)) s'' := by
  refine .head ?_ h
  have hst : (s.setThread t (i :: st)).threads[t]? = some (i :: st) := List.getElem?_set_self ht
  simp only [run, hst, he]
  simp only [setThread, List.set_set]

/-- A thread that runs `MakeClientSessionEx` without interruption makes the call. -/
theorem make_runs {s : Server} {t : Nat} (ht : t < s.threads.length) (socket : Nat) (st : List Stmt) (wsa : Bool) :
    ∃ o s', s.makeClientSessionEx socket = .ok (o, s') ∧
      RunsTo t wsa (s.setThread t (.newSession socket :: st)) (s'.setThread t (.bindSocket s.nextClient o socket :: st)) := by
  obtain ⟨o, h₁, p, hd, -⟩ := OverlappedIoPool.dequeue_moves s.heap s.recvPool
  obtain ⟨o', h₂, q, hd', -⟩ := OverlappedIoPool.dequeue_moves (h₁.setClientObject o (some s.nextClient)) s.sendPool
  let s₁ : Server := { s.newClient with heap := h₁, recvPool := p }
  let s₂ := s₁.bindRecv s.nextClient o
  let s₃ : Server := { s₂ with heap := h₂, sendPool := q }
  let s₄ := s₃.bindSend s.nextClient o'
  let s₅ := s₄.withClient s.nextClient ((s₄.clients s.nextClient).initializeSocket socket)
  refine ⟨o, s₅.addTcpClient s.nextClient, ?_, ?_⟩
  · simp only [makeClientSessionEx, newClient, hd, ok_bind]
    simp only [bindRecv, setClientObject, withClient, hd', ok_bind]
    rfl
  · refine runsTo_exec s.newClient [.dequeueRecv s.nextClient socket] ht rfl ?_
    refine runsTo_exec s₁ [.bindRecv s.nextClient o socket] ht (by simp only [exec, newClient, setThread, hd]; rfl) ?_
    refine runsTo_exec s₂ [.dequeueSend s.nextClient o socket] ht rfl ?_
    refine runsTo_exec s₃ [.bindSend s.nextClient o o' socket] ht
      (by simp only [exec, s₂, s₁, bindRecv, newClient, withClient, setClientObject, setThread, hd']; rfl) ?_
    refine runsTo_exec s₄ [.initializeSocket s.nextClient o socket] ht rfl ?_
    refine runsTo_exec s₅ [.addTcpClient s.nextClient o socket] ht rfl ?_
    exact runsTo_exec (s₅.addTcpClient s.nextClient) [.bindSocket s.nextClient o socket] ht rfl .refl

theorem releaseRecv_threads (s : Server) (c : Nat) : (s.releaseRecv c).threads = s.threads := by
  unfold releaseRecv
  split <;> rfl

theorem releaseSend_threads (s : Server) (c : Nat) : (s.releaseSend c).threads = s.threads := by
  unfold releaseSend
  split <;> rfl

section Close

variable {s : Server} {t : Nat} (ht : t < s.threads.length) (c : Nat) (st : List Stmt) (wsa : Bool)
include ht

theorem runsTo_release_recv : RunsTo t wsa (s.setThread t (.unbindRecv c :: st))
    ((s.releaseRecv c).setThread t (.unbindSend c :: st)) := by
  unfold releaseRecv
  cases ho : (s.clients c).recvOverlapped with
  | none =>
    refine runsTo_exec s [.unbindSend c] ht ?_ .refl
    simp only [exec, show ((s.setThread t (.unbindRecv c :: st)).clients c).recvOverlapped = none from ho]
  | some o =>
    refine runsTo_exec (s.setClientObject o none) [.enqueueRecv c o] ht ?_ ?_
    · simp only [exec, show ((s.setThread t (.unbindRecv c :: st)).clients c).recvOverlapped = some o from ho]
      rfl
    · exact runsTo_exec ((s.setClientObject o none).enqueueRecv c o) [.unbindSend c] ht rfl .refl

theorem runsTo_release_send : RunsTo t wsa (s.setThread t (.unbindSend c :: st))
    ((s.releaseSend c).setThread t (.close c :: st)) := by
  unfold releaseSend
  cases ho : (s.clients c).sendOverlapped with
  | none =>
    refine runsTo_exec s [.close c] ht ?_ .refl
    simp only [exec, show ((s.setThread t (.unbindSend c :: st)).clients c).sendOverlapped = none from ho]
  | some o =>
    refine runsTo_exec (s.setClientObject o none) [.enqueueSend c o] ht ?_ ?_
    · simp only [exec, show ((s.setThread t (.unbindSend c :: st)).clients c).sendOverlapped = some o from ho]
      rfl
    · exact runsTo_exec ((s.setClientObject o none).enqueueSend c o) [.close c] ht rfl .refl

/-- A thread that runs `CloseSession(data)` without interruption makes the call. -/
theorem close_runs (data : Nat) : RunsTo t wsa (s.setThread t (.closeSession data :: st))
    ((s.closeSession data).setThread t st) := by
  cases hg : s.getClientObject data with
  | none =>
    simp only [closeSession, hg]
    refine runsTo_exec s [] ht ?_ .refl
    simp only [exec, show (s.setThread t (.closeSession data :: st)).getClientObject data = none from hg]
  | some c =>
    simp only [closeSession, hg]
    refine runsTo_exec s [.removeTcpClient c] ht ?_ ?_
    · simp only [exec, show (s.setThread t (.closeSession data :: st)).getClientObject data = some c from hg]
    refine runsTo_exec (s.removeTcpClient c) [.unbindRecv c] ht rfl ?_
    have h1 : t < ((s.removeTcpClient c).releaseRecv c).threads.length := by rw [releaseRecv_threads]; exact ht
    have h2 : t < (((s.removeTcpClient c).releaseRecv c).releaseSend c).threads.length := by rw [releaseSend_threads]; exact h1
    refine (runsTo_release_recv (s := s.removeTcpClient c) ht c st wsa).trans ((runsTo_release_send h1 c st wsa).trans ?_)
    refine runsTo_exec (Server.closesocket _ c) [.setClosing c] h2 rfl ?_
    exact runsTo_exec (Server.setClosing _ c) [] h2 rfl .refl

end Close

end Server

end SigHolic.Network
