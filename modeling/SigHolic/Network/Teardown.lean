/-
  SigHolic.Network.Teardown — who holds an `OverlappedIO` (`MakeClientSessionEx` and
  `CloseSession`, network/network.cpp), for any interleaving of their statements.

  A structure is in a queue, in a statement's hands, or bound to a session.

  Proved: while each `CloseSession` enters alone, a structure is in at most one of these
  places (`bound`), so no queue has it twice. Two workers that read the session before
  either clears a pointer give both structures back twice.
-/

import Mathlib.Data.List.Nodup
import SigHolic.Network.Stages

namespace SigHolic.Network

open SigHolic.Base.Tally SigHolic.Iocp SigHolic.Socket

namespace Server

/-! ## Who holds a structure -/

/-- In how many places the structure is: in a queue, in a statement's hands, or bound. -/
def places (s : Server) (o : Nat) : Nat :=
  s.recvPool.waitingQueue.count o + s.sendPool.waitingQueue.count o + tally (Stmt.holds o) s.threads +
    (s.getClientObject o).isSome.toNat

/-- Each structure is in at most one place; a session that is registered, or at a stage
    where it has a structure, has that structure bound to it. -/
structure Bound (s : Server) : Prop where
  once : ∀ o, s.places o ≤ 1
  fresh : ∀ o, s.heap.next ≤ o → s.places o = 0
  recv : ∀ c, 0 < s.registry.count c + tally (Stmt.hasRecv c) s.threads →
    ∃ o, (s.clients c).recvOverlapped = some o ∧ s.getClientObject o = some c
  send : ∀ c, 0 < s.registry.count c + tally (Stmt.hasSend c) s.threads →
    ∃ o, (s.clients c).sendOverlapped = some o ∧ s.getClientObject o = some c ∧ (s.clients c).recvOverlapped ≠ some o

theorem bound_quiet {s s' : Server} (h : Bound s) (hq : Quiet s s') : Bound s' := by
  have hp : ∀ o, s'.places o = s.places o := by
    intro o
    simp only [places, hq.getClientObject, hq.recvPool, hq.sendPool, hq.tally (heavy_holds o)]
  constructor
  · intro o; rw [hp]; exact h.once o
  · intro o ho; rw [hp]; exact h.fresh o (hq.heap ▸ ho)
  · intro c hc
    rw [hq.registry, hq.tally (heavy_hasRecv c)] at hc
    simp only [hq.recvOverlapped, hq.getClientObject]
    exact h.recv c hc
  · intro c hc
    rw [hq.registry, hq.tally (heavy_hasSend c)] at hc
    simp only [hq.sendOverlapped, hq.recvOverlapped, hq.getClientObject]
    exact h.send c hc

/-- At each stage a session has its receive structure or lacks it. -/
theorem tally_hasRecv (s : Server) (c : Nat) : tally (Stmt.hasRecv c) s.threads + tally (Stmt.lacksRecv c) s.threads =
    tally (Stmt.making c) s.threads + tally (Stmt.entering c) s.threads + tally (Stmt.leaving c) s.threads := by
  rw [← tally_add, ← tally_add, ← tally_add]
  congr 1
  funext x
  cases x <;> simp [Stmt.hasRecv, Stmt.lacksRecv, Stmt.making, Stmt.entering, Stmt.leaving]

theorem tally_hasSend (s : Server) (c : Nat) : tally (Stmt.hasSend c) s.threads + tally (Stmt.lacksSend c) s.threads =
    tally (Stmt.making c) s.threads + tally (Stmt.entering c) s.threads + tally (Stmt.leaving c) s.threads := by
  rw [← tally_add, ← tally_add, ← tally_add]
  congr 1
  funext x
  cases x <;> simp [Stmt.hasSend, Stmt.lacksSend, Stmt.making, Stmt.entering, Stmt.leaving]

/-- A structure in a statement's hands is in no queue and bound to nobody. -/
theorem Bound.held {s : Server} (h : Bound s) {t : Nat} {i : Stmt} {st : List Stmt} (ht : s.threads[t]? = some (i :: st))
    {o : Nat} (hi : i.holds o = 1) : s.getClientObject o = none := by
  have h1 := h.once o
  have h2 := weight_le_tally (Stmt.holds o) ht
  rw [weight_cons, hi] at h2
  unfold places at h1
  cases hg : s.getClientObject o with
  | none => rfl
  | some c => rw [hg] at h1; simp at h1; omega

/-- Structures bound to different sessions, or bound and not bound, are different. -/
theorem ne_of_bound {s : Server} {o a c : Nat} {x : Option Nat} (ha : s.getClientObject a = some c)
    (ho : s.getClientObject o = x) (hx : x ≠ some c) : a ≠ o := by
  intro heq
  subst heq
  rw [ha] at ho
  exact hx ho.symm

/-- The places of a structure, when the queues and the heap are as before. -/
theorem places_kept {s s' : Server} (hheap : s'.heap = s.heap) (hrp : s'.recvPool = s.recvPool)
    (hsp : s'.sendPool = s.sendPool) {o : Nat}
    (hh : tally (Stmt.holds o) s'.threads = tally (Stmt.holds o) s.threads) : s'.places o = s.places o := by
  simp only [places, getClientObject, hheap, hrp, hsp, hh]

theorem getClientObject_set (s : Server) (o a : Nat) (x : Option Nat) :
    (s.setClientObject o x).getClientObject a = if a = o then x else s.getClientObject a := by
  by_cases e : a = o
  · subst e; simp [getClientObject, setClientObject]
  · simp only [getClientObject, setClientObject, e, if_false]
    exact IoHeap.get_set_ne s.heap x e

/-- The places of a structure when its `Client` is set or cleared by the statement `i` that takes it
    from, or into, a statement's hands. -/
theorem places_set {s : Server} {t : Nat} {wsa : Bool} {i y : Stmt} {st : List Stmt} {o₀ : Nat} {x : Option Nat}
    (ht : s.threads[t]? = some (i :: st)) (hy : (s.exec wsa i).2 = [y])
    (hget : ∀ a, (s.run t wsa).getClientObject a = if a = o₀ then x else s.getClientObject a)
    (hrp : (s.run t wsa).recvPool = s.recvPool) (hsp : (s.run t wsa).sendPool = s.sendPool)
    (hne : ∀ a, a ≠ o₀ → y.holds a = i.holds a)
    (ho : y.holds o₀ + x.isSome.toNat = i.holds o₀ + (s.getClientObject o₀).isSome.toNat) (a : Nat) :
    (s.run t wsa).places a = s.places a := by
  have h1 := tally_run (Stmt.holds a) wsa ht
  simp only [hy, weight_cons, weight_nil] at h1
  simp only [places, hrp, hsp, hget]
  by_cases e : a = o₀
  · subst e
    simp only [if_true]
    omega
  · have := hne a e
    simp only [e, if_false]
    omega

/-- A session `CloseSession` has unregistered is at that one stage only. -/
theorem Stages.alone {s : Server} (hg : Stages s) {t : Nat} {i : Stmt} {st : List Stmt}
    (ht : s.threads[t]? = some (i :: st)) (c₀ : Nat) (hi : i.leaving c₀ = 1) :
    s.registry.count c₀ = 0 ∧ tally (Stmt.hasRecv c₀) s.threads + tally (Stmt.lacksRecv c₀) s.threads = 1 ∧
      tally (Stmt.hasSend c₀) s.threads + tally (Stmt.lacksSend c₀) s.threads = 1 := by
  have h1 := weight_le_tally (Stmt.leaving c₀) ht
  rw [weight_cons, hi] at h1
  have h2 := hg.send c₀
  have h3 := hg.enter c₀
  have h4 := tally_hasRecv s c₀
  have h5 := tally_hasSend s c₀
  omega

section Run

variable {s : Server} (hb : Bound s) (hg : Stages s) {t : Nat} (wsa : Bool) {st : List Stmt}
include hb

/-- Statements that bind and unbind nothing. -/
theorem bound_kept {s' : Server} (hheap : s'.heap = s.heap) (hp : ∀ o, s'.places o = s.places o)
    (hr : ∀ c, 0 < s'.registry.count c + tally (Stmt.hasRecv c) s'.threads →
      0 < s.registry.count c + tally (Stmt.hasRecv c) s.threads ∧
        (s'.clients c).recvOverlapped = (s.clients c).recvOverlapped)
    (hs : ∀ c, 0 < s'.registry.count c + tally (Stmt.hasSend c) s'.threads →
      0 < s.registry.count c + tally (Stmt.hasSend c) s.threads ∧
        (s'.clients c).recvOverlapped = (s.clients c).recvOverlapped ∧
        (s'.clients c).sendOverlapped = (s.clients c).sendOverlapped) : Bound s' := by
  have hgc : ∀ o, s'.getClientObject o = s.getClientObject o := fun o => by simp only [getClientObject, hheap]
  refine ⟨fun o => hp o ▸ hb.once o, ?_, ?_, ?_⟩
  · intro o ho
    rw [hp]; exact hb.fresh o (hheap ▸ ho)
  · intro c hc
    obtain ⟨h1, h2⟩ := hr c hc
    simp only [h2, hgc]; exact hb.recv c h1
  · intro c hc
    obtain ⟨h1, h2, h3⟩ := hs c hc
    simp only [h2, h3, hgc]; exact hb.send c h1

include hg

theorem bound_newSession {socket : Nat} (ht : s.threads[t]? = some (.newSession socket :: st)) : Bound (s.run t wsa) := by
  have hf := run_fields wsa ht
  have hcl : ∀ c, s.nextClient ≠ c → (s.exec wsa (.newSession socket)).1.clients c = s.clients c := by
    intro c hc
    simp [exec, newClient, Ne.symm hc]
  apply bound_kept hb hf.heap
  · intro o
    apply places_kept (s := s) hf.heap hf.recvPool hf.sendPool
    have := tally_run (Stmt.holds o) wsa ht
    simpa [exec, Stmt.holds] using this
  · intro c hc
    have h1 := tally_run (Stmt.hasRecv c) wsa ht
    simp only [exec, Stmt.hasRecv, weight_cons, weight_nil, Nat.add_zero] at h1
    have hc' : 0 < s.registry.count c + tally (Stmt.hasRecv c) s.threads := by
      rw [hf.registry, h1] at hc; exact hc
    have hne : s.nextClient ≠ c := by
      intro heq
      subst heq
      have := hg.unborn _ (Nat.le_refl _)
      have := hg.enter s.nextClient
      have := tally_hasRecv s s.nextClient
      omega
    exact ⟨hc', by rw [hf.recvOverlapped, hcl c hne]⟩
  · intro c hc
    have h1 := tally_run (Stmt.hasSend c) wsa ht
    simp only [exec, Stmt.hasSend, weight_cons, weight_nil, Nat.add_zero] at h1
    have hc' : 0 < s.registry.count c + tally (Stmt.hasSend c) s.threads := by
      rw [hf.registry, h1] at hc; exact hc
    have hne : s.nextClient ≠ c := by
      intro heq
      subst heq
      have := hg.unborn _ (Nat.le_refl _)
      have := hg.enter s.nextClient
      have := tally_hasSend s s.nextClient
      omega
    exact ⟨hc', by rw [hf.recvOverlapped, hcl c hne], by rw [hf.sendOverlapped, hcl c hne]⟩

omit hg

theorem bound_initializeSocket {c₀ o₀ socket : Nat} (ht : s.threads[t]? = some (.initializeSocket c₀ o₀ socket :: st)) :
    Bound (s.run t wsa) := by
  have hf := run_fields wsa ht
  have hx : SameBindings s (s.exec wsa (.initializeSocket c₀ o₀ socket)).1 :=
    same_withClient s (c := c₀) (x := (s.clients c₀).initializeSocket socket) rfl rfl
  have hq := hx.trans hf
  have hk : ∀ f : Stmt → Nat, f (.initializeSocket c₀ o₀ socket) = f (.addTcpClient c₀ o₀ socket) →
      tally f (s.run t wsa).threads = tally f s.threads := by
    intro f he
    have := tally_run f wsa ht
    simp only [exec, weight_cons, weight_nil] at this
    omega
  refine bound_kept hb hq.heap (fun o => places_kept hq.heap hq.recvPool hq.sendPool (hk _ rfl)) ?_ ?_
  · intro c hc
    rw [hq.registry, hk _ rfl] at hc
    exact ⟨hc, hq.recvOverlapped c⟩
  · intro c hc
    rw [hq.registry, hk _ rfl] at hc
    exact ⟨hc, hq.recvOverlapped c, hq.sendOverlapped c⟩

theorem bound_addTcpClient {c₀ o₀ socket : Nat} (ht : s.threads[t]? = some (.addTcpClient c₀ o₀ socket :: st)) :
    Bound (s.run t wsa) := by
  have hf := run_fields wsa ht
  have hr : (s.exec wsa (.addTcpClient c₀ o₀ socket)).1.registry = TcpSessionManager.addTcpClient s.registry c₀ := rfl
  refine bound_kept hb hf.heap (fun o => places_kept (s := s) hf.heap hf.recvPool hf.sendPool ?_)
    (fun c hc => ⟨?_, hf.recvOverlapped c⟩)
    (fun c hc => ⟨?_, hf.recvOverlapped c, hf.sendOverlapped c⟩)
  · have := tally_run (Stmt.holds o) wsa ht
    simpa [exec, Stmt.holds] using this
  · have := tally_run (Stmt.hasRecv c) wsa ht
    simp only [exec, Stmt.hasRecv, weight_cons, weight_nil] at this
    rw [hf.registry, hr, count_addTcpClient] at hc
    split at this
    · omega
    · rename_i e; rw [if_neg (Ne.symm e)] at hc; omega
  · have := tally_run (Stmt.hasSend c) wsa ht
    simp only [exec, Stmt.hasSend, weight_cons, weight_nil] at this
    rw [hf.registry, hr, count_addTcpClient] at hc
    split at this
    · omega
    · rename_i e; rw [if_neg (Ne.symm e)] at hc; omega

/-- Entering `CloseSession` gives a stage to registered sessions only. -/
theorem bound_closeSession {data : Nat} (ht : s.threads[t]? = some (.closeSession data :: st))
    (ha : Alone s (.run t wsa)) : Bound (s.run t wsa) := by
  have hf := run_fields wsa ht
  have hx : s.closing (.run t wsa) = s.getClientObject data := by simp only [closing, ht]
  have hstage : ∀ (f : Stmt → Nat) (c : Nat), f (.closeSession data) = 0 →
      (∀ d, d ≠ c → f (.removeTcpClient d) = 0) →
      0 < (s.run t wsa).registry.count c + tally f (s.run t wsa).threads →
      0 < s.registry.count c + tally f s.threads := by
    intro f c h0 hd hc
    have h1 := tally_run f wsa ht
    have hr : (s.exec wsa (.closeSession data)).1.registry = s.registry := rfl
    rw [hf.registry, hr] at hc
    cases hgc : s.getClientObject data with
    | none => simp only [exec, hgc, weight_nil] at h1; omega
    | some d =>
      simp only [exec, hgc, weight_cons, weight_nil] at h1
      by_cases e : d = c
      · have := List.count_pos_iff.mpr (ha d (hx.trans hgc)).1
        subst e; omega
      · rw [hd d e] at h1; omega
  refine bound_kept hb hf.heap (fun o => places_kept (s := s) hf.heap hf.recvPool hf.sendPool ?_)
    (fun c hc => ⟨?_, hf.recvOverlapped c⟩)
    (fun c hc => ⟨?_, hf.recvOverlapped c, hf.sendOverlapped c⟩)
  · have h1 := tally_run (Stmt.holds o) wsa ht
    cases hgc : s.getClientObject data <;> simp only [exec, hgc, Stmt.holds, weight_cons, weight_nil] at h1 <;> omega
  · exact hstage _ c rfl (fun d hd => by simp [Stmt.hasRecv, hd]) hc
  · exact hstage _ c rfl (fun d hd => by simp [Stmt.hasSend, hd]) hc

theorem bound_removeTcpClient {c₀ : Nat} (ht : s.threads[t]? = some (.removeTcpClient c₀ :: st)) :
    Bound (s.run t wsa) := by
  have hf := run_fields wsa ht
  have hr : (s.exec wsa (.removeTcpClient c₀)).1.registry = TcpSessionManager.removeTcpClient s.registry c₀ := rfl
  have hk : ∀ f : Stmt → Nat, f (.removeTcpClient c₀) = f (.unbindRecv c₀) →
      tally f (s.run t wsa).threads = tally f s.threads := by
    intro f he
    have := tally_run f wsa ht
    simp only [exec, weight_cons, weight_nil] at this
    omega
  have hle : ∀ c, (s.run t wsa).registry.count c ≤ s.registry.count c := by
    intro c
    rw [hf.registry, hr, count_removeTcpClient]
    split <;> omega
  refine bound_kept hb hf.heap (fun o => places_kept (s := s) hf.heap hf.recvPool hf.sendPool (hk _ rfl))
    (fun c hc => ⟨?_, hf.recvOverlapped c⟩) (fun c hc => ⟨?_, hf.recvOverlapped c, hf.sendOverlapped c⟩)
  · rw [hk _ rfl] at hc
    have := hle c
    omega
  · rw [hk _ rfl] at hc
    have := hle c
    omega

/-- A statement that puts the structure in its hands into a queue. -/
theorem bound_enqueued {i y : Stmt} (ht : s.threads[t]? = some (i :: st)) (hy : (s.exec wsa i).2 = [y])
    (hx : (s.exec wsa i).1.heap = s.heap ∧ (s.exec wsa i).1.registry = s.registry ∧ (s.exec wsa i).1.clients = s.clients)
    (hq : ∀ o, (s.exec wsa i).1.recvPool.waitingQueue.count o + (s.exec wsa i).1.sendPool.waitingQueue.count o =
      s.recvPool.waitingQueue.count o + s.sendPool.waitingQueue.count o + i.holds o)
    (hy0 : ∀ o, y.holds o = 0) (hr : ∀ c, y.hasRecv c = i.hasRecv c) (hs : ∀ c, y.hasSend c = i.hasSend c) :
    Bound (s.run t wsa) := by
  obtain ⟨hheap, hreg, hcl⟩ := hx
  have hf := run_fields wsa ht
  have hw := fun f => tally_run f wsa ht
  simp only [hy, weight_cons, weight_nil] at hw
  refine bound_kept hb (hf.heap.trans hheap) ?_ (fun c hc => ⟨?_, ?_⟩) (fun c hc => ⟨?_, ?_, ?_⟩)
  · intro o
    have h1 := hw (Stmt.holds o)
    have h2 := hq o
    have h3 := hy0 o
    simp only [places, getClientObject, hf.heap, hf.recvPool, hf.sendPool, hheap]
    omega
  · have h1 := hw (Stmt.hasRecv c)
    have h2 := hr c
    rw [hf.registry, hreg] at hc
    omega
  · rw [hf.recvOverlapped, hcl]
  · have h1 := hw (Stmt.hasSend c)
    have h2 := hs c
    rw [hf.registry, hreg] at hc
    omega
  · rw [hf.recvOverlapped, hcl]
  · rw [hf.sendOverlapped, hcl]

theorem bound_enqueueRecv {c₀ o₀ : Nat} (ht : s.threads[t]? = some (.enqueueRecv c₀ o₀ :: st)) : Bound (s.run t wsa) := by
  refine bound_enqueued hb wsa ht rfl ⟨rfl, rfl, rfl⟩ (fun o => ?_) (fun _ => rfl) (fun _ => rfl) (fun _ => rfl)
  have hq : (s.exec wsa (.enqueueRecv c₀ o₀)).1.recvPool.waitingQueue = s.recvPool.waitingQueue ++ [o₀] := rfl
  have hs : (s.exec wsa (.enqueueRecv c₀ o₀)).1.sendPool = s.sendPool := rfl
  simp only [hq, hs, Stmt.holds, List.count_append, List.count_singleton, beq_iff_eq]
  omega

theorem bound_enqueueSend {c₀ o₀ : Nat} (ht : s.threads[t]? = some (.enqueueSend c₀ o₀ :: st)) : Bound (s.run t wsa) := by
  refine bound_enqueued hb wsa ht rfl ⟨rfl, rfl, rfl⟩ (fun o => ?_) (fun _ => rfl) (fun _ => rfl) (fun _ => rfl)
  have hq : (s.exec wsa (.enqueueSend c₀ o₀)).1.sendPool.waitingQueue = s.sendPool.waitingQueue ++ [o₀] := rfl
  have hr : (s.exec wsa (.enqueueSend c₀ o₀)).1.recvPool = s.recvPool := rfl
  simp only [hq, hr, Stmt.holds, List.count_append, List.count_singleton, beq_iff_eq]
  omega

/-- `Dequeue` takes a structure out of its queue, or makes a block of new ones first. -/
theorem bound_dequeued {s' : Server} (hn : s.heap.next ≤ s'.heap.next)
    (hget : ∀ o, s'.getClientObject o =
      if s.heap.next ≤ o ∧ o < s'.heap.next then none else s.getClientObject o)
    (hmoved : ∀ o, s'.recvPool.waitingQueue.count o + s'.sendPool.waitingQueue.count o + tally (Stmt.holds o) s'.threads =
      s.recvPool.waitingQueue.count o + s.sendPool.waitingQueue.count o + tally (Stmt.holds o) s.threads +
        if s.heap.next ≤ o ∧ o < s'.heap.next then 1 else 0)
    (hreg : s'.registry = s.registry)
    (hcl : s'.clients = s.clients)
    (hr : ∀ c, tally (Stmt.hasRecv c) s'.threads = tally (Stmt.hasRecv c) s.threads)
    (hs : ∀ c, tally (Stmt.hasSend c) s'.threads = tally (Stmt.hasSend c) s.threads) : Bound s' := by
  have hold : ∀ o c, s.getClientObject o = some c → s'.getClientObject o = some c := by
    intro o c ho
    rw [hget, if_neg, ho]
    intro hrange
    obtain ⟨hlo, -⟩ := hrange
    have := hb.fresh o hlo
    simp [places, ho] at this
  have hp : ∀ o, s'.places o = s.places o + if s.heap.next ≤ o ∧ o < s'.heap.next then 1 else 0 := by
    intro o
    have h1 := hmoved o
    have h2 := hb.fresh o
    simp only [places, hget] at h2 ⊢
    split
    · rename_i hnew
      have := h2 hnew.1
      rw [if_pos hnew] at h1
      simp only [Option.isSome_none, Bool.toNat_false]
      omega
    · rename_i hnew
      rw [if_neg hnew] at h1
      omega
  refine ⟨?_, ?_, ?_, ?_⟩
  · intro o
    rw [hp]
    split
    · rename_i h; rw [hb.fresh o h.1]
    · exact hb.once o
  · intro o ho
    rw [hp, if_neg (by omega), hb.fresh o (by omega)]
  · intro c hc
    rw [hreg, hr] at hc
    obtain ⟨o, h1, h2⟩ := hb.recv c hc
    exact ⟨o, by rw [hcl]; exact h1, hold o c h2⟩
  · intro c hc
    rw [hreg, hs] at hc
    obtain ⟨o, h1, h2, h3⟩ := hb.send c hc
    exact ⟨o, by rw [hcl]; exact h1, hold o c h2, by rw [hcl]; exact h3⟩

theorem bound_dequeueRecv {c₀ socket : Nat} (ht : s.threads[t]? = some (.dequeueRecv c₀ socket :: st)) :
    Bound (s.run t wsa) := by
  obtain ⟨o, h', p', hd, hn, hq, hget⟩ := OverlappedIoPool.dequeue_moves s.heap s.recvPool
  have hx : s.exec wsa (.dequeueRecv c₀ socket) = ({ s with heap := h', recvPool := p' }, [.bindRecv c₀ o socket]) := by
    simp only [exec, hd]
  have hrun : s.run t wsa =
      { s with heap := h', recvPool := p', threads := s.threads.set t (.bindRecv c₀ o socket :: st) } := by
    simp only [run, ht, hx]; rfl
  have hw := fun f => tally_run f wsa ht
  simp only [hx, weight_cons, weight_nil] at hw
  simp only [hrun] at hw ⊢
  refine bound_dequeued hb hn hget ?_ rfl rfl ?_ ?_
  · intro a
    have h1 := hw (Stmt.holds a)
    have h2 := hq a
    simp only [Stmt.holds] at h1
    dsimp only
    omega
  · intro c
    have := hw (Stmt.hasRecv c)
    simpa [Stmt.hasRecv] using this
  · intro c
    have := hw (Stmt.hasSend c)
    simpa [Stmt.hasSend] using this

theorem bound_dequeueSend {c₀ o₀ socket : Nat} (ht : s.threads[t]? = some (.dequeueSend c₀ o₀ socket :: st)) :
    Bound (s.run t wsa) := by
  obtain ⟨o, h', p', hd, hn, hq, hget⟩ := OverlappedIoPool.dequeue_moves s.heap s.sendPool
  have hx : s.exec wsa (.dequeueSend c₀ o₀ socket) =
      ({ s with heap := h', sendPool := p' }, [.bindSend c₀ o₀ o socket]) := by
    simp only [exec, hd]
  have hrun : s.run t wsa =
      { s with heap := h', sendPool := p', threads := s.threads.set t (.bindSend c₀ o₀ o socket :: st) } := by
    simp only [run, ht, hx]; rfl
  have hw := fun f => tally_run f wsa ht
  simp only [hx, weight_cons, weight_nil] at hw
  simp only [hrun] at hw ⊢
  refine bound_dequeued hb hn hget ?_ rfl rfl ?_ ?_
  · intro a
    have h1 := hw (Stmt.holds a)
    have h2 := hq a
    simp only [Stmt.holds] at h1
    dsimp only
    omega
  · intro c
    have := hw (Stmt.hasRecv c)
    simpa [Stmt.hasRecv] using this
  · intro c
    have := hw (Stmt.hasSend c)
    simpa [Stmt.hasSend] using this

theorem bound_bindSend {c₀ o₁ o₀ socket : Nat} (ht : s.threads[t]? = some (.bindSend c₀ o₁ o₀ socket :: st)) :
    Bound (s.run t wsa) := by
  have hnone : s.getClientObject o₀ = none := hb.held ht (by simp [Stmt.holds])
  have hrun : s.run t wsa = (s.bindSend c₀ o₀).setThread t (.initializeSocket c₀ o₁ socket :: st) := by
    simp only [run, ht, exec]; rfl
  have hw := fun f => tally_run f wsa ht
  have hget : ∀ a, (s.run t wsa).getClientObject a = if a = o₀ then some c₀ else s.getClientObject a := by
    intro a; rw [hrun]; exact getClientObject_set _ _ _ _
  have hcl : ∀ c, c ≠ c₀ → (s.run t wsa).clients c = s.clients c := by
    intro c hc; rw [hrun]; exact withClient_ne _ _ hc
  have hown : (s.run t wsa).clients c₀ = { s.clients c₀ with sendOverlapped := some o₀ } := by
    rw [hrun]; exact withClient_same _ _ _
  have hrecv : ∀ c, ((s.run t wsa).clients c).recvOverlapped = (s.clients c).recvOverlapped := by
    intro c
    by_cases e : c = c₀
    · subst e; rw [hown]
    · rw [hcl c e]
  have hreg : (s.run t wsa).registry = s.registry := by rw [hrun]; rfl
  have hnext : (s.run t wsa).heap.next = s.heap.next := by rw [hrun]; rfl
  have hkept : ∀ c o, s.getClientObject o = some c → (s.run t wsa).getClientObject o = some c := by
    intro c o ho
    rw [hget, if_neg (ne_of_bound ho hnone (by simp)), ho]
  simp only [exec, weight_cons, weight_nil] at hw
  have hp := places_set ht rfl hget (by rw [hrun]; rfl) (by rw [hrun]; rfl) (fun a e => by simp [Stmt.holds, Ne.symm e])
    (by simp [Stmt.holds, hnone])
  refine ⟨fun a => hp a ▸ hb.once a, ?_, ?_, ?_⟩
  · intro a ha
    rw [hp]; exact hb.fresh a (hnext ▸ ha)
  · intro c hc
    have h1 := hw (Stmt.hasRecv c)
    simp only [Stmt.hasRecv] at h1
    rw [hreg] at hc
    obtain ⟨o, h2, h3⟩ := hb.recv c (by omega)
    exact ⟨o, by rw [hrecv, h2], hkept c o h3⟩
  · intro c hc
    by_cases e : c = c₀
    · subst e
      have h1 := weight_le_tally (Stmt.hasRecv c) ht
      simp only [Stmt.hasRecv, weight_cons, if_true] at h1
      obtain ⟨o, h2, h3⟩ := hb.recv c (by omega)
      refine ⟨o₀, by rw [hown], by rw [hget, if_pos rfl], ?_⟩
      rw [hrecv, h2]
      intro h
      cases h
      exact ne_of_bound h3 hnone (by simp) rfl
    · have h1 := hw (Stmt.hasSend c)
      simp only [Stmt.hasSend, Ne.symm e, if_false] at h1
      rw [hreg] at hc
      obtain ⟨o, h2, h3, h4⟩ := hb.send c (by omega)
      exact ⟨o, by rw [hcl c e, h2], hkept c o h3, by rw [hrecv]; exact h4⟩

include hg

theorem bound_bindRecv {c₀ o₀ socket : Nat} (ht : s.threads[t]? = some (.bindRecv c₀ o₀ socket :: st)) :
    Bound (s.run t wsa) := by
  have hnone : s.getClientObject o₀ = none := hb.held ht (by simp [Stmt.holds])
  have hrun : s.run t wsa = (s.bindRecv c₀ o₀).setThread t (.dequeueSend c₀ o₀ socket :: st) := by
    simp only [run, ht, exec]; rfl
  have hw := fun f => tally_run f wsa ht
  have hget : ∀ a, (s.run t wsa).getClientObject a = if a = o₀ then some c₀ else s.getClientObject a := by
    intro a; rw [hrun]; exact getClientObject_set _ _ _ _
  have hcl : ∀ c, c ≠ c₀ → (s.run t wsa).clients c = s.clients c := by
    intro c hc; rw [hrun]; exact withClient_ne _ _ hc
  have hown : (s.run t wsa).clients c₀ = { s.clients c₀ with recvOverlapped := some o₀ } := by
    rw [hrun]; exact withClient_same _ _ _
  have hreg : (s.run t wsa).registry = s.registry := by rw [hrun]; rfl
  have hnext : (s.run t wsa).heap.next = s.heap.next := by rw [hrun]; rfl
  have hkept : ∀ c o, s.getClientObject o = some c → (s.run t wsa).getClientObject o = some c := by
    intro c o ho
    rw [hget, if_neg (ne_of_bound ho hnone (by simp)), ho]
  simp only [exec, weight_cons, weight_nil] at hw
  have hp := places_set ht rfl hget (by rw [hrun]; rfl) (by rw [hrun]; rfl) (fun a e => by simp [Stmt.holds, Ne.symm e])
    (by simp [Stmt.holds, hnone])
  refine ⟨fun a => hp a ▸ hb.once a, ?_, ?_, ?_⟩
  · intro a ha
    rw [hp]; exact hb.fresh a (hnext ▸ ha)
  · intro c hc
    by_cases e : c = c₀
    · subst e
      exact ⟨o₀, by rw [hown], by rw [hget, if_pos rfl]⟩
    · have h1 := hw (Stmt.hasRecv c)
      simp only [Stmt.hasRecv, Ne.symm e, if_false] at h1
      rw [hreg] at hc
      obtain ⟨o, h2, h3⟩ := hb.recv c (by omega)
      exact ⟨o, by rw [hcl c e, h2], hkept c o h3⟩
  · intro c hc
    have h1 := hw (Stmt.hasSend c)
    simp only [Stmt.hasSend] at h1
    rw [hreg] at hc
    -- the session itself has no send structure yet
    have e : c ≠ c₀ := by
      intro heq
      subst heq
      have h2 := weight_le_tally (Stmt.lacksSend c) ht
      simp only [Stmt.lacksSend, weight_cons, if_true] at h2
      have h3 := weight_le_tally (Stmt.making c) ht
      simp only [Stmt.making, weight_cons, if_true] at h3
      have h4 := tally_hasSend s c
      have h5 := hg.send c
      have h6 := hg.enter c
      omega
    obtain ⟨o, h2, h3, h4⟩ := hb.send c (by omega)
    exact ⟨o, by rw [hcl c e, h2], hkept c o h3, by rw [hcl c e]; exact h4⟩

theorem bound_unbindRecv {c₀ : Nat} (ht : s.threads[t]? = some (.unbindRecv c₀ :: st)) : Bound (s.run t wsa) := by
  obtain ⟨hcount, hR, hS⟩ := hg.alone ht c₀ (by simp [Stmt.leaving])
  have hwR := weight_le_tally (Stmt.hasRecv c₀) ht
  simp only [Stmt.hasRecv, weight_cons, if_true] at hwR
  obtain ⟨o₀, ho₀, hbound⟩ := hb.recv c₀ (by omega)
  have hrun : s.run t wsa = (s.setClientObject o₀ none).setThread t (.enqueueRecv c₀ o₀ :: st) := by
    simp only [run, ht, exec, ho₀]; rfl
  have hw := fun f => tally_run f wsa ht
  simp only [exec, ho₀, weight_cons, weight_nil] at hw
  have hget : ∀ a, (s.run t wsa).getClientObject a = if a = o₀ then none else s.getClientObject a := by
    intro a; rw [hrun]; exact getClientObject_set _ _ _ _
  have hcl : (s.run t wsa).clients = s.clients := by rw [hrun]; rfl
  have hreg : (s.run t wsa).registry = s.registry := by rw [hrun]; rfl
  have hnext : (s.run t wsa).heap.next = s.heap.next := by rw [hrun]; rfl
  have hpush : (s.exec wsa (.unbindRecv c₀)).2 = [.enqueueRecv c₀ o₀] := by simp only [exec, ho₀]
  have hp := places_set ht hpush hget (by rw [hrun]; rfl) (by rw [hrun]; rfl) (fun a e => by simp [Stmt.holds, Ne.symm e])
    (by simp [Stmt.holds, hbound])
  refine ⟨fun a => hp a ▸ hb.once a, ?_, ?_, ?_⟩
  · intro a ha
    rw [hp]; exact hb.fresh a (hnext ▸ ha)
  · intro c hc
    have h1 := hw (Stmt.hasRecv c)
    simp only [Stmt.hasRecv] at h1
    rw [hreg] at hc
    have e : c ≠ c₀ := by
      rintro rfl; simp only [if_true] at h1; omega
    obtain ⟨o, h2, h3⟩ := hb.recv c (by omega)
    refine ⟨o, by rw [hcl, h2], ?_⟩
    rw [hget, if_neg (ne_of_bound h3 hbound (by simpa using Ne.symm e)), h3]
  · intro c hc
    have h1 := hw (Stmt.hasSend c)
    simp only [Stmt.hasSend] at h1
    rw [hreg] at hc
    obtain ⟨o, h2, h3, h4⟩ := hb.send c (by omega)
    refine ⟨o, by rw [hcl, h2], ?_, by rw [hcl]; exact h4⟩
    have hne : o ≠ o₀ := by
      by_cases e : c = c₀
      · rintro rfl; subst e; exact h4 ho₀
      · exact ne_of_bound h3 hbound (by simpa using Ne.symm e)
    rw [hget, if_neg hne, h3]

theorem bound_unbindSend {c₀ : Nat} (ht : s.threads[t]? = some (.unbindSend c₀ :: st)) : Bound (s.run t wsa) := by
  obtain ⟨hcount, hR, hS⟩ := hg.alone ht c₀ (by simp [Stmt.leaving])
  have hwR := weight_le_tally (Stmt.lacksRecv c₀) ht
  have hwS := weight_le_tally (Stmt.hasSend c₀) ht
  simp only [Stmt.lacksRecv, Stmt.hasSend, weight_cons, if_true] at hwR hwS
  obtain ⟨o₀, ho₀, hbound, -⟩ := hb.send c₀ (by omega)
  have hrun : s.run t wsa = (s.setClientObject o₀ none).setThread t (.enqueueSend c₀ o₀ :: st) := by
    simp only [run, ht, exec, ho₀]; rfl
  have hw := fun f => tally_run f wsa ht
  simp only [exec, ho₀, weight_cons, weight_nil] at hw
  have hget : ∀ a, (s.run t wsa).getClientObject a = if a = o₀ then none else s.getClientObject a := by
    intro a; rw [hrun]; exact getClientObject_set _ _ _ _
  have hcl : (s.run t wsa).clients = s.clients := by rw [hrun]; rfl
  have hreg : (s.run t wsa).registry = s.registry := by rw [hrun]; rfl
  have hnext : (s.run t wsa).heap.next = s.heap.next := by rw [hrun]; rfl
  have hpush : (s.exec wsa (.unbindSend c₀)).2 = [.enqueueSend c₀ o₀] := by simp only [exec, ho₀]
  have hp := places_set ht hpush hget (by rw [hrun]; rfl) (by rw [hrun]; rfl) (fun a e => by simp [Stmt.holds, Ne.symm e])
    (by simp [Stmt.holds, hbound])
  -- the session has neither structure bound after this
  have hne : ∀ c, c ≠ c₀ → ∀ o, s.getClientObject o = some c → (s.run t wsa).getClientObject o = some c := by
    intro c e o h3
    rw [hget, if_neg (ne_of_bound h3 hbound (by simpa using Ne.symm e)), h3]
  refine ⟨fun a => hp a ▸ hb.once a, ?_, ?_, ?_⟩
  · intro a ha
    rw [hp]; exact hb.fresh a (hnext ▸ ha)
  · intro c hc
    have h1 := hw (Stmt.hasRecv c)
    simp only [Stmt.hasRecv] at h1
    rw [hreg] at hc
    have e : c ≠ c₀ := by rintro rfl; omega
    obtain ⟨o, h2, h3⟩ := hb.recv c (by omega)
    exact ⟨o, by rw [hcl, h2], hne c e o h3⟩
  · intro c hc
    have h1 := hw (Stmt.hasSend c)
    simp only [Stmt.hasSend] at h1
    rw [hreg] at hc
    have e : c ≠ c₀ := by
      rintro rfl; simp only [if_true] at h1; omega
    obtain ⟨o, h2, h3, h4⟩ := hb.send c (by omega)
    exact ⟨o, by rw [hcl, h2], hne c e o h3, by rw [hcl]; exact h4⟩

end Run

theorem bound_step {s : Server} {e : Ev} (hg : Stages s) (hb : Bound s) (ha : Alone s e) : Bound (s.step e) := by
  rcases step_cases s e with hq | ⟨t, wsa, i, st, rfl, ht, hi, hs⟩
  · exact bound_quiet hb hq
  rw [hs]
  cases i with
  | newSession => exact bound_newSession hb hg wsa ht
  | dequeueRecv => exact bound_dequeueRecv hb wsa ht
  | bindRecv => exact bound_bindRecv hb hg wsa ht
  | dequeueSend => exact bound_dequeueSend hb wsa ht
  | bindSend => exact bound_bindSend hb wsa ht
  | initializeSocket => exact bound_initializeSocket hb wsa ht
  | addTcpClient => exact bound_addTcpClient hb wsa ht
  | closeSession => exact bound_closeSession hb wsa ht ha
  | removeTcpClient => exact bound_removeTcpClient hb wsa ht
  | unbindRecv => exact bound_unbindRecv hb hg wsa ht
  | enqueueRecv => exact bound_enqueueRecv hb wsa ht
  | unbindSend => exact bound_unbindSend hb hg wsa ht
  | enqueueSend => exact bound_enqueueSend hb wsa ht
  | _ => cases hi

theorem bound_boot (n : Nat) : Bound (boot n) := by
  have h0 : ∀ f : Stmt → Nat, tally f (boot n).threads = 0 := fun f => tally_replicate f (n + 1)
  have hp : ∀ o, (boot n).places o = (List.range' 0 4096).count o := by
    intro o
    rw [show 4096 = 2048 + 2048 from rfl, ← List.range'_append_1, List.count_append]
    simp only [places, h0]
    simp [boot_eq, getClientObject, IoHeap.getClientObject]
  refine ⟨?_, ?_, ?_, ?_⟩
  · intro o
    rw [hp, List.count_range_1']
    split <;> omega
  · intro o ho
    have : 4096 ≤ o := by rw [boot_eq] at ho; exact ho
    rw [hp, List.count_range_1', if_neg (by omega)]
  · intro c hc
    rw [h0] at hc; simp [boot] at hc
  · intro c hc
    rw [h0] at hc; simp [boot] at hc

theorem bound {s : Server} (h : Reach Alone s) : Bound s :=
  h.invariant_of (fun _ hr => stages hr) (fun _ ⟨n, hn⟩ => hn ▸ bound_boot n) fun _ _ hg hb ha => bound_step hg hb ha

/-! ## Giving back -/

theorem count_le_places (s : Server) (o : Nat) :
    s.recvPool.waitingQueue.count o ≤ s.places o ∧ s.sendPool.waitingQueue.count o ≤ s.places o := by
  unfold places; omega

/-- However the workers' `CloseSession`s interleave, as long as each enters alone: a session
    gives each of its structures back at most once, and no queue has a structure twice. -/
theorem structures_are_given_back_once {s : Server} (h : Reach Alone s) :
    s.recvPool.waitingQueue.Nodup ∧ s.sendPool.waitingQueue.Nodup ∧
      ∀ c, s.recvEnqueues c ≤ 1 ∧ s.sendEnqueues c ≤ 1 := by
  have hb := bound h
  have hg := stages h
  refine ⟨List.nodup_iff_count_le_one.mpr ?_, List.nodup_iff_count_le_one.mpr ?_, fun c => ⟨?_, ?_⟩⟩
  · intro o
    exact Nat.le_trans (count_le_places s o).1 (hb.once o)
  · intro o
    exact Nat.le_trans (count_le_places s o).2 (hb.once o)
  · have := hg.recv c; omega
  · have := hg.send c; omega

/-- The receives of two sessions fail; two workers tear them down, statement by statement in turn. -/
def teardownRun : List Ev :=
  [.accept 5] ++ List.replicate 9 (.run 0 true) ++ [.accept 6] ++ List.replicate 9 (.run 0 true) ++
    [.dispatch 1 0 .failed, .dispatch 2 0 .failed] ++ (List.replicate 10 [Ev.run 1 true, .run 2 true]).flatten

/-- Both are inside `CloseSession` at once. -/
theorem two_sessions_torn_down_give_back_once :
    (∀ c < 2, tally (Stmt.leavingRecv c) ((teardownRun.take 30).foldl step (boot 2)).threads = 1) ∧
      (teardownRun.foldl step (boot 2)).recvPool.waitingQueue.drop 2046 = [0, 1] ∧
      (teardownRun.foldl step (boot 2)).recvPool.waitingQueue.Nodup := by
  refine ⟨by rw [boot_eq]; decide +kernel, by rw [boot_eq]; decide +kernel,
    (structures_are_given_back_once (.run (.start ⟨2, rfl⟩) ?_)).1⟩
  rw [boot_eq]; decide +kernel

/-- The receive and the send of one session fail; both workers read the session before either
    clears a pointer. -/
def raceRun : List Ev :=
  [.accept 5] ++ List.replicate 9 (.run 0 true) ++
    [.write 0 (.load [1, 0, 1, 0x55, 7]), .flush 0 true, .dispatch 1 0 .failed, .dispatch 2 0 .failed] ++
    List.replicate 3 (.run 1 true) ++ List.replicate 3 (.run 2 true) ++ List.replicate 7 (.run 1 true) ++
    List.replicate 7 (.run 2 true)

theorem two_workers_give_back_twice :
    ¬ ∀ s, Reach (fun _ _ => True) s → s.recvPool.waitingQueue.Nodup ∧ s.sendPool.waitingQueue.Nodup ∧
      ∀ c, s.recvEnqueues c ≤ 1 ∧ s.sendEnqueues c ≤ 1 := by
  intro h
  have hr : Reach (fun _ _ => True) (raceRun.foldl step (boot 2)) := .any ⟨2, rfl⟩ _
  have hq : (raceRun.foldl step (boot 2)).recvPool.waitingQueue.drop 2047 = [0, 0] := by rw [boot_eq]; decide +kernel
  have := (h _ hr).1.sublist (List.drop_sublist 2047 _)
  rw [hq] at this
  revert this
  decide

end Server

end SigHolic.Network
