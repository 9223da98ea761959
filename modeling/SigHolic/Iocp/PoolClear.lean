/-
  SigHolic.Iocp.PoolClear — `OverlappedIoPool` with `Clear` (iocp/iocp_structure.h).

  `Clear` deletes every block and empties the queue. What should happen when structures are
  in use then is an open question of the source; they stay with their holders (`stale`), and
  `CloseSession` gives them back later without asking. `Enqueue` takes any pointer.

  Proved: `the_queue_is_allocated_iff_nothing_stale_is_given_back`: every pointer in the
  queue is in a block of the pool, and every one handed out too, through exactly the runs
  in which no structure taken before a `Clear` is given back after it.
-/

import SigHolic.Base.Runs
import SigHolic.Iocp.OverlappedIoPool

namespace SigHolic.Iocp

open SigHolic.Base.Runs OverlappedIoPool

structure ClearedPool where
  heap : IoHeap
  pool : OverlappedIoPool
  /-- Handed out since the last `Clear`, and before it; not given back. -/
  held : List Nat
  stale : List Nat

namespace ClearedPool

def start (heap : IoHeap) : ClearedPool := ⟨heap, .empty, [], []⟩

inductive Ev where
  | dequeue
  | enqueue (o : Nat)
  | growPoolSize (elementCount : Int)
  | clear
  /-- Another `new`. -/
  | alloc (n : Nat)

def step (s : ClearedPool) : Ev → ClearedPool
  | .dequeue =>
    match s.pool.dequeue s.heap with
    | .error _ => s
    | .ok (o, heap, pool) => { s with heap := heap, pool := pool, held := o :: s.held }
  | .enqueue o =>
    if o ∈ s.held then { s with pool := s.pool.enqueue o, held := s.held.erase o }
    else { s with pool := s.pool.enqueue o, stale := s.stale.erase o }
  | .growPoolSize elementCount =>
    let r := growPoolSize s.heap s.pool elementCount
    { s with heap := r.2.1, pool := r.2.2 }
  | .clear => { s with pool := s.pool.clear, held := [], stale := s.stale ++ s.held }
  | .alloc n => { s with heap := s.heap.alloc n }

/-- What is given back was taken and not given back yet. -/
def InHand (s : ClearedPool) : Ev → Prop
  | .enqueue o => o ∈ s.held ∨ o ∈ s.stale
  | _ => True

instance (s : ClearedPool) : (e : Ev) → Decidable (s.InHand e)
  | .enqueue o => inferInstanceAs (Decidable (o ∈ s.held ∨ o ∈ s.stale))
  | .dequeue | .growPoolSize _ | .clear | .alloc _ => inferInstanceAs (Decidable True)

/-- What is given back was not taken before a `Clear`. -/
def NotStale (s : ClearedPool) : Ev → Prop
  | .enqueue o => o ∉ s.stale
  | _ => True

instance (s : ClearedPool) : (e : Ev) → Decidable (s.NotStale e)
  | .enqueue o => inferInstanceAs (Decidable (o ∉ s.stale))
  | .dequeue | .growPoolSize _ | .clear | .alloc _ => inferInstanceAs (Decidable True)

/-- After the step every pointer in the queue is in a block of the pool, and so is one the step hands out. -/
def Safe (s : ClearedPool) (e : Ev) : Prop :=
  (∀ a ∈ (s.step e).pool.waitingQueue, (s.step e).pool.Allocated a) ∧
    (e = .dequeue → ∀ o heap pool, s.pool.dequeue s.heap = .ok (o, heap, pool) → pool.Allocated o)

structure Inv (s : ClearedPool) : Prop where
  queue : ∀ a ∈ s.pool.waitingQueue, s.pool.Allocated a
  held : ∀ a ∈ s.held, s.pool.Allocated a
  /-- A deleted structure's address is used, and in no block. -/
  stale : ∀ a ∈ s.stale, a < s.heap.next ∧ ¬ s.pool.Allocated a
  below : ∀ a, s.pool.Allocated a → a < s.heap.next

structure Grown (s s' : ClearedPool) : Prop where
  next : s.heap.next ≤ s'.heap.next
  allocated : ∀ a, s'.pool.Allocated a ↔ s.pool.Allocated a ∨ (s.heap.next ≤ a ∧ a < s'.heap.next)
  queue : ∀ a ∈ s'.pool.waitingQueue, a ∈ s.pool.waitingQueue ∨ (s.heap.next ≤ a ∧ a < s'.heap.next)
  held : ∀ a ∈ s'.held, a ∈ s.held ∨ a ∈ s.pool.waitingQueue ∨ (s.heap.next ≤ a ∧ a < s'.heap.next)
  stale : s'.stale = s.stale

theorem Inv.grown {s s' : ClearedPool} (h : s.Inv) (hg : Grown s s') : s'.Inv := by
  refine ⟨?_, ?_, ?_, ?_⟩
  · intro a ha
    rw [hg.allocated]
    exact (hg.queue a ha).imp_left (h.queue a)
  · intro a ha
    rw [hg.allocated]
    rcases hg.held a ha with ha | ha | ha
    · exact Or.inl (h.held a ha)
    · exact Or.inl (h.queue a ha)
    · exact Or.inr ha
  · intro a ha
    rw [hg.stale] at ha
    obtain ⟨hlt, hno⟩ := h.stale a ha
    have := hg.next
    rw [hg.allocated]
    refine ⟨by omega, fun ha => ha.elim hno fun hnew => ?_⟩
    omega
  · intro a ha
    rw [hg.allocated] at ha
    have := hg.next
    rcases ha with ha | ha
    · have := h.below a ha
      omega
    · exact ha.2

theorem dequeue_grown (s : ClearedPool) : Grown s (s.step .dequeue) := by
  rcases s.pool.dequeue_spec s.heap with ⟨o, queue, hq, hd⟩ | ⟨hq, hd⟩ <;> simp only [step, hd]
  · refine ⟨Nat.le_refl _, ?_, ?_, ?_, rfl⟩
    · intro a
      exact dequeue_allocated hd a
    · intro a ha
      exact Or.inl (hq ▸ List.mem_cons_of_mem o ha)
    · intro a ha
      rcases List.mem_cons.mp ha with rfl | ha
      · exact Or.inr (Or.inl (hq ▸ List.mem_cons_self))
      · exact Or.inl ha
  · have hsize : 0 < defaultIoPoolSize := by decide
    refine ⟨Nat.le_add_right _ _, ?_, ?_, ?_, rfl⟩
    · intro a
      exact dequeue_allocated hd a
    · intro a ha
      have hrange := List.mem_range'_1.mp ha
      refine Or.inr ⟨by omega, ?_⟩
      show a < s.heap.next + defaultIoPoolSize
      omega
    · intro a ha
      rcases List.mem_cons.mp ha with rfl | ha
      · exact Or.inr (Or.inr ⟨Nat.le_refl _, Nat.lt_add_of_pos_right hsize⟩)
      · exact Or.inl ha

theorem growPoolSize_grown (s : ClearedPool) (elementCount : Int) : Grown s (s.step (.growPoolSize elementCount)) := by
  by_cases hn : elementCount ≤ 0
  · have hsame : growPoolSize s.heap s.pool elementCount = (false, s.heap, s.pool) := if_pos hn
    simp only [step, hsame]
    refine ⟨Nat.le_refl _, fun a => ⟨Or.inl, fun ha => ?_⟩, fun _ ha => Or.inl ha, fun _ ha => Or.inl ha, rfl⟩
    exact ha.resolve_right fun hnew => absurd hnew.2 (Nat.not_lt.mpr hnew.1)
  · obtain ⟨n, rfl⟩ := Int.eq_ofNat_of_zero_le (a := elementCount) (by omega)
    simp only [step, growPoolSize_eq s.heap s.pool (n := n) (by omega)]
    refine ⟨Nat.le_add_right _ _, ?_, ?_, fun _ ha => Or.inl ha, rfl⟩
    · intro a
      simp [Allocated, or_and_right, exists_or]
    · intro a ha
      exact (List.mem_append.mp ha).imp_right List.mem_range'_1.mp

theorem inv_step {s : ClearedPool} (h : s.Inv) {e : Ev} (hhand : s.InHand e) (hfresh : s.NotStale e) : (s.step e).Inv := by
  cases e with
  | dequeue => exact h.grown (dequeue_grown s)
  | growPoolSize elementCount => exact h.grown (growPoolSize_grown s elementCount)
  | enqueue o =>
    have ho : o ∈ s.held := hhand.resolve_right hfresh
    simp only [step, ho, if_true]
    refine ⟨fun a ha => ?_, fun a ha => h.held a (List.mem_of_mem_erase ha), h.stale, h.below⟩
    rcases List.mem_append.mp ha with ha | ha
    · exact h.queue a ha
    · rw [List.mem_singleton.mp ha]
      exact h.held o ho
  | clear =>
    have hnone : ∀ a, ¬ (s.pool.clear).Allocated a := by simp [Allocated, OverlappedIoPool.clear]
    refine ⟨?_, ?_, ?_, ?_⟩
    · intro a ha
      cases ha
    · intro a ha
      cases ha
    · intro a ha
      refine ⟨?_, hnone a⟩
      rcases List.mem_append.mp ha with ha | ha
      · exact (h.stale a ha).1
      · exact h.below a (h.held a ha)
    · intro a ha
      exact absurd ha (hnone a)
  | alloc n => exact ⟨h.queue, h.held, fun a ha => ⟨Nat.lt_add_right n (h.stale a ha).1, (h.stale a ha).2⟩,
      fun a ha => Nat.lt_add_right n (h.below a ha)⟩

/-- A step is safe if and only if it gives nothing stale back. -/
theorem safe_iff {s : ClearedPool} (h : s.Inv) {e : Ev} (hhand : s.InHand e) : s.Safe e ↔ s.NotStale e := by
  constructor
  · intro hsafe
    cases e with
    | enqueue o =>
      intro hstale
      -- the queue's last pointer is in no block
      refine (h.stale o hstale).2 ?_
      have hlast := hsafe.1 o
      by_cases ho : o ∈ s.held <;> simp only [step, ho, if_true, if_false] at hlast <;> exact hlast (by simp [enqueue])
    | dequeue => trivial
    | growPoolSize elementCount => trivial
    | clear => trivial
    | alloc n => trivial
  · intro hfresh
    have hnext := inv_step h hhand hfresh
    refine ⟨hnext.queue, fun he o heap pool hd => ?_⟩
    subst he
    have ho := hnext.held o
    simp only [step, hd] at ho
    exact ho List.mem_cons_self

theorem start_inv (heap : IoHeap) : (start heap).Inv := by
  have hnone : ∀ a, ¬ OverlappedIoPool.empty.Allocated a := by simp [Allocated, OverlappedIoPool.empty]
  refine ⟨?_, ?_, ?_, ?_⟩
  · intro a ha
    cases ha
  · intro a ha
    cases ha
  · intro a ha
    cases ha
  · intro a ha
    exact absurd ha (hnone a)

/-- Through a run every pointer in the queue is in a block of the pool, and every one handed out, if and only if no
    structure taken before a `Clear` is given back after it. -/
theorem the_queue_is_allocated_iff_nothing_stale_is_given_back (heap : IoHeap) (es : List Ev)
    (h : Along step InHand (start heap) es) : Along step Safe (start heap) es ↔ Along step NotStale (start heap) es :=
  along_congr (P := Inv) (fun _ _ hi hhand hsafe => inv_step hi hhand ((safe_iff hi hhand).mp hsafe))
    (fun _ _ hi hhand => safe_iff hi hhand) (start_inv heap) h

def lateCloseRun : List Ev := [.growPoolSize 2, .dequeue, .clear, .enqueue 0]

/-- Its structure is in the queue, and the pool has no block. -/
theorem a_deleted_structure_waits :
    Along step InHand (start ⟨fun _ => ⟨none⟩, 0⟩) lateCloseRun ∧
      (lateCloseRun.foldl step (start ⟨fun _ => ⟨none⟩, 0⟩)).pool.waitingQueue = [0] ∧
      (lateCloseRun.foldl step (start ⟨fun _ => ⟨none⟩, 0⟩)).pool.dataPool = [] ∧
      ¬ Along step Safe (start ⟨fun _ => ⟨none⟩, 0⟩) lateCloseRun := by
  refine ⟨by decide +kernel, by decide +kernel, by decide +kernel, fun h => ?_⟩
  have hlast := h.2.2.2.1.1 0 (by decide +kernel)
  exact absurd hlast (by decide +kernel)

def earlyCloseRun : List Ev := [.growPoolSize 2, .dequeue, .enqueue 0, .clear]

theorem an_early_close_is_safe :
    Along step InHand (start ⟨fun _ => ⟨none⟩, 0⟩) earlyCloseRun ∧
      Along step Safe (start ⟨fun _ => ⟨none⟩, 0⟩) earlyCloseRun := by
  have hhand : Along step InHand (start ⟨fun _ => ⟨none⟩, 0⟩) earlyCloseRun := by decide +kernel
  exact ⟨hhand, (the_queue_is_allocated_iff_nothing_stale_is_given_back _ _ hhand).mpr (by decide +kernel)⟩

end ClearedPool

end SigHolic.Iocp
