/-
  SigHolic.Iocp.OverlappedIoPool — the `OverlappedIO` structures and their pools
  (iocp/iocp_structure.h).

  A pointer is an address; a block of `n` structures takes `n` consecutive addresses no
  structure had before (`IoHeap`). Of a structure only its `Client` is kept: the
  `OVERLAPPED` fields are cleared by `Reset` and read by no function here.

  `dequeue_spec` says what `Dequeue` can do: hand out the front of the queue, or, when it
  is empty, grow the pool by a block and hand out the block's first structure. Neither the
  `throw` nor `front()` on an empty queue is reached.
-/

import Mathlib.Data.List.Basic
import SigHolic.Utility.Buffer

namespace SigHolic.Iocp

open SigHolic.Utility.Buffer (Fault)

structure OverlappedIO where
  /-- `Client`: the session's `shared_ptr`, by number. -/
  client : Option Nat

structure IoHeap where
  io : Nat → OverlappedIO
  next : Nat

namespace IoHeap

def alloc (h : IoHeap) (n : Nat) : IoHeap :=
  ⟨fun a => if h.next ≤ a ∧ a < h.next + n then ⟨none⟩ else h.io a, h.next + n⟩

def setClientObject (h : IoHeap) (o : Nat) (client : Option Nat) : IoHeap :=
  { h with io := Function.update h.io o ⟨client⟩ }

def getClientObject (h : IoHeap) (o : Nat) : Option Nat := (h.io o).client

@[simp] theorem alloc_next (h : IoHeap) (n : Nat) : (h.alloc n).next = h.next + n := rfl

@[simp] theorem setClientObject_next (h : IoHeap) (o : Nat) (c : Option Nat) : (h.setClientObject o c).next = h.next := rfl

@[simp] theorem get_set_same (h : IoHeap) (o : Nat) (c : Option Nat) :
    (h.setClientObject o c).getClientObject o = c := by
  simp [setClientObject, getClientObject]

theorem get_set_ne (h : IoHeap) {o a : Nat} (c : Option Nat) (hne : a ≠ o) :
    (h.setClientObject o c).getClientObject a = h.getClientObject a := by
  simp [setClientObject, getClientObject, hne]

theorem get_alloc_new (h : IoHeap) {n a : Nat} (ha : h.next ≤ a) (hn : a < h.next + n) :
    (h.alloc n).getClientObject a = none := by
  simp only [getClientObject, alloc]
  rw [if_pos ⟨ha, hn⟩]

end IoHeap

structure OverlappedIoPool where
  waitingQueue : List Nat
  /-- `m_dataPool`: each block's first address and element count. -/
  dataPool : List (Nat × Nat)

namespace OverlappedIoPool

def empty : OverlappedIoPool := ⟨[], []⟩

def enqueue (p : OverlappedIoPool) (o : Nat) : OverlappedIoPool := { p with waitingQueue := p.waitingQueue ++ [o] }

def enqueueBlock : OverlappedIoPool → Nat → Nat → OverlappedIoPool
  | p, _, 0 => p
  | p, insertPtr, n + 1 => enqueueBlock (p.enqueue insertPtr) (insertPtr + 1) n

def growPoolSize (h : IoHeap) (p : OverlappedIoPool) (elementCount : Int) : Bool × IoHeap × OverlappedIoPool :=
  if elementCount ≤ 0 then (false, h, p)
  else
    let n := elementCount.toNat
    (true, h.alloc n, enqueueBlock { p with dataPool := p.dataPool ++ [(h.next, n)] } h.next n)

def defaultIoPoolSize : Nat := 2048

def popFront (h : IoHeap) (p : OverlappedIoPool) : Except Fault (Nat × IoHeap × OverlappedIoPool) :=
  match p.waitingQueue with
  | [] => .error .badAccess
  | o :: queue => .ok (o, h, { p with waitingQueue := queue })

def dequeue (p : OverlappedIoPool) (h : IoHeap) : Except Fault (Nat × IoHeap × OverlappedIoPool) :=
  if p.waitingQueue.length = 0 then
    let r := growPoolSize h p defaultIoPoolSize
    if r.1 = false then .error .thrown else popFront r.2.1 r.2.2
  else popFront h p

/-- `Clear`: the blocks are deleted. Their addresses are not used again: a pointer to a
    deleted structure points to no later one. -/
def clear (_ : OverlappedIoPool) : OverlappedIoPool := ⟨[], []⟩

theorem enqueueBlock_eq : ∀ (n : Nat) (p : OverlappedIoPool) (insertPtr : Nat),
    enqueueBlock p insertPtr n = { p with waitingQueue := p.waitingQueue ++ List.range' insertPtr n } := by
  intro n
  induction n with
  | zero => intro p o; simp [enqueueBlock]
  | succ n ih => intro p o; simp [enqueueBlock, ih, enqueue, List.range'_succ]

theorem growPoolSize_eq (h : IoHeap) (p : OverlappedIoPool) {n : Nat} (hn : 0 < n) :
    growPoolSize h p n =
      (true, h.alloc n, ⟨p.waitingQueue ++ List.range' h.next n, p.dataPool ++ [(h.next, n)]⟩) := by
  unfold growPoolSize
  rw [if_neg (by omega)]
  simp only [Int.toNat_natCast, enqueueBlock_eq]

/-- What `Dequeue` can do. -/
theorem dequeue_spec (h : IoHeap) (p : OverlappedIoPool) :
    (∃ o queue, p.waitingQueue = o :: queue ∧ dequeue p h = .ok (o, h, { p with waitingQueue := queue })) ∨
    (p.waitingQueue = [] ∧ dequeue p h = .ok (h.next, h.alloc defaultIoPoolSize,
      ⟨List.range' (h.next + 1) (defaultIoPoolSize - 1), p.dataPool ++ [(h.next, defaultIoPoolSize)]⟩)) := by
  cases hq : p.waitingQueue with
  | cons o queue =>
    refine Or.inl ⟨o, queue, rfl, ?_⟩
    simp [dequeue, popFront, hq]
  | nil =>
    refine Or.inr ⟨rfl, ?_⟩
    have hg := growPoolSize_eq h p (n := defaultIoPoolSize) (by decide)
    simp only [dequeue, hq, List.length_nil, if_true, hg, List.nil_append]
    rfl

/-- Where the structures are after `Dequeue`: the one handed out is out of the queue, those of
    a new block are in it, unbound. -/
theorem dequeue_moves (h : IoHeap) (p : OverlappedIoPool) :
    ∃ o h' p', dequeue p h = .ok (o, h', p') ∧ h.next ≤ h'.next ∧
      (∀ a, p'.waitingQueue.count a + (if o = a then 1 else 0) =
        p.waitingQueue.count a + if h.next ≤ a ∧ a < h'.next then 1 else 0) ∧
      ∀ a, h'.getClientObject a = if h.next ≤ a ∧ a < h'.next then none else h.getClientObject a := by
  rcases dequeue_spec h p with ⟨o, queue, hq, hd⟩ | ⟨hq, hd⟩
  · refine ⟨o, h, _, hd, Nat.le_refl _, ?_, ?_⟩
    · intro a
      rw [if_neg (by omega : ¬(h.next ≤ a ∧ a < h.next)), hq, List.count_cons]
      simp
    · intro a
      rw [if_neg (by omega)]
  · refine ⟨h.next, _, _, hd, by simp, fun a => ?_, fun a => ?_⟩
    · have hc := List.count_cons (a := a) (b := h.next) (l := List.range' (h.next + 1) (defaultIoPoolSize - 1))
      rw [← List.range'_succ, List.count_range_1'] at hc
      simp only [beq_iff_eq] at hc
      rw [hq, List.count_nil, Nat.zero_add, IoHeap.alloc_next]
      exact hc.symm
    · by_cases ha : h.next ≤ a ∧ a < h.next + defaultIoPoolSize
      · rw [IoHeap.alloc_next, if_pos ha, IoHeap.get_alloc_new h ha.1 ha.2]
      · rw [IoHeap.alloc_next, if_neg ha]
        simp only [IoHeap.getClientObject, IoHeap.alloc]
        rw [if_neg ha]

def Allocated (p : OverlappedIoPool) (o : Nat) : Prop := ∃ b ∈ p.dataPool, b.1 ≤ o ∧ o < b.1 + b.2

instance (p : OverlappedIoPool) (o : Nat) : Decidable (p.Allocated o) :=
  inferInstanceAs (Decidable (∃ b ∈ p.dataPool, b.1 ≤ o ∧ o < b.1 + b.2))

/-- `Dequeue` allocates what it adds to the heap. -/
theorem dequeue_allocated {h h' : IoHeap} {p p' : OverlappedIoPool} {o : Nat} (hd : dequeue p h = .ok (o, h', p')) (a : Nat) :
    p'.Allocated a ↔ p.Allocated a ∨ (h.next ≤ a ∧ a < h'.next) := by
  rcases dequeue_spec h p with ⟨o', queue, hq, he⟩ | ⟨hq, he⟩ <;> (rw [he] at hd; cases hd)
  · simp only [Allocated]
    constructor
    · exact Or.inl
    · intro hin
      rcases hin with ha | ⟨h1, h2⟩
      · exact ha
      · omega
  · simp [Allocated, or_and_right, exists_or]

end OverlappedIoPool

end SigHolic.Iocp
