/-
  SigHolic.Network.PoolLocks — the functions of the two pools, statement by statement, under
  their locks (iocp/iocp_structure.h, network/tcp_session_pool.cpp).

  Every function of a pool opens with an `AutoLock` on the pool's lock. Taking from an
  empty pool grows it, and growing puts every object of the new block into the queue through
  the public function, so the lock is entered up to three times. A pool may be built with no lock (a null
  `ILock`); then its functions run as they stand.

  Any number of threads call the functions, and their statements interleave in any order.
  `skip` is how many addresses others have taken when `new` runs.

  Proved:
  - with its lock, `OverlappedIoPool` is what the calls make of it one after the other, in the order in which they
    got the lock, and each call answers what it answers there (`pool_calls_are_serial`);
    `TcpSessionPool` likewise (`ClientPool.serial_calls`);
  - no call waits for ever (`pool_calls_return`);
  - while nothing is given back, no session is handed out twice, exactly if the pool has its lock
    (`sessions_are_handed_out_once_iff_locked`).
-/

import SigHolic.Base.Sections
import SigHolic.Network.Pools

namespace SigHolic.Network

open SigHolic.Base SigHolic.Base.Runs SigHolic.Base.BlockPool SigHolic.Base.Sections SigHolic.Base.Sections.Prog SigHolic.Iocp
open SigHolic.Utility.Buffer (Fault)

/-! ## `OverlappedIoPool` -/

namespace IoPool

structure Store where
  heap : IoHeap
  pool : OverlappedIoPool

inductive Answer where
  | object (o : Nat)
  | grown (b : Bool)
  | void
  | fault (f : Fault)
  deriving DecidableEq

def push (o : Nat) : Prog Store Unit := modify fun s => { s with pool := s.pool.enqueue o }

def newBlock (skip n : Nat) : Prog Store Nat :=
  .act (fun s => { s with heap := (s.heap.alloc skip).alloc n }) fun s => .done (s.heap.next + skip)

def pushBack (allocArray n : Nat) : Prog Store Unit :=
  modify fun s => { s with pool := { s.pool with dataPool := s.pool.dataPool ++ [(allocArray, n)] } }

def enqueue (lock : Bool) (o : Nat) : Prog Store Unit := autoLock lock (push o)

def enqueueBlock (lock : Bool) : Nat → Nat → Prog Store Unit
  | _, 0 => pure ()
  | insertPtr, n + 1 => do
    enqueue lock insertPtr
    enqueueBlock lock (insertPtr + 1) n

def growPoolSize (lock : Bool) (skip : Nat) (elementCount : Int) : Prog Store Bool := autoLock lock <|
  if elementCount ≤ 0 then pure false
  else do
    let allocArray ← newBlock skip elementCount.toNat
    pushBack allocArray elementCount.toNat
    enqueueBlock lock allocArray elementCount.toNat
    pure true

/-- `front()` and `pop()`, two statements. -/
def popFront : Prog Store Answer := do
  let s ← read
  match s.pool.waitingQueue.head? with
  | none => pure (.fault .badAccess)
  | some o => do
    modify fun s => { s with pool := { s.pool with waitingQueue := s.pool.waitingQueue.tail } }
    pure (.object o)

def dequeue (lock : Bool) (skip : Nat) : Prog Store Answer := autoLock lock do
  let s ← read
  if s.pool.waitingQueue.length = 0 then do
    let grown ← growPoolSize lock skip OverlappedIoPool.defaultIoPoolSize
    if grown = false then pure (.fault .thrown) else popFront
  else popFront

inductive Call where
  | dequeue (skip : Nat)
  | enqueue (o : Nat)
  | growPoolSize (skip : Nat) (elementCount : Int)

def code (lock : Bool) : Call → Prog Store Answer
  | .dequeue skip => dequeue lock skip
  | .enqueue o => enqueue lock o >>= fun _ => pure .void
  | .growPoolSize skip elementCount => growPoolSize lock skip elementCount >>= fun b => pure (.grown b)

/-! ### Each call alone -/

/-- The pool after a call, with nobody else running. -/
def atomic (s : IoPool) : Call → IoPool
  | .dequeue skip => if s.pool.waitingQueue.length = 0 then (s.step (.alloc skip)).step .dequeue else s.step .dequeue
  | .enqueue o => s.step (.enqueue o)
  | .growPoolSize skip elementCount =>
    if elementCount ≤ 0 then s.step (.growPoolSize elementCount)
    else (s.step (.alloc skip)).step (.growPoolSize elementCount)

def answer (s : IoPool) : Call → Answer
  | .dequeue skip =>
    match s.pool.dequeue (if s.pool.waitingQueue.length = 0 then s.heap.alloc skip else s.heap) with
    | .error f => .fault f
    | .ok (o, _, _) => .object o
  | .enqueue _ => .void
  | .growPoolSize _ elementCount => .grown (OverlappedIoPool.growPoolSize s.heap s.pool elementCount).1

def store (s : IoPool) : Store := ⟨s.heap, s.pool⟩

@[simp] theorem alone_enqueue (lock : Bool) (o : Nat) (s : Store) :
    (enqueue lock o).alone s = ((), { s with pool := s.pool.enqueue o }) := by
  simp [enqueue, push]

@[simp] theorem alone_enqueueBlock (lock : Bool) (insertPtr n : Nat) (s : Store) :
    (enqueueBlock lock insertPtr n).alone s = ((), { s with pool := OverlappedIoPool.enqueueBlock s.pool insertPtr n }) := by
  induction n generalizing insertPtr s with
  | zero => rfl
  | succ n ih => simp [enqueueBlock, ih, OverlappedIoPool.enqueueBlock]

theorem alone_growPoolSize (lock : Bool) (skip : Nat) (elementCount : Int) (s : Store) :
    (growPoolSize lock skip elementCount).alone s =
      let r := OverlappedIoPool.growPoolSize (if elementCount ≤ 0 then s.heap else s.heap.alloc skip) s.pool elementCount
      (r.1, ⟨r.2.1, r.2.2⟩) := by
  by_cases hn : elementCount ≤ 0
  · simp [growPoolSize, OverlappedIoPool.growPoolSize, hn]
  · simp only [growPoolSize, OverlappedIoPool.growPoolSize, hn, if_false, alone_autoLock, alone_bind, alone_enqueueBlock]
    rfl

theorem alone_popFront (s : Store) :
    popFront.alone s =
      match OverlappedIoPool.popFront s.heap s.pool with
      | .error f => (.fault f, s)
      | .ok (o, heap, pool) => (.object o, ⟨heap, pool⟩) := by
  obtain ⟨heap, queue, dataPool⟩ := s
  cases queue <;> rfl

theorem alone_dequeue (lock : Bool) (skip : Nat) (s : IoPool) :
    (dequeue lock skip).alone s.store = (s.answer (.dequeue skip), (s.atomic (.dequeue skip)).store) := by
  rcases s.pool.dequeue_spec (if s.pool.waitingQueue.length = 0 then s.heap.alloc skip else s.heap) with
    ⟨o, queue, hq, hd⟩ | ⟨hq, hd⟩
  · simp only [hq, List.length_cons, Nat.add_one_ne_zero, if_false] at hd
    simp only [dequeue, alone_autoLock, alone_bind, alone_read, store, hq, List.length_cons, Nat.add_one_ne_zero, if_false,
      alone_popFront, OverlappedIoPool.popFront, answer, atomic, step, hd]
  · -- the first structure of the new block is at the front
    have hpop : popFront.alone ⟨(s.heap.alloc skip).alloc OverlappedIoPool.defaultIoPoolSize,
        ⟨List.range' (s.heap.alloc skip).next OverlappedIoPool.defaultIoPoolSize,
          s.pool.dataPool ++ [((s.heap.alloc skip).next, OverlappedIoPool.defaultIoPoolSize)]⟩⟩ =
        (.object (s.heap.alloc skip).next, ⟨(s.heap.alloc skip).alloc OverlappedIoPool.defaultIoPoolSize,
          ⟨List.range' ((s.heap.alloc skip).next + 1) (OverlappedIoPool.defaultIoPoolSize - 1),
            s.pool.dataPool ++ [((s.heap.alloc skip).next, OverlappedIoPool.defaultIoPoolSize)]⟩⟩) := rfl
    have hsize : ¬ ((OverlappedIoPool.defaultIoPoolSize : Int) ≤ 0) := by decide
    have hgrow := OverlappedIoPool.growPoolSize_eq (s.heap.alloc skip) s.pool
      (n := OverlappedIoPool.defaultIoPoolSize) (by decide)
    simp only [hq, List.length_nil, if_true, List.nil_append] at hd hgrow
    simp only [dequeue, alone_autoLock, alone_bind, alone_read, store, hq, List.length_nil, if_true, alone_growPoolSize,
      hsize, if_false, hgrow, Bool.true_eq_false, hpop, answer, atomic, step, hd]

theorem alone_code (lock : Bool) (c : Call) (s : IoPool) :
    (code lock c).alone s.store = (s.answer c, (s.atomic c).store) := by
  cases c with
  | dequeue skip => exact alone_dequeue lock skip s
  | enqueue o => simp [code, store, answer, atomic, step]
  | growPoolSize skip elementCount =>
    simp only [code, alone_bind, alone_growPoolSize, answer, atomic, store, alone_pure]
    by_cases hn : elementCount ≤ 0
    · simp [hn, step]
    · simp [hn, step, OverlappedIoPool.growPoolSize]

/-! ### One section each -/

theorem nested_enqueue (lock : Bool) (o : Nat) : Nested 0 (enqueue lock o) := nested_autoLock lock (nested_modify _)

theorem nested_enqueueBlock (lock : Bool) (insertPtr n : Nat) : Nested 0 (enqueueBlock lock insertPtr n) := by
  induction n generalizing insertPtr with
  | zero => exact nested_pure ()
  | succ n ih => exact nested_bind (nested_enqueue lock insertPtr) fun _ => ih _

theorem nested_growBody (lock : Bool) (skip : Nat) (elementCount : Int) :
    Nested 0 (if elementCount ≤ 0 then pure false
      else do
        let allocArray ← newBlock skip elementCount.toNat
        pushBack allocArray elementCount.toNat
        enqueueBlock lock allocArray elementCount.toNat
        pure true : Prog Store Bool) := by
  split
  · exact nested_pure false
  · refine nested_bind (.act fun s => .done _) fun allocArray => ?_
    refine nested_bind (nested_modify _) fun _ => ?_
    exact nested_bind (nested_enqueueBlock lock _ _) fun _ => nested_pure true

theorem nested_popFront : Nested 0 popFront := by
  refine nested_bind nested_read fun s => ?_
  split
  · exact nested_pure _
  · exact nested_bind (nested_modify _) fun _ => nested_pure _

theorem locked_code (c : Call) : Locked (code true c) := by
  cases c with
  | dequeue skip =>
    refine locked_autoLock (nested_bind nested_read fun s => ?_)
    split
    · refine nested_bind (nested_autoLock true (nested_growBody true skip _)) fun grown => ?_
      split
      · exact nested_pure _
      · exact nested_popFront
    · exact nested_popFront
  | enqueue o => exact locked_map (locked_autoLock (nested_modify _)) _
  | growPoolSize skip elementCount => exact locked_map (locked_autoLock (nested_growBody true skip elementCount)) _

/-! ### The calls in the order of the lock -/

def serialPool (heap : IoHeap) (order : List Call) : IoPool := order.foldl atomic (.start heap)

def CallGivesHeld (s : IoPool) : Call → Prop
  | .enqueue o => o ∈ s.held
  | _ => True

instance (s : IoPool) : (c : Call) → Decidable (s.CallGivesHeld c)
  | .enqueue o => inferInstanceAs (Decidable (o ∈ s.held))
  | .dequeue _ | .growPoolSize _ _ => inferInstanceAs (Decidable True)

/-- The code, alone, does what `serialPool` does, and answers so. -/
theorem sequential_eq (lock : Bool) (heap : IoHeap) (order : List Call) :
    answers (sequential (code lock)) ⟨heap, .empty⟩ order =
      answers (fun s c => (answer s c, atomic s c)) (.start heap) order ∧
      serialObject (code lock) ⟨heap, .empty⟩ order = (serialPool heap order).store := by
  have hstep : ∀ (m : Store) (s : IoPool) (c : Call), m = s.store → True →
      (sequential (code lock) m c).1 = answer s c ∧ (sequential (code lock) m c).2 = (s.atomic c).store := by
    intro m s c hm _
    subst hm
    have halone := alone_code lock c s
    exact ⟨congrArg Prod.fst halone, congrArg Prod.snd halone⟩
  exact answers_eq (R := fun m s => m = store s) hstep rfl (along_of_mem fun _ _ _ => trivial)

theorem sound_event {s : IoPool} (h : s.abs.Sound) {e : Ev} (he : s.GivesHeld e) : (s.step e).abs.Sound := by
  rw [refines.steps]
  exact sound_step h _ (gives he)

theorem sound_atomic {s : IoPool} (h : s.abs.Sound) {c : Call} (hc : s.CallGivesHeld c) : (s.atomic c).abs.Sound := by
  have halloc : ∀ skip, (s.step (.alloc skip)).abs.Sound := fun skip => sound_event h trivial
  cases c with
  | dequeue skip =>
    simp only [atomic]
    split
    · exact sound_event (halloc skip) trivial
    · exact sound_event h trivial
  | enqueue o => exact sound_event h hc
  | growPoolSize skip elementCount =>
    simp only [atomic]
    split
    · exact sound_event h trivial
    · exact sound_event (halloc skip) trivial

theorem serialPool_sound {heap : IoHeap} {order : List Call} (h : Along atomic CallGivesHeld (.start heap) order) :
    (serialPool heap order).abs.Sound := by
  unfold serialPool
  induction order using List.reverseRecOn with
  | nil => exact start_sound heap.next
  | append_singleton order c ih =>
    rw [along_concat] at h
    rw [List.foldl_concat]
    exact sound_atomic (ih h.1) h.2

/-- Taking a structure always succeeds. -/
theorem answer_no_fault (s : IoPool) (c : Call) (f : Fault) : s.answer c ≠ .fault f := by
  cases c with
  | dequeue skip =>
    obtain ⟨o, heap, pool, hd, -⟩ :=
      OverlappedIoPool.dequeue_moves (if s.pool.waitingQueue.length = 0 then s.heap.alloc skip else s.heap) s.pool
    simp only [answer, hd, ne_eq, reduceCtorEq, not_false_eq_true]
  | enqueue o => simp [answer]
  | growPoolSize skip elementCount => simp [answer]

end IoPool

/-- `OverlappedIoPool` under its lock, in every interleaving of the statements of its callers: when the lock is free the pool
    is what the calls make of it one after the other in the order of the lock; a call returns what it answers at its place there,
    and no taking fails; while that order gives back only what is held, every structure of every block waits or is
    held, once, and they come out in the order they were put in. -/
theorem pool_calls_are_serial (heap : IoHeap) {s : Machine IoPool.Call IoPool.Store IoPool.Answer}
    (h : Reached (IoPool.code true) ⟨heap, .empty⟩ s) :
    (s.lock = none → s.object = (IoPool.serialPool heap s.order).store) ∧
      (∀ x ∈ s.returns, ∃ i, x.place = some i ∧ s.order[i]? = some x.call ∧
        x.answer = (IoPool.serialPool heap (s.order.take i)).answer x.call ∧ ∀ f, x.answer ≠ .fault f) ∧
      (s.returns.filterMap Return.place).Nodup ∧
      (Along IoPool.atomic IoPool.CallGivesHeld (.start heap) s.order →
        OneHolder (IoPool.serialPool heap s.order).pool.waitingQueue (IoPool.serialPool heap s.order).held
          (IoPool.serialPool heap s.order).given (IoPool.serialPool heap s.order).taken
          ((IoPool.serialPool heap s.order).pool.dataPool.map Prod.snd)) := by
  obtain ⟨hfree, hreturns, honce⟩ := serial IoPool.locked_code h
  obtain ⟨hanswers, hobject⟩ := IoPool.sequential_eq true heap s.order
  refine ⟨?_, ?_, honce, fun hg => (IoPool.serialPool_sound hg).oneHolder⟩
  · intro hl
    rw [hfree hl, hobject]
  · intro x hx
    obtain ⟨i, hplace, hcall, hanswer⟩ := hreturns x hx
    rw [hanswers] at hanswer
    have heq : x.answer = (IoPool.serialPool heap (s.order.take i)).answer x.call := answers_at hcall hanswer
    refine ⟨i, hplace, hcall, heq, ?_⟩
    intro f
    rw [heq]
    exact IoPool.answer_no_fault _ _ f

def runIoPool (heap : IoHeap) (es : List (Sections.Ev IoPool.Call)) : Machine IoPool.Call IoPool.Store IoPool.Answer :=
  es.foldl (Machine.step (IoPool.code true)) (.start ⟨heap, .empty⟩)

/-- One thread grows an empty pool by two while another takes: it waits for the lock, and gets the first. -/
def growAndTake : List (Sections.Ev IoPool.Call) :=
  [.call 0 (.growPoolSize 5 2), .call 1 (.dequeue 0), .run 0, .run 1, .run 0, .run 1] ++ List.replicate 9 (.run 0) ++
    List.replicate 6 (.run 1)

theorem a_take_waits_for_the_block :
    (runIoPool ⟨fun _ => ⟨none⟩, 0⟩ growAndTake).returns.map Return.answer = [.grown true, .object 5] ∧
      (runIoPool ⟨fun _ => ⟨none⟩, 0⟩ growAndTake).object =
        (IoPool.serialPool ⟨fun _ => ⟨none⟩, 0⟩ (runIoPool ⟨fun _ => ⟨none⟩, 0⟩ growAndTake).order).store := by
  refine ⟨by decide +kernel, ?_⟩
  exact (pool_calls_are_serial ⟨fun _ => ⟨none⟩, 0⟩ (reached _ _ growAndTake)).1 (by decide +kernel)

/-! ## `TcpSessionPool` -/

namespace ClientPool

structure Store where
  next : Nat
  pool : TcpSessionPool

inductive Answer where
  | client (a : Nat)
  | bool (b : Bool)
  | void
  | fault (f : Fault)
  deriving DecidableEq

def newClients (skip : Nat) : Prog Store Nat :=
  .act (fun s => { s with next := s.next + skip + TcpSessionPool.numInitCcu }) fun s => .done (s.next + skip)

def pushBack (allocData : Nat) : Prog Store Unit :=
  modify fun s => { s with pool := { s.pool with dataPool := s.pool.dataPool ++ [allocData] } }

def pushWaitQueue (lock : Bool) (client : Nat) : Prog Store Unit :=
  autoLock lock (modify fun s => { s with pool := s.pool.pushWaitQueue client })

def pushBlock (lock : Bool) : Nat → Nat → Prog Store Unit
  | _, 0 => pure ()
  | pushBackPtr, n + 1 => do
    pushWaitQueue lock pushBackPtr
    pushBlock lock (pushBackPtr + 1) n

def growWaitPoolSize (lock : Bool) (skip : Nat) : Prog Store Bool := autoLock lock do
  let allocData ← newClients skip
  pushBack allocData
  pushBlock lock allocData TcpSessionPool.numInitCcu
  pure true

def popFront : Prog Store Answer := do
  let s ← read
  match s.pool.waitClients.head? with
  | none => pure (.fault .badAccess)
  | some a => do
    modify fun s => { s with pool := { s.pool with waitClients := s.pool.waitClients.tail } }
    pure (.client a)

def popFromWaitQueue (lock : Bool) (skip : Nat) : Prog Store Answer := autoLock lock do
  let s ← read
  if s.pool.waitClients.length ≤ 0 then do
    let _ ← growWaitPoolSize lock skip
    popFront
  else popFront

def checkWaitPoolSize (lock : Bool) : Prog Store Bool := autoLock lock do
  let s ← read
  pure (s.pool.waitClients.length < TcpSessionPool.numInitCcu)

inductive Call where
  | popFromWaitQueue (skip : Nat)
  | pushWaitQueue (client : Nat)
  | growWaitPoolSize (skip : Nat)
  | checkWaitPoolSize

def code (lock : Bool) : Call → Prog Store Answer
  | .popFromWaitQueue skip => popFromWaitQueue lock skip
  | .pushWaitQueue client => pushWaitQueue lock client >>= fun _ => pure .void
  | .growWaitPoolSize skip => growWaitPoolSize lock skip >>= fun b => pure (.bool b)
  | .checkWaitPoolSize => checkWaitPoolSize lock >>= fun b => pure (.bool b)

/-! ### Each call alone -/

def atomic (s : ClientPool) : Call → ClientPool
  | .popFromWaitQueue skip =>
    if s.pool.waitClients.length ≤ 0 then (s.step (.alloc skip)).step .popFromWaitQueue else s.step .popFromWaitQueue
  | .pushWaitQueue client => s.step (.pushWaitQueue client)
  | .growWaitPoolSize skip => (s.step (.alloc skip)).step .growWaitPoolSize
  | .checkWaitPoolSize => s

def answer (s : ClientPool) : Call → Answer
  | .popFromWaitQueue skip =>
    match s.pool.popFromWaitQueue (if s.pool.waitClients.length ≤ 0 then s.next + skip else s.next) with
    | .error f => .fault f
    | .ok (a, _, _) => .client a
  | .pushWaitQueue _ => .void
  | .growWaitPoolSize skip => .bool (s.pool.growWaitPoolSize (s.next + skip)).1
  | .checkWaitPoolSize => .bool (s.pool.waitClients.length < TcpSessionPool.numInitCcu)

def store (s : ClientPool) : Store := ⟨s.next, s.pool⟩

@[simp] theorem alone_pushWaitQueue (lock : Bool) (client : Nat) (s : Store) :
    (pushWaitQueue lock client).alone s = ((), { s with pool := s.pool.pushWaitQueue client }) := by
  simp [pushWaitQueue]

@[simp] theorem alone_pushBlock (lock : Bool) (pushBackPtr n : Nat) (s : Store) :
    (pushBlock lock pushBackPtr n).alone s = ((), { s with pool := TcpSessionPool.pushBlock s.pool pushBackPtr n }) := by
  induction n generalizing pushBackPtr s with
  | zero => rfl
  | succ n ih => simp [pushBlock, ih, TcpSessionPool.pushBlock]

theorem alone_growWaitPoolSize (lock : Bool) (skip : Nat) (s : Store) :
    (growWaitPoolSize lock skip).alone s =
      (true, ⟨s.next + skip + TcpSessionPool.numInitCcu, (s.pool.growWaitPoolSize (s.next + skip)).2.2⟩) := by
  simp only [growWaitPoolSize, alone_autoLock, alone_bind, alone_pushBlock]
  rfl

theorem alone_popFront (s : Store) :
    popFront.alone s =
      match TcpSessionPool.popFront s.pool s.next with
      | .error f => (.fault f, s)
      | .ok (a, next, pool) => (.client a, ⟨next, pool⟩) := by
  obtain ⟨next, queue, dataPool⟩ := s
  cases queue <;> rfl

theorem alone_popFromWaitQueue (lock : Bool) (skip : Nat) (s : ClientPool) :
    (popFromWaitQueue lock skip).alone s.store =
      (s.answer (.popFromWaitQueue skip), (s.atomic (.popFromWaitQueue skip)).store) := by
  rcases s.pool.popFromWaitQueue_spec (if s.pool.waitClients.length ≤ 0 then s.next + skip else s.next) with
    ⟨a, queue, hq, hd⟩ | ⟨hq, hd⟩
  · have hle : ¬ (queue.length + 1 ≤ 0) := by omega
    simp only [hq, List.length_cons, hle, if_false] at hd
    simp only [popFromWaitQueue, alone_autoLock, alone_bind, alone_read, store, hq, List.length_cons, hle, if_false,
      alone_popFront, TcpSessionPool.popFront, answer, atomic, step, hd]
  · -- the first session of the new block is at the front
    have hpop : popFront.alone ⟨s.next + skip + TcpSessionPool.numInitCcu,
        ⟨List.range' (s.next + skip) TcpSessionPool.numInitCcu, s.pool.dataPool ++ [s.next + skip]⟩⟩ =
        (.client (s.next + skip), ⟨s.next + skip + TcpSessionPool.numInitCcu,
          ⟨List.range' (s.next + skip + 1) (TcpSessionPool.numInitCcu - 1), s.pool.dataPool ++ [s.next + skip]⟩⟩) := rfl
    have hgrow := TcpSessionPool.growWaitPoolSize_eq s.pool (s.next + skip)
    simp only [hq, List.length_nil, le_refl, if_true, List.nil_append] at hd hgrow
    simp only [popFromWaitQueue, alone_autoLock, alone_bind, alone_read, store, hq, List.length_nil, le_refl, if_true,
      alone_growWaitPoolSize, hgrow, hpop, answer, atomic, step, hd]

theorem alone_code (lock : Bool) (c : Call) (s : ClientPool) :
    (code lock c).alone s.store = (s.answer c, (s.atomic c).store) := by
  cases c with
  | popFromWaitQueue skip => exact alone_popFromWaitQueue lock skip s
  | pushWaitQueue client => simp [code, store, answer, atomic, step]
  | growWaitPoolSize skip =>
    simp only [code, alone_bind, alone_growWaitPoolSize, answer, atomic, store, alone_pure, step]
    rfl
  | checkWaitPoolSize =>
    simp only [code, checkWaitPoolSize, alone_bind, alone_autoLock, alone_read]
    rfl

theorem nested_pushBlock (lock : Bool) (pushBackPtr n : Nat) : Nested 0 (pushBlock lock pushBackPtr n) := by
  induction n generalizing pushBackPtr with
  | zero => exact nested_pure ()
  | succ n ih => exact nested_bind (nested_autoLock lock (nested_modify _)) fun _ => ih _

theorem nested_growBody (lock : Bool) (skip : Nat) :
    Nested 0 (do
      let allocData ← newClients skip
      pushBack allocData
      pushBlock lock allocData TcpSessionPool.numInitCcu
      pure true) := by
  refine nested_bind (.act fun s => .done _) fun allocData => ?_
  refine nested_bind (nested_modify _) fun _ => ?_
  exact nested_bind (nested_pushBlock lock _ _) fun _ => nested_pure true

theorem nested_popFront : Nested 0 popFront := by
  refine nested_bind nested_read fun s => ?_
  split
  · exact nested_pure _
  · exact nested_bind (nested_modify _) fun _ => nested_pure _

theorem locked_code (c : Call) : Locked (code true c) := by
  cases c with
  | popFromWaitQueue skip =>
    refine locked_autoLock (nested_bind nested_read fun s => ?_)
    split
    · exact nested_bind (nested_autoLock true (nested_growBody true skip)) fun _ => nested_popFront
    · exact nested_popFront
  | pushWaitQueue client => exact locked_map (locked_autoLock (nested_modify _)) _
  | growWaitPoolSize skip => exact locked_map (locked_autoLock (nested_growBody true skip)) _
  | checkWaitPoolSize => exact locked_map (locked_autoLock (nested_bind nested_read fun _ => nested_pure _)) _

/-! ### The calls in the order of the lock -/

def serialPool (next : Nat) (order : List Call) : ClientPool := order.foldl atomic (.start next)

def CallGivesHeld (s : ClientPool) : Call → Prop
  | .pushWaitQueue client => client ∈ s.held
  | _ => True

theorem sequential_eq (lock : Bool) (next : Nat) (order : List Call) :
    answers (sequential (code lock)) ⟨next, .empty⟩ order =
      answers (fun s c => (answer s c, atomic s c)) (.start next) order ∧
      serialObject (code lock) ⟨next, .empty⟩ order = (serialPool next order).store := by
  have hstep : ∀ (m : Store) (s : ClientPool) (c : Call), m = s.store → True →
      (sequential (code lock) m c).1 = answer s c ∧ (sequential (code lock) m c).2 = (s.atomic c).store := by
    intro m s c hm _
    subst hm
    have halone := alone_code lock c s
    exact ⟨congrArg Prod.fst halone, congrArg Prod.snd halone⟩
  exact answers_eq (R := fun m s => m = store s) hstep rfl (along_of_mem fun _ _ _ => trivial)

theorem sound_event {s : ClientPool} (h : s.abs.Sound) {e : Ev} (he : s.GivesHeld e) : (s.step e).abs.Sound := by
  rw [refines.steps]
  exact sound_step h _ (gives he)

theorem sound_atomic {s : ClientPool} (h : s.abs.Sound) {c : Call} (hc : s.CallGivesHeld c) : (s.atomic c).abs.Sound := by
  have halloc : ∀ skip, (s.step (.alloc skip)).abs.Sound := fun skip => sound_event h trivial
  cases c with
  | popFromWaitQueue skip =>
    simp only [atomic]
    split
    · exact sound_event (halloc skip) trivial
    · exact sound_event h trivial
  | pushWaitQueue client => exact sound_event h hc
  | growWaitPoolSize skip => exact sound_event (halloc skip) trivial
  | checkWaitPoolSize => exact h

theorem serialPool_sound {next : Nat} {order : List Call} (h : Along atomic CallGivesHeld (.start next) order) :
    (serialPool next order).abs.Sound := by
  unfold serialPool
  induction order using List.reverseRecOn with
  | nil => exact start_sound next
  | append_singleton order c ih =>
    rw [along_concat] at h
    rw [List.foldl_concat]
    exact sound_atomic (ih h.1) h.2

/-! ### Who gets a session -/

def Answer.client? : Answer → Option Nat
  | .client a => some a
  | _ => none

/-- The call gives nothing back. -/
def keepsAll : Call → Bool
  | .pushWaitQueue _ => false
  | _ => true

/-- A call that gives nothing back adds the session it answers to those held. -/
theorem atomic_held (s : ClientPool) {c : Call} (hc : keepsAll c = true) :
    (s.atomic c).held = (s.answer c).client?.toList ++ s.held := by
  have hpop : ∀ s : ClientPool, ∀ n next pool, s.pool.popFromWaitQueue s.next = .ok (n, next, pool) →
      (s.step .popFromWaitQueue).held = n :: s.held := by
    intro s n next pool hd
    simp only [step, hd]
  cases c with
  | popFromWaitQueue skip =>
    rcases s.pool.popFromWaitQueue_spec (if s.pool.waitClients.length ≤ 0 then s.next + skip else s.next) with
      ⟨a, queue, hq, hd⟩ | ⟨hq, hd⟩
    · have hle : ¬ s.pool.waitClients.length ≤ 0 := by simp [hq]
      have hanswer : s.answer (.popFromWaitQueue skip) = .client a := by simp only [answer, hd]
      simp only [hle, if_false] at hd
      simp only [hanswer, atomic, hle, if_false]
      exact hpop s _ _ _ hd
    · have hle : s.pool.waitClients.length ≤ 0 := by simp [hq]
      simp only [hle, if_true] at hd
      have hanswer : s.answer (.popFromWaitQueue skip) = .client (s.next + skip) := by simp only [answer, hle, if_true, hd]
      simp only [hanswer, atomic, hle, if_true]
      exact hpop (s.step (.alloc skip)) _ _ _ hd
  | pushWaitQueue client => cases hc
  | growWaitPoolSize skip => rfl
  | checkWaitPoolSize => rfl

/-- While nothing is given back, the sessions held are those the calls answered. -/
theorem answered_held (next : Nat) {order : List Call} (h : ∀ c ∈ order, keepsAll c = true) :
    (serialPool next order).held =
      ((answers (fun s c => (answer s c, atomic s c)) (.start next) order).filterMap Answer.client?).reverse := by
  unfold serialPool
  induction order using List.reverseRecOn with
  | nil => rfl
  | append_singleton order c ih =>
    have hc : keepsAll c = true := h c (by simp)
    rw [List.foldl_concat, atomic_held _ hc, ih fun d hd => h d (by simp [hd]), answers_concat, List.filterMap_append,
      List.reverse_append]
    congr 1
    show _ = ([((order.foldl atomic (.start next)).answer c)].filterMap Answer.client?).reverse
    cases hclient : ((order.foldl atomic (.start next)).answer c).client? with
    | none => simp [hclient]
    | some a => simp [hclient]

def handedOut (s : Machine Call Store Answer) : List Nat := s.returns.filterMap fun x => x.answer.client?

theorem handedOut_nodup {next : Nat} {s : Machine Call Store Answer} (h : Reached (code true) ⟨next, .empty⟩ s)
    (horder : ∀ c ∈ s.order, keepsAll c = true) : (handedOut s).Nodup := by
  refine returned_nodup locked_code h Answer.client? ?_
  rw [(sequential_eq true next s.order).1, ← List.nodup_reverse, ← answered_held next horder]
  refine (serialPool_sound (along_of_mem ?_)).oneHolder.heldOnce
  intro c hc s
  have htakes := horder c hc
  cases c with
  | pushWaitQueue client => cases htakes
  | popFromWaitQueue skip => trivial
  | growWaitPoolSize skip => trivial
  | checkWaitPoolSize => trivial

def NothingGivenBack (es : List (Sections.Ev Call)) : Prop := ∀ t c, .call t c ∈ es → keepsAll c = true

def runCalls (lock : Bool) (next : Nat) (es : List (Sections.Ev Call)) : Machine Call Store Answer :=
  es.foldl (Machine.step (code lock)) (.start ⟨next, .empty⟩)

/-- One thread grows the pool; two others take, each looking at the front before either pops. -/
def racingTakes : List (Sections.Ev Call) :=
  .call 0 (.growWaitPoolSize 0) :: List.replicate 103 (.run 0) ++
    [.call 1 (.popFromWaitQueue 0), .call 2 (.popFromWaitQueue 0), .run 1, .run 2, .run 1, .run 2, .run 1, .run 2, .run 1,
      .run 2]

/-- With no lock both get the pool's first session. -/
theorem racing_takes_get_the_same_session : handedOut (runCalls false 7 racingTakes) = [7, 7] := by
  decide +kernel

end ClientPool

/-- While nothing is given back, `TcpSessionPool` hands no session out twice, whatever its callers do and however their
    statements interleave, if and only if it has its lock. -/
theorem sessions_are_handed_out_once_iff_locked (lock : Bool) :
    (∀ next es, ClientPool.NothingGivenBack es → (ClientPool.handedOut (ClientPool.runCalls lock next es)).Nodup) ↔
      lock = true := by
  cases lock with
  | true =>
    refine iff_of_true ?_ rfl
    intro next es hes
    refine ClientPool.handedOut_nodup (reached (ClientPool.code true) ⟨next, .empty⟩ es) ?_
    have hmade : Reach (· = Machine.start ⟨next, .empty⟩) (Machine.step (ClientPool.code true))
        (fun _ e => ∀ t c, e = .call t c → ClientPool.keepsAll c = true) (ClientPool.runCalls true next es) := by
      refine .run (.start rfl) (along_of_mem ?_)
      intro e he s t c heq
      subst heq
      exact hes t c he
    exact (calls_made hmade).2.1
  | false =>
    refine iff_of_false ?_ (by decide)
    intro h
    have hnodup := h 7 ClientPool.racingTakes ?_
    · rw [ClientPool.racing_takes_get_the_same_session] at hnodup
      exact absurd hnodup (by decide)
    · intro t c hc
      simp only [ClientPool.racingTakes, List.mem_append, List.mem_cons, List.mem_replicate] at hc
      cases c with
      | pushWaitQueue client => simp at hc
      | popFromWaitQueue skip => rfl
      | growWaitPoolSize skip => rfl
      | checkWaitPoolSize => rfl

/-- Under their locks no call of either pool waits for ever: whichever thread that can run is run next, all
    calls return. -/
theorem pool_calls_return :
    (∀ heap s, Reached (IoPool.code true) ⟨heap, .empty⟩ s → s.AllReturn) ∧
      ∀ next s, Reached (ClientPool.code true) ⟨next, .empty⟩ s → s.AllReturn :=
  ⟨fun _ _ h => all_return IoPool.locked_code h, fun _ _ h => all_return ClientPool.locked_code h⟩

/-- The calls of `growAndTake`, and two takes that stand in each other's way. -/
theorem waiting_takes_return :
    (runIoPool ⟨fun _ => ⟨none⟩, 0⟩ (growAndTake.take 4)).AllReturn ∧
      (ClientPool.runCalls true 7 [.call 1 (.popFromWaitQueue 0), .call 2 (.popFromWaitQueue 0), .run 1, .run 2]).AllReturn :=
  ⟨pool_calls_return.1 _ _ (reached _ _ _), pool_calls_return.2 7 _ (reached _ _ _)⟩

end SigHolic.Network
