/-
  SigHolic.Network.Pools — who holds the objects of the two pools.

  Any number of callers take objects from a pool, give them back, make it grow and allocate
  for themselves in between; each operation holds the pool's lock, which a thread may enter
  again, so growing and pushing inside a take are one step with it. `held`, `given` and
  `taken` are ghost state: who has what, and what went in and came out.

  Both pools make the steps of `BlockPool` (`IoPool.refines`, `ClientPool.refines`), so as
  long as only held objects are given back, no object has two holders
  (`objects_have_one_holder`).
-/

import SigHolic.Base.BlockPool
import SigHolic.Iocp.OverlappedIoPool
import SigHolic.Network.TcpSessionPool

namespace SigHolic.Network

open SigHolic.Base SigHolic.Base.Runs SigHolic.Base.BlockPool SigHolic.Iocp

/-! ## `OverlappedIoPool` -/

structure IoPool where
  heap : IoHeap
  pool : OverlappedIoPool
  held : List Nat
  given : List Nat
  taken : List Nat

namespace IoPool

def start (heap : IoHeap) : IoPool := ⟨heap, .empty, [], [], []⟩

inductive Ev where
  | dequeue
  | enqueue (o : Nat)
  | growPoolSize (elementCount : Int)
  /-- Another `new`. -/
  | alloc (n : Nat)

def made (heap heap' : IoHeap) : List Nat := List.range' heap.next (heap'.next - heap.next)

def step (s : IoPool) : Ev → IoPool
  | .dequeue =>
    match s.pool.dequeue s.heap with
    | .error _ => s
    | .ok (o, heap, pool) => ⟨heap, pool, o :: s.held, s.given ++ made s.heap heap, s.taken ++ [o]⟩
  | .enqueue o => { s with pool := s.pool.enqueue o, held := s.held.erase o, given := s.given ++ [o] }
  | .growPoolSize elementCount =>
    let r := OverlappedIoPool.growPoolSize s.heap s.pool elementCount
    { s with heap := r.2.1, pool := r.2.2, given := s.given ++ made s.heap r.2.1 }
  | .alloc n => { s with heap := s.heap.alloc n }

def run (heap : IoHeap) (es : List Ev) : IoPool := es.foldl step (start heap)

def GivesHeld (s : IoPool) : Ev → Prop
  | .enqueue o => o ∈ s.held
  | _ => True

instance (s : IoPool) : (e : Ev) → Decidable (s.GivesHeld e)
  | .enqueue o => inferInstanceAs (Decidable (o ∈ s.held))
  | .dequeue | .growPoolSize _ | .alloc _ => inferInstanceAs (Decidable True)

def abs (s : IoPool) : BlockPool := ⟨s.heap.next, s.pool.dataPool, s.pool.waitingQueue, s.held, s.given, s.taken⟩

def event : Ev → BlockPool.Ev
  | .dequeue => .take
  | .enqueue o => .give o
  | .growPoolSize elementCount => if elementCount ≤ 0 then .skip 0 else .grow elementCount.toNat
  | .alloc n => .skip n

theorem refines : Refines step abs event OverlappedIoPool.defaultIoPoolSize where
  steps s e := by
    cases e with
    | dequeue =>
      rcases s.pool.dequeue_spec s.heap with ⟨o, queue, hq, hd⟩ | ⟨hq, hd⟩
      · simp [step, hd, abs, event, BlockPool.step, BlockPool.take, BlockPool.pop, hq, made]
      · simp only [step, hd, abs, event, BlockPool.step, BlockPool.take, hq, if_true, BlockPool.grow, BlockPool.pop,
          List.nil_append, made, IoHeap.alloc_next, Nat.add_sub_cancel_left]
        rfl
    | enqueue o => rfl
    | growPoolSize elementCount =>
      simp only [step, abs, event]
      by_cases hn : elementCount ≤ 0
      · simp [OverlappedIoPool.growPoolSize, hn, BlockPool.step, BlockPool.skip, made]
      · obtain ⟨n, rfl⟩ := Int.eq_ofNat_of_zero_le (a := elementCount) (by omega)
        rw [OverlappedIoPool.growPoolSize_eq s.heap s.pool (by omega), if_neg hn]
        simp [BlockPool.step, BlockPool.grow, made]
    | alloc n => rfl

theorem gives {s : IoPool} {e : Ev} (h : s.GivesHeld e) : s.abs.GivesHeld (event e) := by
  intro o ho
  cases e with
  | enqueue o' => cases ho; exact h
  | dequeue => cases ho
  | growPoolSize elementCount =>
    simp only [event] at ho
    split at ho <;> cases ho
  | alloc n => cases ho

/-- Taking succeeds: the structure that waits longest, or the first of a block an empty pool grows by. -/
def Takes (s : IoPool) : Prop :=
  ∃ o heap pool, s.pool.dequeue s.heap = .ok (o, heap, pool) ∧
    ((∃ queue, s.pool.waitingQueue = o :: queue ∧ pool.waitingQueue = queue) ∨
      (s.pool.waitingQueue = [] ∧ pool.dataPool = s.pool.dataPool ++ [(o, OverlappedIoPool.defaultIoPoolSize)]))

theorem takes (s : IoPool) : s.Takes := by
  rcases s.pool.dequeue_spec s.heap with ⟨o, queue, hq, hd⟩ | ⟨hq, hd⟩
  · exact ⟨o, _, _, hd, Or.inl ⟨queue, hq, rfl⟩⟩
  · exact ⟨_, _, _, hd, Or.inr ⟨hq, rfl⟩⟩

end IoPool

/-! ## `TcpSessionPool` -/

structure ClientPool where
  next : Nat
  pool : TcpSessionPool
  held : List Nat
  given : List Nat
  taken : List Nat

namespace ClientPool

def start (next : Nat) : ClientPool := ⟨next, .empty, [], [], []⟩

inductive Ev where
  | popFromWaitQueue
  | pushWaitQueue (client : Nat)
  | growWaitPoolSize
  | alloc (n : Nat)

def step (s : ClientPool) : Ev → ClientPool
  | .popFromWaitQueue =>
    match s.pool.popFromWaitQueue s.next with
    | .error _ => s
    | .ok (client, next, pool) =>
      ⟨next, pool, client :: s.held, s.given ++ List.range' s.next (next - s.next), s.taken ++ [client]⟩
  | .pushWaitQueue client =>
    { s with pool := s.pool.pushWaitQueue client, held := s.held.erase client, given := s.given ++ [client] }
  | .growWaitPoolSize =>
    let r := s.pool.growWaitPoolSize s.next
    { s with next := r.2.1, pool := r.2.2, given := s.given ++ List.range' s.next (r.2.1 - s.next) }
  | .alloc n => { s with next := s.next + n }

def run (next : Nat) (es : List Ev) : ClientPool := es.foldl step (start next)

def GivesHeld (s : ClientPool) : Ev → Prop
  | .pushWaitQueue client => client ∈ s.held
  | _ => True

instance (s : ClientPool) : (e : Ev) → Decidable (s.GivesHeld e)
  | .pushWaitQueue client => inferInstanceAs (Decidable (client ∈ s.held))
  | .popFromWaitQueue | .growWaitPoolSize | .alloc _ => inferInstanceAs (Decidable True)

def blocks (p : TcpSessionPool) : List (Nat × Nat) := p.dataPool.map fun a => (a, TcpSessionPool.numInitCcu)

def abs (s : ClientPool) : BlockPool := ⟨s.next, blocks s.pool, s.pool.waitClients, s.held, s.given, s.taken⟩

def event : Ev → BlockPool.Ev
  | .popFromWaitQueue => .take
  | .pushWaitQueue client => .give client
  | .growWaitPoolSize => .grow TcpSessionPool.numInitCcu
  | .alloc n => .skip n

theorem refines : Refines step abs event TcpSessionPool.numInitCcu where
  steps s e := by
    cases e with
    | popFromWaitQueue =>
      rcases s.pool.popFromWaitQueue_spec s.next with ⟨o, queue, hq, hd⟩ | ⟨hq, hd⟩
      · simp [step, hd, abs, event, BlockPool.step, BlockPool.take, BlockPool.pop, hq, blocks]
      · simp only [step, hd, abs, event, BlockPool.step, BlockPool.take, hq, if_true, BlockPool.grow, BlockPool.pop,
          List.nil_append, Nat.add_sub_cancel_left, blocks, List.map_append]
        rfl
    | pushWaitQueue client => rfl
    | growWaitPoolSize =>
      simp [step, abs, event, TcpSessionPool.growWaitPoolSize_eq, BlockPool.step, BlockPool.grow, blocks]
    | alloc n => rfl

theorem gives {s : ClientPool} {e : Ev} (h : s.GivesHeld e) : s.abs.GivesHeld (event e) := by
  intro o ho
  cases e with
  | pushWaitQueue client => cases ho; exact h
  | popFromWaitQueue => cases ho
  | growWaitPoolSize => cases ho
  | alloc n => cases ho

def Takes (s : ClientPool) : Prop :=
  ∃ client next pool, s.pool.popFromWaitQueue s.next = .ok (client, next, pool) ∧
    ((∃ queue, s.pool.waitClients = client :: queue ∧ pool.waitClients = queue) ∨
      (s.pool.waitClients = [] ∧ pool.dataPool = s.pool.dataPool ++ [client]))

theorem takes (s : ClientPool) : s.Takes := by
  rcases s.pool.popFromWaitQueue_spec s.next with ⟨client, queue, hq, hd⟩ | ⟨hq, hd⟩
  · exact ⟨client, _, _, hd, Or.inl ⟨queue, hq, rfl⟩⟩
  · exact ⟨_, _, _, hd, Or.inr ⟨hq, rfl⟩⟩

end ClientPool

/-! ## One holder -/

theorem IoPool.sound (heap : IoHeap) {es : List IoPool.Ev} (h : Along IoPool.step IoPool.GivesHeld (.start heap) es) :
    (IoPool.run heap es).abs.Sound :=
  IoPool.refines.sound_run (start_sound heap.next) (along_mono (fun _ _ => IoPool.gives) h)

theorem ClientPool.sound (next : Nat) {es : List ClientPool.Ev}
    (h : Along ClientPool.step ClientPool.GivesHeld (.start next) es) : (ClientPool.run next es).abs.Sound :=
  ClientPool.refines.sound_run (start_sound next) (along_mono (fun _ _ => ClientPool.gives) h)

/-- In every run of either pool that gives back only what is held: no object waits twice, or has two holders, or waits
    and is held; all objects of all blocks are accounted for; they come out in the order they were put in; and a take
    succeeds, growing an empty pool first. -/
theorem objects_have_one_holder :
    (∀ (heap : IoHeap) (es : List IoPool.Ev), Along IoPool.step IoPool.GivesHeld (.start heap) es →
      OneHolder (IoPool.run heap es).pool.waitingQueue (IoPool.run heap es).held (IoPool.run heap es).given
        (IoPool.run heap es).taken ((IoPool.run heap es).pool.dataPool.map Prod.snd) ∧
      (IoPool.run heap es).Takes) ∧
    ∀ (next : Nat) (es : List ClientPool.Ev), Along ClientPool.step ClientPool.GivesHeld (.start next) es →
      OneHolder (ClientPool.run next es).pool.waitClients (ClientPool.run next es).held (ClientPool.run next es).given
        (ClientPool.run next es).taken ((ClientPool.run next es).pool.dataPool.map fun _ => TcpSessionPool.numInitCcu) ∧
      (ClientPool.run next es).Takes := by
  constructor
  · intro heap es h
    exact ⟨(IoPool.sound heap h).oneHolder, IoPool.takes _⟩
  · intro next es h
    refine ⟨?_, ClientPool.takes _⟩
    have hone := (ClientPool.sound next h).oneHolder
    simpa [ClientPool.abs, ClientPool.blocks, Function.comp_def] using hone

def ioPoolRun : List IoPool.Ev := [.growPoolSize 2, .dequeue, .enqueue 0, .dequeue, .dequeue]

def clientPoolRun : List ClientPool.Ev := [.popFromWaitQueue, .alloc 5, .pushWaitQueue 7]

theorem two_short_pool_runs :
    (IoPool.run ⟨fun _ => ⟨none⟩, 0⟩ ioPoolRun).Takes ∧
      (IoPool.run ⟨fun _ => ⟨none⟩, 0⟩ ioPoolRun).taken = [0, 1, 0] ∧
      (ClientPool.run 7 clientPoolRun).Takes ∧ (ClientPool.run 7 clientPoolRun).held = [] := by
  refine ⟨(objects_have_one_holder.1 _ ioPoolRun ?_).2, ?_, (objects_have_one_holder.2 7 clientPoolRun ?_).2, ?_⟩
  · decide +kernel
  · decide +kernel
  · decide +kernel
  · decide +kernel

end SigHolic.Network
