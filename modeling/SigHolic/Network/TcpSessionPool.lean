/-
  SigHolic.Network.TcpSessionPool — the pool of session objects
  (network/tcp_session_pool.cpp).

  A pointer is an address; a block of `TcpClient`s takes consecutive addresses no object
  had before, from `next` on. The sessions themselves are not touched here.

  `popFromWaitQueue_spec`: the front of the queue is handed out, or the first session of a
  new block when the queue is empty; `front()` is not called on an empty queue.
-/

import Mathlib.Data.List.Basic
import SigHolic.Utility.Buffer

namespace SigHolic.Network

open SigHolic.Utility.Buffer (Fault)

structure TcpSessionPool where
  waitClients : List Nat
  /-- `data_pool_`: each block's first address. -/
  dataPool : List Nat

namespace TcpSessionPool

def numInitCcu : Nat := 100

def empty : TcpSessionPool := ⟨[], []⟩

def pushWaitQueue (p : TcpSessionPool) (client : Nat) : TcpSessionPool := { p with waitClients := p.waitClients ++ [client] }

def pushBlock : TcpSessionPool → Nat → Nat → TcpSessionPool
  | p, _, 0 => p
  | p, pushBackPtr, n + 1 => pushBlock (p.pushWaitQueue pushBackPtr) (pushBackPtr + 1) n

def growWaitPoolSize (p : TcpSessionPool) (next : Nat) : Bool × Nat × TcpSessionPool :=
  (true, next + numInitCcu, pushBlock { p with dataPool := p.dataPool ++ [next] } next numInitCcu)

def popFront (p : TcpSessionPool) (next : Nat) : Except Fault (Nat × Nat × TcpSessionPool) :=
  match p.waitClients with
  | [] => .error .badAccess
  | client :: queue => .ok (client, next, { p with waitClients := queue })

def popFromWaitQueue (p : TcpSessionPool) (next : Nat) : Except Fault (Nat × Nat × TcpSessionPool) :=
  if p.waitClients.length ≤ 0 then
    let r := p.growWaitPoolSize next
    popFront r.2.2 r.2.1
  else popFront p next

theorem pushBlock_eq (n : Nat) (p : TcpSessionPool) (pushBackPtr : Nat) :
    pushBlock p pushBackPtr n = { p with waitClients := p.waitClients ++ List.range' pushBackPtr n } := by
  induction n generalizing p pushBackPtr with
  | zero => simp [pushBlock]
  | succ n ih => simp [pushBlock, ih, pushWaitQueue, List.range'_succ]

theorem growWaitPoolSize_eq (p : TcpSessionPool) (next : Nat) :
    p.growWaitPoolSize next =
      (true, next + numInitCcu, ⟨p.waitClients ++ List.range' next numInitCcu, p.dataPool ++ [next]⟩) := by
  rw [growWaitPoolSize, pushBlock_eq]

theorem popFromWaitQueue_spec (p : TcpSessionPool) (next : Nat) :
    (∃ client queue, p.waitClients = client :: queue ∧
      p.popFromWaitQueue next = .ok (client, next, { p with waitClients := queue })) ∨
    (p.waitClients = [] ∧ p.popFromWaitQueue next =
      .ok (next, next + numInitCcu, ⟨List.range' (next + 1) (numInitCcu - 1), p.dataPool ++ [next]⟩)) := by
  cases hq : p.waitClients with
  | cons client queue =>
    refine Or.inl ⟨client, queue, rfl, ?_⟩
    simp [popFromWaitQueue, popFront, hq]
  | nil =>
    refine Or.inr ⟨rfl, ?_⟩
    simp only [popFromWaitQueue, hq, List.length_nil, le_refl, if_true, growWaitPoolSize_eq, List.nil_append]
    rfl

end TcpSessionPool

end SigHolic.Network
