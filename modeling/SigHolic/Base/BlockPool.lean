/-
  SigHolic.Base.BlockPool — a pool of objects that grows by blocks.

  Objects are addresses. A block is a range of addresses nobody had before; its objects are
  put into a queue. `take` hands out the object that waits longest and grows an empty pool
  first, `give` puts an object back. `skip` is an allocation by somebody else.

  While only held objects are given back, every object of every block is waiting or held,
  once (`Sound`, `sound_step`, `sound_run`), so no object has two holders and the objects
  come out in the order in which they were put in (`Sound.oneHolder`). A concrete pool is
  a machine that makes these steps (`Refines`).
-/

import Mathlib.Algebra.Order.Ring.Nat
import Mathlib.Data.List.Perm.Basic
import Mathlib.Data.List.Range
import SigHolic.Base.Runs

namespace SigHolic.Base

open Runs

structure BlockPool where
  /-- The first address that is not taken. -/
  next : Nat
  /-- First address and size of every block. -/
  blocks : List (Nat × Nat)
  waiting : List Nat
  held : List Nat
  /-- What was put into the queue, and what was taken out of it, in order. -/
  given : List Nat
  taken : List Nat

namespace BlockPool

def start (next : Nat) : BlockPool := ⟨next, [], [], [], [], []⟩

def grow (p : BlockPool) (n : Nat) : BlockPool :=
  { p with
    next := p.next + n
    blocks := p.blocks ++ [(p.next, n)]
    waiting := p.waiting ++ List.range' p.next n
    given := p.given ++ List.range' p.next n }

def pop (p : BlockPool) : BlockPool :=
  match p.waiting with
  | [] => p
  | o :: rest => { p with waiting := rest, held := o :: p.held, taken := p.taken ++ [o] }

/-- `growth` is the size of the block an empty pool grows by. -/
def take (growth : Nat) (p : BlockPool) : BlockPool := if p.waiting = [] then (p.grow growth).pop else p.pop

def give (p : BlockPool) (o : Nat) : BlockPool :=
  { p with waiting := p.waiting ++ [o], held := p.held.erase o, given := p.given ++ [o] }

def skip (p : BlockPool) (n : Nat) : BlockPool := { p with next := p.next + n }

inductive Ev where
  | take
  | give (o : Nat)
  | grow (n : Nat)
  | skip (n : Nat)

def step (growth : Nat) (p : BlockPool) : Ev → BlockPool
  | .take => p.take growth
  | .give o => p.give o
  | .grow n => p.grow n
  | .skip n => p.skip n

def GivesHeld (p : BlockPool) (e : Ev) : Prop := ∀ o, e = .give o → o ∈ p.held

def addresses (blocks : List (Nat × Nat)) : List Nat := blocks.flatMap fun b => List.range' b.1 b.2

structure Sound (p : BlockPool) : Prop where
  /-- Every object is waiting or held. -/
  all : (p.waiting ++ p.held).Perm (addresses p.blocks)
  distinct : (addresses p.blocks).Nodup
  below : ∀ a ∈ addresses p.blocks, a < p.next
  order : p.given = p.taken ++ p.waiting

structure OneHolder (waiting held given taken sizes : List Nat) : Prop where
  waitingOnce : waiting.Nodup
  heldOnce : held.Nodup
  notBoth : ∀ o ∈ waiting, o ∉ held
  count : waiting.length + held.length = sizes.sum
  /-- What has come out is what was put in first. -/
  order : given = taken ++ waiting

theorem length_addresses (blocks : List (Nat × Nat)) : (addresses blocks).length = (blocks.map Prod.snd).sum := by
  simp [addresses, List.length_flatMap]

theorem Sound.oneHolder {p : BlockPool} (h : p.Sound) : OneHolder p.waiting p.held p.given p.taken (p.blocks.map Prod.snd) := by
  have hnodup : (p.waiting ++ p.held).Nodup := h.all.nodup_iff.mpr h.distinct
  obtain ⟨hw, hh, hne⟩ := List.nodup_append.mp hnodup
  refine ⟨hw, hh, fun o ho ho' => hne o ho o ho' rfl, ?_, h.order⟩
  rw [← List.length_append, h.all.length_eq, length_addresses]

theorem start_sound (next : Nat) : (start next).Sound := ⟨.nil, .nil, by simp [start, addresses], rfl⟩

theorem grow_sound {p : BlockPool} (h : p.Sound) (n : Nat) : (p.grow n).Sound := by
  have haddr : addresses (p.grow n).blocks = addresses p.blocks ++ List.range' p.next n := by
    simp [addresses, grow, List.flatMap_append]
  refine ⟨?_, ?_, ?_, ?_⟩
  · rw [haddr]
    have hswap : (p.waiting ++ List.range' p.next n ++ p.held).Perm (p.waiting ++ p.held ++ List.range' p.next n) := by
      rw [List.append_assoc, List.append_assoc]
      exact List.perm_append_comm.append_left _
    exact hswap.trans (h.all.append_right _)
  · rw [haddr, List.nodup_append]
    refine ⟨h.distinct, List.nodup_range', fun a ha b hb => ?_⟩
    -- the new block is above every old one
    have hlt := h.below a ha
    have hge := (List.mem_range'_1.mp hb).1
    omega
  · intro a ha
    rw [haddr] at ha
    show a < p.next + n
    rcases List.mem_append.mp ha with ha | ha
    · have := h.below a ha
      omega
    · exact (List.mem_range'_1.mp ha).2
  · show p.given ++ _ = p.taken ++ (p.waiting ++ _)
    rw [h.order, List.append_assoc]

theorem pop_sound {p : BlockPool} (h : p.Sound) : p.pop.Sound := by
  unfold pop
  cases hw : p.waiting with
  | nil => exact h
  | cons o rest =>
    have hall := h.all
    have horder := h.order
    rw [hw] at hall horder
    exact ⟨List.perm_middle.trans hall, h.distinct, h.below, by simpa using horder⟩

theorem give_sound {p : BlockPool} (h : p.Sound) {o : Nat} (ho : o ∈ p.held) : (p.give o).Sound := by
  refine ⟨?_, h.distinct, h.below, ?_⟩
  · show (p.waiting ++ [o] ++ p.held.erase o).Perm _
    rw [List.append_assoc]
    exact ((List.perm_cons_erase ho).symm.append_left _).trans h.all
  · show p.given ++ [o] = p.taken ++ (p.waiting ++ [o])
    rw [h.order, List.append_assoc]

theorem sound_step {p : BlockPool} (h : p.Sound) (growth : Nat) {e : Ev} (he : p.GivesHeld e) : (p.step growth e).Sound := by
  cases e with
  | take =>
    simp only [step, take]
    split
    · exact pop_sound (grow_sound h growth)
    · exact pop_sound h
  | give o => exact give_sound h (he o rfl)
  | grow n => exact grow_sound h n
  | skip n => exact ⟨h.all, h.distinct, fun a ha => Nat.lt_add_right n (h.below a ha), h.order⟩

/-! ## Concrete pools -/

/-- `step'` makes the steps of a block pool: `abs` is the pool a state stands for. -/
structure Refines {S E : Type} (step' : S → E → S) (abs : S → BlockPool) (event : E → Ev) (growth : Nat) : Prop where
  steps : ∀ s e, abs (step' s e) = (abs s).step growth (event e)

variable {S E : Type} {step' : S → E → S} {abs : S → BlockPool} {event : E → Ev} {growth : Nat}

theorem Refines.sound_run (hr : Refines step' abs event growth) {es : List E} {s : S} (h : (abs s).Sound)
    (ha : Along step' (fun s e => (abs s).GivesHeld (event e)) s es) : (abs (es.foldl step' s)).Sound := by
  induction es generalizing s with
  | nil => exact h
  | cons e es ih =>
    refine ih ?_ ha.2
    rw [hr.steps]
    exact sound_step h growth ha.1

end BlockPool

end SigHolic.Base
