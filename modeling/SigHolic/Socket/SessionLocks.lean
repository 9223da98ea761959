/-
  SigHolic.Socket.SessionLocks — who is inside `m_clients` (`SCOPED_LOCK`, utility/AutoLock.h;
  `AddTcpClient`, `RemoveTcpClient` and `GetWholeClients`, socket/TcpSessionManager.h; the
  broadcast loop of `ProcessPacket`, socket/TcpClient.cpp).

  `SCOPED_LOCK(tag)` declares a static lock in the function it stands in, and does not paste
  its argument into the name (`lock_tagName`, literally). So each of the two functions has
  a lock of its own, whatever the tag, and `GetWholeClients` hands the list out with none.

  Each thread makes one call, step by step: it waits for its lock (`Enter`), updates the
  list and leaves, or takes `begin()` and goes from node to node until `end()`.

  Proved:
  - `add_alone`, `remove_alone`: a call that nothing interrupts does what `TcpSessionManager`
    says of it.
  - `exclusion_iff`: updates exclude each other and traversals, in every interleaving,
    exactly when the threads' updates are calls of one and the same function and nobody
    traverses while there are any.
-/

import Mathlib.Data.List.Basic
import Mathlib.Logic.Function.Basic
import SigHolic.Base.Tally
import SigHolic.Socket.TcpSessionManager

namespace SigHolic.Socket.SessionLocks

open SigHolic.Base.Tally (set_cases)

inductive Call where
  | addTcpClient (c : Nat)
  | removeTcpClient (c : Nat)
  | broadcast
  deriving DecidableEq, Repr

/-- The statics the expansions of `SCOPED_LOCK` declare, one in each function. -/
inductive Lock where
  | addTcpClient
  | removeTcpClient
  deriving DecidableEq, Repr

def scopedLock : Call → Option Lock
  | .addTcpClient _ => some .addTcpClient
  | .removeTcpClient _ => some .removeTcpClient
  | .broadcast => none

inductive Point where
  | start
  | remove
  | pushBack
  | leave
  /-- In the loop, with its iterator (`none` is `end()`). -/
  | node (it : Option Nat)
  | dangling
  | done
  deriving DecidableEq, Repr

structure Thread where
  call : Call
  point : Point
  deriving DecidableEq, Repr

def Thread.inside (th : Thread) : Bool :=
  match th.point with
  | .remove | .pushBack | .leave => true
  | _ => false

def Thread.traversing (th : Thread) : Bool :=
  match th.point with
  | .node _ => true
  | _ => false

structure St where
  clients : List Nat
  holder : Lock → Option Nat
  threads : List Thread

def St.goto (s : St) (t : Nat) (th : Thread) (point : Point) : St :=
  { s with threads := s.threads.set t { th with point := point } }

/-- `Enter`: the thread waits while another has the lock. -/
def St.enter (s : St) (t : Nat) (th : Thread) (lock : Lock) : St :=
  if s.holder lock = none then { s.goto t th .remove with holder := Function.update s.holder lock (some t) } else s

def St.exit (s : St) (t : Nat) (th : Thread) (lock : Lock) : St :=
  { s.goto t th .done with holder := Function.update s.holder lock none }

def St.exec (s : St) (t : Nat) (th : Thread) : St :=
  match th.call, th.point with
  | .addTcpClient _, .start => s.enter t th .addTcpClient
  | .addTcpClient c, .remove => { s.goto t th .pushBack with clients := s.clients.filter (· ≠ c) }
  | .addTcpClient c, .pushBack => { s.goto t th .leave with clients := s.clients ++ [c] }
  | .addTcpClient _, .leave => s.exit t th .addTcpClient
  | .removeTcpClient _, .start => s.enter t th .removeTcpClient
  | .removeTcpClient c, .remove => { s.goto t th .leave with clients := s.clients.filter (· ≠ c) }
  | .removeTcpClient _, .leave => s.exit t th .removeTcpClient
  | .broadcast, .start => s.goto t th (.node s.clients.head?)
  | .broadcast, .node none => s.goto t th .done
  | .broadcast, .node (some c) =>
    match TcpSessionManager.nextClient s.clients c with
    | none => s.goto t th .dangling
    | some it => s.goto t th (.node it)
  | _, _ => s

def step (s : St) (t : Nat) : St :=
  match s.threads[t]? with
  | none => s
  | some th => s.exec t th

def start (clients : List Nat) (calls : List Call) : St :=
  ⟨clients, fun _ => none, calls.map fun call => ⟨call, .start⟩⟩

/-! ## A call that nothing interrupts -/

theorem step_at {s : St} {t : Nat} {th : Thread} (ht : s.threads[t]? = some th) : step s t = s.exec t th := by
  simp only [step, ht]

theorem step_set {threads : List Thread} {t : Nat} (h : t < threads.length) (clients : List Nat) (holder : Lock → Option Nat)
    (th : Thread) :
    step ⟨clients, holder, threads.set t th⟩ t = St.exec ⟨clients, holder, threads.set t th⟩ t th :=
  step_at (List.getElem?_set_self h)

theorem held_then_left {s : St} {lock : Lock} (h : s.holder lock = none) (t : Nat) :
    Function.update (Function.update s.holder lock (some t)) lock none = s.holder := by
  rw [Function.update_idem, ← h, Function.update_eq_self]

/-- Four steps of a thread in `AddTcpClient`, its lock being free. -/
theorem add_alone {s : St} {t c : Nat} (ht : s.threads[t]? = some ⟨.addTcpClient c, .start⟩)
    (hl : s.holder .addTcpClient = none) :
    [t, t, t, t].foldl step s =
      { s with
        clients := TcpSessionManager.addTcpClient s.clients c
        threads := s.threads.set t ⟨.addTcpClient c, .done⟩ } := by
  have hlt := (List.getElem?_eq_some_iff.mp ht).1
  simp only [List.foldl_cons, List.foldl_nil, step_at ht, St.exec, St.enter, hl, if_true, St.goto, step_set hlt, List.set_set,
    St.exit, held_then_left hl]
  rfl

/-- Three steps of a thread in `RemoveTcpClient`, its lock being free. -/
theorem remove_alone {s : St} {t c : Nat} (ht : s.threads[t]? = some ⟨.removeTcpClient c, .start⟩)
    (hl : s.holder .removeTcpClient = none) :
    [t, t, t].foldl step s =
      { s with
        clients := TcpSessionManager.removeTcpClient s.clients c
        threads := s.threads.set t ⟨.removeTcpClient c, .done⟩ } := by
  have hlt := (List.getElem?_eq_some_iff.mp ht).1
  simp only [List.foldl_cons, List.foldl_nil, step_at ht, St.exec, St.enter, hl, if_true, St.goto, step_set hlt, List.set_set,
    St.exit, held_then_left hl]
  rfl

/-! ## Exclusion -/

/-- At most one thread is inside an update, and none is while another traverses. -/
structure Exclusive (s : St) : Prop where
  updates : ∀ (i j : Nat) (th th' : Thread), s.threads[i]? = some th → s.threads[j]? = some th' →
    th.inside = true → th'.inside = true → i = j
  traversals : ∀ (i j : Nat) (th th' : Thread), s.threads[i]? = some th → s.threads[j]? = some th' →
    th.inside = true → th'.traversing = false

/-- Updates are calls of one function, and where there are any nobody traverses. -/
def Compatible (calls : List Call) : Prop :=
  ∀ call ∈ calls, ∀ call' ∈ calls, ∀ lock, scopedLock call = some lock → scopedLock call' = some lock

structure Locked (s : St) : Prop where
  holds : ∀ (i : Nat) (th : Thread), s.threads[i]? = some th → th.inside = true →
    ∃ lock, scopedLock th.call = some lock ∧ s.holder lock = some i
  walks : ∀ (i : Nat) (th : Thread), s.threads[i]? = some th → th.traversing = true → th.call = .broadcast

/-- What a thread's step does to the threads and the locks. -/
theorem exec_cases (s : St) (t : Nat) (th : Thread) :
    s.exec t th = s ∨
    (∃ lock, scopedLock th.call = some lock ∧ s.holder lock = none ∧
      (s.exec t th).threads = s.threads.set t { th with point := .remove } ∧
      (s.exec t th).holder = Function.update s.holder lock (some t)) ∨
    (∃ lock, scopedLock th.call = some lock ∧ th.inside = true ∧
      (s.exec t th).threads = s.threads.set t { th with point := .done } ∧
      (s.exec t th).holder = Function.update s.holder lock none) ∨
    ((s.exec t th).holder = s.holder ∧ ∃ point, (s.exec t th).threads = s.threads.set t { th with point := point } ∧
      (Thread.inside { th with point := point } = true → th.inside = true) ∧
      (Thread.traversing { th with point := point } = true → th.call = .broadcast)) := by
  obtain ⟨call, point⟩ := th
  cases call with
  | addTcpClient c =>
    cases point with
    | start =>
      by_cases h : s.holder .addTcpClient = none
      · exact Or.inr (Or.inl ⟨_, rfl, h, by simp [St.exec, St.enter, h, St.goto], by simp [St.exec, St.enter, h]⟩)
      · exact Or.inl (by simp [St.exec, St.enter, h])
    | leave => exact Or.inr (Or.inr (Or.inl ⟨_, rfl, rfl, rfl, rfl⟩))
    | remove => exact Or.inr (Or.inr (Or.inr ⟨rfl, .pushBack, rfl, fun _ => rfl, by simp [Thread.traversing]⟩))
    | pushBack => exact Or.inr (Or.inr (Or.inr ⟨rfl, .leave, rfl, fun _ => rfl, by simp [Thread.traversing]⟩))
    | _ => exact Or.inl rfl
  | removeTcpClient c =>
    cases point with
    | start =>
      by_cases h : s.holder .removeTcpClient = none
      · exact Or.inr (Or.inl ⟨_, rfl, h, by simp [St.exec, St.enter, h, St.goto], by simp [St.exec, St.enter, h]⟩)
      · exact Or.inl (by simp [St.exec, St.enter, h])
    | leave => exact Or.inr (Or.inr (Or.inl ⟨_, rfl, rfl, rfl, rfl⟩))
    | remove => exact Or.inr (Or.inr (Or.inr ⟨rfl, .leave, rfl, fun _ => rfl, by simp [Thread.traversing]⟩))
    | _ => exact Or.inl rfl
  | broadcast =>
    cases point with
    | start => exact Or.inr (Or.inr (Or.inr ⟨rfl, _, rfl, by simp [Thread.inside], fun _ => rfl⟩))
    | node it =>
      cases it with
      | none => exact Or.inr (Or.inr (Or.inr ⟨rfl, .done, rfl, by simp [Thread.inside], fun _ => rfl⟩))
      | some c =>
        cases hn : TcpSessionManager.nextClient s.clients c with
        | none =>
          exact Or.inr (Or.inr (Or.inr ⟨by simp [St.exec, hn, St.goto], .dangling, by simp [St.exec, hn, St.goto],
            by simp [Thread.inside], fun _ => rfl⟩))
        | some it =>
          exact Or.inr (Or.inr (Or.inr ⟨by simp [St.exec, hn, St.goto], .node it, by simp [St.exec, hn, St.goto],
            by simp [Thread.inside], fun _ => rfl⟩))
    | _ => exact Or.inl rfl

theorem locked_step {s : St} (h : Locked s) (t : Nat) : Locked (step s t) := by
  cases ht : s.threads[t]? with
  | none => rw [show step s t = s by simp only [step, ht]]; exact h
  | some th =>
    rw [step_at ht]
    rcases exec_cases s t th with
      he | ⟨lock, hl, hfree, hth, hho⟩ | ⟨lock, hl, hin, hth, hho⟩ | ⟨hho, point, hth, hkeep, hwalk⟩
    · rw [he]; exact h
    · -- `Enter`: nobody else had the lock
      refine ⟨fun i th' hi hin => ?_, fun i th' hi hw => ?_⟩ <;> rw [hth] at hi
      · rcases set_cases hi with ⟨rfl, rfl⟩ | ⟨hne, hi⟩
        · exact ⟨lock, hl, by rw [hho, Function.update_self]⟩
        · obtain ⟨lock', hl', hh⟩ := h.holds i th' hi hin
          have e : lock' ≠ lock := by rintro rfl; rw [hfree] at hh; cases hh
          exact ⟨lock', hl', by rw [hho, Function.update_of_ne e]; exact hh⟩
      · rcases set_cases hi with ⟨rfl, rfl⟩ | ⟨-, hi⟩
        · cases hw
        · exact h.walks i th' hi hw
    · -- `Leave`: it was this thread's
      obtain ⟨lock₀, hl₀, hmine⟩ := h.holds t th ht hin
      rw [hl] at hl₀
      cases hl₀
      refine ⟨fun i th' hi hin => ?_, fun i th' hi hw => ?_⟩ <;> rw [hth] at hi
      · rcases set_cases hi with ⟨rfl, rfl⟩ | ⟨hne, hi⟩
        · cases hin
        · obtain ⟨lock', hl', hh⟩ := h.holds i th' hi hin
          have e : lock' ≠ lock := by
            intro heq
            subst heq
            rw [hmine] at hh
            cases hh
            exact hne rfl
          exact ⟨lock', hl', by rw [hho, Function.update_of_ne e]; exact hh⟩
      · rcases set_cases hi with ⟨rfl, rfl⟩ | ⟨-, hi⟩
        · cases hw
        · exact h.walks i th' hi hw
    · refine ⟨fun i th' hi hin => ?_, fun i th' hi hw => ?_⟩ <;> rw [hth] at hi
      · rw [hho]
        rcases set_cases hi with ⟨rfl, rfl⟩ | ⟨-, hi⟩
        · exact h.holds i th ht (hkeep hin)
        · exact h.holds i th' hi hin
      · rcases set_cases hi with ⟨rfl, rfl⟩ | ⟨-, hi⟩
        · exact hwalk hw
        · exact h.walks i th' hi hw

/-- Which call each thread makes does not change. -/
theorem call_step {s : St} {t i : Nat} {th : Thread} (h : (step s t).threads[i]? = some th) :
    ∃ th₀, s.threads[i]? = some th₀ ∧ th₀.call = th.call := by
  cases ht : s.threads[t]? with
  | none => rw [show step s t = s by simp only [step, ht]] at h; exact ⟨th, h, rfl⟩
  | some th₀ =>
    have hset : ∀ point, (s.threads.set t { th₀ with point := point })[i]? = some th →
        ∃ th₀, s.threads[i]? = some th₀ ∧ th₀.call = th.call := by
      intro point hi
      rcases set_cases hi with ⟨rfl, rfl⟩ | ⟨-, hi⟩
      · exact ⟨th₀, ht, rfl⟩
      · exact ⟨th, hi, rfl⟩
    rw [step_at ht] at h
    rcases exec_cases s t th₀ with he | ⟨lock, -, -, hth, -⟩ | ⟨lock, -, -, hth, -⟩ | ⟨-, point, hth, -⟩
    · rw [he] at h; exact ⟨th, h, rfl⟩
    · rw [hth] at h; exact hset _ h
    · rw [hth] at h; exact hset _ h
    · rw [hth] at h; exact hset _ h

/-- Along any schedule. -/
theorem locked_run {s : St} {calls : List Call} (h : Locked s)
    (hc : ∀ (i : Nat) (th : Thread), s.threads[i]? = some th → th.call ∈ calls)
    (schedule : List Nat) :
    Locked (schedule.foldl step s) ∧
      ∀ (i : Nat) (th : Thread), (schedule.foldl step s).threads[i]? = some th → th.call ∈ calls := by
  induction schedule generalizing s with
  | nil => exact ⟨h, hc⟩
  | cons t schedule ih =>
    refine ih (locked_step h t) fun i th hi => ?_
    obtain ⟨th₀, h0, he⟩ := call_step hi
    rw [← he]
    exact hc i th₀ h0

theorem start_at {clients : List Nat} {calls : List Call} {i : Nat} {th : Thread}
    (h : (start clients calls).threads[i]? = some th) : th.call ∈ calls ∧ th.point = .start := by
  simp only [start, List.getElem?_map, Option.map_eq_some_iff] at h
  obtain ⟨call, hcall, rfl⟩ := h
  exact ⟨List.mem_of_getElem? hcall, rfl⟩

theorem locked_start (clients : List Nat) (calls : List Call) : Locked (start clients calls) := by
  constructor
  · intro i th hi hin
    rw [Thread.inside, (start_at hi).2] at hin
    cases hin
  · intro i th hi hw
    rw [Thread.traversing, (start_at hi).2] at hw
    cases hw

theorem exclusive_of_compatible {calls : List Call} (hcomp : Compatible calls) {s : St} (h : Locked s)
    (hc : ∀ (i : Nat) (th : Thread), s.threads[i]? = some th → th.call ∈ calls) : Exclusive s := by
  constructor
  · intro i j th th' hi hj hin hin'
    obtain ⟨lock, hl, hh⟩ := h.holds i th hi hin
    obtain ⟨lock', hl', hh'⟩ := h.holds j th' hj hin'
    have := hcomp _ (hc i th hi) _ (hc j th' hj) lock hl
    rw [hl'] at this
    cases this
    rw [hh] at hh'
    cases hh'
    rfl
  · intro i j th th' hi hj hin
    obtain ⟨lock, hl, -⟩ := h.holds i th hi hin
    by_contra hw
    rw [Bool.not_eq_false] at hw
    have := hcomp _ (hc i th hi) _ (hc j th' hj) lock hl
    rw [h.walks j th' hj hw] at this
    cases this

/-- A thread whose lock is free enters. -/
theorem step_enter {s : St} {t : Nat} {call : Call} {lock : Lock} (ht : s.threads[t]? = some ⟨call, .start⟩)
    (hl : scopedLock call = some lock) (hfree : s.holder lock = none) :
    step s t =
      { s with
        threads := s.threads.set t ⟨call, .remove⟩
        holder := Function.update s.holder lock (some t) } := by
  rw [step_at ht]
  cases call <;> cases hl <;> simp only [St.exec, St.enter, hfree, if_true, St.goto]

/-- Two threads that do not share a lock get into each other's way: the first enters its
    update, the second its own, or its traversal. -/
theorem not_exclusive {clients : List Nat} {calls : List Call} {i j : Nat} {call call' : Call} {lock : Lock}
    (hi : calls[i]? = some call) (hj : calls[j]? = some call') (hl : scopedLock call = some lock)
    (hl' : scopedLock call' ≠ some lock) : ¬ Exclusive ([i, j].foldl step (start clients calls)) := by
  have hne : i ≠ j := by
    intro heq
    subst heq
    rw [hi] at hj
    cases hj
    exact hl' hl
  have h0 : ∀ {k : Nat} {call : Call}, calls[k]? = some call →
      (start clients calls).threads[k]? = some ⟨call, .start⟩ := by
    intro k call hk
    simp [start, hk]
  have h1 := step_enter (h0 hi) hl rfl
  simp only [List.foldl_cons, List.foldl_nil, h1]
  have hli := (List.getElem?_eq_some_iff.mp (h0 hi)).1
  have hlj := (List.getElem?_eq_some_iff.mp (h0 hj)).1
  have h2 : ((start clients calls).threads.set i ⟨call, .remove⟩)[j]? = some ⟨call', .start⟩ := by
    rw [List.getElem?_set_ne hne]
    exact h0 hj
  intro hex
  cases hs : scopedLock call' with
  | some lock' =>
    have e : lock' ≠ lock := by rintro rfl; exact hl' hs
    rw [step_enter h2 hs (by simp [start, Function.update_of_ne e])] at hex
    refine hne (hex.updates i j ⟨call, .remove⟩ ⟨call', .remove⟩ ?_ ?_ rfl rfl)
    · simp only [List.getElem?_set_ne (Ne.symm hne), List.getElem?_set_self hli]
    · exact List.getElem?_set_self (by rw [List.length_set]; exact hlj)
  | none =>
    have hb : call' = .broadcast := by cases call' <;> first | rfl | cases hs
    subst hb
    rw [step_at h2] at hex
    have := hex.traversals i j ⟨call, .remove⟩ ⟨.broadcast, .node clients.head?⟩ ?_ ?_ rfl
    · cases this
    · simp only [St.exec, St.goto, List.getElem?_set_ne (Ne.symm hne), List.getElem?_set_self hli]
    · exact List.getElem?_set_self (by rw [List.length_set]; exact hlj)

/-- For every list of threads and every registry: in every interleaving at most one thread is
    inside an update and none is while another traverses, exactly when all updates are calls
    of one function and nobody traverses while there are any. -/
theorem exclusion_iff (clients : List Nat) (calls : List Call) :
    (∀ schedule : List Nat, Exclusive (schedule.foldl step (start clients calls))) ↔ Compatible calls := by
  constructor
  · intro h call hc call' hc' lock hl
    by_contra hl'
    obtain ⟨i, hi⟩ := List.mem_iff_getElem?.mp hc
    obtain ⟨j, hj⟩ := List.mem_iff_getElem?.mp hc'
    exact not_exclusive hi hj hl hl' (h [i, j])
  · intro hcomp schedule
    obtain ⟨h1, h2⟩ := locked_run (locked_start clients calls) (fun i th hi => (start_at hi).1) schedule
    exact exclusive_of_compatible hcomp h1 h2

/-- A session is added while another is removed. -/
theorem an_add_does_not_exclude_a_remove :
    ¬ ∀ clients calls (schedule : List Nat), Exclusive (schedule.foldl step (start clients calls)) := by
  intro h
  have := (h [0] [.addTcpClient 1, .removeTcpClient 0] [0, 1]).updates 0 1 ⟨.addTcpClient 1, .remove⟩
    ⟨.removeTcpClient 0, .remove⟩
    (by decide) (by decide) rfl rfl
  cases this

end SigHolic.Socket.SessionLocks
