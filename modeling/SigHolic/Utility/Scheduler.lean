/-
  SigHolic.Utility.Scheduler — delayed jobs (utility/scheduler.h).

  `job_map_` is a map from due time to element, so an insert whose due time is there does
  nothing. A caller of `Schedule` reads the clock, builds its element and then takes the
  lock to insert it; the worker reads the clock and then takes the lock to look at the
  first entry. Callers, any number of them, and the worker's iterations interleave, with any clock
  readings. The overload without a delay is the one with a delay of zero milliseconds.

  A due time is a number of ticks of `system_clock` (100 ns) in a signed 64-bit integer;
  adding a delay to a reading wraps.

  `log` is ghost state: which elements `Schedule` returned for, which `Enqueue` was called
  with.

  Proved: in every run, the jobs `Schedule` returned for are the pending and the enqueued
  ones exactly when every insert of the run found its due time free
  (`jobs_are_conserved_iff_due_times_were_free`).

  Not modelled: the `JobProcessor`s' own threads and queues; a job is the processor's once
  `Enqueue` is called.
-/

import Mathlib.Algebra.Order.Group.Multiset
import Mathlib.Data.Int.Order.Basic
import Mathlib.Data.List.Induction
import SigHolic.Base.OrderedMap
import SigHolic.Base.Runs

namespace SigHolic.Utility

open SigHolic.Base SigHolic.Base.Runs

structure SchedulerElement (Processor Job : Type) where
  job : Job
  processor : Processor

def wrap64 (x : Int) : Int := x.bmod (2 ^ 64)

def ticksPerMilli : Int := 10000

def dueTime (now timespan : Int) : Int := wrap64 (now + wrap64 (timespan * ticksPerMilli))

namespace Scheduler

variable {Processor Job : Type}

inductive Obs (Processor Job : Type) where
  /-- `Schedule` returned. -/
  | returned (key : Int) (element : SchedulerElement Processor Job)
  /-- The worker, having read `now`, called `Enqueue` of the element's processor with its job. -/
  | enqueued (now key : Int) (element : SchedulerElement Processor Job)

end Scheduler

structure Scheduler (Processor Job : Type) where
  jobMap : OrderedMap Int (SchedulerElement Processor Job)
  /-- The calls of `Schedule` that have their `mapPair` and not the lock. -/
  calls : List (Int × SchedulerElement Processor Job)
  /-- The worker's `now`, between its reading and its lock. -/
  worker : Option Int
  log : List (Scheduler.Obs Processor Job)

namespace Scheduler

variable {Processor Job : Type}

def empty : Scheduler Processor Job := ⟨.empty, [], none, []⟩

/-- `Schedule` up to the lock. -/
def schedule (s : Scheduler Processor Job) (processor : Processor) (job : Job) (timespan now : Int) : Scheduler Processor Job :=
  { s with calls := s.calls ++ [(dueTime now timespan, ⟨job, processor⟩)] }

/-- The lock of `Schedule`, and its return. -/
def insert (s : Scheduler Processor Job) (i : Nat) : Scheduler Processor Job :=
  match s.calls[i]? with
  | none => s
  | some (key, element) =>
    { s with
      jobMap := s.jobMap.insert key element
      calls := s.calls.eraseIdx i
      log := s.log ++ [.returned key element] }

def dispatch (s : Scheduler Processor Job) : Scheduler Processor Job :=
  match s.worker with
  | none => s
  | some now =>
    match s.jobMap.begin? with
    | none => { s with worker := none }
    | some (key, element) =>
      if key ≤ now then
        { s with jobMap := s.jobMap.eraseBegin, worker := none, log := s.log ++ [.enqueued now key element] }
      else { s with worker := none }

inductive Ev (Processor Job : Type) where
  | schedule (processor : Processor) (job : Job) (timespan now : Int)
  /-- The `i`-th call that waits for the lock gets it. -/
  | insert (i : Nat)
  /-- The worker reads the clock. -/
  | sample (now : Int)
  | dispatch

def step (s : Scheduler Processor Job) : Ev Processor Job → Scheduler Processor Job
  | .schedule processor job timespan now => s.schedule processor job timespan now
  | .insert i => s.insert i
  | .sample now => if s.worker = none then { s with worker := some now } else s
  | .dispatch => s.dispatch

def Ev.reading : Ev Processor Job → Option Int
  | .schedule _ _ _ now => some now
  | .sample now => some now
  | _ => none

/-! ## Who holds the jobs -/

def pair (element : SchedulerElement Processor Job) : Processor × Job := (element.processor, element.job)

def scheduled (s : Scheduler Processor Job) : Multiset (Processor × Job) :=
  (s.log.filterMap fun | .returned _ element => some (pair element) | _ => none : List _)

def pending (s : Scheduler Processor Job) : Multiset (Processor × Job) := s.jobMap.values.map pair

def enqueued (s : Scheduler Processor Job) : Multiset (Processor × Job) :=
  (s.log.filterMap fun | .enqueued _ _ element => some (pair element) | _ => none : List _)

def Conserved (s : Scheduler Processor Job) : Prop := s.scheduled = s.pending + s.enqueued

def returning (s : Scheduler Processor Job) : Ev Processor Job → Option (Int × SchedulerElement Processor Job)
  | .insert i => s.calls[i]?
  | _ => none

/-- The call an event lets return, if any, finds its due time free. -/
def Free (s : Scheduler Processor Job) (e : Ev Processor Job) : Prop :=
  ∀ call, s.returning e = some call → ¬ s.jobMap.Has call.1

def arriving (s : Scheduler Processor Job) (e : Ev Processor Job) : Multiset (Processor × Job) :=
  match s.returning e with
  | none => 0
  | some call => {pair call.2}

/-- `Schedule` returns only for an event that lets a call return. -/
theorem scheduled_step (s : Scheduler Processor Job) (e : Ev Processor Job) :
    (s.step e).scheduled = s.scheduled + s.arriving e := by
  cases e with
  | schedule processor job timespan now => exact (add_zero _).symm
  | insert i =>
    simp only [step, insert, arriving, returning]
    cases s.calls[i]? with
    | none => exact (add_zero _).symm
    | some call =>
      simp only [scheduled, List.filterMap_append]
      rfl
  | sample now =>
    simp only [step, arriving, returning, add_zero]
    split <;> rfl
  | dispatch =>
    simp only [step, dispatch, arriving, returning, add_zero]
    split
    · rfl
    · split
      · rfl
      · split
        · simp [scheduled, List.filterMap_append]
        · rfl

/-- The worker takes a job from one side to the other; a call that returns adds its own if its due time
    is free. -/
theorem held_step (s : Scheduler Processor Job) (e : Ev Processor Job) :
    (s.Free e → (s.step e).pending + (s.step e).enqueued = s.pending + s.enqueued + s.arriving e) ∧
      (¬ s.Free e → (s.step e).pending + (s.step e).enqueued = s.pending + s.enqueued) := by
  cases e with
  | schedule processor job timespan now => exact ⟨fun _ => (add_zero _).symm, fun _ => rfl⟩
  | insert i =>
    simp only [step, insert, arriving, returning, Free]
    cases s.calls[i]? with
    | none => exact ⟨fun _ => (add_zero _).symm, fun _ => rfl⟩
    | some call =>
      simp only [pending, enqueued, List.filterMap_append, List.filterMap_cons, List.filterMap_nil, List.append_nil]
      refine ⟨?_, ?_⟩
      · intro hf
        rw [OrderedMap.insert_fresh _ (hf call rfl), Multiset.map_cons, Multiset.cons_add, ← Multiset.singleton_add, add_comm]
      · intro hf
        rw [OrderedMap.insert_present]
        exact not_not.mp fun hn => hf (by rintro _ ⟨⟩; exact hn)
  | sample now =>
    simp only [step, arriving, returning, add_zero]
    split <;> exact ⟨fun _ => rfl, fun _ => rfl⟩
  | dispatch =>
    simp only [step, dispatch, arriving, returning, add_zero]
    have hkeep : (s.step .dispatch).pending + (s.step .dispatch).enqueued = s.pending + s.enqueued := by
      simp only [step, dispatch]
      split
      · rfl
      · split
        · rfl
        · rename_i hb
          split
          · simp only [pending, enqueued, List.filterMap_append, List.filterMap_cons, List.filterMap_nil]
            rw [OrderedMap.values_begin hb, Multiset.map_cons, Multiset.cons_add, ← Multiset.coe_add, ← add_assoc,
              Multiset.coe_singleton, add_comm _ {_}, Multiset.singleton_add]
          · rfl
    exact ⟨fun _ => hkeep, fun _ => hkeep⟩

/-- One step: what was conserved stays so unless a due time is taken, and what was lost stays lost. -/
theorem conserved_step {s : Scheduler Processor Job} (h : s.pending + s.enqueued ≤ s.scheduled) (e : Ev Processor Job) :
    (s.step e).pending + (s.step e).enqueued ≤ (s.step e).scheduled ∧
      ((s.step e).Conserved ↔ s.Conserved ∧ s.Free e) := by
  rw [Conserved, Conserved, scheduled_step]
  obtain ⟨hfree, htaken⟩ := held_step s e
  by_cases hf : s.Free e
  · rw [hfree hf, add_left_inj]
    exact ⟨add_le_add_left h _, by simp [hf]⟩
  · rw [htaken hf]
    refine ⟨h.trans (Multiset.le_add_right _ _), iff_of_false (fun heq => hf fun call hc => ?_) fun ha => hf ha.2⟩
    -- a call returned and nothing was added
    have hcard := congrArg Multiset.card heq
    have hle := Multiset.card_le_card h
    simp only [arriving, hc, Multiset.card_add, Multiset.card_singleton] at hcard hle
    omega

/-- After any run, the jobs `Schedule` returned for are the pending and the enqueued ones, each as often,
    if and only if no call of the run found its due time taken. -/
theorem jobs_are_conserved_iff_due_times_were_free (es : List (Ev Processor Job)) :
    (es.foldl step empty).Conserved ↔ Along step Free empty es := by
  have h : (es.foldl step empty).pending + (es.foldl step empty).enqueued ≤ (es.foldl step empty).scheduled ∧
      ((es.foldl step empty).Conserved ↔ Along step Free empty es) := by
    induction es using List.reverseRecOn with
    | nil => exact ⟨Multiset.zero_le _, iff_of_true rfl trivial⟩
    | append_singleton es e ih =>
      rw [List.foldl_concat, along_concat, ← ih.2]
      exact conserved_step ih.1 e
  exact h.2

/-- Two jobs for one processor, the second called for half a second later and with half a second less to wait. -/
def collidingRun : List (Ev Nat Nat) :=
  [.schedule 1 10 1000 0, .insert 0, .schedule 1 20 500 5000000, .insert 0, .sample 10000000, .dispatch,
    .sample 10000001, .dispatch]

/-- The second is gone: its due time was taken. -/
theorem a_taken_due_time_loses_the_job :
    (collidingRun.filterMap Ev.reading).Pairwise (· ≤ ·) ∧
      (collidingRun.foldl step empty).scheduled = {(1, 10), (1, 20)} ∧
      (collidingRun.foldl step empty).pending + (collidingRun.foldl step empty).enqueued = {(1, 10)} ∧
      ¬ (collidingRun.foldl step empty).Conserved := by
  unfold Conserved
  decide +kernel

end Scheduler

end SigHolic.Utility
