/-
  SigHolic.Utility.JobProcessor — a queue of jobs and the thread that does them
  (utility/job_processor.h).

  `WorkerProccess` polls the queue; it is meant to spin `spin_count` = 100 times on an empty
  queue and then to wait for the event that `Enqueue` sets. Its counter is a local variable
  of the same name, so the test `spin_count > spin_count` compares the counter with itself.

  `loop` is the worker over any sequence of poll results, `JobProcessor` the machine in
  which callers of `Enqueue` and the worker's iterations interleave; `log` is ghost state.

  Proved:
  - `the_worker_parks_iff_it_is_kept_busy`: the counter and the number of empty polls in a
    row stay within the limit exactly when no 102 polls in a row find the queue empty: the
    worker never waits (`iterate_some`, `iterate_none`).
  - `processor_worker`: the worker of a processor is `loop` over what its polls found;
    `jobs_are_done_in_order`: it does the jobs in the order of their `Enqueue`.
-/

import Mathlib.Data.List.Induction
import SigHolic.Utility.Buffer

namespace SigHolic.Utility.JobProcessor

open SigHolic.Utility.Buffer (int32 int32_eq)

variable {Job : Type}

inductive Obs (Job : Type) where
  | did (job : Job)
  | emptyPoll
  /-- `WaitForSingleObject`. -/
  | waited

structure Worker (Job : Type) where
  /-- The local `spin_count`. -/
  spinCount : Int
  waiting : Bool
  log : List (Obs Job)

def classSpinCount : Nat := 100

def Worker.start : Worker Job := ⟨0, false, []⟩

/-- An iteration of `WorkerProccess`, `job` being what `Dequeue` returned. -/
def iterate (w : Worker Job) (job : Option Job) : Worker Job :=
  let w : Worker Job := match job with
    | some job => ⟨0, false, w.log ++ [.did job]⟩
    | none => ⟨int32 (w.spinCount + 1), false, w.log ++ [.emptyPoll]⟩
  -- inside the loop both names are the local variable's
  if w.spinCount > w.spinCount then { w with waiting := true, log := w.log ++ [.waited] } else w

def loop (polls : List (Option Job)) : Worker Job := polls.foldl iterate .start

@[simp] theorem iterate_some (w : Worker Job) (job : Job) : iterate w (some job) = ⟨0, false, w.log ++ [.did job]⟩ := rfl

@[simp] theorem iterate_none (w : Worker Job) :
    iterate w none = ⟨int32 (w.spinCount + 1), false, w.log ++ [.emptyPoll]⟩ := by
  simp [iterate]

/-! ## Empty polls in a row -/

def emptyPolls (log : List (Obs Job)) : Nat := (log.reverse.takeWhile fun | .emptyPoll => true | _ => false).length

def trailing (polls : List (Option Job)) : Nat := (polls.reverse.takeWhile Option.isNone).length

@[simp] theorem trailing_none (polls : List (Option Job)) : trailing (polls ++ [none]) = trailing polls + 1 := by
  simp [trailing]

@[simp] theorem trailing_some (polls : List (Option Job)) (job : Job) : trailing (polls ++ [some job]) = 0 := by
  simp [trailing]

theorem replicate_none_suffix {k : Nat} {polls : List (Option Job)} :
    List.replicate k none <:+ polls ↔ k ≤ trailing polls := by
  induction polls using List.reverseRecOn generalizing k with
  | nil => simp [trailing]
  | append_singleton polls poll ih =>
    cases k with
    | zero => simp
    | succ k =>
      rw [List.replicate_succ', List.suffix_concat_iff]
      cases poll with
      | none =>
        rw [trailing_none, Nat.add_le_add_iff_right, ← ih]
        simp
      | some job => simp

/-- The counter is the number of empty polls in a row, until it wraps. -/
theorem loop_spec (polls : List (Option Job)) :
    emptyPolls (loop polls).log = trailing polls ∧ (trailing polls < 2 ^ 31 → (loop polls).spinCount = trailing polls) := by
  induction polls using List.reverseRecOn with
  | nil => exact ⟨rfl, fun _ => rfl⟩
  | append_singleton polls poll ih =>
    obtain ⟨hlog, hcount⟩ := ih
    unfold loop at hlog hcount ⊢
    rw [List.foldl_concat]
    cases poll with
    | none =>
      simp only [iterate_none, trailing_none]
      constructor
      · rw [← hlog]
        simp [emptyPolls]
      · intro hlt
        rw [hcount (by omega), int32_eq (by omega) (by omega)]
        rfl
    | some job => simp [emptyPolls]

/-! ## Parking -/

/-- The counter and the number of empty polls in a row are at most one past the limit. -/
def Parks (w : Worker Job) : Prop :=
  0 ≤ w.spinCount ∧ w.spinCount ≤ classSpinCount + 1 ∧ emptyPolls w.log ≤ classSpinCount + 1

instance (w : Worker Job) : Decidable (Parks w) := inferInstanceAs (Decidable (_ ∧ _))

theorem parks_iff (polls : List (Option Job)) : Parks (loop polls) ↔ trailing polls ≤ classSpinCount + 1 := by
  have hlimit : classSpinCount = 100 := rfl
  obtain ⟨hlog, hcount⟩ := loop_spec polls
  unfold Parks
  rw [hlog]
  constructor
  · exact fun h => h.2.2
  · intro h
    have := hcount (by omega)
    omega

/-- Through a run the worker stays within the limit if and only if no 102 polls in a row find the queue empty. -/
theorem the_worker_parks_iff_it_is_kept_busy (polls : List (Option Job)) :
    (∀ before, before <+: polls → Parks (loop before)) ↔ ¬ List.replicate (classSpinCount + 2) none <:+: polls := by
  induction polls using List.reverseRecOn with
  | nil =>
    have hstart : Parks (loop ([] : List (Option Job))) := (parks_iff []).mpr (Nat.zero_le _)
    simp [hstart, classSpinCount]
  | append_singleton polls poll ih =>
    have hnow : Parks (loop (polls ++ [poll])) ↔ ¬ List.replicate (classSpinCount + 2) none <:+ polls ++ [poll] := by
      rw [parks_iff, replicate_none_suffix]
      omega
    rw [List.infix_concat_iff, not_or, ← ih, ← hnow]
    simp only [List.prefix_concat_iff, forall_eq_or_imp]

/-- Nothing is enqueued for 102 polls: the worker has not waited, and goes on spinning. -/
theorem an_idle_worker_spins :
    (loop (List.replicate 102 (none : Option Nat))).spinCount = 102 ∧
      (loop (List.replicate 102 (none : Option Nat))).waiting = false ∧
      ¬ ∀ before, before <+: List.replicate 102 (none : Option Nat) → Parks (loop before) := by
  have hspins : ¬ Parks (loop (List.replicate 102 (none : Option Nat))) := by decide +kernel
  exact ⟨by decide +kernel, by decide +kernel, fun h => hspins (h _ (List.prefix_refl _))⟩

end SigHolic.Utility.JobProcessor

/-! ## The processor -/

namespace SigHolic.Utility

open JobProcessor

structure JobProcessor (Job : Type) where
  /-- `queue_`, of pointers that may be null. -/
  queue : List (Option Job)
  /-- `event_`, which a wait that ends resets. -/
  event : Bool
  worker : Worker Job

namespace JobProcessor

variable {Job : Type}

def new : JobProcessor Job := ⟨[], false, .start⟩

def enqueue (p : JobProcessor Job) (job : Option Job) : Bool × JobProcessor Job :=
  (true, { p with queue := p.queue ++ [job], event := true })

def dequeue (p : JobProcessor Job) : Option Job × JobProcessor Job :=
  match p.queue with
  | [] => (none, p)
  | job :: queue => (job, { p with queue := queue })

inductive Ev (Job : Type) where
  | enqueue (job : Option Job)
  /-- The worker's next iteration, if it does not wait for the event. -/
  | iterate

def Blocked (p : JobProcessor Job) : Prop := p.worker.waiting = true ∧ p.event = false

instance (p : JobProcessor Job) : Decidable p.Blocked := inferInstanceAs (Decidable (_ ∧ _))

def step (p : JobProcessor Job) : Ev Job → JobProcessor Job
  | .enqueue job => (p.enqueue job).2
  | .iterate =>
    if p.Blocked then p
    else
      let p := { p with event := p.event && !p.worker.waiting }
      let (job, p) := p.dequeue
      { p with worker := JobProcessor.iterate p.worker job }

def run (es : List (Ev Job)) : JobProcessor Job := es.foldl step new

def polled : JobProcessor Job → List (Ev Job) → List (Option Job)
  | _, [] => []
  | p, e :: es =>
    match e with
    | .enqueue _ => polled (p.step e) es
    | .iterate => if p.Blocked then polled (p.step e) es else p.dequeue.1 :: polled (p.step e) es

theorem step_iterate {p : JobProcessor Job} (h : ¬ p.Blocked) :
    (p.step .iterate).worker = JobProcessor.iterate p.worker p.dequeue.1 ∧ (p.step .iterate).queue = p.queue.tail := by
  simp only [step, h, if_false, dequeue]
  cases p.queue with
  | nil => exact ⟨rfl, rfl⟩
  | cons job queue => exact ⟨rfl, rfl⟩

theorem foldl_worker (p : JobProcessor Job) (es : List (Ev Job)) :
    (es.foldl step p).worker = (polled p es).foldl JobProcessor.iterate p.worker := by
  induction es generalizing p with
  | nil => rfl
  | cons e es ih =>
    rw [List.foldl_cons, ih]
    cases e with
    | enqueue job => rfl
    | iterate =>
      simp only [polled]
      split
      · rename_i hb
        rw [step, if_pos hb]
      · rename_i hb
        rw [(step_iterate hb).1, List.foldl_cons]

/-- The worker of a processor is the loop over what its polls find. -/
theorem processor_worker (es : List (Ev Job)) : (run es).worker = loop (polled new es) := foldl_worker new es

def done (p : JobProcessor Job) : List Job := p.worker.log.filterMap fun | .did job => some job | _ => none

def enqueuedJobs (es : List (Ev Job)) : List Job := es.filterMap fun | .enqueue job => job | .iterate => none

/-- The jobs are done in the order of their `Enqueue`, and the others wait in that order. -/
theorem jobs_are_done_in_order (es : List (Ev Job)) : (run es).done ++ (run es).queue.filterMap id = enqueuedJobs es := by
  induction es using List.reverseRecOn with
  | nil => rfl
  | append_singleton es e ih =>
    unfold run at ih ⊢
    simp only [List.foldl_concat, enqueuedJobs, List.filterMap_append] at ih ⊢
    rw [← ih]
    cases e with
    | enqueue job => cases job <;> simp [step, enqueue, done]
    | iterate =>
      by_cases hb : (es.foldl step new).Blocked
      · rw [step, if_pos hb]
        simp
      · obtain ⟨hworker, hqueue⟩ := step_iterate hb
        simp only [done, hworker, hqueue, dequeue]
        cases (es.foldl step new).queue with
        | nil => simp
        | cons job queue => cases job <;> simp

end JobProcessor

end SigHolic.Utility
