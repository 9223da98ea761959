/-
  SigHolic.Utility.JobSystem — the scheduler and the processors it feeds
  (utility/scheduler.h, utility/job_processor.h).

  The scheduler's worker passes due jobs to `Enqueue` of their processors, under its lock;
  a processor's own thread polls its queue, and other code may call `Enqueue` too. Calls of
  `Schedule`, the scheduler's worker and any number of processors interleave, with any
  clock readings.

  A processor's agenda is what it has done, what waits in its queue and what is pending for
  it, in that order, the last by due time. Of all the steps only a call of `Schedule`
  that returns and a call of `Enqueue` from outside change it (`agenda_step`).

  Proved:
  - a processor does its jobs in the order of their `Enqueue`, and each job that was
    scheduled for it or enqueued from outside is on its agenda, as often as it was asked
    for, exactly when no call of the run found its due time taken (`jobs_are_done_once`);
  - once no more calls come in, the calls of `Schedule` under way return, and every
    processor does the agenda it has once they have returned to the end and in that order,
    in every run in which the callers and the threads go on and the clock gets past the
    due times (`every_agenda_is_done`).

  Not modelled: processors that are destroyed while jobs are pending for them.
-/

import Mathlib.Data.List.Induction
import Mathlib.Data.List.Perm.Basic
import Mathlib.Tactic.Abel
import SigHolic.Base.Settling
import SigHolic.Utility.JobProcessor
import SigHolic.Utility.Scheduler

namespace SigHolic.Utility

open SigHolic.Base SigHolic.Base.Runs SigHolic.Base.Settling

def Scheduler.handing {Processor Job : Type} (s : Scheduler Processor Job) :
    Scheduler.Ev Processor Job → Option (SchedulerElement Processor Job)
  | .dispatch =>
    match s.worker, s.jobMap.begin? with
    | some now, some (key, element) => if key ≤ now then some element else none
    | _, _ => none
  | _ => none

/-- A step that passes nothing on and lets no call return leaves the map. -/
theorem Scheduler.jobMap_kept {Processor Job : Type} (s : Scheduler Processor Job) {e : Scheduler.Ev Processor Job}
    (h : s.handing e = none) (hr : s.returning e = none) : (s.step e).jobMap = s.jobMap := by
  cases e with
  | schedule processor job timespan now => rfl
  | insert i =>
    simp only [returning] at hr
    simp only [step, insert, hr]
  | sample now =>
    simp only [step]
    split <;> rfl
  | dispatch =>
    simp only [handing] at h
    simp only [step, dispatch]
    cases hw : s.worker with
    | none => rfl
    | some now =>
      cases hb : s.jobMap.begin? with
      | none => rfl
      | some entry =>
        simp only [hw, hb] at h ⊢
        split at h
        · cases h
        · rename_i hle
          rw [if_neg hle]

structure JobSystem (Processor Job : Type) where
  scheduler : Scheduler Processor Job
  processors : Processor → JobProcessor Job
  /-- The jobs each processor's `Enqueue` was called with: ghost state. -/
  handed : Processor → List Job

namespace JobSystem

variable {Processor Job : Type} [DecidableEq Processor]

def start : JobSystem Processor Job := ⟨.empty, fun _ => .new, fun _ => []⟩

inductive Ev (Processor Job : Type) where
  | scheduler (e : Scheduler.Ev Processor Job)
  /-- An iteration of the processor's thread, or a call of its `Enqueue` from outside. -/
  | processor (p : Processor) (e : JobProcessor.Ev Job)

def enqueue (s : JobSystem Processor Job) (p : Processor) (job : Option Job) : JobSystem Processor Job :=
  { s with
    processors := Function.update s.processors p ((s.processors p).enqueue job).2
    handed := Function.update s.handed p (s.handed p ++ job.toList) }

def step (s : JobSystem Processor Job) : Ev Processor Job → JobSystem Processor Job
  | .scheduler e =>
    match s.scheduler.handing e with
    | none => { s with scheduler := s.scheduler.step e }
    | some element => { s.enqueue element.processor (some element.job) with scheduler := s.scheduler.step e }
  | .processor p (.enqueue job) => s.enqueue p job
  | .processor p .iterate => { s with processors := Function.update s.processors p ((s.processors p).step .iterate) }

def run (es : List (Ev Processor Job)) : JobSystem Processor Job := es.foldl step start

/-! ## Agendas -/

def waiting (s : JobSystem Processor Job) (p : Processor) : List Job := (s.processors p).queue.filterMap id

/-- The jobs in `job_map_` for a processor, by due time. -/
def pendingFor (s : JobSystem Processor Job) (p : Processor) : List Job :=
  s.scheduler.jobMap.entries.filterMap fun x => if x.2.processor = p then some x.2.job else none

def agenda (s : JobSystem Processor Job) (p : Processor) : List Job := (s.processors p).done ++ s.waiting p ++ s.pendingFor p

def scheduledFor (s : JobSystem Processor Job) (p : Processor) : List Job :=
  s.scheduler.log.filterMap fun
    | .returned _ element => if element.processor = p then some element.job else none
    | _ => none

def enqueuedFor (es : List (Ev Processor Job)) (p : Processor) : List Job :=
  es.filterMap fun
    | .processor q (.enqueue job) => if q = p then job else none
    | _ => none

def Free (s : JobSystem Processor Job) : Ev Processor Job → Prop
  | .scheduler e => s.scheduler.Free e
  | _ => True

/-! ## One processor -/

/-- An iteration does the first job of the queue. -/
theorem iterate_agenda (x : JobProcessor Job) :
    (x.step .iterate).done ++ (x.step .iterate).queue.filterMap id = x.done ++ x.queue.filterMap id := by
  by_cases hb : x.Blocked
  · rw [JobProcessor.step, if_pos hb]
  · obtain ⟨hworker, hqueue⟩ := JobProcessor.step_iterate hb
    simp only [JobProcessor.done, hworker, hqueue, JobProcessor.dequeue]
    cases x.queue with
    | nil => simp
    | cons job queue => cases job <;> simp

theorem enqueue_agenda (x : JobProcessor Job) (job : Option Job) :
    (x.enqueue job).2.done = x.done ∧ (x.enqueue job).2.queue.filterMap id = x.queue.filterMap id ++ job.toList := by
  refine ⟨rfl, ?_⟩
  cases job <;> simp [JobProcessor.enqueue]

/-! ## What a step does to an agenda -/

section Step

variable (s : JobSystem Processor Job) (p : Processor)

theorem enqueue_kept (q : Processor) (job : Option Job) : ((s.enqueue q job).processors p).done = (s.processors p).done ∧
    (s.enqueue q job).waiting p = s.waiting p ++ (if q = p then job.toList else []) ∧
    (s.enqueue q job).handed p = s.handed p ++ (if q = p then job.toList else []) := by
  by_cases h : q = p
  · subst h
    obtain ⟨hdone, hqueue⟩ := enqueue_agenda (s.processors q) job
    simp only [enqueue, waiting, Function.update_self, if_true]
    exact ⟨hdone, hqueue, trivial⟩
  · simp [enqueue, waiting, h, Ne.symm h]

/-- What the event adds to the processor's agenda: the job of a call that returns, or one enqueued from outside. -/
def added : Ev Processor Job → List Job
  | .scheduler e => ((s.scheduler.returning e).toList.filter (·.2.processor = p)).map (·.2.job)
  | .processor q (.enqueue job) => if q = p then job.toList else []
  | .processor _ .iterate => []

/-- The jobs an event passes on leave the map. -/
theorem handing_pending {e : Scheduler.Ev Processor Job} {element : SchedulerElement Processor Job}
    (h : s.scheduler.handing e = some element) :
    s.pendingFor p = (if element.processor = p then [element.job] else []) ++
      pendingFor { s with scheduler := s.scheduler.step e } p := by
  cases e with
  | dispatch =>
    simp only [Scheduler.handing] at h
    split at h
    · rename_i now key element' hw hb
      split at h
      · rename_i hle
        cases h
        simp only [pendingFor, Scheduler.step, Scheduler.dispatch, hw, hb, if_pos hle, OrderedMap.entries_begin hb,
          List.filterMap_cons]
        split <;> split <;> simp_all
      · cases h
    · cases h
  | _ => cases h

/-- The threads' own steps leave every agenda as it is. -/
theorem agenda_kept {e : Ev Processor Job} (h : ∀ q job, e ≠ .processor q (.enqueue job))
    (hr : ∀ e', e = .scheduler e' → s.scheduler.returning e' = none) : (s.step e).agenda p = s.agenda p := by
  cases e with
  | scheduler e =>
    cases hh : s.scheduler.handing e with
    | none =>
      have hmap := s.scheduler.jobMap_kept hh (hr e rfl)
      simp only [step, hh, agenda, waiting, pendingFor, hmap]
    | some element =>
      obtain ⟨hdone, hwaiting, -⟩ := enqueue_kept s p element.processor (some element.job)
      have hpending := handing_pending s p hh
      have hsplit : (s.step (.scheduler e)).agenda p = ((s.enqueue element.processor (some element.job)).processors p).done ++
          (s.enqueue element.processor (some element.job)).waiting p ++
            pendingFor { s with scheduler := s.scheduler.step e } p := by
        simp only [step, hh]
        rfl
      rw [hsplit, hdone, hwaiting, agenda, hpending]
      simp
  | processor q e =>
    cases e with
    | enqueue job => exact absurd rfl (h q job)
    | iterate =>
      by_cases hq : q = p
      · subst hq
        have hone := iterate_agenda (s.processors q)
        simp only [step, agenda, waiting, pendingFor, Function.update_self]
        rw [hone]
      · simp only [step, agenda, waiting, pendingFor, Function.update_of_ne (Ne.symm hq)]

/-- A call from outside puts its job behind what waits. -/
theorem agenda_enqueue (q : Processor) (job : Option Job) :
    ((s.step (.processor q (.enqueue job))).agenda p : Multiset Job) = s.agenda p + s.added p (.processor q (.enqueue job)) := by
  obtain ⟨hdone, hwaiting, -⟩ := enqueue_kept s p q job
  have hpending : (s.enqueue q job).pendingFor p = s.pendingFor p := rfl
  simp only [step, agenda, hdone, hwaiting, hpending, added, ← Multiset.coe_add]
  abel

/-- A call that returns puts its job among those pending, if its due time is free, and is lost if not. -/
theorem agenda_insert {i : Nat} {call : Int × SchedulerElement Processor Job} (hc : s.scheduler.calls[i]? = some call) :
    (¬ s.scheduler.jobMap.Has call.1 →
        ((s.step (.scheduler (.insert i))).agenda p : Multiset Job) = s.agenda p + s.added p (.scheduler (.insert i))) ∧
      (s.scheduler.jobMap.Has call.1 → (s.step (.scheduler (.insert i))).agenda p = s.agenda p) := by
  have hstep : (s.step (.scheduler (.insert i))).agenda p = (s.processors p).done ++ s.waiting p ++
      (s.scheduler.jobMap.insert call.1 call.2).entries.filterMap fun x => if x.2.processor = p then some x.2.job else none := by
    simp [step, Scheduler.handing, Scheduler.step, Scheduler.insert, hc, agenda, waiting, pendingFor]
  rw [hstep]
  refine ⟨?_, ?_⟩
  · intro hfree
    have hperm := OrderedMap.insertSorted_fresh call.2 s.scheduler.jobMap.entries fun e he hk => hfree ⟨e, he, hk⟩
    have hpending : ((s.scheduler.jobMap.insert call.1 call.2).entries.filterMap (fun x =>
        if x.2.processor = p then some x.2.job else none) : Multiset Job) =
          s.added p (.scheduler (.insert i)) + s.pendingFor p := by
      rw [OrderedMap.insert, Multiset.coe_eq_coe.mpr (hperm.filterMap _), List.filterMap_cons]
      simp only [added, Scheduler.returning, hc, Option.toList_some, List.filter_cons, List.filter_nil, pendingFor]
      by_cases hp : call.2.processor = p <;> simp [hp]
    simp only [← Multiset.coe_add, hpending, agenda]
    abel
  · intro htaken
    rw [OrderedMap.insert_present _ htaken]
    rfl

/-- A step adds what the event adds, unless a call finds its due time taken. -/
theorem agenda_step (e : Ev Processor Job) :
    (s.Free e → ∀ p, ((s.step e).agenda p : Multiset Job) = s.agenda p + s.added p e) ∧
      (¬ s.Free e → (∀ p, (s.step e).agenda p = s.agenda p) ∧ ∃ p, s.added p e ≠ []) := by
  by_cases hplain : (∀ q job, e ≠ .processor q (.enqueue job)) ∧ ∀ e', e = .scheduler e' →
      s.scheduler.returning e' = none
  · have hnone : ∀ p, s.added p e = [] := by
      intro p
      cases e with
      | scheduler e => simp [added, hplain.2 e rfl]
      | processor q e =>
        cases e with
        | enqueue job => exact absurd rfl (hplain.1 q job)
        | iterate => rfl
    refine ⟨?_, ?_⟩
    · intro _ p
      rw [agenda_kept s p hplain.1 hplain.2, hnone p, Multiset.coe_nil, add_zero]
    · intro hfree
      refine absurd ?_ hfree
      cases e with
      | scheduler e =>
        intro call hcall
        rw [hplain.2 e rfl] at hcall
        cases hcall
      | processor q e => trivial
  · cases e with
    | processor q e =>
      cases e with
      | enqueue job => exact ⟨fun _ p => agenda_enqueue s p q job, fun hfree => absurd trivial hfree⟩
      | iterate => exact absurd ⟨by simp, by simp⟩ hplain
    | scheduler e =>
      cases e with
      | insert i =>
        cases hc : s.scheduler.calls[i]? with
        | none => exact absurd ⟨by simp, by simp [Scheduler.returning, hc]⟩ hplain
        | some call =>
          have hfree : s.Free (.scheduler (.insert i)) ↔ ¬ s.scheduler.jobMap.Has call.1 := by
            simp [Free, Scheduler.Free, Scheduler.returning, hc]
          rw [hfree, not_not]
          refine ⟨fun h p => (agenda_insert s p hc).1 h,
              fun h => ⟨fun p => (agenda_insert s p hc).2 h, call.2.processor, ?_⟩⟩
          simp [added, Scheduler.returning, hc]
      | schedule | sample | dispatch => exact absurd ⟨by simp, by simp [Scheduler.returning]⟩ hplain

theorem scheduler_step (e : Scheduler.Ev Processor Job) : (s.step (.scheduler e)).scheduler = s.scheduler.step e := by
  simp only [step]
  split <;> rfl

theorem scheduledFor_step (e : Scheduler.Ev Processor Job) :
    (s.step (.scheduler e)).scheduledFor p = s.scheduledFor p ++ s.added p (.scheduler e) := by
  simp only [scheduledFor, scheduler_step, added]
  cases e with
  | schedule processor job timespan now => simp [Scheduler.step, Scheduler.schedule, Scheduler.returning]
  | insert i =>
    simp only [Scheduler.step, Scheduler.insert, Scheduler.returning]
    cases s.scheduler.calls[i]? with
    | none => simp
    | some call => by_cases hp : call.2.processor = p <;> simp [hp]
  | sample now =>
    simp only [Scheduler.step, Scheduler.returning]
    split <;> simp
  | dispatch =>
    simp only [Scheduler.step, Scheduler.dispatch, Scheduler.returning]
    repeat' split
    all_goals simp

/-- What was asked for: a call that returns and a call from outside add to it. -/
theorem asked_step (es : List (Ev Processor Job)) (e : Ev Processor Job) :
    ((s.step e).scheduledFor p : Multiset Job) + enqueuedFor (es ++ [e]) p =
      s.scheduledFor p + enqueuedFor es p + s.added p e := by
  cases e with
  | scheduler e =>
    have hother : enqueuedFor (es ++ [.scheduler e]) p = enqueuedFor es p := by simp [enqueuedFor]
    rw [scheduledFor_step, hother, ← Multiset.coe_add]
    abel
  | processor q e =>
    have hsame : (s.step (.processor q e)).scheduledFor p = s.scheduledFor p := by cases e <;> rfl
    have hmore : enqueuedFor (es ++ [.processor q e]) p = enqueuedFor es p ++ s.added p (.processor q e) := by
      cases e with
      | enqueue job => by_cases hq : q = p <;> cases job <;> simp [enqueuedFor, added, hq]
      | iterate => simp [enqueuedFor, added]
    rw [hsame, hmore, ← Multiset.coe_add]
    abel

end Step

/-- What holds of a run whose processors' jobs are all on their agendas, as often as they were asked for. -/
def Complete (s : JobSystem Processor Job) (es : List (Ev Processor Job)) : Prop :=
  ∀ p, (s.agenda p : Multiset Job) = s.scheduledFor p + enqueuedFor es p

theorem complete_step {s : JobSystem Processor Job} {es : List (Ev Processor Job)}
    (h : ∀ p, (s.agenda p : Multiset Job) ≤ s.scheduledFor p + enqueuedFor es p) (e : Ev Processor Job) :
    (∀ p, ((s.step e).agenda p : Multiset Job) ≤ (s.step e).scheduledFor p + enqueuedFor (es ++ [e]) p) ∧
      ((s.step e).Complete (es ++ [e]) ↔ s.Complete es ∧ s.Free e) := by
  obtain ⟨hfree, htaken⟩ := agenda_step s e
  simp only [Complete, asked_step]
  by_cases hf : s.Free e
  · refine ⟨?_, ?_⟩
    · intro p
      rw [hfree hf p]
      exact add_le_add_left (h p) _
    · simp only [hfree hf, add_left_inj, hf, and_true]
  · obtain ⟨hsame, p₀, hp₀⟩ := htaken hf
    refine ⟨?_, iff_of_false ?_ fun ha => hf ha.2⟩
    · intro p
      rw [hsame p]
      exact (h p).trans (Multiset.le_add_right _ _)
    · -- the job of the call is on no agenda
      intro hall
      have hcard := congrArg Multiset.card (hall p₀)
      have hle := Multiset.card_le_card (h p₀)
      have hpos := List.length_pos_iff.mpr hp₀
      rw [hsame p₀] at hcard
      simp only [Multiset.card_add, Multiset.coe_card] at hcard hle
      omega

theorem handed_step (s : JobSystem Processor Job) (e : Ev Processor Job)
    (h : ∀ p, (s.processors p).done ++ s.waiting p = s.handed p) (p : Processor) :
    ((s.step e).processors p).done ++ (s.step e).waiting p = (s.step e).handed p := by
  have henqueue : ∀ q job, ((s.enqueue q job).processors p).done ++ (s.enqueue q job).waiting p =
      (s.enqueue q job).handed p := by
    intro q job
    obtain ⟨hdone, hwaiting, hhanded⟩ := enqueue_kept s p q job
    rw [hdone, hwaiting, hhanded, ← h p, List.append_assoc]
  cases e with
  | scheduler e =>
    simp only [step]
    split
    · exact h p
    · exact henqueue _ _
  | processor q e =>
    cases e with
    | enqueue job => exact henqueue q job
    | iterate =>
      by_cases hq : q = p
      · subst hq
        have hone := iterate_agenda (s.processors q)
        simp only [step, waiting, Function.update_self]
        rw [hone]
        exact h q
      · simp only [step, waiting, Function.update_of_ne (Ne.symm hq)]
        exact h p

/-- Every processor does its jobs in the order of their `Enqueue`; and after any run the jobs that calls of `Schedule`
    returned for and that were enqueued from outside are done, wait or are pending at their processors, each as often as
    it was asked for, if and only if no call of the run found its due time taken. -/
theorem jobs_are_done_once (es : List (Ev Processor Job)) :
    (∀ p, ((run es).processors p).done ++ (run es).waiting p = (run es).handed p) ∧
      ((run es).Complete es ↔ Along step Free start es) := by
  have h : (∀ p, ((run es).processors p).done ++ (run es).waiting p = (run es).handed p) ∧
      (∀ p, ((run es).agenda p : Multiset Job) ≤ (run es).scheduledFor p + enqueuedFor es p) ∧
      ((run es).Complete es ↔ Along step Free start es) := by
    induction es using List.reverseRecOn with
    | nil => exact ⟨fun p => rfl, fun p => Multiset.zero_le _, iff_of_true (fun p => rfl) trivial⟩
    | append_singleton es e ih =>
      obtain ⟨hhanded, hle, hcomplete⟩ := ih
      unfold run at *
      rw [List.foldl_concat, along_concat, ← hcomplete]
      exact ⟨handed_step _ e hhanded, complete_step hle e⟩
  exact ⟨h.1, h.2.2⟩

/-! ## Once no more calls come in -/

/-- A step of the scheduler's worker, of a processor's thread, or of a call of `Schedule` under way. -/
def Ev.OfThreads : Ev Processor Job → Prop
  | .scheduler (.schedule _ _ _ _) | .processor _ (.enqueue _) => False
  | _ => True

/-- The calls under way get the lock, one by one; as long as jobs are pending, the scheduler's worker comes to its lock
    again with a reading past their due times; and every processor's thread goes on. -/
structure Fair (s : JobSystem Processor Job) (es : ℕ → Ev Processor Job) : Prop where
  returns : ∀ n, (states step s es n).scheduler.calls ≠ [] →
    ∃ m, n ≤ m ∧ ∃ i < (states step s es m).scheduler.calls.length, es m = .scheduler (.insert i)
  dispatches : ∀ n, (states step s es n).scheduler.jobMap.entries ≠ [] → ∃ m, n ≤ m ∧ es m = .scheduler .dispatch ∧
    ∃ now, (states step s es m).scheduler.worker = some now ∧
      ∀ x ∈ (states step s es m).scheduler.jobMap.entries, x.1 ≤ now
  iterates : ∀ p n, ∃ m, n ≤ m ∧ es m = .processor p .iterate

/-- The jobs for a processor that calls of `Schedule` under way bring. -/
def callsFor (s : JobSystem Processor Job) (p : Processor) : List Job :=
  s.scheduler.calls.filterMap fun x => if x.2.processor = p then some x.2.job else none

/-- A call returns, or the calls under way stay. -/
theorem threads_calls {s : JobSystem Processor Job} {e : Ev Processor Job} (h : e.OfThreads) :
    ((s.step e).scheduler.calls = s.scheduler.calls ∧ ∀ p, s.added p e = []) ∨
      ∃ i < s.scheduler.calls.length, e = .scheduler (.insert i) ∧
        (s.step e).scheduler.calls = s.scheduler.calls.eraseIdx i := by
  cases e with
  | scheduler e =>
    rw [scheduler_step]
    cases e with
    | schedule => exact h.elim
    | insert i =>
      cases hc : s.scheduler.calls[i]? with
      | none =>
        exact Or.inl ⟨by simp [Scheduler.step, Scheduler.insert, hc], fun p => by simp [added, Scheduler.returning, hc]⟩
      | some call =>
        refine Or.inr ⟨i, (List.getElem?_eq_some_iff.mp hc).1, rfl, ?_⟩
        simp [Scheduler.step, Scheduler.insert, hc]
    | sample now =>
      refine Or.inl ⟨?_, fun p => rfl⟩
      simp only [Scheduler.step]
      split <;> rfl
    | dispatch =>
      refine Or.inl ⟨?_, fun p => rfl⟩
      simp only [Scheduler.step, Scheduler.dispatch]
      repeat' split
      all_goals rfl
  | processor q e =>
    cases e with
    | enqueue job => exact h.elim
    | iterate => exact Or.inl ⟨rfl, fun p => rfl⟩

theorem threads_calls_le {s : JobSystem Processor Job} {e : Ev Processor Job} (h : e.OfThreads) :
    (s.step e).scheduler.calls.length ≤ s.scheduler.calls.length := by
  rcases threads_calls (s := s) h with ⟨he, -⟩ | ⟨i, -, -, he⟩ <;> rw [he]
  exact List.length_eraseIdx_le _ _

/-- What a call that returns adds it has brought. -/
theorem callsFor_step {s : JobSystem Processor Job} {e : Ev Processor Job} (h : e.OfThreads) (p : Processor) :
    ((s.step e).callsFor p : Multiset Job) + s.added p e = s.callsFor p := by
  rcases threads_calls (s := s) h with ⟨he, hnone⟩ | ⟨i, hi, rfl, he⟩
  · rw [callsFor, he, hnone, Multiset.coe_nil, add_zero]
    rfl
  · have hperm := (List.getElem_cons_eraseIdx_perm hi).filterMap fun x => if x.2.processor = p then some x.2.job else none
    have hcall := List.getElem?_eq_getElem hi
    simp only [callsFor, he, added, Scheduler.returning, hcall, Multiset.coe_add, Option.toList_some]
    refine Multiset.coe_eq_coe.mpr ((List.perm_append_comm).trans (List.Perm.trans ?_ hperm))
    by_cases hp : (s.scheduler.calls[i]).2.processor = p <;> simp [hp]

/-- A step with no call under way leaves the map as it is or takes its first entry out. -/
theorem threads_jobMap {s : JobSystem Processor Job} {e : Ev Processor Job} (h : e.OfThreads) (hc : s.scheduler.calls = []) :
    (s.step e).scheduler.jobMap = s.scheduler.jobMap ∨ (s.step e).scheduler.jobMap = s.scheduler.jobMap.eraseBegin := by
  cases e with
  | scheduler e =>
    rw [scheduler_step]
    cases e with
    | schedule => exact h.elim
    | insert i => exact Or.inl (by simp [Scheduler.step, Scheduler.insert, hc])
    | sample now =>
      left
      simp only [Scheduler.step]
      split <;> rfl
    | dispatch =>
      simp only [Scheduler.step, Scheduler.dispatch]
      repeat' split
      all_goals first | exact Or.inl rfl | exact Or.inr rfl
  | processor q e =>
    cases e with
    | iterate => exact Or.inl rfl
    | enqueue job => exact h.elim

theorem threads_pending {s : JobSystem Processor Job} {e : Ev Processor Job} (h : e.OfThreads) (hc : s.scheduler.calls = []) :
    (s.step e).scheduler.jobMap.entries.length ≤ s.scheduler.jobMap.entries.length := by
  rcases threads_jobMap h hc with he | he
  · rw [he]
  · rw [he, OrderedMap.eraseBegin, List.length_tail]
    exact Nat.sub_le _ _

/-- With a reading past the due times, the first pending job is passed on. -/
theorem dispatch_pending {s : JobSystem Processor Job} {now : Int} (hw : s.scheduler.worker = some now)
    (hdue : ∀ x ∈ s.scheduler.jobMap.entries, x.1 ≤ now) (hne : s.scheduler.jobMap.entries ≠ []) :
    (s.step (.scheduler .dispatch)).scheduler.jobMap.entries.length < s.scheduler.jobMap.entries.length := by
  obtain ⟨x, rest, hentries⟩ := List.exists_cons_of_ne_nil hne
  have hb : s.scheduler.jobMap.begin? = some x := by rw [OrderedMap.begin?, hentries]; rfl
  have hx : x ∈ s.scheduler.jobMap.entries := by rw [hentries]; exact List.mem_cons_self
  rw [scheduler_step, Scheduler.step, Scheduler.dispatch, hw, hb]
  simp only [hdue x hx, if_true, OrderedMap.entries_begin hb, List.length_cons]
  exact Nat.lt_succ_self _

/-- With nothing pending, only a processor's own thread changes its queue. -/
theorem threads_queue {s : JobSystem Processor Job} {e : Ev Processor Job} (h : e.OfThreads)
    (hnone : s.scheduler.jobMap.entries = []) (p : Processor) :
    ((s.step e).processors p).queue.length ≤ (s.processors p).queue.length := by
  cases e with
  | scheduler e =>
    have hh : s.scheduler.handing e = none := by
      cases e with
      | dispatch =>
        have hb : s.scheduler.jobMap.begin? = none := by rw [OrderedMap.begin?, hnone]; rfl
        simp only [Scheduler.handing, hb]
        split
        · rename_i heq
          cases heq
        · rfl
      | _ => rfl
    simp only [step, hh]
    exact Nat.le_refl _
  | processor q e =>
    cases e with
    | enqueue job => exact h.elim
    | iterate =>
      by_cases hq : q = p
      · subst hq
        simp only [step, Function.update_self]
        by_cases hb : (s.processors q).Blocked
        · rw [JobProcessor.step, if_pos hb]
        · rw [(JobProcessor.step_iterate hb).2, List.length_tail]
          exact Nat.sub_le _ _
      · simp only [step, Function.update_of_ne (Ne.symm hq)]
        exact Nat.le_refl _

/-- With no call under way the threads leave every agenda as it is. -/
theorem threads_agenda {s : JobSystem Processor Job} {e : Ev Processor Job} (h : e.OfThreads) (hc : s.scheduler.calls = [])
    (p : Processor) : (s.step e).agenda p = s.agenda p := by
  refine agenda_kept s p ?_ ?_
  · rintro q job rfl
    exact h
  · rintro e rfl
    cases e with
    | insert i => simp [Scheduler.returning, hc]
    | _ => rfl

/-- What calls under way bring gets on the agenda, as long as they find their due times free. -/
theorem threads_counted {s : JobSystem Processor Job} {e : Ev Processor Job} (h : e.OfThreads) (hfree : s.Free e)
    (p : Processor) : ((s.step e).agenda p : Multiset Job) + (s.step e).callsFor p = s.agenda p + s.callsFor p := by
  rw [(agenda_step s e).1 hfree p, add_assoc, add_comm (s.added p e : Multiset Job), callsFor_step h p]

def Awake (s : JobSystem Processor Job) : Prop := ∀ p, (s.processors p).worker.waiting = false

theorem awake_step {s : JobSystem Processor Job} (h : Awake s) (e : Ev Processor Job) : Awake (s.step e) := by
  have hupdate : ∀ {q : Processor} {x : JobProcessor Job} {hs : Processor → List Job}, x.worker.waiting = false →
      Awake ⟨s.scheduler, Function.update s.processors q x, hs⟩ := by
    intro q x hs hx p
    by_cases hp : p = q
    · subst hp
      simpa using hx
    · simpa [hp] using h p
  have henqueue : ∀ q job, Awake (s.enqueue q job) := fun q job => hupdate (h q)
  cases e with
  | scheduler e =>
    simp only [step]
    split
    · exact h
    · exact henqueue _ _
  | processor q e =>
    cases e with
    | enqueue job => exact henqueue q job
    | iterate =>
      refine hupdate ?_
      by_cases hb : (s.processors q).Blocked
      · rw [JobProcessor.step, if_pos hb]
        exact h q
      · rw [(JobProcessor.step_iterate hb).1]
        cases (s.processors q).dequeue.1 with
        | none => rw [JobProcessor.iterate_none]
        | some job => rw [JobProcessor.iterate_some]

theorem awake (es : List (Ev Processor Job)) : Awake (run es) := by
  induction es using List.reverseRecOn with
  | nil => exact fun _ => rfl
  | append_singleton es e ih =>
    unfold run at *
    rw [List.foldl_concat]
    exact awake_step ih e

section Later

variable {s : JobSystem Processor Job} {later : ℕ → Ev Processor Job} (h : ∀ n, (later n).OfThreads) (hfair : Fair s later)
include h hfair

/-- The calls under way return. -/
theorem calls_return : ∃ last, (states step s later last).scheduler.calls = [] := by
  obtain ⟨last, -, hzero⟩ : ∃ n, 0 ≤ n ∧ ∀ m, n ≤ m → (states step s later m).scheduler.calls.length = 0 := by
    refine gets_to_zero (fun n _ => threads_calls_le (h n)) ?_
    intro n _ hne
    obtain ⟨m, hm, i, hi, he⟩ := hfair.returns n fun hnil => hne (by rw [hnil]; rfl)
    refine ⟨m + 1, by omega, ?_⟩
    have hle : (states step s later n).scheduler.calls.length ≥ (states step s later m).scheduler.calls.length :=
      Nat.rel_of_forall_rel_succ_of_le (f := fun k => (states step s later k).scheduler.calls.length) (· ≥ ·)
        (fun k => threads_calls_le (h k)) hm
    rcases threads_calls (s := states step s later m) (h m) with ⟨-, hnone⟩ | ⟨i', hi', -, herase⟩
    · -- a call that returns adds its job somewhere
      have hadded := hnone ((states step s later m).scheduler.calls[i]).2.processor
      simp [he, added, Scheduler.returning, List.getElem?_eq_getElem hi] at hadded
    · rw [states, herase, List.length_eraseIdx, if_pos hi']
      omega
  exact ⟨last, List.length_eq_zero_iff.mp (hzero last (Nat.le_refl _))⟩

omit hfair in
/-- No new one comes. -/
theorem calls_gone {last : ℕ} (hlast : (states step s later last).scheduler.calls = []) {n : ℕ} (hn : last ≤ n) :
    (states step s later n).scheduler.calls = [] := by
  induction n, hn using Nat.le_induction with
  | base => exact hlast
  | succ n hn ih =>
    have hle := threads_calls_le (s := states step s later n) (h n)
    rw [ih] at hle
    exact List.length_eq_zero_iff.mp (Nat.le_zero.mp hle)

/-- With no call under way the map gets empty. -/
theorem pending_dispatched {last : ℕ} (hlast : (states step s later last).scheduler.calls = []) :
    ∃ n, last ≤ n ∧ ∀ m, n ≤ m → (states step s later m).scheduler.jobMap.entries.length = 0 := by
  refine gets_to_zero (fun n hn => threads_pending (h n) (calls_gone h hlast hn)) ?_
  intro n hn hne
  obtain ⟨m, hm, hdispatch, now, hw, hdue⟩ := hfair.dispatches n fun hnil => hne (by rw [hnil]; rfl)
  by_cases hnil : (states step s later m).scheduler.jobMap.entries = []
  · refine ⟨m, hm, ?_⟩
    rw [hnil, List.length_nil]
    exact Nat.pos_of_ne_zero hne
  · have hless := dispatch_pending hw hdue hnil
    have hle : (states step s later n).scheduler.jobMap.entries.length ≥
        (states step s later m).scheduler.jobMap.entries.length :=
      Nat.rel_of_forall_rel_succ_of_le_of_le (f := fun k => (states step s later k).scheduler.jobMap.entries.length) (· ≥ ·)
        (fun k hk => threads_pending (h k) (calls_gone h hlast hk)) hn hm
    refine ⟨m + 1, by omega, ?_⟩
    rw [states, hdispatch]
    exact lt_of_lt_of_le hless hle

/-- With the map empty a queue gets empty. -/
theorem queue_done (hawake : ∀ n, Awake (states step s later n)) {n₁ : ℕ}
    (hmap : ∀ m, n₁ ≤ m → (states step s later m).scheduler.jobMap.entries.length = 0) (p : Processor) :
    ∃ n, n₁ ≤ n ∧ ∀ m, n ≤ m → ((states step s later m).processors p).queue.length = 0 := by
  refine gets_to_zero (fun n hn => threads_queue (h n) (List.length_eq_zero_iff.mp (hmap n hn)) p) ?_
  intro n hn hne
  obtain ⟨m, hm, hiterate⟩ := hfair.iterates p n
  have hle : ((states step s later n).processors p).queue.length ≥ ((states step s later m).processors p).queue.length :=
    Nat.rel_of_forall_rel_succ_of_le_of_le (f := fun k => ((states step s later k).processors p).queue.length) (· ≥ ·)
      (fun k hk => threads_queue (h k) (List.length_eq_zero_iff.mp (hmap k hk)) p) hn hm
  by_cases hnil : ((states step s later m).processors p).queue.length = 0
  · exact ⟨m, hm, by omega⟩
  · refine ⟨m + 1, by omega, ?_⟩
    have hb : ¬ ((states step s later m).processors p).Blocked := by
      intro hb
      rw [JobProcessor.Blocked, hawake m p] at hb
      cases hb.1
    rw [states, hiterate]
    simp only [step, Function.update_self, (JobProcessor.step_iterate hb).2, List.length_tail]
    omega

omit hfair in
/-- What calls bring gets on the agenda, as long as they find their due times free. -/
theorem calls_counted {last : ℕ} (hfree : ∀ n < last, (states step s later n).Free (later n)) (p : Processor) :
    ((states step s later last).agenda p : Multiset Job) + (states step s later last).callsFor p = s.agenda p + s.callsFor p := by
  have hcounted : ∀ n ≤ last, ((states step s later n).agenda p : Multiset Job) + (states step s later n).callsFor p =
      s.agenda p + s.callsFor p := by
    intro n
    induction n with
    | zero => exact fun _ => rfl
    | succ n ih => exact fun hn => (threads_counted (h n) (hfree n hn) p).trans (ih (by omega))
  exact hcounted last (Nat.le_refl _)

end Later

/-- Once no more calls come in, in every run in which the callers under way and the threads go on and the clock gets past the
    due times: the calls under way return; and every processor does the agenda it has once they have returned to the end and
    in that order, what it has done, what waits in its queue, and what is pending for it by due time. That agenda holds
    what was on it at first and what the calls bring, if they find their due times free. -/
theorem every_agenda_is_done (es : List (Ev Processor Job)) {later : ℕ → Ev Processor Job} (h : ∀ n, (later n).OfThreads)
    (hfair : Fair (run es) later) :
    (∃ last, (states step (run es) later last).scheduler.calls = []) ∧
      ∀ last, (states step (run es) later last).scheduler.calls = [] → ∀ p,
        (∃ n, ∀ m, n ≤ m →
          ((states step (run es) later m).processors p).done = (states step (run es) later last).agenda p) ∧
        ((∀ n < last, (states step (run es) later n).Free (later n)) →
          ((states step (run es) later last).agenda p : Multiset Job) = (run es).agenda p + (run es).callsFor p) := by
  refine ⟨calls_return h hfair, ?_⟩
  intro last hlast p
  refine ⟨?_, ?_⟩
  · have hawake : ∀ n, Awake (states step (run es) later n) := states_keep (fun n hn => awake_step hn (later n)) (awake es)
    have hagenda : ∀ n, last ≤ n →
        (states step (run es) later n).agenda p = (states step (run es) later last).agenda p := by
      intro n hn
      induction n, hn using Nat.le_induction with
      | base => rfl
      | succ n hn ih => exact (threads_agenda (h n) (calls_gone h hlast hn) p).trans ih
    obtain ⟨n₁, hn₁, hmap⟩ := pending_dispatched h hfair hlast
    obtain ⟨n₂, hn₂, hqueue⟩ := queue_done h hfair hawake hmap p
    refine ⟨n₂, ?_⟩
    intro m hm
    have hm₁ := List.length_eq_zero_iff.mp (hmap m (by omega))
    have hm₂ := List.length_eq_zero_iff.mp (hqueue m hm)
    rw [← hagenda m (by omega), agenda, waiting, pendingFor, hm₁, hm₂]
    simp
  · intro hfree
    have hend := calls_counted h hfree p
    rwa [callsFor, hlast, List.filterMap_nil, Multiset.coe_nil, add_zero] at hend

/-- Two jobs for a processor, the second due first, one enqueued from outside, and a call of `Schedule` under way. -/
def fourJobsRun : List (Ev Bool Nat) :=
  [.scheduler (.schedule true 10 1000 0), .scheduler (.insert 0), .scheduler (.schedule true 20 500 5), .scheduler (.insert 0),
    .processor true (.enqueue (some 30)), .scheduler (.schedule true 40 700 5)]

/-- The call returns, the clock is past the due times, and then the processors' threads take turns. -/
def fourJobsLater : ℕ → Ev Bool Nat
  | 0 => .scheduler (.insert 0)
  | 1 | 3 | 5 => .scheduler (.sample 20000000)
  | 2 | 4 | 6 => .scheduler .dispatch
  | n + 7 => .processor (n % 2 == 0) .iterate

theorem four_jobs_are_done :
    (run fourJobsRun).agenda true = [30, 20, 10] ∧ (run fourJobsRun).callsFor true = [40] ∧
      (states step (run fourJobsRun) fourJobsLater 1).agenda true = [30, 20, 40, 10] ∧
      (∃ last, (states step (run fourJobsRun) fourJobsLater last).scheduler.calls = []) ∧
      ∀ last, (states step (run fourJobsRun) fourJobsLater last).scheduler.calls = [] → ∀ p,
        (∃ n, ∀ m, n ≤ m → ((states step (run fourJobsRun) fourJobsLater m).processors p).done =
          (states step (run fourJobsRun) fourJobsLater last).agenda p) ∧
        ((∀ n < last, (states step (run fourJobsRun) fourJobsLater n).Free (fourJobsLater n)) →
          ((states step (run fourJobsRun) fourJobsLater last).agenda p : Multiset Nat) =
            (run fourJobsRun).agenda p + (run fourJobsRun).callsFor p) := by
  have hlater : ∀ n, (fourJobsLater n).OfThreads := by
    intro n
    unfold fourJobsLater
    split <;> trivial
  refine ⟨by decide +kernel, by decide +kernel, by decide +kernel, every_agenda_is_done fourJobsRun hlater ⟨?_, ?_, ?_⟩⟩
  · intro n hne
    by_cases h0 : n = 0
    · exact ⟨0, by omega, 0, by decide +kernel, rfl⟩
    · have hone : (states step (run fourJobsRun) fourJobsLater 1).scheduler.calls = [] := by decide +kernel
      exact absurd (calls_gone hlater hone (Nat.one_le_iff_ne_zero.mpr h0)) hne
  · intro n hne
    have hempty : ∀ k, (states step (run fourJobsRun) fourJobsLater (k + 7)).scheduler.jobMap.entries = [] := by
      intro k
      induction k with
      | zero => decide +kernel
      | succ k ih => exact ih
    by_cases h2 : n ≤ 2
    · exact ⟨2, h2, rfl, 20000000, by decide +kernel, by decide +kernel⟩
    by_cases h4 : n ≤ 4
    · exact ⟨4, h4, rfl, 20000000, by decide +kernel, by decide +kernel⟩
    by_cases h6 : n ≤ 6
    · exact ⟨6, h6, rfl, 20000000, by decide +kernel, by decide +kernel⟩
    · obtain ⟨k, rfl⟩ := Nat.exists_eq_add_of_le' (Nat.lt_of_not_le h6)
      exact absurd (hempty k) hne
  · intro p n
    cases p with
    | true => exact ⟨2 * n + 7, by omega, by simp [fourJobsLater]⟩
    | false => exact ⟨2 * n + 1 + 7, by omega, by simp [fourJobsLater, Nat.add_mod]⟩

end JobSystem

end SigHolic.Utility
