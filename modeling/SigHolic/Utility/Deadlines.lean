/-
  SigHolic.Utility.Deadlines — when and in which order the scheduler's jobs run.

  `job_map_` is sorted by due time and the worker takes its first entry only, so what is
  left is due later; between the worker's reading of the clock and its lock any number of
  inserts may come, with due times in the past too.

  Proved:
  - `jobs_run_in_due_order`: in a run whose due times are computed without overflow, a job
    goes to the processor it was scheduled with, not before it is due, once, and of two
    pending jobs the one due first goes first.
  - `a_delay_is_kept_iff_it_fits`: the job of a call is never early, whatever the other
    calls and the clock do, exactly when the reading plus the delay fits the clock's 64-bit
    tick count; `a_huge_delay_fires_at_once` is a delay that does not.
-/

import Mathlib.Data.List.Perm.Basic
import Mathlib.Tactic.Abel
import SigHolic.Utility.Scheduler

namespace SigHolic.Utility.Scheduler

open SigHolic.Base

variable {Processor Job : Type}

theorem wrap64_eq {x : Int} (h : -2 ^ 63 ≤ x) (h' : x < 2 ^ 63) : wrap64 x = x := by
  unfold wrap64
  rw [Int.bmod_eq_of_le] <;> omega

theorem wrap64_bounds (x : Int) : -2 ^ 63 ≤ wrap64 x ∧ wrap64 x < 2 ^ 63 := by
  unfold wrap64
  constructor
  · have := Int.le_bmod (x := x) (m := 2 ^ 64) (by decide); omega
  · have := Int.bmod_lt (x := x) (m := 2 ^ 64) (by decide); omega

/-- The product may wrap, only the sum has to fit. -/
theorem dueTime_eq {now timespan : Int} (h : -2 ^ 63 ≤ now + timespan * ticksPerMilli)
    (h' : now + timespan * ticksPerMilli < 2 ^ 63) : dueTime now timespan = now + timespan * ticksPerMilli := by
  have hsum : wrap64 (now + wrap64 (timespan * ticksPerMilli)) = wrap64 (now + timespan * ticksPerMilli) := by
    unfold wrap64
    exact Int.add_bmod_bmod
  rw [dueTime, hsum, wrap64_eq h h']

/-! ## What a step does to the pending jobs -/

def run (es : List (Ev Processor Job)) : Scheduler Processor Job := es.foldl step empty

def Passes (s : Scheduler Processor Job) (e : Ev Processor Job) (now key : Int) (element : SchedulerElement Processor Job) :
    Prop := (s.step e).log = s.log ++ [.enqueued now key element]

/-- A step passes the first entry of the map to `Enqueue`, or it passes nothing and every entry stays. -/
theorem step_cases (s : Scheduler Processor Job) (e : Ev Processor Job) :
    (∃ new, (s.step e).log = s.log ++ new ∧ (∀ now key element, .enqueued now key element ∉ new) ∧
      ∀ x ∈ s.jobMap.entries, x ∈ (s.step e).jobMap.entries) ∨
    (e = .dispatch ∧ ∃ now key element, s.worker = some now ∧ s.jobMap.begin? = some (key, element) ∧ key ≤ now ∧
      s.step e = { s with
        jobMap := s.jobMap.eraseBegin, worker := none, log := s.log ++ [.enqueued now key element] }) := by
  cases e with
  | schedule processor job timespan now => exact Or.inl ⟨[], (List.append_nil _).symm, by simp, fun _ hx => hx⟩
  | insert i =>
    simp only [step, insert]
    cases s.calls[i]? with
    | none => exact Or.inl ⟨[], (List.append_nil _).symm, by simp, fun _ hx => hx⟩
    | some call => exact Or.inl ⟨[.returned call.1 call.2], rfl, by simp, fun _ hx => OrderedMap.mem_insert_of_mem _ _ hx⟩
  | sample now =>
    refine Or.inl ⟨[], ?_, by simp, ?_⟩ <;> (simp only [step, List.append_nil]; split)
    · rfl
    · rfl
    · exact fun _ hx => hx
    · exact fun _ hx => hx
  | dispatch =>
    simp only [step, dispatch]
    cases hw : s.worker with
    | none => exact Or.inl ⟨[], (List.append_nil _).symm, by simp, fun _ hx => hx⟩
    | some now =>
      cases hb : s.jobMap.begin? with
      | none => exact Or.inl ⟨[], (List.append_nil _).symm, by simp, fun _ hx => hx⟩
      | some entry =>
        by_cases hle : entry.1 ≤ now
        · exact Or.inr ⟨trivial, now, entry.1, entry.2, rfl, rfl, hle, if_pos hle⟩
        · simp only [hle, if_false]
          exact Or.inl ⟨[], (List.append_nil _).symm, by simp, fun _ hx => hx⟩

/-- Only the worker's lock section passes a job on: the first entry, when the sample is not before its due time. -/
theorem passes_inv {s : Scheduler Processor Job} {e : Ev Processor Job} {now key : Int}
    {element : SchedulerElement Processor Job} (h : s.Passes e now key element) :
    e = .dispatch ∧ s.worker = some now ∧ s.jobMap.begin? = some (key, element) ∧ key ≤ now ∧
      (s.step e).jobMap = s.jobMap.eraseBegin := by
  rcases step_cases s e with ⟨new, hlog, hno, -⟩ | ⟨he, now', key', element', hw, hb, hle, hs⟩
  · have hnew : new = [.enqueued now key element] := List.append_cancel_left (hlog.symm.trans h)
    exact absurd (hnew ▸ List.mem_singleton_self _) (hno now key element)
  · have hlog : (s.step e).log = s.log ++ [.enqueued now' key' element'] := by rw [hs]
    have hsame := List.append_cancel_left (h.symm.trans hlog)
    simp only [List.cons.injEq, Obs.enqueued.injEq, and_true] at hsame
    obtain ⟨rfl, rfl, rfl⟩ := hsame
    exact ⟨he, hw, hb, hle, by rw [hs]⟩

/-! ## Every job on one side -/

/-- The clock at `Schedule` plus the delay, and the element the call makes. -/
def Ev.entry : Ev Processor Job → Option (Int × SchedulerElement Processor Job)
  | .schedule processor job timespan now => some (now + timespan * ticksPerMilli, ⟨job, processor⟩)
  | _ => none

def Ev.NoOverflow (e : Ev Processor Job) : Prop := ∀ x ∈ e.entry, -2 ^ 63 ≤ x.1 ∧ x.1 < 2 ^ 63

def asked (es : List (Ev Processor Job)) : Multiset (Int × SchedulerElement Processor Job) := (es.filterMap Ev.entry : List _)

def pendingEntries (s : Scheduler Processor Job) : Multiset (Int × SchedulerElement Processor Job) := (s.jobMap.entries : List _)

def passedEntries (s : Scheduler Processor Job) : Multiset (Int × SchedulerElement Processor Job) :=
  (s.log.filterMap fun | .enqueued _ key element => some (key, element) | _ => none : List _)

/-- Every entry a call asked for is with the call, in the map or passed on, and in one of these at most. -/
def Accounted (s : Scheduler Processor Job) (es : List (Ev Processor Job)) : Prop :=
  s.passedEntries + s.pendingEntries + (s.calls : Multiset (Int × SchedulerElement Processor Job)) ≤ asked es

theorem asked_concat (es : List (Ev Processor Job)) (e : Ev Processor Job) :
    asked (es ++ [e]) = asked es + (e.entry.toList : Multiset (Int × SchedulerElement Processor Job)) := by
  simp only [asked, List.filterMap_append, ← Multiset.coe_add]
  cases h : e.entry <;> simp [h]

theorem accounted_step {s : Scheduler Processor Job} {es : List (Ev Processor Job)} (h : s.Accounted es) {e : Ev Processor Job}
    (hfit : e.NoOverflow) : (s.step e).Accounted (es ++ [e]) := by
  unfold Accounted at h ⊢
  rw [asked_concat]
  cases e with
  | schedule processor job timespan now =>
    have hkey := hfit _ rfl
    have hcalls : ((s.schedule processor job timespan now).calls : Multiset (Int × SchedulerElement Processor Job)) =
        s.calls + {(now + timespan * ticksPerMilli, ⟨job, processor⟩)} := by
      simp only [schedule, dueTime_eq hkey.1 hkey.2, ← Multiset.coe_add, Multiset.coe_singleton]
    show s.passedEntries + s.pendingEntries + ((s.schedule processor job timespan now).calls : Multiset _) ≤ _
    rw [hcalls, ← add_assoc]
    exact add_le_add_left h _
  | insert i =>
    simp only [Ev.entry, Option.toList_none, Multiset.coe_nil, add_zero]
    refine le_trans ?_ h
    simp only [step, insert]
    cases hc : s.calls[i]? with
    | none => exact le_refl _
    | some call =>
      -- the entry goes from the call into the map, or is dropped
      have hmap : ((s.jobMap.insert call.1 call.2).entries : Multiset (Int × SchedulerElement Processor Job)) ≤
          {call} + s.jobMap.entries := by
        rw [Multiset.singleton_add]
        exact OrderedMap.insert_entries_le _ _ _
      have hcalls : (s.calls : Multiset (Int × SchedulerElement Processor Job)) =
          (s.calls.eraseIdx i : Multiset _) + {call} := by
        obtain ⟨hi, rfl⟩ := List.getElem?_eq_some_iff.mp hc
        rw [add_comm, Multiset.singleton_add]
        exact Multiset.coe_eq_coe.mpr (List.getElem_cons_eraseIdx_perm hi).symm
      have hlog : passedEntries { s with
          jobMap := s.jobMap.insert call.1 call.2, calls := s.calls.eraseIdx i
          log := s.log ++ [.returned call.1 call.2] } = s.passedEntries := by
        simp [passedEntries, List.filterMap_append]
      rw [hlog, hcalls]
      calc s.passedEntries + ((s.jobMap.insert call.1 call.2).entries : Multiset _) + (s.calls.eraseIdx i : Multiset _)
          ≤ s.passedEntries + ({call} + (s.jobMap.entries : Multiset _)) + (s.calls.eraseIdx i : Multiset _) :=
            add_le_add_left (add_le_add_right hmap _) _
        _ = s.passedEntries + s.pendingEntries + ((s.calls.eraseIdx i : Multiset _) + {call}) := by
            simp only [pendingEntries]
            abel
  | sample now =>
    simp only [Ev.entry, Option.toList_none, Multiset.coe_nil, add_zero]
    simp only [step]
    split <;> exact h
  | dispatch =>
    simp only [Ev.entry, Option.toList_none, Multiset.coe_nil, add_zero]
    refine le_trans (le_of_eq ?_) h
    simp only [step, dispatch]
    split
    · rfl
    · split
      · rfl
      · rename_i hb
        split
        · simp only [passedEntries, pendingEntries, List.filterMap_append, List.filterMap_cons, List.filterMap_nil,
            OrderedMap.entries_begin hb, ← Multiset.coe_add, ← Multiset.cons_coe, ← Multiset.singleton_add,
            Multiset.coe_nil]
          abel
        · rfl

theorem accounted (es : List (Ev Processor Job)) (h : ∀ e ∈ es, e.NoOverflow) : (run es).Accounted es := by
  induction es using List.reverseRecOn with
  | nil => exact Multiset.zero_le _
  | append_singleton es e ih =>
    unfold run at *
    rw [List.foldl_concat]
    refine accounted_step (ih fun x hx => h x (by simp [hx])) (h e (by simp))

/-- The worker's reading was taken by an event of the run. -/
theorem sampled (es : List (Ev Processor Job)) {now : Int} (h : (run es).worker = some now) : .sample now ∈ es := by
  induction es using List.reverseRecOn with
  | nil => cases h
  | append_singleton es e ih =>
    unfold run at h ih
    rw [List.foldl_concat] at h
    rw [List.mem_append]
    cases e with
    | schedule processor job timespan reading => exact Or.inl (ih h)
    | insert i =>
      refine Or.inl (ih ?_)
      simp only [step, insert] at h
      split at h <;> exact h
    | sample reading =>
      simp only [step] at h
      split at h
      · cases h
        exact Or.inr (List.mem_singleton_self _)
      · exact Or.inl (ih h)
    | dispatch =>
      simp only [step, dispatch] at h
      split at h
      · rename_i hw
        rw [hw] at h
        cases h
      · split at h
        · cases h
        · split at h <;> cases h

/-! ## Order -/

structure InDueOrder (es : List (Ev Processor Job)) : Prop where
  /-- A job passed on was asked for with this due time and processor, was in the map, was due at the
      worker's sample, and everything left in the map is due later. -/
  onTime : ∀ e now key element, (run es).Passes e now key element →
    e = .dispatch ∧ .sample now ∈ es ∧ (run es).worker = some now ∧ key ≤ now ∧
    (key, element) ∈ asked es ∧ (key, element) ∈ (run es).jobMap.entries ∧
    ∀ x ∈ ((run es).step e).jobMap.entries, key < x.1
  /-- No entry is passed on, or passed on and still in the map, more often than it was asked for. -/
  once : (run es).passedEntries + (run es).pendingEntries ≤ asked es
  /-- Of two entries in the map the one due first is passed on first. -/
  inOrder : ∀ x ∈ (run es).jobMap.entries, ∀ y ∈ (run es).jobMap.entries, x.1 < y.1 →
    ∀ later e now, (run (es ++ later)).Passes e now y.1 y.2 →
      ∃ new now', (run (es ++ later)).log = (run es).log ++ new ∧ .enqueued now' x.1 x.2 ∈ new

/-- An entry of the map stays there until it is passed on. -/
theorem pending_until_passed {s : Scheduler Processor Job} {x : Int × SchedulerElement Processor Job}
    (hx : x ∈ s.jobMap.entries) (later : List (Ev Processor Job)) :
    ∃ new, (later.foldl step s).log = s.log ++ new ∧
      (x ∈ (later.foldl step s).jobMap.entries ∨ ∃ now, .enqueued now x.1 x.2 ∈ new) := by
  induction later using List.reverseRecOn with
  | nil => exact ⟨[], (List.append_nil _).symm, Or.inl hx⟩
  | append_singleton later e ih =>
    rw [List.foldl_concat]
    obtain ⟨new, hlog, hin⟩ := ih
    rcases step_cases (later.foldl step s) e with ⟨more, hmore, -, hkeep⟩ | ⟨-, now, key, element, -, hb, -, hs⟩
    · refine ⟨new ++ more, by rw [hmore, hlog, List.append_assoc], ?_⟩
      exact hin.imp (hkeep x) fun ⟨now, h⟩ => ⟨now, List.mem_append_left _ h⟩
    · rw [hs]
      refine ⟨new ++ [.enqueued now key element], by rw [hlog, List.append_assoc], ?_⟩
      rcases hin with hin | ⟨now', h⟩
      · rcases OrderedMap.mem_of_begin hb hin with rfl | hrest
        · exact Or.inr ⟨now, by simp⟩
        · exact Or.inl hrest
      · exact Or.inr ⟨now', List.mem_append_left _ h⟩

/-- Earliest deadline first and never early: over any interleaving of `Schedule` calls and worker
    iterations with any readings, as long as no due time overflows. -/
theorem jobs_run_in_due_order (es : List (Ev Processor Job)) (h : ∀ e ∈ es, e.NoOverflow) : InDueOrder es := by
  have hacc := accounted es h
  have honce : (run es).passedEntries + (run es).pendingEntries ≤ asked es :=
    (Multiset.le_add_right _ _).trans hacc
  refine ⟨?_, honce, ?_⟩
  · intro e now key element hp
    obtain ⟨he, hw, hb, hle, hmap⟩ := passes_inv hp
    have hmem : (key, element) ∈ (run es).jobMap.entries := by
      rw [OrderedMap.entries_begin hb]
      exact List.mem_cons_self
    have hasked : (key, element) ∈ asked es :=
      Multiset.mem_of_le honce (Multiset.mem_add.mpr (Or.inr hmem))
    refine ⟨he, sampled es hw, hw, hle, hasked, hmem, fun x hx => ?_⟩
    rw [hmap] at hx
    exact OrderedMap.begin_lt hb hx
  · intro x hx y hy hlt later e now hp
    obtain ⟨new, hlog, hin⟩ := pending_until_passed hx later
    rw [run, List.foldl_append] at hp ⊢
    refine hin.elim (fun hstill => ?_) fun ⟨now', hpassed⟩ => ⟨new, now', hlog, hpassed⟩
    -- the entry due first is still there, so the one passed on is not the first
    obtain ⟨-, -, hb, -, -⟩ := passes_inv hp
    rcases OrderedMap.mem_of_begin hb hstill with rfl | hrest
    · exact absurd hlt (lt_irrefl _)
    · exact absurd (OrderedMap.begin_lt hb hrest) (not_lt_of_gt hlt)

/-- Two jobs, the second due first, with an insert between the worker's sample and its lock. -/
def twoJobsRun : List (Ev Nat Nat) :=
  [.schedule 1 10 1000 0, .insert 0, .sample 20000000, .schedule 2 20 0 5, .insert 0, .dispatch]

theorem two_jobs_in_due_order :
    (∀ e ∈ twoJobsRun, e.NoOverflow) ∧ InDueOrder twoJobsRun ∧ (run twoJobsRun).enqueued = {(2, 20)} := by
  have hfit : ∀ e ∈ twoJobsRun, e.NoOverflow := by
    unfold Ev.NoOverflow
    decide
  exact ⟨hfit, jobs_run_in_due_order twoJobsRun hfit, by decide +kernel⟩

/-! ## Delays -/

def Reading (x : Int) : Prop := 0 ≤ x ∧ x < 2 ^ 63

/-- Whatever happens besides a call at `now` with the delay `millis`, the due time the call computes is not
    in the past and the worker does not pass the call's element on at a sample before `now` plus the delay. -/
def NeverEarly (processor : Processor) (job : Job) (now millis : Int) : Prop :=
  now ≤ dueTime now millis ∧
    ∀ es : List (Ev Processor Job), .schedule processor job millis now ∈ es →
      (∀ r ∈ es.filterMap Ev.reading, Reading r) →
      ∀ sample, .enqueued sample (dueTime now millis) ⟨job, processor⟩ ∈ (run es).log →
        now + millis * ticksPerMilli ≤ sample

/-- Nothing is passed on before its key. -/
theorem passed_after_key (es : List (Ev Processor Job)) {now key : Int} {element : SchedulerElement Processor Job}
    (h : .enqueued now key element ∈ (run es).log) : key ≤ now := by
  induction es using List.reverseRecOn with
  | nil => cases h
  | append_singleton es e ih =>
    unfold run at h ih
    rw [List.foldl_concat] at h
    rcases step_cases (es.foldl step empty) e with ⟨new, hlog, hno, -⟩ | ⟨-, now', key', element', -, -, hle, hs⟩
    · rw [hlog] at h
      rcases List.mem_append.mp h with h | h
      · exact ih h
      · exact absurd h (hno now key element)
    · rw [hs] at h
      rcases List.mem_append.mp h with h | h
      · exact ih h
      · cases List.mem_singleton.mp h
        exact hle

def oneJobRun (processor : Processor) (job : Job) (now millis sample : Int) : List (Ev Processor Job) :=
  [.schedule processor job millis now, .insert 0, .sample sample, .dispatch]

theorem oneJobRun_log (processor : Processor) (job : Job) {now millis sample : Int} (h : dueTime now millis ≤ sample) :
    .enqueued sample (dueTime now millis) ⟨job, processor⟩ ∈ (run (oneJobRun processor job now millis sample)).log := by
  simp [run, oneJobRun, step, schedule, insert, dispatch, empty, OrderedMap.insert, OrderedMap.empty, OrderedMap.begin?,
    OrderedMap.insertSorted, h]

theorem a_delay_is_kept_iff_it_fits (processor : Processor) (job : Job) {now millis : Int} (hnow : Reading now)
    (hmillis : 0 ≤ millis ∧ millis < 2 ^ 63) :
    NeverEarly processor job now millis ↔ now + millis * ticksPerMilli < 2 ^ 63 := by
  have hn := hnow.1
  have hdelay : 0 ≤ millis * ticksPerMilli := Int.mul_nonneg hmillis.1 (by decide)
  constructor
  · intro h
    by_contra hbig
    -- at the due time, or at the call's own reading when that is later, the worker takes the job
    have hkey := wrap64_bounds (now + wrap64 (millis * ticksPerMilli))
    have hsample : Reading (max now (dueTime now millis)) := by
      refine ⟨le_max_of_le_left hn, max_lt hnow.2 hkey.2⟩
    have hreadings : ∀ r ∈ (oneJobRun processor job now millis (max now (dueTime now millis))).filterMap Ev.reading,
        Reading r := by
      intro r hr
      simp only [oneJobRun, List.filterMap_cons, Ev.reading, List.filterMap_nil, List.mem_cons, List.not_mem_nil, or_false] at hr
      rcases hr with rfl | rfl
      · exact hnow
      · exact hsample
    have hlate := h.2 _ List.mem_cons_self hreadings _ (oneJobRun_log processor job (le_max_right _ _))
    have := hsample.2
    omega
  · intro hfit
    have hkey : dueTime now millis = now + millis * ticksPerMilli := dueTime_eq (by omega) hfit
    refine ⟨by rw [hkey]; omega, fun es _ _ sample hs => ?_⟩
    rw [← hkey]
    exact passed_after_key es hs

/-- "Never", as the largest delay there is: due before the call was made. -/
theorem a_huge_delay_fires_at_once :
    Reading 13900000000000000 ∧ dueTime 13900000000000000 (2 ^ 63 - 1) = 13899999999990000 ∧
      ¬ NeverEarly (1 : Nat) (10 : Nat) 13900000000000000 (2 ^ 63 - 1) := by
  refine ⟨by unfold Reading; decide, by decide +kernel, fun h => ?_⟩
  exact absurd h.1 (by decide +kernel)

theorem a_second_is_kept : Reading 13900000000000000 ∧ NeverEarly (1 : Nat) (10 : Nat) 13900000000000000 1000 := by
  have hnow : Reading 13900000000000000 := by unfold Reading; decide
  exact ⟨hnow, (a_delay_is_kept_iff_it_fits (1 : Nat) (10 : Nat) hnow (by decide)).mpr (by decide)⟩

end SigHolic.Utility.Scheduler
