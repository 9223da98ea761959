/-
  SigHolic.Base.Runs — the states a machine reaches, and the invariant rule.

  A machine is a start predicate and a total `step`; an event that is not enabled leaves
  the state as it is. `Reach ok` are the states of the runs all of whose steps meet `ok`
  (a condition on the state before the step and the event). `Leads P` are the states from
  which a state with `P` is reached whatever is chosen on the way. A machine whose calls
  give an answer refines another when a relation on their states is kept by every call and
  makes the answers equal (`answers_eq`).
-/

import Mathlib.Data.List.Basic

namespace SigHolic.Base.Runs

variable {S E : Type} (start : S → Prop) (step : S → E → S)

inductive Reach (ok : S → E → Prop) : S → Prop
  | start {s : S} : start s → Reach ok s
  | step {s : S} (e : E) : Reach ok s → ok s e → Reach ok (step s e)

variable {start step} {ok ok' : S → E → Prop}

/-- What holds at the start and is kept by every step that meets `ok` holds in every
    state reached. -/
theorem Reach.invariant {P : S → Prop} (h0 : ∀ s, start s → P s) (h1 : ∀ s e, P s → ok s e → P (step s e)) {s : S}
    (h : Reach start step ok s) : P s := by
  induction h with
  | start hs => exact h0 _ hs
  | step e _ he ih => exact h1 _ e ih he

theorem Reach.mono (hok : ∀ s e, ok s e → ok' s e) {s : S} (h : Reach start step ok s) : Reach start step ok' s := by
  induction h with
  | start hs => exact .start hs
  | step e _ he ih => exact .step e ih (hok _ e he)

/-- As `Reach.invariant`, for an invariant whose step lemma uses one proved before. -/
theorem Reach.invariant_of {P Q : S → Prop} (hQ : ∀ s, Reach start step ok s → Q s) (h0 : ∀ s, start s → P s)
    (h1 : ∀ s e, Q s → P s → ok s e → P (step s e)) {s : S} (h : Reach start step ok s) : P s := by
  induction h with
  | start hs => exact h0 _ hs
  | step e hr he ih => exact h1 _ e (hQ _ hr) ih he

/-! ## A given run -/

variable (step ok)

/-- Every step of the run from `s` by `es` meets `ok`. -/
def Along : S → List E → Prop
  | _, [] => True
  | s, e :: es => ok s e ∧ Along (step s e) es

instance decidableAlong [∀ s e, Decidable (ok s e)] : ∀ (s : S) (es : List E), Decidable (Along step ok s es)
  | _, [] => inferInstanceAs (Decidable True)
  | s, e :: es =>
    have := decidableAlong (step s e) es
    inferInstanceAs (Decidable (_ ∧ _))

variable {step ok}

theorem along_concat {es : List E} {e : E} {s : S} :
    Along step ok s (es ++ [e]) ↔ Along step ok s es ∧ ok (es.foldl step s) e := by
  induction es generalizing s with
  | nil => simp [Along]
  | cons x es ih => simp only [List.cons_append, Along, ih, List.foldl_cons, and_assoc]

theorem along_of_mem {es : List E} (h : ∀ e ∈ es, ∀ s, ok s e) {s : S} : Along step ok s es := by
  induction es generalizing s with
  | nil => trivial
  | cons e es ih => exact ⟨h e (by simp) s, ih fun x hx => h x (by simp [hx])⟩

theorem along_of_append {es es' : List E} {s : S} (h : Along step ok s (es ++ es')) : Along step ok s es := by
  induction es generalizing s with
  | nil => trivial
  | cons e es ih => exact ⟨h.1, ih h.2⟩

theorem Reach.run : ∀ {es : List E} {s : S}, Reach start step ok s → Along step ok s es →
    Reach start step ok (es.foldl step s) := by
  intro es
  induction es with
  | nil => intro s h _; exact h
  | cons e es ih => intro s h ha; exact ih (.step e h ha.1) ha.2

/-- A run with nothing asked of its steps. -/
theorem Reach.any {s : S} (h : start s) (es : List E) : Reach start step (fun _ _ => True) (es.foldl step s) := by
  refine .run (.start h) ?_
  clear h
  induction es generalizing s with
  | nil => trivial
  | cons e es ih => exact ⟨trivial, ih⟩

theorem along_mono (hok : ∀ s e, ok s e → ok' s e) {es : List E} {s : S} (h : Along step ok s es) : Along step ok' s es := by
  induction es generalizing s with
  | nil => trivial
  | cons e es ih => exact ⟨hok s e h.1, ih h.2⟩

/-- Two conditions that agree where `P` holds, one of which keeps `P`, agree along a run. -/
theorem along_congr {A C D : S → E → Prop} {P : S → Prop} (hkeep : ∀ s e, P s → D s e → A s e → P (step s e))
    (h : ∀ s e, P s → D s e → (A s e ↔ C s e)) {es : List E} {s : S} (hs : P s) (hd : Along step D s es) :
    Along step A s es ↔ Along step C s es := by
  induction es generalizing s with
  | nil => exact Iff.rfl
  | cons e es ih =>
    simp only [Along]
    rw [← h s e hs hd.1]
    exact and_congr_right fun ha => ih (hkeep s e hs hd.1 ha) hd.2

/-! ## Calls with an answer -/

section Answers

variable {T O : Type} (call : S → E → O × S) (spec : T → E → O × T)

def after (s : S) (e : E) : S := (call s e).2

def answers : S → List E → List O
  | _, [] => []
  | s, e :: es => (call s e).1 :: answers (after call s e) es

variable {call spec}

theorem answers_eq {R : S → T → Prop}
    (hstep : ∀ s t e, R s t → ok s e → (call s e).1 = (spec t e).1 ∧ R (after call s e) (after spec t e))
    {es : List E} {s : S}
    {t : T} (h : R s t) (ha : Along (after call) ok s es) :
    answers call s es = answers spec t es ∧ R (es.foldl (after call) s) (es.foldl (after spec) t) := by
  induction es generalizing s t with
  | nil => exact ⟨rfl, h⟩
  | cons e es ih =>
    obtain ⟨hanswer, hnext⟩ := hstep s t e h ha.1
    obtain ⟨hanswers, hend⟩ := ih hnext ha.2
    exact ⟨by rw [answers, answers, hanswer, hanswers], hend⟩

theorem length_answers (s : S) (es : List E) : (answers call s es).length = es.length := by
  induction es generalizing s with
  | nil => rfl
  | cons e es ih => simp [answers, ih]

theorem answers_concat (s : S) (es : List E) (e : E) :
    answers call s (es ++ [e]) = answers call s es ++ [(call (es.foldl (after call) s) e).1] := by
  induction es generalizing s with
  | nil => rfl
  | cons x es ih => simp only [List.cons_append, answers, List.foldl_cons, ih]

/-- The answer at a place is the call's there, after the calls before it. -/
theorem answers_at {s : S} {es : List E} {i : Nat} {e : E} {a : O} (he : es[i]? = some e)
    (ha : (answers call s es)[i]? = some a) : a = (call ((es.take i).foldl (after call) s) e).1 := by
  induction es generalizing s i with
  | nil => cases he
  | cons x es ih =>
    cases i with
    | zero => cases he; cases ha; rfl
    | succ i => exact ih he ha

end Answers

/-! ## Getting somewhere -/

section Leads

variable {B : Type} (next : S → B → S)

/-- However the choices fall, the machine gets to a state with `P`. -/
inductive Leads (P : S → Prop) : S → Prop
  | here {s : S} : P s → Leads P s
  | next {s : S} : (∀ b, Leads P (next s b)) → Leads P s

variable {next}

theorem Leads.bind {P Q : S → Prop} {s : S} (h : Leads next P s) (k : ∀ s, P s → Leads next Q s) : Leads next Q s := by
  induction h with
  | here hp => exact k _ hp
  | next _ ih => exact .next ih

theorem Leads.mono {P Q : S → Prop} {s : S} (h : Leads next P s) (k : ∀ s, P s → Q s) : Leads next Q s :=
  h.bind fun s hp => .here (k s hp)

/-- What every choice keeps holds on the way there. -/
theorem Leads.keeps {P I : S → Prop} (hI : ∀ s b, I s → I (next s b)) {s : S} (h : Leads next P s) (hs : I s) :
    Leads next (fun s => P s ∧ I s) s := by
  induction h with
  | here hp => exact .here ⟨hp, hs⟩
  | next _ ih => exact .next fun b => ih b (hI _ b hs)

/-- Making one choice over and over gets there too. -/
theorem Leads.iterate {P : S → Prop} {s : S} (h : Leads next P s) (b : B) :
    ∃ n, P ((List.replicate n b).foldl next s) := by
  induction h with
  | here hp => exact ⟨0, hp⟩
  | next _ ih =>
    obtain ⟨n, hn⟩ := ih b
    exact ⟨n + 1, hn⟩

end Leads

/-! ## The most there is along a run -/

section Peak

variable (step) (m : S → Nat)

variable {step m}

end Peak

end SigHolic.Base.Runs
