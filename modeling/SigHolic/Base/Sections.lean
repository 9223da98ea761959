/-
  SigHolic.Base.Sections — an object behind a lock that its owner may enter again.

  A call of the object is a program (`Prog`): statements on the object, and statements that
  enter or leave the lock. Any number of threads run calls statement by statement, in any
  interleaving (`Machine`). A thread that enters waits until the lock is free or its own, and
  leaves it when it has left as often as it entered. A statement on the object asks nobody:
  only the programs' own discipline keeps two of them apart.

  `order` and `returns` are ghost state: the calls in the order in which they got the lock,
  and what the calls have answered.

  Proved, for calls all of whose statements on the object stand in one critical section
  (`Locked`; what `autoLock` makes of a program is, `locked_autoLock`):
  - whenever the lock is free, the object is what the calls leave when each runs alone, one
    after the other in `order`, and a call answers what it answers there (`serial`);
  - whichever of the threads that can run is run next, all calls return (`all_return`); so
    no call waits for ever.
-/

import Mathlib.Algebra.BigOperators.Group.Finset.Piecewise
import Mathlib.Logic.Hydra
import SigHolic.Base.Runs

namespace SigHolic.Base.Sections

open Runs

/-! ## Programs -/

/-- What is left of a call: `M` is what the object holds, `α` what the call answers. -/
inductive Prog (M α : Type) where
  | done (a : α)
  | enter (k : Prog M α)
  | leave (k : Prog M α)
  | act (f : M → M) (k : M → Prog M α)

namespace Prog

variable {M α β : Type}

def bind : Prog M α → (α → Prog M β) → Prog M β
  | done a, g => g a
  | enter k, g => enter (k.bind g)
  | leave k, g => leave (k.bind g)
  | act f k, g => act f fun m => (k m).bind g

instance : Monad (Prog M) where
  pure := done
  bind := bind

def read : Prog M M := act id done

def modify (f : M → M) : Prog M Unit := act f fun _ => done ()

/-- A scope with a lock object at its start; with none the scope has no lock. -/
def autoLock (lock : Bool) (p : Prog M α) : Prog M α := if lock then enter (p.bind fun a => leave (done a)) else p

/-- The call when nobody else runs: its answer, and what the object holds then. -/
def alone : Prog M α → M → α × M
  | done a, m => (a, m)
  | enter k, m => k.alone m
  | leave k, m => k.alone m
  | act f k, m => (k m).alone (f m)

@[simp] theorem alone_pure (a : α) (m : M) : (pure a : Prog M α).alone m = (a, m) := rfl

theorem alone_bind' (p : Prog M α) (g : α → Prog M β) (m : M) :
    (p.bind g).alone m = (g (p.alone m).1).alone (p.alone m).2 := by
  induction p generalizing m with
  | done a => rfl
  | enter k ih => exact ih m
  | leave k ih => exact ih m
  | act f k ih => exact ih m (f m)

@[simp] theorem alone_bind (p : Prog M α) (g : α → Prog M β) (m : M) :
    (p >>= g).alone m = (g (p.alone m).1).alone (p.alone m).2 := alone_bind' p g m

@[simp] theorem alone_read (m : M) : read.alone m = (m, m) := rfl

@[simp] theorem alone_modify (f : M → M) (m : M) : (modify f).alone m = ((), f m) := rfl

@[simp] theorem alone_autoLock (lock : Bool) (p : Prog M α) (m : M) : (autoLock lock p).alone m = p.alone m := by
  cases lock with
  | false => rfl
  | true => exact alone_bind' p _ m

/-! ### Discipline -/

/-- Every section the program enters it leaves again, and `n` more. -/
inductive Nested : Nat → Prog M α → Prop
  | done (a : α) : Nested 0 (done a)
  | enter {n : Nat} {k : Prog M α} : Nested (n + 1) k → Nested n (enter k)
  | leave {n : Nat} {k : Prog M α} : Nested n k → Nested (n + 1) (leave k)
  | act {n : Nat} {f : M → M} {k : M → Prog M α} : (∀ m, Nested n (k m)) → Nested n (act f k)

/-- The rest of a call inside its section, entered again `n` times: the call ends with the section. -/
inductive Inside : Nat → Prog M α → Prop
  | enter {n : Nat} {k : Prog M α} : Inside (n + 1) k → Inside n (enter k)
  | leave {n : Nat} {k : Prog M α} : Inside n k → Inside (n + 1) (leave k)
  | act {n : Nat} {f : M → M} {k : M → Prog M α} : (∀ m, Inside n (k m)) → Inside n (act f k)
  | last (a : α) : Inside 0 (leave (done a))

def Locked (p : Prog M α) : Prop := ∃ k, p = enter k ∧ Inside 0 k

theorem nested_bind' {p : Prog M α} {g : α → Prog M β} {n e : Nat} (hp : Nested n p) (hg : ∀ a, Nested e (g a)) :
    Nested (n + e) (p.bind g) := by
  induction hp with
  | done a => rw [Nat.zero_add]; exact hg a
  | enter _ ih => refine .enter ?_; rwa [Nat.add_right_comm]
  | leave _ ih => rw [Nat.add_right_comm]; exact .leave ih
  | act _ ih => exact .act ih

theorem nested_bind {p : Prog M α} {g : α → Prog M β} (hp : Nested 0 p) (hg : ∀ a, Nested 0 (g a)) : Nested 0 (p >>= g) :=
  nested_bind' hp hg

theorem nested_pure (a : α) : Nested 0 (pure a : Prog M α) := .done a

theorem nested_read : Nested 0 (read : Prog M M) := .act fun m => .done m

theorem nested_modify (f : M → M) : Nested 0 (modify f) := .act fun _ => .done ()

theorem nested_autoLock (lock : Bool) {p : Prog M α} (h : Nested 0 p) : Nested 0 (autoLock lock p) := by
  cases lock with
  | false => exact h
  | true => exact .enter (nested_bind' h fun a => .leave (.done a))

theorem inside_close {p : Prog M α} {n : Nat} (h : Nested n p) : Inside n (p.bind fun a => leave (done a)) := by
  induction h with
  | done a => exact .last a
  | enter _ ih => exact .enter ih
  | leave _ ih => exact .leave ih
  | act _ ih => exact .act ih

theorem locked_autoLock {p : Prog M α} (h : Nested 0 p) : Locked (autoLock true p) := ⟨_, rfl, inside_close h⟩

theorem inside_map {p : Prog M α} {n : Nat} (h : Inside n p) (f : α → β) : Inside n (p.bind fun a => done (f a)) := by
  induction h with
  | enter _ ih => exact .enter ih
  | leave _ ih => exact .leave ih
  | act _ ih => exact .act ih
  | last a => exact .last (f a)

/-- Making something else of the answer takes no statement. -/
theorem locked_map {p : Prog M α} (h : Locked p) (f : α → β) : Locked (p >>= fun a => pure (f a)) := by
  obtain ⟨k, rfl, hk⟩ := h
  exact ⟨_, rfl, inside_map hk f⟩

inductive Next : Prog M α → Prog M α → Prop
  | enter (k : Prog M α) : Next k (enter k)
  | leave (k : Prog M α) : Next k (leave k)
  | act (f : M → M) (k : M → Prog M α) (m : M) : Next (k m) (act f k)

theorem next_wf : WellFounded (Next (M := M) (α := α)) := by
  refine ⟨fun p => ?_⟩
  induction p with
  | done a => exact ⟨_, fun q h => by cases h⟩
  | enter k ih => exact ⟨_, fun q h => by cases h; exact ih⟩
  | leave k ih => exact ⟨_, fun q h => by cases h; exact ih⟩
  | act f k ih => exact ⟨_, fun q h => by cases h; exact ih _⟩

end Prog

/-! ## The machine -/

section Machine

variable {C M R : Type}

structure Running (C M R : Type) where
  call : C
  /-- Where the call stands in `order`, once it has the lock. -/
  place : Option Nat
  rest : Prog M R

structure Return (C R : Type) where
  place : Option Nat
  call : C
  answer : R

structure Machine (C M R : Type) where
  object : M
  /-- The thread that owns the lock, and how often it has entered it again. -/
  lock : Option (Nat × Nat)
  threads : Nat → Option (Running C M R)
  order : List C
  returns : List (Return C R)

inductive Ev (C : Type) where
  | call (t : Nat) (c : C)
  /-- Thread `t`'s next statement. -/
  | run (t : Nat)

namespace Machine

def start (m : M) : Machine C M R := ⟨m, none, fun _ => none, [], []⟩

def setThread (s : Machine C M R) (t : Nat) (x : Option (Running C M R)) : Machine C M R :=
  { s with threads := Function.update s.threads t x }

def run (s : Machine C M R) (t : Nat) : Machine C M R :=
  match s.threads t with
  | none => s
  | some ⟨c, place, .done a⟩ => { s.setThread t none with returns := s.returns ++ [⟨place, c, a⟩] }
  | some ⟨c, place, .act f k⟩ => { s.setThread t (some ⟨c, place, k s.object⟩) with object := f s.object }
  | some ⟨c, place, .enter k⟩ =>
    match s.lock with
    | none =>
      { s.setThread t (some ⟨c, some s.order.length, k⟩) with lock := some (t, 0), order := s.order ++ [c] }
    | some (u, n) => if u = t then { s.setThread t (some ⟨c, place, k⟩) with lock := some (t, n + 1) } else s
  | some ⟨c, place, .leave k⟩ =>
    match s.lock with
    | none => s
    | some (u, n) =>
      if u = t then { s.setThread t (some ⟨c, place, k⟩) with lock := if n = 0 then none else some (t, n - 1) } else s

variable (prog : C → Prog M R)

def step (s : Machine C M R) : Ev C → Machine C M R
  | .call t c => if (s.threads t).isNone then s.setThread t (some ⟨c, none, prog c⟩) else s
  | .run t => s.run t

/-! ## What a statement can do -/

theorem run_cases (s : Machine C M R) (t : Nat) :
    s.run t = s ∨
    (∃ c place a, s.threads t = some ⟨c, place, .done a⟩ ∧
      s.run t = { s.setThread t none with returns := s.returns ++ [⟨place, c, a⟩] }) ∨
    (∃ c place k k' m l, s.threads t = some ⟨c, place, k⟩ ∧ Prog.Next k' k ∧
      s.run t = { s.setThread t (some ⟨c, place, k'⟩) with object := m, lock := l }) ∨
    ∃ c place k, s.threads t = some ⟨c, place, .enter k⟩ ∧ s.lock = none ∧
      s.run t =
        { s.setThread t (some ⟨c, some s.order.length, k⟩) with lock := some (t, 0), order := s.order ++ [c] } := by
  unfold run
  split
  · exact Or.inl rfl
  · rename_i c place a h
    exact Or.inr (Or.inl ⟨c, place, a, h, rfl⟩)
  · rename_i c place f k h
    exact Or.inr (Or.inr (Or.inl ⟨c, place, _, _, _, _, h, .act f k s.object, rfl⟩))
  · rename_i c place k h
    split
    · rename_i hl
      exact Or.inr (Or.inr (Or.inr ⟨c, place, k, h, hl, rfl⟩))
    · split
      · exact Or.inr (Or.inr (Or.inl ⟨c, place, _, _, _, _, h, .enter k, rfl⟩))
      · exact Or.inl rfl
  · rename_i c place k h
    split
    · exact Or.inl rfl
    · split
      · exact Or.inr (Or.inr (Or.inl ⟨c, place, _, _, _, _, h, .leave k, rfl⟩))
      · exact Or.inl rfl

end Machine

/-! ## One call after the other -/

variable (prog : C → Prog M R)

def sequential (m : M) (c : C) : R × M := (prog c).alone m

def serialObject (m : M) (order : List C) : M := order.foldl (after (sequential prog)) m

/-- The call at the place is `c`, and answers `a`. -/
def Answered (m : M) (order : List C) (i : Nat) (c : C) (a : R) : Prop :=
  order[i]? = some c ∧ (answers (sequential prog) m order)[i]? = some a

variable {prog}

theorem answered_concat {m : M} {order : List C} {i : Nat} {c : C} {a : R} (h : Answered prog m order i c a) (c' : C) :
    Answered prog m (order ++ [c']) i c a := by
  obtain ⟨hc, ha⟩ := h
  refine ⟨?_, ?_⟩
  · rw [List.getElem?_append_left (List.getElem?_eq_some_iff.mp hc).1]
    exact hc
  · rw [answers_concat, List.getElem?_append_left (List.getElem?_eq_some_iff.mp ha).1]
    exact ha

theorem answered_last (m : M) (order : List C) (c : C) :
    Answered prog m (order ++ [c]) order.length c (sequential prog (serialObject prog m order) c).1 := by
  refine ⟨by simp, ?_⟩
  rw [answers_concat, List.getElem?_append_right (length_answers m order).le, length_answers, Nat.sub_self]
  rfl

theorem serialObject_concat (m : M) (order : List C) (c : C) :
    serialObject prog m (order ++ [c]) = (sequential prog (serialObject prog m order) c).2 := by
  simp [serialObject, after]

namespace Machine

def Outside (prog : C → Prog M R) (m : M) (order : List C) (r : Running C M R) : Prop :=
  (r.place = none ∧ r.rest = prog r.call) ∨ ∃ i a, r.place = some i ∧ r.rest = .done a ∧
    Answered prog m order i r.call a

/-- The call that owns the lock, entered again `n` times, is the last of the order, and what is left of it does
    to the object what is left of it when it runs alone. -/
structure Owner (prog : C → Prog M R) (m : M) (s : Machine C M R) (t n : Nat) (before : List C) (c : C) (k : Prog M R) :
    Prop where
  thread : s.threads t = some ⟨c, some before.length, k⟩
  order : s.order = before ++ [c]
  inside : Prog.Inside n k
  alone : k.alone s.object = sequential prog (serialObject prog m before) c

structure Serial (prog : C → Prog M R) (m : M) (s : Machine C M R) : Prop where
  free : s.lock = none → s.object = serialObject prog m s.order
  owned : ∀ t n, s.lock = some (t, n) → ∃ before c k, Owner prog m s t n before c k
  others : ∀ t r, s.threads t = some r → (∀ n, s.lock ≠ some (t, n)) → Outside prog m s.order r
  returned : ∀ x ∈ s.returns, ∃ i, x.place = some i ∧ Answered prog m s.order i x.call x.answer

variable {m : M} {s : Machine C M R}

theorem Outside.concat {order : List C} {r : Running C M R} (h : Outside prog m order r) (c : C) :
    Outside prog m (order ++ [c]) r := by
  rcases h with h | ⟨i, a, hp, hr, ha⟩
  · exact Or.inl h
  · exact Or.inr ⟨i, a, hp, hr, answered_concat ha c⟩

theorem setThread_ne {t u : Nat} (x : Option (Running C M R)) (hne : u ≠ t) : (s.setThread t x).threads u = s.threads u := by
  simp [setThread, hne]

@[simp] theorem setThread_same (t : Nat) (x : Option (Running C M R)) : (s.setThread t x).threads t = x := by
  simp [setThread]

/-- A statement inside the section: the owner moves on, the others are where they were. -/
theorem serial_inside (h : Serial prog m s) {t n n' : Nat} {before : List C} {c : C} {k k' : Prog M R} {x : M}
    (ho : Owner prog m s t n before c k) (hlock : s.lock = some (t, n)) (hin : Prog.Inside n' k')
    (hk : k'.alone x = k.alone s.object) :
    Serial prog m { s.setThread t (some ⟨c, some before.length, k'⟩) with object := x, lock := some (t, n') } where
  free hl := by cases hl
  owned u j hl := by
    cases hl
    exact ⟨before, c, k', by simp, ho.order, hin, hk.trans ho.alone⟩
  others u r hr hu := by
    have hne : u ≠ t := by
      intro heq
      exact hu n' (by rw [heq])
    refine h.others u r ?_ ?_
    · rwa [← setThread_ne _ hne]
    · intro j hj
      rw [hlock] at hj
      cases hj
      exact hne rfl
  returned := h.returned

/-- The owner leaves the lock: its call has been run to its end. -/
theorem serial_last (h : Serial prog m s) {t : Nat} {before : List C} {c : C} {a : R}
    (ho : Owner prog m s t 0 before c (.leave (.done a))) (hlock : s.lock = some (t, 0)) :
    Serial prog m { s.setThread t (some ⟨c, some before.length, .done a⟩) with lock := none } := by
  have halone : (a, s.object) = sequential prog (serialObject prog m before) c := ho.alone
  refine ⟨?_, ?_, ?_, h.returned⟩
  · intro _
    show s.object = serialObject prog m s.order
    rw [ho.order, serialObject_concat, ← halone]
  · intro u n hl
    cases hl
  · intro u r hr _
    by_cases hu : u = t
    · subst hu
      have hr : some ⟨c, some before.length, .done a⟩ = some r := by
        rw [← hr]
        simp
      cases hr
      refine Or.inr ⟨before.length, a, rfl, rfl, ?_⟩
      show Answered prog m s.order before.length c a
      have hlast : Answered prog m (before ++ [c]) before.length c (sequential prog (serialObject prog m before) c).1 :=
        answered_last m before c
      rwa [← ho.order, ← halone] at hlast
    · refine h.others u r ?_ ?_
      · rwa [← setThread_ne _ hu]
      · intro n hn
        rw [hlock] at hn
        cases hn
        exact hu rfl

/-- A call gets the lock. -/
theorem serial_acquire (h : Serial prog m s) {t : Nat} {c : C} {k : Prog M R} (hfree : s.lock = none)
    (hp : prog c = .enter k) (hin : Prog.Inside 0 k) :
    Serial prog m
      { s.setThread t (some ⟨c, some s.order.length, k⟩) with lock := some (t, 0), order := s.order ++ [c] } where
  free hl := by cases hl
  owned u n hl := by
    cases hl
    refine ⟨s.order, c, k, by simp, rfl, hin, ?_⟩
    show k.alone s.object = (prog c).alone (serialObject prog m s.order)
    rw [hp, h.free hfree]
    rfl
  others u r hr hu := by
    have hne : u ≠ t := by
      intro heq
      exact hu 0 (by rw [heq])
    refine (h.others u r ?_ ?_).concat c
    · rwa [← setThread_ne _ hne]
    · intro n hn
      rw [hfree] at hn
      cases hn
  returned x hx := by
    obtain ⟨i, hi, ha⟩ := h.returned x hx
    exact ⟨i, hi, answered_concat ha c⟩

theorem serial_owner (h : Serial prog m s) {t n : Nat} (hlock : s.lock = some (t, n)) : Serial prog m (s.run t) := by
  obtain ⟨before, c, k, ho⟩ := h.owned t n hlock
  have hthread := ho.thread
  cases hin : ho.inside with
  | @enter _ k hk =>
    have hrun : s.run t = { s.setThread t (some ⟨c, some before.length, k⟩) with lock := some (t, n + 1) } := by
      simp [run, hthread, hlock]
    rw [hrun]
    exact serial_inside h ho hlock hk rfl
  | @leave n k hk =>
    have hrun : s.run t = { s.setThread t (some ⟨c, some before.length, k⟩) with lock := some (t, n) } := by
      simp [run, hthread, hlock]
    rw [hrun]
    exact serial_inside h ho hlock hk rfl
  | @act _ f k hk =>
    have hrun : s.run t =
        { s.setThread t (some ⟨c, some before.length, k s.object⟩) with object := f s.object, lock := some (t, n) } := by
      simp only [run, hthread, ← hlock]
      rfl
    rw [hrun]
    exact serial_inside h ho hlock (hk s.object) rfl
  | last a =>
    have hrun : s.run t = { s.setThread t (some ⟨c, some before.length, .done a⟩) with lock := none } := by
      simp [run, hthread, hlock]
    rw [hrun]
    exact serial_last h ho hlock

theorem serial_run (hlocked : ∀ c, Prog.Locked (prog c)) (h : Serial prog m s) (t : Nat) : Serial prog m (s.run t) := by
  by_cases hown : ∃ n, s.lock = some (t, n)
  · obtain ⟨n, hlock⟩ := hown
    exact serial_owner h hlock
  have hother := fun n hn => hown ⟨n, hn⟩
  cases ht : s.threads t with
  | none =>
    have hrun : s.run t = s := by simp only [run, ht]
    rwa [hrun]
  | some r =>
    obtain ⟨c, place, rest⟩ := r
    rcases h.others t _ ht hother with ⟨hplace, hrest⟩ | ⟨i, a, hplace, hrest, ha⟩
    · -- the call waits for the lock
      obtain ⟨k, hp, hin⟩ := hlocked c
      simp only at hplace hrest
      subst hplace hrest
      rw [hp] at ht
      cases hl : s.lock with
      | none =>
        have hrun : s.run t =
            { s.setThread t (some ⟨c, some s.order.length, k⟩) with lock := some (t, 0), order := s.order ++ [c] } := by
          simp only [run, ht, hl]
        rw [hrun]
        exact serial_acquire h hl hp hin
      | some l =>
        obtain ⟨u, n⟩ := l
        have hne : u ≠ t := by
          intro heq
          exact hown ⟨n, by rw [hl, heq]⟩
        have hrun : s.run t = s := by simp only [run, ht, hl, if_neg hne]
        rwa [hrun]
    · -- the call has its answer
      simp only at hplace hrest
      subst hplace hrest
      have hrun : s.run t = { s.setThread t none with returns := s.returns ++ [⟨some i, c, a⟩] } := by simp only [run, ht]
      rw [hrun]
      refine ⟨h.free, ?_, ?_, ?_⟩
      · intro u n hl
        obtain ⟨before, c', k, ho⟩ := h.owned u n hl
        have hne : u ≠ t := by
          intro heq
          subst heq
          exact hown ⟨n, hl⟩
        refine ⟨before, c', k, ?_, ho.order, ho.inside, ho.alone⟩
        show (s.setThread t none).threads u = _
        rw [setThread_ne _ hne]
        exact ho.thread
      · intro u r hr hu
        have hne : u ≠ t := by
          intro heq
          subst heq
          simp at hr
        refine h.others u r ?_ hu
        rwa [← setThread_ne _ hne]
      · intro x hx
        rcases List.mem_append.mp hx with hx | hx
        · exact h.returned x hx
        · rw [List.mem_singleton] at hx
          subst hx
          exact ⟨i, rfl, ha⟩

theorem serial_call (h : Serial prog m s) (t : Nat) (c : C) : Serial prog m (s.step prog (.call t c)) := by
  simp only [step]
  split
  case isFalse => exact h
  rename_i hidle
  have hidle : s.threads t = none := Option.isNone_iff_eq_none.mp hidle
  refine ⟨h.free, ?_, ?_, h.returned⟩
  · intro u n hl
    obtain ⟨before, c', k, ho⟩ := h.owned u n hl
    have hne : u ≠ t := by
      intro heq
      subst heq
      have hthread := ho.thread
      rw [hidle] at hthread
      cases hthread
    refine ⟨before, c', k, ?_, ho.order, ho.inside, ho.alone⟩
    rw [setThread_ne _ hne]
    exact ho.thread
  · intro u r hr hu
    by_cases hut : u = t
    · subst hut
      rw [setThread_same] at hr
      cases hr
      exact Or.inl ⟨rfl, rfl⟩
    · refine h.others u r ?_ hu
      rwa [← setThread_ne _ hut]

theorem serial_step (hlocked : ∀ c, Prog.Locked (prog c)) (h : Serial prog m s) (e : Ev C) :
    Serial prog m (s.step prog e) := by
  cases e with
  | call t c => exact serial_call h t c
  | run t => exact serial_run hlocked h t

theorem start_serial (m : M) : Serial prog m (start m) := by
  refine ⟨fun _ => rfl, ?_, ?_, ?_⟩
  · intro t n h
    cases h
  · intro t r h
    cases h
  · intro x hx
    cases hx

/-! ## Each place once -/

structure Once (s : Machine C M R) : Prop where
  below : ∀ t r i, s.threads t = some r → r.place = some i → i < s.order.length
  returned : ∀ x ∈ s.returns, ∀ i, x.place = some i → i < s.order.length
  pending : ∀ t r i, s.threads t = some r → r.place = some i → ∀ x ∈ s.returns, x.place ≠ some i
  apart : ∀ t u r r' i, s.threads t = some r → s.threads u = some r' → r.place = some i → r'.place = some i → t = u
  nodup : (s.returns.filterMap Return.place).Nodup

/-- A thread has only moved on in its call. -/
theorem once_moved (h : Once s) {t : Nat} {c : C} {place : Option Nat} {k k' : Prog M R}
    (ht : s.threads t = some ⟨c, place, k⟩) (x : M) (l : Option (Nat × Nat)) :
    Once { s.setThread t (some ⟨c, place, k'⟩) with object := x, lock := l } := by
  -- whoever is in a call was in it before, at the same place
  have hold : ∀ u r, (s.setThread t (some ⟨c, place, k'⟩)).threads u = some r →
      ∃ r', s.threads u = some r' ∧ r'.place = r.place := by
    intro u r hr
    by_cases hu : u = t
    · subst hu
      rw [setThread_same] at hr
      cases hr
      exact ⟨_, ht, rfl⟩
    · rw [setThread_ne _ hu] at hr
      exact ⟨r, hr, rfl⟩
  refine ⟨?_, h.returned, ?_, ?_, h.nodup⟩
  · intro u r i hr hi
    obtain ⟨r', hr', hp⟩ := hold u r hr
    exact h.below u r' i hr' (hp.trans hi)
  · intro u r i hr hi
    obtain ⟨r', hr', hp⟩ := hold u r hr
    exact h.pending u r' i hr' (hp.trans hi)
  · intro u v r q i hr hq hi hj
    obtain ⟨r', hr', hp⟩ := hold u r hr
    obtain ⟨q', hq', hp'⟩ := hold v q hq
    exact h.apart u v r' q' i hr' hq' (hp.trans hi) (hp'.trans hj)

/-- A call that gets the lock gets a place nobody has. -/
theorem once_acquired (h : Once s) {t : Nat} {c : C} {k : Prog M R} (l : Option (Nat × Nat)) :
    Once { s.setThread t (some ⟨c, some s.order.length, k⟩) with lock := l, order := s.order ++ [c] } := by
  have hlen : (s.order ++ [c]).length = s.order.length + 1 := by simp
  have hsplit : ∀ u r i, (s.setThread t (some ⟨c, some s.order.length, k⟩)).threads u = some r → r.place = some i →
      (u = t ∧ i = s.order.length) ∨ (u ≠ t ∧ s.threads u = some r) := by
    intro u r i hr hi
    by_cases hu : u = t
    · subst hu
      rw [setThread_same] at hr
      cases hr
      cases hi
      exact Or.inl ⟨rfl, rfl⟩
    · rw [setThread_ne _ hu] at hr
      exact Or.inr ⟨hu, hr⟩
  refine ⟨?_, ?_, ?_, ?_, h.nodup⟩
  · intro u r i hr hi
    show i < (s.order ++ [c]).length
    rcases hsplit u r i hr hi with ⟨-, rfl⟩ | ⟨-, hr'⟩
    · omega
    · have := h.below u r i hr' hi
      omega
  · intro x hx i hi
    show i < (s.order ++ [c]).length
    have := h.returned x hx i hi
    omega
  · intro u r i hr hi x hx hxi
    rcases hsplit u r i hr hi with ⟨-, rfl⟩ | ⟨-, hr'⟩
    · exact absurd (h.returned x hx _ hxi) (lt_irrefl _)
    · exact h.pending u r i hr' hi x hx hxi
  · intro u v r q i hr hq hi hj
    rcases hsplit u r i hr hi with ⟨hu, hpu⟩ | ⟨-, hr'⟩
    · rcases hsplit v q i hq hj with ⟨hv, -⟩ | ⟨-, hq'⟩
      · rw [hu, hv]
      · exact absurd (h.below v q i hq' hj) (by omega)
    · rcases hsplit v q i hq hj with ⟨-, hpv⟩ | ⟨-, hq'⟩
      · exact absurd (h.below u r i hr' hi) (by omega)
      · exact h.apart u v r q i hr' hq' hi hj

theorem once_returned (h : Once s) {t : Nat} {c : C} {place : Option Nat} {a : R}
    (ht : s.threads t = some ⟨c, place, .done a⟩) :
    Once { s.setThread t none with returns := s.returns ++ [⟨place, c, a⟩] } := by
  have hold : ∀ u r, (s.setThread t none).threads u = some r → u ≠ t ∧ s.threads u = some r := by
    intro u r hr
    by_cases hu : u = t
    · subst hu
      simp at hr
    · rw [setThread_ne _ hu] at hr
      exact ⟨hu, hr⟩
  refine ⟨?_, ?_, ?_, ?_, ?_⟩
  · intro u r i hr hi
    exact h.below u r i (hold u r hr).2 hi
  · intro x hx i hi
    rcases List.mem_append.mp hx with hx | hx
    · exact h.returned x hx i hi
    · rw [List.mem_singleton] at hx
      subst hx
      exact h.below t _ i ht hi
  · intro u r i hr hi x hx hxi
    obtain ⟨hu, hr'⟩ := hold u r hr
    rcases List.mem_append.mp hx with hx | hx
    · exact h.pending u r i hr' hi x hx hxi
    · rw [List.mem_singleton] at hx
      subst hx
      exact hu (h.apart u t r _ i hr' ht hi hxi)
  · intro u v r q i hr hq hi hj
    exact h.apart u v r q i (hold u r hr).2 (hold v q hq).2 hi hj
  · show ((s.returns ++ [(⟨place, c, a⟩ : Return C R)]).filterMap Return.place).Nodup
    rw [List.filterMap_append, List.nodup_append]
    refine ⟨h.nodup, ?_, ?_⟩
    · cases place <;> simp
    · intro i hi j hj heq
      subst heq
      obtain ⟨x, hx, hxi⟩ := List.mem_filterMap.mp hi
      obtain ⟨y, hy, hyi⟩ := List.mem_filterMap.mp hj
      rw [List.mem_singleton] at hy
      subst hy
      exact h.pending t _ i ht hyi x hx hxi

theorem once_step (h : Once s) (e : Ev C) : Once (s.step prog e) := by
  cases e with
  | call t c =>
    simp only [step]
    split
    case isFalse => exact h
    have hold : ∀ u (r : Running C M R) i, (s.setThread t (some ⟨c, none, prog c⟩)).threads u = some r →
        r.place = some i → s.threads u = some r := by
      intro u r i hr hi
      by_cases hu : u = t
      · subst hu
        rw [setThread_same] at hr
        cases hr
        cases hi
      · rwa [setThread_ne _ hu] at hr
    refine ⟨?_, h.returned, ?_, ?_, h.nodup⟩
    · intro u r i hr hi
      exact h.below u r i (hold u r i hr hi) hi
    · intro u r i hr hi
      exact h.pending u r i (hold u r i hr hi) hi
    · intro u v r q i hr hq hi hj
      exact h.apart u v r q i (hold u r i hr hi) (hold v q i hq hj) hi hj
  | run t =>
    simp only [step]
    rcases run_cases s t with
      hrun | ⟨c, place, a, ht, hrun⟩ | ⟨c, place, k, k', x, l, ht, -, hrun⟩ | ⟨c, place, k, -, -, hrun⟩
    · rwa [hrun]
    · rw [hrun]
      exact once_returned h ht
    · rw [hrun]
      exact once_moved h ht x l
    · rw [hrun]
      exact once_acquired h _

theorem start_once (m : M) : Once (start m : Machine C M R) := by
  refine ⟨?_, ?_, ?_, ?_, .nil⟩
  · intro t r i h
    cases h
  · intro x hx
    cases hx
  · intro t r i h
    cases h
  · intro t u r r' i h
    cases h

/-! ## All calls return -/

/-- The thread is in a call and does not wait for somebody else to leave. -/
def CanRun (s : Machine C M R) (t : Nat) : Prop :=
  match s.threads t with
  | none => False
  | some ⟨_, _, .enter _⟩ => ∀ u n, s.lock = some (u, n) → u = t
  | some _ => True

/-- Whichever thread that can run is run next, in the end no thread is in a call. -/
inductive AllReturn : Machine C M R → Prop
  | idle {s : Machine C M R} : (∀ t, s.threads t = none) → AllReturn s
  | next {s : Machine C M R} : (∃ t, s.CanRun t) → (∀ t, s.CanRun t → AllReturn (s.run t)) → AllReturn s

def Below (s : Machine C M R) (N : Nat) : Prop := ∀ t, N ≤ t → s.threads t = none

theorem below_step {N : Nat} (h : s.Below N) (e : Ev C) : ∃ N', N ≤ N' ∧ (s.step prog e).Below N' := by
  have hset : ∀ t x, ∃ N', N ≤ N' ∧ ∀ u, N' ≤ u → (s.setThread t x).threads u = none := by
    intro t x
    refine ⟨max N (t + 1), le_max_left _ _, fun u hu => ?_⟩
    rw [setThread_ne _ (by omega)]
    exact h u (by omega)
  cases e with
  | call t c =>
    simp only [step]
    split
    · exact hset t _
    · exact ⟨N, le_rfl, h⟩
  | run t =>
    simp only [step]
    rcases run_cases s t with
      hrun | ⟨c, place, a, -, hrun⟩ | ⟨c, place, k, k', x, l, -, -, hrun⟩ | ⟨c, place, k, -, -, hrun⟩
    · rw [hrun]
      exact ⟨N, le_rfl, h⟩
    · rw [hrun]
      exact hset t _
    · rw [hrun]
      exact hset t _
    · rw [hrun]
      exact hset t _

/-- The owner of the lock can run, and with the lock free everybody who is in a call. -/
theorem somebody_can_run (h : Serial prog m s) {t : Nat} (ht : s.threads t ≠ none) : ∃ u, s.CanRun u := by
  cases hl : s.lock with
  | none =>
    refine ⟨t, ?_⟩
    unfold CanRun
    split
    · exact absurd ‹_› ht
    · intro u n hu
      rw [hl] at hu
      cases hu
    · trivial
  | some l =>
    obtain ⟨u, n⟩ := l
    obtain ⟨before, c, k, ho⟩ := h.owned u n hl
    refine ⟨u, ?_⟩
    unfold CanRun
    rw [ho.thread]
    split
    · rename_i heq
      cases heq
    · intro v j hv
      rw [hl] at hv
      cases hv
      rfl
    · trivial

def remains (x : Option (Running C M R)) : Multiset (Prog M R) := (x.map Running.rest).elim 0 ({·})

def pending (N : Nat) (s : Machine C M R) : Multiset (Prog M R) := ∑ t ∈ Finset.range N, remains (s.threads t)

/-- A thread that leaves the lock owns it. -/
theorem leaves_own (hlocked : ∀ c, Prog.Locked (prog c)) (h : Serial prog m s) {t : Nat} {c : C} {place : Option Nat}
    {k : Prog M R} (ht : s.threads t = some ⟨c, place, .leave k⟩) : ∃ n, s.lock = some (t, n) := by
  by_contra hown
  rcases h.others t _ ht fun n hn => hown ⟨n, hn⟩ with ⟨-, hrest⟩ | ⟨i, a, -, hrest, -⟩
  · obtain ⟨k', hp, -⟩ := hlocked c
    simp only [hp] at hrest
    cases hrest
  · cases hrest

/-- A thread that can run has less left to run afterwards. -/
theorem run_remains (hlocked : ∀ c, Prog.Locked (prog c)) (h : Serial prog m s) {t : Nat} (ht : s.CanRun t) :
    ∃ x, (s.run t).threads = Function.update s.threads t x ∧
      Relation.CutExpand Prog.Next (remains x) (remains (s.threads t)) := by
  unfold CanRun at ht
  cases hr : s.threads t with
  | none => rw [hr] at ht; exact ht.elim
  | some r =>
    obtain ⟨c, place, rest⟩ := r
    cases rest with
    | done a => exact ⟨none, by simp only [run, hr]; rfl, Relation.cutExpand_zero⟩
    | act f k =>
      exact ⟨some ⟨c, place, k s.object⟩, by simp only [run, hr]; rfl,
        Relation.cutExpand_singleton_singleton (.act f k s.object)⟩
    | enter k =>
      rw [hr] at ht
      cases hl : s.lock with
      | none =>
        exact ⟨some ⟨c, some s.order.length, k⟩, by simp only [run, hr, hl]; rfl,
          Relation.cutExpand_singleton_singleton (.enter k)⟩
      | some l =>
        obtain ⟨u, n⟩ := l
        have hu := ht u n hl
        exact ⟨some ⟨c, place, k⟩, by simp only [run, hr, hl, if_pos hu]; rfl,
          Relation.cutExpand_singleton_singleton (.enter k)⟩
    | leave k =>
      obtain ⟨n, hl⟩ := leaves_own hlocked h hr
      exact ⟨some ⟨c, place, k⟩, by simp only [run, hr, hl, if_true]; rfl,
        Relation.cutExpand_singleton_singleton (.leave k)⟩

theorem run_pending (hlocked : ∀ c, Prog.Locked (prog c)) (h : Serial prog m s) {N t : Nat} (hN : s.Below N)
    (ht : s.CanRun t) : (s.run t).Below N ∧ Relation.CutExpand Prog.Next (pending N (s.run t)) (pending N s) := by
  obtain ⟨x, hx, hlt⟩ := run_remains hlocked h ht
  have htN : t < N := by
    by_contra hge
    have hnone := hN t (by omega)
    simp only [CanRun, hnone] at ht
  refine ⟨?_, ?_⟩
  · intro u hu
    rw [hx, Function.update_of_ne (by omega)]
    exact hN u hu
  · have hmem : t ∈ Finset.range N := Finset.mem_range.mpr htN
    have hafter : (fun u => remains ((s.run t).threads u)) = Function.update (fun u => remains (s.threads u)) t (remains x) := by
      funext u
      rw [hx]
      by_cases hu : u = t
      · subst hu; simp
      · simp [hu]
    have hbefore : pending N s = remains (s.threads t) + ∑ u ∈ Finset.range N \ {t}, remains (s.threads u) := by
      unfold pending
      rw [← Finset.sum_update_of_mem hmem (fun u => remains (s.threads u)) (remains (s.threads t)), Function.update_eq_self]
    unfold pending at hbefore ⊢
    rw [hbefore, hafter, Finset.sum_update_of_mem hmem]
    exact (Relation.cutExpand_add_right _).mpr hlt

theorem all_return_of (hlocked : ∀ c, Prog.Locked (prog c)) {N : Nat} (left : Multiset (Prog M R)) :
    ∀ s : Machine C M R, pending N s = left → Serial prog m s → s.Below N → s.AllReturn := by
  -- every statement run makes what is left to run less
  induction left using (Prog.next_wf (M := M) (α := R)).cutExpand.induction with
  | _ left ih =>
    intro s hs h hN
    by_cases hidle : ∀ t, s.threads t = none
    · exact .idle hidle
    · obtain ⟨t, ht⟩ := not_forall.mp hidle
      refine .next (somebody_can_run h ht) fun u hu => ?_
      obtain ⟨hN', hlt⟩ := run_pending hlocked h hN hu
      rw [hs] at hlt
      exact ih _ hlt _ rfl (serial_run hlocked h u) hN'

end Machine

/-! ## Runs -/

abbrev Reached (prog : C → Prog M R) (m : M) : Machine C M R → Prop :=
  Reach (· = Machine.start m) (Machine.step prog) fun _ _ => True

variable {m : M} {s : Machine C M R}

theorem reached (prog : C → Prog M R) (m : M) (es : List (Ev C)) :
    Reached prog m (es.foldl (Machine.step prog) (Machine.start m)) := by
  refine Reach.any ?_ es
  rfl

theorem Reached.serial (hlocked : ∀ c, Prog.Locked (prog c)) (h : Reached prog m s) : Machine.Serial prog m s := by
  refine Reach.invariant ?_ ?_ h
  · intro s hs
    subst hs
    exact Machine.start_serial m
  · intro s e hs _
    exact Machine.serial_step hlocked hs e

theorem Reached.once (h : Reached prog m s) : s.Once := by
  refine Reach.invariant ?_ ?_ h
  · intro s hs
    subst hs
    exact Machine.start_once m
  · intro s e hs _
    exact Machine.once_step hs e

theorem Reached.below (h : Reached prog m s) : ∃ N, s.Below N := by
  refine Reach.invariant (P := fun s => ∃ N, s.Below N) ?_ ?_ h
  · intro s hs
    subst hs
    exact ⟨0, fun _ _ => rfl⟩
  · intro s e hs _
    obtain ⟨N, hN⟩ := hs
    obtain ⟨N', -, hN'⟩ : ∃ N', N ≤ N' ∧ (s.step prog e).Below N' := Machine.below_step hN e
    exact ⟨N', hN'⟩

/-- What holds of the calls that are made holds of all calls in progress and done. -/
theorem calls_made {P : C → Prop}
    (h : Reach (· = Machine.start m) (Machine.step prog) (fun _ e => ∀ t c, e = .call t c → P c) s) :
    (∀ t r, s.threads t = some r → P r.call) ∧ (∀ c ∈ s.order, P c) ∧ ∀ x ∈ s.returns, P x.call := by
  refine Reach.invariant
    (P := fun s => (∀ t r, s.threads t = some r → P r.call) ∧ (∀ c ∈ s.order, P c) ∧
      ∀ x ∈ s.returns, P x.call) ?_ ?_ h
  · intro s hs
    subst hs
    refine ⟨?_, ?_, ?_⟩
    · intro t r hr
      cases hr
    · intro c hc
      cases hc
    · intro x hx
      cases hx
  · intro s e hs he
    obtain ⟨hthreads, horder, hreturns⟩ := hs
    have hset : ∀ t (x : Option (Running C M R)), (∀ r, x = some r → P r.call) →
        ∀ u r, (s.setThread t x).threads u = some r → P r.call := by
      intro t x hx u r hr
      by_cases hu : u = t
      · subst hu
        exact hx r (by simpa using hr)
      · rw [Machine.setThread_ne _ hu] at hr
        exact hthreads u r hr
    cases e with
    | call t c =>
      simp only [Machine.step]
      split
      · refine ⟨hset t _ ?_, horder, hreturns⟩
        intro r hr
        cases hr
        exact he t c rfl
      · exact ⟨hthreads, horder, hreturns⟩
    | run t =>
      simp only [Machine.step]
      rcases Machine.run_cases s t with
        hrun | ⟨c, place, a, ht, hrun⟩ | ⟨c, place, k, k', x, l, ht, -, hrun⟩ | ⟨c, place, k, ht, -, hrun⟩
      · rw [hrun]
        exact ⟨hthreads, horder, hreturns⟩
      · rw [hrun]
        refine ⟨hset t none (fun r hr => nomatch hr), horder, ?_⟩
        intro x hx
        rcases List.mem_append.mp hx with hx | hx
        · exact hreturns x hx
        · rw [List.mem_singleton] at hx
          subst hx
          exact hthreads t _ ht
      · rw [hrun]
        have hcall : P c := hthreads t _ ht
        refine ⟨hset t _ ?_, horder, hreturns⟩
        intro r hr
        cases hr
        exact hcall
      · rw [hrun]
        have hcall : P c := hthreads t _ ht
        refine ⟨hset t _ ?_, ?_, hreturns⟩
        · intro r hr
          cases hr
          exact hcall
        intro d hd
        rcases List.mem_append.mp hd with hd | hd
        · exact horder d hd
        · rw [List.mem_singleton] at hd
          subst hd
          exact hcall

/-- Whatever calls are made and however they are interleaved: with the lock free the object is what the calls leave
    one after the other, and each call that returned has its own place there and the answer of that place. -/
theorem serial (hlocked : ∀ c, Prog.Locked (prog c)) (h : Reached prog m s) :
    (s.lock = none → s.object = serialObject prog m s.order) ∧
      (∀ x ∈ s.returns, ∃ i, x.place = some i ∧ Answered prog m s.order i x.call x.answer) ∧
      (s.returns.filterMap Return.place).Nodup :=
  ⟨(h.serial hlocked).free, (h.serial hlocked).returned, h.once.nodup⟩

/-- What no two calls of the order have both answered, no two calls have returned. -/
theorem returned_nodup (hlocked : ∀ c, Prog.Locked (prog c)) (h : Reached prog m s) {β : Type} (f : R → Option β)
    (hf : ((answers (sequential prog) m s.order).filterMap f).Nodup) : (s.returns.filterMap fun x => f x.answer).Nodup := by
  obtain ⟨-, hreturns, honce⟩ := serial hlocked h
  unfold List.Nodup at hf honce ⊢
  rw [List.pairwise_filterMap] at hf honce ⊢
  refine honce.imp_of_mem ?_
  intro x y hx hy hne b hb b' hb' heq
  obtain ⟨i, hi, -, hai⟩ := hreturns x hx
  obtain ⟨j, hj, -, haj⟩ := hreturns y hy
  obtain ⟨hi', hai⟩ := List.getElem?_eq_some_iff.mp hai
  obtain ⟨hj', haj⟩ := List.getElem?_eq_some_iff.mp haj
  have happart := List.pairwise_iff_getElem.mp hf
  rcases Nat.lt_trichotomy i j with hlt | hij | hlt
  · exact happart i j hi' hj' hlt b (hai ▸ hb) b' (haj ▸ hb') heq
  · exact hne i hi j hj hij
  · exact happart j i hj' hi' hlt b' (haj ▸ hb') b (hai ▸ hb) heq.symm

/-- No call waits for ever: whichever thread that can run is run next, all calls return. -/
theorem all_return (hlocked : ∀ c, Prog.Locked (prog c)) (h : Reached prog m s) : s.AllReturn := by
  obtain ⟨N, hN⟩ := h.below
  exact Machine.all_return_of hlocked _ s rfl (h.serial hlocked) hN

end Machine

end SigHolic.Base.Sections
