/-
  SigHolic.Base.Tally — counting over the stacks of a set of threads.

  Each thread has a stack; `tally f` adds `f` up over every element of every stack. A
  step replaces the top of one stack by a list: `tally_set` says by how much the count
  moves. A bound on the count is an exclusion: what one stack holds, no other can. `gather`
  collects lists in the same way; `set_cases` is where a thread is after such a step.
-/

import Mathlib.Algebra.Order.BigOperators.Group.List
import Mathlib.Algebra.Order.Ring.Nat

namespace SigHolic.Base.Tally

variable {α : Type}

/-- A thread after a step of thread `t`: it is `t`, or it has stayed. -/
theorem set_cases {threads : List α} {t t' : Nat} {new st : α} (h : (threads.set t new)[t']? = some st) :
    (t' = t ∧ st = new) ∨ (t' ≠ t ∧ threads[t']? = some st) := by
  rw [List.getElem?_set] at h
  split at h
  · rename_i heq
    split at h
    · exact Or.inl ⟨heq.symm, (Option.some.inj h).symm⟩
    · cases h
  · rename_i hne
    exact Or.inr ⟨Ne.symm hne, h⟩

def weight (f : α → Nat) (st : List α) : Nat := (st.map f).sum

def tally (f : α → Nat) (threads : List (List α)) : Nat := (threads.map (weight f)).sum

variable (f : α → Nat)

@[simp] theorem weight_nil : weight f [] = 0 := rfl

@[simp] theorem weight_cons (a : α) (st : List α) : weight f (a :: st) = f a + weight f st := by simp [weight]

@[simp] theorem weight_append (st st' : List α) : weight f (st ++ st') = weight f st + weight f st' := by simp [weight]

theorem le_weight {a : α} {st : List α} (h : a ∈ st) : f a ≤ weight f st :=
  List.single_le_sum (by simp) _ (List.mem_map_of_mem h)

theorem weight_le_tally {threads : List (List α)} {t : Nat} {st : List α} (h : threads[t]? = some st) :
    weight f st ≤ tally f threads :=
  List.single_le_sum (by simp) _ (List.mem_map_of_mem (List.mem_of_getElem? h))

theorem le_tally {threads : List (List α)} {st : List α} {a : α} (hs : st ∈ threads) (ha : a ∈ st) :
    f a ≤ tally f threads := by
  have h1 := le_weight f ha
  have h2 : weight f st ≤ tally f threads := List.single_le_sum (by simp) _ (List.mem_map_of_mem hs)
  omega

/-- Replacing one stack. -/
theorem tally_set {threads : List (List α)} {t : Nat} {old : List α} (h : threads[t]? = some old) (new : List α) :
    tally f (threads.set t new) + weight f old = tally f threads + weight f new := by
  induction threads generalizing t with
  | nil => simp at h
  | cons st threads ih =>
    cases t with
    | zero =>
      simp only [List.getElem?_cons_zero, Option.some.injEq] at h
      subst h
      simp only [List.set_cons_zero, tally, List.map_cons, List.sum_cons]
      omega
    | succ t =>
      have := ih (t := t) (by simpa using h)
      simp only [List.set_cons_succ, tally, List.map_cons, List.sum_cons] at this ⊢
      omega

/-- What is counted once is in one stack. -/
theorem tally_unique {threads : List (List α)} {t t' : Nat} {st st' : List α} (h : threads[t]? = some st)
    (h' : threads[t']? = some st') {a b : α} (ha : a ∈ st) (hb : b ∈ st') (hfa : 0 < f a) (hfb : 0 < f b)
    (h1 : tally f threads ≤ 1) : t = t' := by
  by_contra hne
  have h2 := tally_set f h []
  have h3 : (threads.set t [])[t']? = some st' := by rw [List.getElem?_set_ne hne]; exact h'
  have h4 := weight_le_tally f h3
  have h5 := le_weight f ha
  have h6 := le_weight f hb
  rw [weight_nil] at h2
  omega

theorem weight_eq_zero {st : List α} : weight f st = 0 ↔ ∀ a ∈ st, f a = 0 := by
  simp only [weight, List.sum_eq_zero_iff_forall_eq_nat, List.mem_map, forall_exists_index, and_imp,
    forall_apply_eq_imp_iff₂]

theorem tally_eq_zero {threads : List (List α)} : tally f threads = 0 ↔ ∀ st ∈ threads, ∀ a ∈ st, f a = 0 := by
  simp only [tally, List.sum_eq_zero_iff_forall_eq_nat, List.mem_map, forall_exists_index, and_imp,
    forall_apply_eq_imp_iff₂, weight_eq_zero]

theorem tally_mono {f g : α → Nat} (h : ∀ a, f a ≤ g a) (threads : List (List α)) :
    tally f threads ≤ tally g threads := by
  have hw : ∀ st : List α, weight f st ≤ weight g st := fun st => List.sum_le_sum fun a _ => h a
  exact List.sum_le_sum fun st _ => hw st

theorem tally_add (f g : α → Nat) (threads : List (List α)) :
    tally (fun a => f a + g a) threads = tally f threads + tally g threads := by
  have hw : ∀ st : List α, weight (fun a => f a + g a) st = weight f st + weight g st := by
    intro st
    induction st with
    | nil => rfl
    | cons a st ih => simp only [weight_cons, ih]; omega
  induction threads with
  | nil => rfl
  | cons st threads ih =>
    simp only [tally, List.map_cons, List.sum_cons] at ih ⊢
    rw [ih, hw]; omega

theorem tally_replicate (n : Nat) : tally f (List.replicate n []) = 0 := by
  rw [tally_eq_zero]
  intro st hst
  rw [List.eq_of_mem_replicate hst]
  simp

/-! ## What the stacks hold -/

variable {β : Type} (g : α → List β)

/-- What `g` finds in the stacks, thread by thread. -/
def gather (threads : List (List α)) : List β := threads.flatMap fun st => st.flatMap g

theorem gather_set {threads : List (List α)} {t : Nat} {old new : List α} (h : threads[t]? = some old)
    (he : new.flatMap g = old.flatMap g) : gather g (threads.set t new) = gather g threads := by
  induction threads generalizing t with
  | nil => rfl
  | cons st threads ih =>
    cases t with
    | zero =>
      simp only [List.getElem?_cons_zero, Option.some.injEq] at h
      subst h
      simp only [List.set_cons_zero, gather, List.flatMap_cons, he]
    | succ t =>
      have := ih (t := t) (by simpa using h)
      simp only [List.set_cons_succ, gather, List.flatMap_cons] at this ⊢
      rw [this]

variable {f g}

theorem gather_eq_nil (hg : ∀ a, f a = 0 → g a = []) {threads : List (List α)} (h : tally f threads = 0) :
    gather g threads = [] := by
  rw [tally_eq_zero] at h
  simp only [gather, List.flatMap_eq_nil_iff]
  exact fun st hst a ha => hg a (h st hst a ha)

/-- The only element with a weight is the top of a stack: nothing else is found. -/
theorem gather_alone (hg : ∀ a, f a = 0 → g a = []) {threads : List (List α)} {t : Nat} {a : α} {st : List α}
    (h : threads[t]? = some (a :: st)) (h1 : tally f threads ≤ 1) (ha : 0 < f a) :
    gather g threads = g a ∧ ∀ new, gather g (threads.set t (new ++ st)) = new.flatMap g := by
  induction threads generalizing t with
  | nil => simp at h
  | cons st' threads ih =>
    have hcons : tally f (st' :: threads) = weight f st' + tally f threads := by simp [tally]
    cases t with
    | zero =>
      simp only [List.getElem?_cons_zero, Option.some.injEq] at h
      subst h
      rw [weight_cons] at hcons
      have hst : st.flatMap g = [] := by
        rw [List.flatMap_eq_nil_iff]
        intro b hb
        have := le_weight f hb
        exact hg b (by omega)
      have hrest : gather g threads = [] := gather_eq_nil hg (by omega)
      simp only [gather] at hrest
      simp [gather, hst, hrest]
    | succ t =>
      have h0 : threads[t]? = some (a :: st) := by simpa using h
      have hw := weight_le_tally f h0
      rw [weight_cons] at hw
      have hst : st'.flatMap g = [] := by
        rw [List.flatMap_eq_nil_iff]
        intro b hb
        have := le_weight f hb
        exact hg b (by omega)
      have := ih h0 (by omega)
      simp only [gather, List.set_cons_succ, List.flatMap_cons, hst, List.nil_append] at this ⊢
      exact this

theorem tally_alone {h : α → Nat} (hh : ∀ a, f a = 0 → h a = 0) {threads : List (List α)} {t : Nat} {a : α}
    {st : List α}
    (ht : threads[t]? = some (a :: st)) (h1 : tally f threads ≤ 1) (ha : 0 < f a) : tally h threads = h a := by
  have hlen : ∀ threads : List (List α), (gather (fun b => List.replicate (h b) ()) threads).length = tally h threads := by
    intro threads
    simp only [gather, List.length_flatMap, List.length_replicate]
    rfl
  have := (gather_alone (g := fun b => List.replicate (h b) ()) (fun b hb => by simp [hh b hb]) ht h1 ha).1
  rw [← hlen, this, List.length_replicate]

end SigHolic.Base.Tally
