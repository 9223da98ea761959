/-
  SigHolic.Base.Settling — machines that come to rest.

  Two conditions on a state and an event: what may happen, and what has to happen in the
  end. A machine settles in `P` when whatever happens of what may, it gets to a state with
  `P`, and on the way there something that has to happen always can.

  Proved: a rank that everything that may happen makes less, and something that has to
  happen wherever `P` does not hold, make a machine settle (`settles_of_rank`); an
  invariant holds where it settles (`Settles.keeps`), and it settles as well when less may
  happen (`Settles.restrict`). In a run without end, what gets less again and again
  gets to zero (`gets_to_zero`).
-/

import Mathlib.Data.Prod.Lex
import Mathlib.Order.WellFounded
import SigHolic.Base.Runs

namespace SigHolic.Base.Settling

variable {S E : Type} (step : S → E → S) (may must : S → E → Prop)

/-- Whatever happens of what may, the machine gets to a state with `P`; until then something has to happen. -/
inductive Settles (P : S → Prop) : S → Prop
  | here {s : S} : P s → Settles P s
  | next {s : S} : (∃ e, must s e) → (∀ e, may s e → Settles P (step s e)) → Settles P s

variable {step may must} {P Q I : S → Prop}

theorem settles_of_rank {α : Type} {lt : α → α → Prop} (hwf : WellFounded lt) (rank : S → α)
    (hmust : ∀ s, I s → ¬ P s → ∃ e, must s e)
    (hmay : ∀ s e, I s → ¬ P s → may s e → P (step s e) ∨ (I (step s e) ∧ lt (rank (step s e)) (rank s))) {s : S}
    (h : I s) :
    Settles step may must P s := by
  induction hr : rank s using hwf.induction generalizing s with
  | _ r ih =>
    by_cases hp : P s
    · exact .here hp
    · refine .next (hmust s h hp) fun e he => ?_
      rcases hmay s e h hp he with hp' | ⟨hi, hlt⟩
      · exact .here hp'
      · rw [hr] at hlt
        exact ih _ hlt hi rfl

/-- What everything that may happen keeps holds where the machine settles. -/
theorem Settles.keeps (hI : ∀ s e, I s → may s e → I (step s e)) {s : S} (h : Settles step may must P s) (hs : I s) :
    Settles step may must (fun s => P s ∧ I s) s := by
  induction h with
  | here hp => exact .here ⟨hp, hs⟩
  | next hmust _ ih => exact .next hmust fun e he => ih e he (hI _ e hs he)

theorem Settles.mono (hPQ : ∀ s, P s → Q s) {s : S} (h : Settles step may must P s) : Settles step may must Q s := by
  induction h with
  | here hp => exact .here (hPQ _ hp)
  | next hmust _ ih => exact .next hmust ih

/-- With less that may happen, as long as what has to happen may. -/
theorem Settles.restrict {may' must' : S → E → Prop} (hI : ∀ s e, I s → may' s e → may s e ∧ I (step s e))
    (hmust : ∀ s, I s → (∃ e, must s e) → ∃ e, must' s e) {s : S} (h : Settles step may must P s) (hs : I s) :
    Settles step may' must' P s := by
  induction h with
  | here hp => exact .here hp
  | next hm _ ih => exact .next (hmust _ hs hm) fun e he => ih e (hI _ e hs he).1 (hI _ e hs he).2

/-! ## Runs without end -/

def states (step : S → E → S) (s : S) (es : ℕ → E) : ℕ → S
  | 0 => s
  | n + 1 => step (states step s es n) (es n)

/-- What every step keeps holds in every state. -/
theorem states_keep {s : S} {es : ℕ → E} (hI : ∀ n, I (states step s es n) → I (step (states step s es n) (es n)))
    (hs : I s) (n : ℕ) :
    I (states step s es n) := by
  induction n with
  | zero => exact hs
  | succ n ih => exact hI n ih

/-- A count that never gets more from some time on, and less again and again while it is not zero, gets to zero and stays. -/
theorem gets_to_zero {f : ℕ → ℕ} {a : ℕ} (hle : ∀ n, a ≤ n → f (n + 1) ≤ f n)
    (hlt : ∀ n, a ≤ n → f n ≠ 0 → ∃ m, n ≤ m ∧ f m < f n) : ∃ n, a ≤ n ∧ ∀ m, n ≤ m → f m = 0 := by
  have hzero : ∃ n, a ≤ n ∧ f n = 0 := by
    by_contra hno
    push Not at hno
    have hbelow : ∀ k, ∃ n, a ≤ n ∧ f n + k ≤ f a := by
      intro k
      induction k with
      | zero => exact ⟨a, Nat.le_refl _, Nat.le_refl _⟩
      | succ k ih =>
        obtain ⟨n, hn, hk⟩ := ih
        obtain ⟨m, hm, hless⟩ := hlt n hn (hno n hn)
        exact ⟨m, by omega, by omega⟩
    obtain ⟨n, hn, hk⟩ := hbelow (f a)
    exact hno n hn (by omega)
  obtain ⟨n, hn, h0⟩ := hzero
  refine ⟨n, hn, ?_⟩
  intro m hm
  have : f n ≥ f m := Nat.rel_of_forall_rel_succ_of_le_of_le (· ≥ ·) hle hn hm
  omega

/-! ## Ranks of several parts -/

/-- Four counts, the first the weightiest. -/
def Rank : Type := ℕ ×ₗ ℕ ×ₗ ℕ ×ₗ ℕ

namespace Rank

def mk (a b c d : ℕ) : Rank := toLex (a, toLex (b, toLex (c, d)))

def Less (x y : Rank) : Prop := (show ℕ ×ₗ ℕ ×ₗ ℕ ×ₗ ℕ from x) < y

theorem less_wf : WellFounded Less := (inferInstance : WellFoundedLT (ℕ ×ₗ ℕ ×ₗ ℕ ×ₗ ℕ)).wf

/-- A part gets less, and none before it gets more. -/
theorem less {a b c d a' b' c' d' : ℕ}
    (h : a' < a ∨ (a' ≤ a ∧ (b' < b ∨ (b' ≤ b ∧ (c' < c ∨ (c' ≤ c ∧ d' < d)))))) :
    Less (mk a' b' c' d') (mk a b c d) := by
  have hlex : a' < a ∨ a' = a ∧ (b' < b ∨ b' = b ∧ (c' < c ∨ c' = c ∧ d' < d)) := by omega
  simpa only [Less, mk, Prod.Lex.toLex_lt_toLex] using hlex

end Rank

end SigHolic.Base.Settling
