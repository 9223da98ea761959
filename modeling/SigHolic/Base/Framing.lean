/-
  SigHolic.Base.Framing — cutting a stream into frames whose size stands in their head.

  `size` gives the size of the frame a stream starts with, once enough of its head is
  there. `parse` takes frames off the front as long as they are complete and leaves the
  rest.

  Proved, for every `size` that is positive and settled by a complete frame (`Settled`):
  - `parse_append`: parsing is independent of where the stream was cut; what the first
    part leaves is parsed with the second.
  - `parse_flatten`: frames and rest are the stream, byte for byte.
  - `next_rest`: the rest starts with no complete frame.
  - `parse_concat`: frames put one behind the other are found again, and nothing is left.
-/

import Mathlib.Data.List.Basic

namespace SigHolic.Base.Framing

variable {α : Type} (size : List α → Option Nat)

/-- The size of the complete frame the stream starts with. -/
def next (xs : List α) : Option Nat := (size xs).filter fun n => decide (n ≤ xs.length)

def parseN : Nat → List α → List (List α) × List α
  | 0, xs => ([], xs)
  | k + 1, xs =>
    match next size xs with
    | some n => (xs.take n :: (parseN k (xs.drop n)).1, (parseN k (xs.drop n)).2)
    | none => ([], xs)

def parse (xs : List α) : List (List α) × List α := parseN size xs.length xs

def frames (xs : List α) : List (List α) := (parse size xs).1

def rest (xs : List α) : List α := (parse size xs).2

/-- Frames are not empty, and bytes behind a complete frame do not change its size. -/
structure Settled : Prop where
  pos : ∀ {xs n}, size xs = some n → 0 < n
  stable : ∀ {xs n} (ys : List α), size xs = some n → n ≤ xs.length → size (xs ++ ys) = some n

variable {size}

theorem next_eq_some {xs : List α} {n : Nat} : next size xs = some n ↔ size xs = some n ∧ n ≤ xs.length := by
  simp [next, Option.filter_eq_some_iff]

theorem next_append (hs : Settled size) {xs : List α} {n : Nat} (ys : List α) (h : next size xs = some n) :
    next size (xs ++ ys) = some n := by
  obtain ⟨h1, h2⟩ := next_eq_some.mp h
  refine next_eq_some.mpr ⟨hs.stable ys h1 h2, ?_⟩
  rw [List.length_append]; omega

/-! ## Enough fuel -/

theorem next_nil (hs : Settled size) : next size ([] : List α) = none := by
  rw [Option.eq_none_iff_forall_ne_some]
  intro n hn
  obtain ⟨h1, h2⟩ := next_eq_some.mp hn
  have hpos := hs.pos h1
  simp at h2; omega

theorem parseN_nil (hs : Settled size) (k : Nat) : parseN size k [] = ([], []) := by
  cases k with
  | zero => rfl
  | succ k => simp only [parseN, next_nil hs]

theorem parseN_enough (hs : Settled size) :
    ∀ (k j : Nat) (xs : List α), xs.length ≤ k → xs.length ≤ j → parseN size k xs = parseN size j xs := by
  intro k
  induction k with
  | zero =>
    intro j xs hk _
    have hnil : xs = [] := List.eq_nil_of_length_eq_zero (by omega)
    rw [hnil, parseN_nil hs, parseN_nil hs]
  | succ k ih =>
    intro j xs hk hj
    cases j with
    | zero =>
      have hnil : xs = [] := List.eq_nil_of_length_eq_zero (by omega)
      rw [hnil, parseN_nil hs, parseN_nil hs]
    | succ j =>
      simp only [parseN]
      split
      · rename_i n hn
        obtain ⟨h1, h2⟩ := next_eq_some.mp hn
        have hpos := hs.pos h1
        have hlen : (xs.drop n).length = xs.length - n := List.length_drop
        rw [ih j (xs.drop n) (by omega) (by omega)]
      · rfl

theorem parseN_eq (hs : Settled size) (k : Nat) (xs : List α) (h : xs.length ≤ k) : parseN size k xs = parse size xs :=
  parseN_enough hs k xs.length xs h (Nat.le_refl _)

/-! ## One frame -/

theorem parse_of_none {xs : List α} (h : next size xs = none) : parse size xs = ([], xs) := by
  unfold parse
  cases xs.length with
  | zero => rfl
  | succ k => simp only [parseN, h]

theorem parse_of_some (hs : Settled size) {xs : List α} {n : Nat} (h : next size xs = some n) :
    parse size xs = (xs.take n :: frames size (xs.drop n), rest size (xs.drop n)) := by
  obtain ⟨h1, h2⟩ := next_eq_some.mp h
  have hpos := hs.pos h1
  obtain ⟨k, hk⟩ : ∃ k, xs.length = k + 1 := ⟨xs.length - 1, by omega⟩
  have hlen : (xs.drop n).length ≤ k := by rw [List.length_drop]; omega
  unfold parse
  rw [hk]
  simp only [parseN, h, parseN_eq hs k _ hlen, frames, rest]

theorem frames_of_none {xs : List α} (h : next size xs = none) : frames size xs = [] := by
  rw [frames, parse_of_none h]

theorem rest_of_none {xs : List α} (h : next size xs = none) : rest size xs = xs := by
  rw [rest, parse_of_none h]

theorem frames_of_some (hs : Settled size) {xs : List α} {n : Nat} (h : next size xs = some n) :
    frames size xs = xs.take n :: frames size (xs.drop n) := by
  rw [frames, parse_of_some hs h]

theorem rest_of_some (hs : Settled size) {xs : List α} {n : Nat} (h : next size xs = some n) :
    rest size xs = rest size (xs.drop n) := by
  rw [rest, parse_of_some hs h]

/-- Induction along the frames of a stream. -/
theorem induction (hs : Settled size) {P : List α → Prop} (stop : ∀ xs, next size xs = none → P xs)
    (frame : ∀ xs n, next size xs = some n → P (xs.drop n) → P xs) : ∀ xs, P xs := by
  intro xs
  induction h : xs.length using Nat.strongRecOn generalizing xs with
  | _ k ih =>
    cases hn : next size xs with
    | none => exact stop xs hn
    | some n =>
      obtain ⟨h1, h2⟩ := next_eq_some.mp hn
      have hpos := hs.pos h1
      exact frame xs n hn (ih _ (by rw [List.length_drop]; omega) _ rfl)

/-! ## The whole stream -/

/-- Where the stream was cut does not matter. -/
theorem parse_append (hs : Settled size) (xs ys : List α) :
    parse size (xs ++ ys) =
      (frames size xs ++ frames size (rest size xs ++ ys), rest size (rest size xs ++ ys)) := by
  induction xs using induction hs with
  | stop xs h => rw [frames_of_none h, rest_of_none h]; rfl
  | frame xs n h ih =>
    obtain ⟨-, hle⟩ := next_eq_some.mp h
    rw [parse_of_some hs (next_append hs ys h), frames_of_some hs h, rest_of_some hs h, frames, rest,
      List.take_append_of_le_length hle, List.drop_append_of_le_length hle, ih]
    rfl

theorem frames_append (hs : Settled size) (xs ys : List α) :
    frames size (xs ++ ys) = frames size xs ++ frames size (rest size xs ++ ys) := by
  rw [frames, parse_append hs]

theorem rest_append (hs : Settled size) (xs ys : List α) : rest size (xs ++ ys) = rest size (rest size xs ++ ys) := by
  rw [rest, parse_append hs]

theorem parse_flatten (hs : Settled size) (xs : List α) : (frames size xs).flatten ++ rest size xs = xs := by
  induction xs using induction hs with
  | stop xs h => rw [frames_of_none h, rest_of_none h]; rfl
  | frame xs n h ih =>
    rw [frames_of_some hs h, rest_of_some hs h, List.flatten_cons, List.append_assoc, ih, List.take_append_drop]

theorem next_rest (hs : Settled size) (xs : List α) : next size (rest size xs) = none := by
  induction xs using induction hs with
  | stop xs h => rw [rest_of_none h]; exact h
  | frame xs n h ih => rw [rest_of_some hs h]; exact ih

/-- Frames put one behind the other are found again, and nothing is left. -/
theorem parse_concat (hs : Settled size) {fs : List (List α)} (h : ∀ f ∈ fs, size f = some f.length) :
    parse size fs.flatten = (fs, []) := by
  induction fs with
  | nil => exact parse_of_none (next_nil hs)
  | cons f fs ih =>
    have hf : next size f = some f.length := next_eq_some.mpr ⟨h f (by simp), Nat.le_refl _⟩
    have hrest := ih fun g hg => h g (List.mem_cons_of_mem _ hg)
    rw [List.flatten_cons, parse_of_some hs (next_append hs fs.flatten hf), List.take_left, List.drop_left, frames, rest, hrest]

end SigHolic.Base.Framing
