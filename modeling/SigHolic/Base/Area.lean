/-
  SigHolic.Base.Area — a block of memory addressed from its first cell.

  An area is a total function from offsets to cells. `slice` reads a run of cells,
  `blit` overwrites one. What a block's owner may touch is the owner's own invariant.
-/

import Mathlib.Data.List.Basic

namespace SigHolic.Base.Area

variable {α : Type}

/-- The `len` cells from offset `off`. -/
def slice (m : Nat → α) (off len : Nat) : List α := (List.range len).map fun i => m (off + i)

/-- `m` with the cells from offset `off` on replaced by `l`. -/
def blit (m : Nat → α) (off : Nat) (l : List α) : Nat → α := fun i =>
  if off ≤ i then (l[i - off]?).getD (m i) else m i

/-! ## Reading -/

@[simp] theorem slice_zero (m : Nat → α) (off : Nat) : slice m off 0 = [] := rfl

@[simp] theorem length_slice (m : Nat → α) (off len : Nat) : (slice m off len).length = len := by simp [slice]

theorem slice_add (m : Nat → α) (off a b : Nat) : slice m off (a + b) = slice m off a ++ slice m (off + a) b := by
  simp only [slice, List.range_add, List.map_append, List.map_map]
  congr 1
  apply List.map_congr_left
  intro i _
  simp [Nat.add_assoc]

theorem slice_congr {m n : Nat → α} {off off' len : Nat} (h : ∀ i < len, m (off + i) = n (off' + i)) :
    slice m off len = slice n off' len := by
  apply List.map_congr_left
  intro i hi
  exact h i (List.mem_range.mp hi)

theorem take_slice (m : Nat → α) (off : Nat) {k len : Nat} (h : k ≤ len) :
    (slice m off len).take k = slice m off k := by
  obtain ⟨r, rfl⟩ := Nat.exists_eq_add_of_le h
  rw [slice_add, List.take_left' (length_slice m off k)]

theorem drop_slice (m : Nat → α) (off : Nat) {k len : Nat} (h : k ≤ len) :
    (slice m off len).drop k = slice m (off + k) (len - k) := by
  obtain ⟨r, rfl⟩ := Nat.exists_eq_add_of_le h
  rw [slice_add, List.drop_left' (length_slice m off k), Nat.add_sub_cancel_left]

/-! ## Writing -/

theorem blit_below (m : Nat → α) {off i : Nat} (l : List α) (h : i < off) : blit m off l i = m i := by
  simp [blit, Nat.not_le.mpr h]

theorem blit_at (m : Nat → α) (off : Nat) {l : List α} {i : Nat} (h : i < l.length) :
    blit m off l (off + i) = l[i] := by
  simp [blit, h]

/-- Reading back what was written. -/
theorem slice_blit_self (m : Nat → α) (off : Nat) (l : List α) : slice (blit m off l) off l.length = l := by
  apply List.ext_getElem
  · simp
  · intro i _ h
    simp only [slice, List.getElem_map, List.getElem_range]
    exact blit_at m off h

/-- Cells below the written run are unchanged. -/
theorem slice_blit_before (m : Nat → α) {off len b : Nat} (l : List α) (h : off + len ≤ b) :
    slice (blit m b l) off len = slice m off len :=
  slice_congr fun i hi => blit_below m l (by omega)

/-- Writing right behind a run extends it. -/
theorem slice_blit_end (m : Nat → α) (len : Nat) (l : List α) :
    slice (blit m len l) 0 (len + l.length) = slice m 0 len ++ l := by
  rw [slice_add, slice_blit_before m l (by omega), Nat.zero_add, slice_blit_self]

end SigHolic.Base.Area
