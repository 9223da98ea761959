/-
  SigHolic.Base.BoundedQueue — a first-in first-out queue of at most `capacity` items.

  Items are appended all or not at all, and a prefix is removed whole or not at all.
-/

import Mathlib.Data.List.Basic

namespace SigHolic.Base

@[ext] structure BoundedQueue (α : Type) (capacity : Nat) where
  items : List α
  bounded : items.length ≤ capacity

namespace BoundedQueue

variable {α : Type} {capacity : Nat}

def empty : BoundedQueue α capacity := ⟨[], Nat.zero_le _⟩

def free (q : BoundedQueue α capacity) : Nat := capacity - q.items.length

def append (q : BoundedQueue α capacity) (new : List α) : Option (BoundedQueue α capacity) :=
  if h : q.items.length + new.length ≤ capacity then some ⟨q.items ++ new, by rw [List.length_append]; exact h⟩ else none

def remove (q : BoundedQueue α capacity) (n : Nat) : Option (List α × BoundedQueue α capacity) :=
  if n ≤ q.items.length then
    some (q.items.take n, ⟨q.items.drop n, by rw [List.length_drop]; exact Nat.le_trans (Nat.sub_le _ _) q.bounded⟩)
  else none

theorem append_fits {q : BoundedQueue α capacity} {new : List α} (h : q.items.length + new.length ≤ capacity) :
    ∃ q', q.append new = some q' ∧ q'.items = q.items ++ new := ⟨_, dif_pos h, rfl⟩

theorem append_full {q : BoundedQueue α capacity} {new : List α} (h : capacity < q.items.length + new.length) :
    q.append new = none := dif_neg (Nat.not_le.mpr h)

theorem remove_there {q : BoundedQueue α capacity} {n : Nat} (h : n ≤ q.items.length) :
    ∃ q', q.remove n = some (q.items.take n, q') ∧ q'.items = q.items.drop n := ⟨_, if_pos h, rfl⟩

theorem remove_short {q : BoundedQueue α capacity} {n : Nat} (h : q.items.length < n) : q.remove n = none :=
  if_neg (Nat.not_le.mpr h)

end BoundedQueue

end SigHolic.Base
