/-
  SigHolic.Base.OrderedMap — a map with unique keys in increasing order, with the three
  operations a queue of deadlines needs: insert, look at the first entry, erase it.

  `insert` leaves the map as it is when the key is there (`insert_present`), and else adds
  one value to `values` (`insert_fresh`); erasing the first entry takes its value away
  (`values_begin`). The first entry has the least key (`begin_lt`), and only erasing takes
  an entry out (`mem_insert_of_mem`, `mem_of_begin`).
-/

import Mathlib.Algebra.Order.Group.Multiset
import Mathlib.Algebra.Order.Ring.Nat

namespace SigHolic.Base

structure OrderedMap (K V : Type) [LinearOrder K] where
  entries : List (K × V)
  sorted : entries.Pairwise fun a b => a.1 < b.1

namespace OrderedMap

variable {K V : Type} [LinearOrder K]

def empty : OrderedMap K V := ⟨[], .nil⟩

def Has (m : OrderedMap K V) (k : K) : Prop := ∃ e ∈ m.entries, e.1 = k

instance (m : OrderedMap K V) (k : K) : Decidable (m.Has k) := inferInstanceAs (Decidable (∃ e ∈ m.entries, e.1 = k))

def insertSorted (k : K) (v : V) : List (K × V) → List (K × V)
  | [] => [(k, v)]
  | e :: es => if k < e.1 then (k, v) :: e :: es else if e.1 = k then e :: es else e :: insertSorted k v es

theorem mem_insertSorted {k : K} {v : V} {es : List (K × V)} {x : K × V} (h : x ∈ insertSorted k v es) :
    x = (k, v) ∨ x ∈ es := by
  induction es with
  | nil => exact Or.inl (List.mem_singleton.mp h)
  | cons e es ih =>
    simp only [insertSorted] at h
    split at h
    · exact List.mem_cons.mp h
    · split at h
      · exact Or.inr h
      · rcases List.mem_cons.mp h with rfl | h
        · exact Or.inr List.mem_cons_self
        · exact (ih h).imp_right (List.mem_cons_of_mem e)

theorem insertSorted_sorted (k : K) (v : V) {es : List (K × V)} (h : es.Pairwise fun a b => a.1 < b.1) :
    (insertSorted k v es).Pairwise fun a b => a.1 < b.1 := by
  induction es with
  | nil => exact List.pairwise_singleton _ _
  | cons e es ih =>
    obtain ⟨he, hes⟩ := List.pairwise_cons.mp h
    simp only [insertSorted]
    split
    · rename_i hk
      refine List.pairwise_cons.mpr ⟨fun x hx => ?_, h⟩
      rcases List.mem_cons.mp hx with rfl | hx
      · exact hk
      · exact lt_trans hk (he x hx)
    · rename_i hk
      split
      · exact h
      · rename_i hne
        refine List.pairwise_cons.mpr ⟨fun x hx => ?_, ih hes⟩
        rcases mem_insertSorted hx with rfl | hx
        · exact lt_of_le_of_ne (not_lt.mp hk) hne
        · exact he x hx

def insert (m : OrderedMap K V) (k : K) (v : V) : OrderedMap K V :=
  ⟨insertSorted k v m.entries, insertSorted_sorted k v m.sorted⟩

def begin? (m : OrderedMap K V) : Option (K × V) := m.entries.head?

def eraseBegin (m : OrderedMap K V) : OrderedMap K V := ⟨m.entries.tail, m.sorted.tail⟩

def values (m : OrderedMap K V) : Multiset V := (m.entries.map Prod.snd : List V)

/-! ## What the operations do to the entries -/

theorem insertSorted_fresh {k : K} (v : V) (es : List (K × V)) (h : ∀ e ∈ es, e.1 ≠ k) :
    (insertSorted k v es).Perm ((k, v) :: es) := by
  induction es with
  | nil => exact .refl _
  | cons e es ih =>
    simp only [insertSorted]
    split
    · exact .refl _
    · rw [if_neg (h e List.mem_cons_self)]
      have hes := ih fun x hx => h x (List.mem_cons_of_mem e hx)
      exact (hes.cons e).trans (.swap _ _ es)

theorem insertSorted_present {k : K} (v : V) {es : List (K × V)} (hs : es.Pairwise fun a b => a.1 < b.1)
    (h : ∃ e ∈ es, e.1 = k) : insertSorted k v es = es := by
  induction es with
  | nil => obtain ⟨e, he, -⟩ := h; cases he
  | cons e es ih =>
    obtain ⟨hlt, hes⟩ := List.pairwise_cons.mp hs
    obtain ⟨x, hx, rfl⟩ := h
    simp only [insertSorted]
    rcases List.mem_cons.mp hx with rfl | hx
    · simp
    · rw [if_neg (lt_asymm (hlt x hx)), if_neg (ne_of_lt (hlt x hx)), ih hes ⟨x, hx, rfl⟩]

theorem insert_fresh {m : OrderedMap K V} {k : K} (v : V) (h : ¬ m.Has k) : (m.insert k v).values = v ::ₘ m.values := by
  have hp := insertSorted_fresh v m.entries fun e he hk => h ⟨e, he, hk⟩
  exact Multiset.coe_eq_coe.mpr (hp.map Prod.snd)

theorem insert_present {m : OrderedMap K V} {k : K} (v : V) (h : m.Has k) : m.insert k v = m := by
  simp only [insert, insertSorted_present v m.sorted h]

theorem values_begin {m : OrderedMap K V} {e : K × V} (h : m.begin? = some e) :
    m.values = e.2 ::ₘ m.eraseBegin.values := by
  obtain ⟨es, hs⟩ := m
  cases es with
  | nil => cases h
  | cons x es => cases h; rfl

/-! ## Single entries -/

theorem entries_begin {m : OrderedMap K V} {e : K × V} (h : m.begin? = some e) : m.entries = e :: m.eraseBegin.entries := by
  obtain ⟨es, hs⟩ := m
  cases es with
  | nil => cases h
  | cons x es => cases h; rfl

/-- Every entry behind the first has a greater key. -/
theorem begin_lt {m : OrderedMap K V} {e x : K × V} (h : m.begin? = some e) (hx : x ∈ m.eraseBegin.entries) : e.1 < x.1 := by
  have hs := m.sorted
  rw [entries_begin h] at hs
  exact (List.pairwise_cons.mp hs).1 x hx

theorem mem_of_begin {m : OrderedMap K V} {e x : K × V} (h : m.begin? = some e) (hx : x ∈ m.entries) :
    x = e ∨ x ∈ m.eraseBegin.entries := by
  rw [entries_begin h] at hx
  exact List.mem_cons.mp hx

theorem insert_entries_le (m : OrderedMap K V) (k : K) (v : V) :
    ((m.insert k v).entries : Multiset (K × V)) ≤ (k, v) ::ₘ (m.entries : Multiset (K × V)) := by
  by_cases h : m.Has k
  · rw [insert_present v h]
    exact Multiset.le_cons_self _ _
  · have hp := insertSorted_fresh v m.entries fun e he hk => h ⟨e, he, hk⟩
    exact (Multiset.coe_eq_coe.mpr hp).le

/-- An insert takes no entry out. -/
theorem mem_insert_of_mem {m : OrderedMap K V} {x : K × V} (k : K) (v : V) (hx : x ∈ m.entries) :
    x ∈ (m.insert k v).entries := by
  by_cases h : m.Has k
  · rw [insert_present v h]
    exact hx
  · have hp := insertSorted_fresh v m.entries fun e he hk => h ⟨e, he, hk⟩
    exact hp.mem_iff.mpr (List.mem_cons_of_mem _ hx)

end OrderedMap

end SigHolic.Base
