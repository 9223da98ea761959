/-
  SigHolic.Socket.TcpSessionManager — the registry of sessions
  (socket/TcpSessionManager.h): `m_clients`, a `std::list` without uniqueness of its own.
  `remove` takes out every equal element.
-/

import Mathlib.Data.List.Basic

namespace SigHolic.Socket.TcpSessionManager

def addTcpClient (clients : List Nat) (c : Nat) : List Nat := clients.filter (· ≠ c) ++ [c]

def removeTcpClient (clients : List Nat) (c : Nat) : List Nat := clients.filter (· ≠ c)

/-- `++it` at the node holding `c`: `none` when `c` is no longer in the list (the iterator
    dangles), `some none` at the end. -/
def nextClient : List Nat → Nat → Option (Option Nat)
  | [], _ => none
  | x :: xs, c => if x = c then some xs.head? else nextClient xs c

@[simp] theorem mem_addTcpClient {clients : List Nat} {c x : Nat} :
    x ∈ addTcpClient clients c ↔ x ∈ clients ∨ x = c := by
  by_cases h : x = c <;> simp [addTcpClient, h]

@[simp] theorem mem_removeTcpClient {clients : List Nat} {c x : Nat} :
    x ∈ removeTcpClient clients c ↔ x ∈ clients ∧ x ≠ c := by
  simp [removeTcpClient]

theorem nextClient_of_mem {clients : List Nat} {c : Nat} (h : c ∈ clients) :
    ∃ n, nextClient clients c = some n ∧ ∀ x, n = some x → x ∈ clients := by
  induction clients with
  | nil => cases h
  | cons y ys ih =>
    by_cases e : y = c
    · refine ⟨ys.head?, by simp [nextClient, e], fun x hx => ?_⟩
      exact List.mem_cons_of_mem _ (List.mem_of_mem_head? (by rw [hx]; rfl))
    · obtain ⟨n, hn, hm⟩ := ih (by simpa [Ne.symm e] using h)
      exact ⟨n, by simp [nextClient, e, hn], fun x hx => List.mem_cons_of_mem _ (hm x hx)⟩

theorem nextClient_of_not_mem {clients : List Nat} {c : Nat} (h : c ∉ clients) : nextClient clients c = none := by
  induction clients with
  | nil => rfl
  | cons x xs ih =>
    obtain ⟨h1, h2⟩ := List.ne_and_not_mem_of_not_mem_cons h
    simp [nextClient, Ne.symm h1, ih h2]

def passed : List Nat → Nat → List Nat
  | [], _ => []
  | x :: xs, c => if x = c then [] else x :: passed xs c

theorem not_mem_passed (clients : List Nat) (c : Nat) : c ∉ passed clients c := by
  induction clients with
  | nil => simp [passed]
  | cons x xs ih =>
    by_cases e : x = c
    · simp [passed, e]
    · simp [passed, e, Ne.symm e, ih]

/-- What is added behind an iterator's node is not passed. -/
theorem passed_append {clients : List Nat} {c : Nat} (h : c ∈ clients) (new : List Nat) :
    passed (clients ++ new) c = passed clients c := by
  induction clients with
  | nil => cases h
  | cons x xs ih =>
    by_cases e : x = c
    · simp [passed, e]
    · simp [passed, e, ih (by simpa [Ne.symm e] using h)]

/-- `++it` passes the node it was at. -/
theorem passed_next {clients : List Nat} {c c' : Nat} (hn : clients.Nodup) (h : nextClient clients c = some (some c')) {d : Nat}
    (hd : d ∈ passed clients c ∨ d = c) : d ∈ passed clients c' := by
  induction clients with
  | nil => cases h
  | cons x xs ih =>
    obtain ⟨hx, hxs⟩ := List.nodup_cons.mp hn
    by_cases e : x = c
    · subst e
      simp only [nextClient, if_true, Option.some.injEq] at h
      have hne : x ≠ c' := by
        intro heq
        subst heq
        exact hx (List.mem_of_mem_head? h)
      have hdx : d = x := by simpa [passed] using hd
      simp [passed, hne, hdx]
    · simp only [nextClient, e, if_false] at h
      have hmem : c ∈ xs := by
        by_contra hc
        rw [nextClient_of_not_mem hc] at h
        cases h
      obtain ⟨n, h1, h2⟩ := nextClient_of_mem hmem
      rw [h] at h1
      cases h1
      have hne : x ≠ c' := by
        intro heq
        subst heq
        exact hx (h2 x rfl)
      have hrest := ih hxs h
      simp only [passed, e, if_false, List.mem_cons] at hd
      simp only [passed, hne, if_false, List.mem_cons]
      rcases hd with (hd | hd) | hd
      · exact Or.inl hd
      · exact Or.inr (hrest (Or.inl hd))
      · exact Or.inr (hrest (Or.inr hd))

def ahead : List Nat → Nat → List Nat
  | [], _ => []
  | x :: xs, c => if x = c then xs else ahead xs c

theorem ahead_of_not_mem {clients : List Nat} {c : Nat} (h : c ∉ clients) : ahead clients c = [] := by
  induction clients with
  | nil => rfl
  | cons x xs ih =>
    obtain ⟨h1, h2⟩ := List.ne_and_not_mem_of_not_mem_cons h
    simp [ahead, Ne.symm h1, ih h2]

theorem ahead_head (x : Nat) (xs : List Nat) : (ahead (x :: xs) x).length + 1 = (x :: xs).length := by simp [ahead]

theorem ahead_filter (clients : List Nat) (c d : Nat) :
    (ahead (clients.filter (· ≠ d)) c).length ≤ (ahead clients c).length := by
  induction clients with
  | nil => simp [ahead]
  | cons x xs ih =>
    by_cases hd : x = d
    · rw [List.filter_cons_of_neg (by simp [hd])]
      by_cases e : x = c
      · have hnot : c ∉ xs.filter (· ≠ d) := by simp [← e, hd]
        rw [ahead_of_not_mem hnot]
        simp
      · simpa [ahead, e] using ih
    · rw [List.filter_cons_of_pos (by simpa using hd)]
      by_cases e : x = c
      · simp only [ahead, e, if_true]
        exact List.length_filter_le _ _
      · simpa [ahead, e] using ih

theorem ahead_concat (clients : List Nat) (c d : Nat) : (ahead (clients ++ [d]) c).length ≤ (ahead clients c).length + 1 := by
  induction clients with
  | nil =>
    simp only [List.nil_append, ahead]
    split <;> simp
  | cons x xs ih =>
    by_cases e : x = c
    · simp [ahead, e]
    · simpa [ahead, e] using ih

/-- Removing a session brings no iterator back. -/
theorem ahead_remove (clients : List Nat) (c d : Nat) :
    (ahead (removeTcpClient clients d) c).length ≤ (ahead clients c).length := ahead_filter clients c d

/-- Adding a session, or moving it to the end, puts one more ahead at most. -/
theorem ahead_add (clients : List Nat) (c d : Nat) :
    (ahead (addTcpClient clients d) c).length ≤ (ahead clients c).length + 1 := by
  have hconcat := ahead_concat (clients.filter (· ≠ d)) c d
  have hfilter := ahead_filter clients c d
  unfold addTcpClient
  omega

/-- `++it` leaves one session less ahead. -/
theorem ahead_next {clients : List Nat} {c c' : Nat} (hn : clients.Nodup) (h : nextClient clients c = some (some c')) :
    (ahead clients c).length = (ahead clients c').length + 1 := by
  induction clients with
  | nil => cases h
  | cons x xs ih =>
    obtain ⟨hx, hxs⟩ := List.nodup_cons.mp hn
    by_cases e : x = c
    · subst e
      simp only [nextClient, if_true, Option.some.injEq] at h
      cases xs with
      | nil => cases h
      | cons y ys =>
        cases h
        have hne : x ≠ c' := by
          intro heq
          exact hx (heq ▸ List.mem_cons_self)
        simp [ahead, hne]
    · simp only [nextClient, e, if_false] at h
      have hmem : c ∈ xs := by
        by_contra hc
        rw [nextClient_of_not_mem hc] at h
        cases h
      obtain ⟨n, h1, h2⟩ := nextClient_of_mem hmem
      rw [h] at h1
      cases h1
      have hne : x ≠ c' := by
        intro heq
        exact hx (heq ▸ h2 c' rfl)
      simpa [ahead, e, hne] using ih hxs h

end SigHolic.Socket.TcpSessionManager
