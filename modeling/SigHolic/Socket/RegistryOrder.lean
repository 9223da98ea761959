/-
  SigHolic.Socket.RegistryOrder — the registry of sessions as an ordered set
  (socket/TcpSessionManager.h, network/tcp_session_manager.h).

  `m_clients` is a list, and only `AddTcpClient` and `RemoveTcpClient` change it, each under
  the registry's lock. `lastOperation` and `lastAdd` say what a sequence of calls did last
  with a client; they do not look at the list.

  Proved: after any calls with any clients the list has every client at most once, has
  those whose last call was an `AddTcpClient`, and has them in the order of these calls
  (`registry_is_an_ordered_set`).
-/

import Mathlib.Data.List.Induction
import SigHolic.Socket.TcpSessionManager

namespace SigHolic.Socket.TcpSessionManager

inductive Call where
  | add (c : Nat)
  | remove (c : Nat)
  deriving DecidableEq

namespace Call

def client : Call → Nat
  | .add c => c
  | .remove c => c

def apply (clients : List Nat) : Call → List Nat
  | .add c => addTcpClient clients c
  | .remove c => removeTcpClient clients c

end Call

def clientsAfter (calls : List Call) : List Nat := calls.foldl Call.apply []

def lastOperation (c : Nat) (calls : List Call) : Option Call := (calls.filter fun call => call.client = c).getLast?

/-- The place of the client's last `AddTcpClient` among the calls, from 1 on; 0 if there is none. -/
def lastAdd (c : Nat) (calls : List Call) : Nat := calls.length - calls.reverse.idxOf (.add c)

theorem lastOperation_concat (c : Nat) (calls : List Call) (call : Call) :
    lastOperation c (calls ++ [call]) = if call.client = c then some call else lastOperation c calls := by
  simp only [lastOperation, List.filter_append, List.filter_cons, List.filter_nil]
  by_cases h : call.client = c <;> simp [h]

theorem lastAdd_concat (c : Nat) (calls : List Call) (call : Call) :
    lastAdd c (calls ++ [call]) = if call = .add c then calls.length + 1 else lastAdd c calls := by
  simp only [lastAdd, List.length_append, List.length_singleton, List.reverse_append, List.reverse_singleton,
    List.singleton_append, List.idxOf_cons]
  by_cases h : call = .add c
  · simp [h]
  · have hne : (call == Call.add c) = false := beq_eq_false_iff_ne.mpr h
    rw [hne, if_neg h, cond_false]
    omega

theorem lastAdd_le (c : Nat) (calls : List Call) : lastAdd c calls ≤ calls.length := Nat.sub_le _ _

/-- The list is the set of the clients added last, in the order of these calls. -/
structure OrderedSet (clients : List Nat) (calls : List Call) : Prop where
  once : clients.Nodup
  members : ∀ c, c ∈ clients ↔ lastOperation c calls = some (.add c)
  order : clients.Pairwise fun c d => lastAdd c calls < lastAdd d calls

/-! ## One call -/

theorem removeTcpClient_absent {clients : List Nat} {c : Nat} (h : c ∉ clients) : removeTcpClient clients c = clients := by
  refine List.filter_eq_self.mpr fun x hx => ?_
  exact decide_eq_true fun hxc => h (hxc ▸ hx)

theorem removeTcpClient_present {clients : List Nat} (h : clients.Nodup) (c : Nat) :
    removeTcpClient clients c = clients.erase c := by
  rw [h.erase_eq_filter]
  refine List.filter_congr fun x _ => ?_
  by_cases hx : x = c <;> simp [hx]

/-- The clients the call is not about keep their order. -/
theorem order_others {clients : List Nat} {calls : List Call} (h : OrderedSet clients calls) (call : Call) :
    (removeTcpClient clients call.client).Pairwise fun c d => lastAdd c (calls ++ [call]) < lastAdd d (calls ++ [call]) := by
  have hsub : (removeTcpClient clients call.client).Pairwise fun c d => lastAdd c calls < lastAdd d calls :=
    h.order.sublist List.filter_sublist
  have hkeep : ∀ x ∈ removeTcpClient clients call.client, lastAdd x (calls ++ [call]) = lastAdd x calls := by
    intro x hx
    rw [lastAdd_concat, if_neg]
    intro heq
    exact (mem_removeTcpClient.mp hx).2 (by rw [heq]; rfl)
  refine hsub.imp_of_mem fun hc hd hlt => ?_
  rw [hkeep _ hc, hkeep _ hd]
  exact hlt

theorem add_step {clients : List Nat} {calls : List Call} (h : OrderedSet clients calls) (c : Nat) :
    OrderedSet (addTcpClient clients c) (calls ++ [.add c]) := by
  have hothers := order_others h (.add c)
  have hlast : lastAdd c (calls ++ [.add c]) = calls.length + 1 := by rw [lastAdd_concat, if_pos rfl]
  refine ⟨?_, ?_, ?_⟩
  · refine List.nodup_append.mpr ⟨h.once.filter _, List.pairwise_singleton _ c, fun x hx y hy => ?_⟩
    rw [List.mem_singleton.mp hy]
    exact (mem_removeTcpClient.mp hx).2
  · intro x
    rw [mem_addTcpClient, lastOperation_concat, h.members]
    by_cases hx : c = x
    · simp [Call.client, hx]
    · simp [Call.client, hx, Ne.symm hx]
  · refine List.pairwise_append.mpr ⟨hothers, List.pairwise_singleton _ _, fun x hx y hy => ?_⟩
    -- everybody else was added before
    have hne := (mem_removeTcpClient.mp hx).2
    have hle := lastAdd_le x calls
    rw [List.mem_singleton.mp hy, hlast, lastAdd_concat, if_neg (by simpa using Ne.symm hne)]
    omega

theorem remove_step {clients : List Nat} {calls : List Call} (h : OrderedSet clients calls) (c : Nat) :
    OrderedSet (removeTcpClient clients c) (calls ++ [.remove c]) := by
  refine ⟨h.once.filter _, ?_, order_others h (.remove c)⟩
  intro x
  rw [mem_removeTcpClient, lastOperation_concat, h.members]
  by_cases hx : c = x
  · simp [Call.client, hx]
  · simp [Call.client, hx, Ne.symm hx]

theorem orderedSet (calls : List Call) : OrderedSet (clientsAfter calls) calls := by
  induction calls using List.reverseRecOn with
  | nil => exact ⟨.nil, by simp [clientsAfter, lastOperation], .nil⟩
  | append_singleton calls call ih =>
    unfold clientsAfter at ih ⊢
    rw [List.foldl_concat]
    cases call with
    | add c => exact add_step ih c
    | remove c => exact remove_step ih c

/-- After any calls the registry is the ordered set of the clients added last; adding a client it has moves that
    client to the end, and removing one it does not have changes nothing. -/
theorem registry_is_an_ordered_set (calls : List Call) :
    OrderedSet (clientsAfter calls) calls ∧
      (∀ c ∈ clientsAfter calls, clientsAfter (calls ++ [.add c]) = (clientsAfter calls).erase c ++ [c]) ∧
      ∀ c, c ∉ clientsAfter calls → clientsAfter (calls ++ [.remove c]) = clientsAfter calls := by
  have hset := orderedSet calls
  refine ⟨hset, ?_, ?_⟩
  · intro c _
    unfold clientsAfter at hset ⊢
    rw [List.foldl_concat]
    show removeTcpClient (calls.foldl Call.apply []) c ++ [c] = _
    rw [removeTcpClient_present hset.once]
  · intro c hc
    unfold clientsAfter at hc ⊢
    rw [List.foldl_concat]
    exact removeTcpClient_absent hc

/-- Client 1 is added again, and 3 removed. -/
example : clientsAfter [.add 1, .add 2, .add 3, .add 1, .remove 3] = [2, 1] := by decide

end SigHolic.Socket.TcpSessionManager
