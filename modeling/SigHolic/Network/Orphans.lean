/-
  SigHolic.Network.Orphans — a registered session waits for its peer (`Network::Run` and
  `WorkerThread`, network/network.cpp; `RecvAsync`, socket/TcpClient.cpp).

  A session is torn down when one of its completions says so, and by nothing else. So a
  registered session without a receive in flight stays registered for good, with both
  structures and both buffers. Nobody looks at what `RecvAsync` returned, and
  `Network::Run` makes a session of `INVALID_SOCKET` too.

  Proved:
  - while every accept has a socket and no `WSARecv` fails (`Serving`), a registered session
    has its receive, or a thread is on the way to unregister it (`watched`); so with no
    thread in a handler it has one receive in flight (`a_registered_session_is_waiting`).
  - a `WSARecv` that fails leaves the session registered with nothing in flight
    (`a_failed_receive_orphans_its_session`).
-/

import SigHolic.Network.Accounts

namespace SigHolic.Network

open SigHolic.Base.Tally SigHolic.Iocp SigHolic.Socket

namespace Server

/-- `Accept` returns a socket and no `WSARecv` fails in this step. -/
def Serving (s : Server) (e : Ev) : Prop := e ≠ .accept invalidSocket ∧ s.refuses e = none

def acceptFails : Ev → Bool
  | .accept socket => socket == invalidSocket
  | _ => false

instance (s : Server) (e : Ev) : Decidable (Serving s e) :=
  decidable_of_iff (acceptFails e = false ∧ s.refuses e = none) (by
    refine and_congr_left' ?_
    cases e <;> simp [acceptFails])

/-- The process runs and no thread is in the middle of a handler. -/
def Idle (s : Server) : Prop := s.crashed = none ∧ ∀ st ∈ s.threads, st = []

def Doomed (s : Server) (c : Nat) : Prop :=
  (∃ data, s.Has (.closeSession data) ∧ s.getClientObject data = some c) ∨ s.Has (.removeTcpClient c)

/-- A registered session's structures stay bound to it. -/
theorem registered_bound {s : Server} (hb : Bound s) (hg : Stages s) {e : Ev} {c o : Nat} (hc : c ∈ s.registry)
    (h : s.getClientObject o = some c) : (s.step e).getClientObject o = some c := by
  refine client_kept hb h fun hu => ?_
  have h1 := List.count_pos_iff.mpr hc
  unfold unbinding at hu
  split at hu
  · split at hu
    · rename_i t wsa c' st ht
      obtain ⟨o', h2, h3⟩ := hb.recv c' (by have := weight_le_tally (Stmt.hasRecv c') ht; simp [Stmt.hasRecv] at this; omega)
      have h4 := weight_le_tally (Stmt.leavingRecv c') ht
      have h5 := hg.recv c'
      rw [h2] at hu
      cases hu
      rw [h] at h3
      cases h3
      simp [Stmt.leavingRecv] at h4
      omega
    · rename_i t wsa c' st ht
      obtain ⟨o', h2, h3, -⟩ := hb.send c'
          (by have := weight_le_tally (Stmt.hasSend c') ht; simp [Stmt.hasSend] at this; omega)
      have h4 := weight_le_tally (Stmt.leaving c') ht
      have h5 := hg.send c'
      rw [h2] at hu
      cases hu
      rw [h] at h3
      cases h3
      simp [Stmt.leaving] at h4
      omega
    · cases hu
  · cases hu

/-! ## On the way to `RemoveTcpClient` -/

theorem has_pushed {s : Server} (hc : s.crashed = none) {t : Nat} {wsa : Bool} {i : Stmt} {st : List Stmt}
    (ht : s.threads[t]? = some (i :: st)) {x : Stmt} (hx : x ∈ (s.exec wsa i).2) : (s.step (.run t wsa)).Has x := by
  refine ⟨(s.exec wsa i).2 ++ st, ?_, List.mem_append_left _ hx⟩
  rw [step_eq hc, handle, run, ht]
  simp only [setThread, exec_threads]
  exact List.mem_set (List.getElem?_eq_some_iff.mp ht).1 _

section Step

variable {s : Server} (hb : Bound s) (hg : Stages s) (hc : s.crashed = none) {e : Ev} {c : Nat} (hreg : c ∈ s.registry)
include hb hg hc hreg

/-- Who is on the way to unregister a session gets there. -/
theorem doomed_kept (hreg' : c ∈ (s.step e).registry) (h : Doomed s c) : Doomed (s.step e) c := by
  rcases h with ⟨data, hh, hget⟩ | hh
  · by_cases hrun : ∃ t wsa st, e = .run t wsa ∧ s.threads[t]? = some (.closeSession data :: st)
    · obtain ⟨t, wsa, st, rfl, ht⟩ := hrun
      exact Or.inr (has_pushed hc ht (by simp [exec, hget]))
    · refine Or.inl ⟨data, has_kept hh fun t wsa st he ht => hrun ⟨t, wsa, st, he, ht⟩, ?_⟩
      exact registered_bound hb hg hreg hget
  · by_cases hrun : ∃ t wsa st, e = .run t wsa ∧ s.threads[t]? = some (.removeTcpClient c :: st)
    · obtain ⟨t, wsa, st, rfl, ht⟩ := hrun
      rw [step_eq hc, handle, (run_fields wsa ht).registry] at hreg'
      simp [exec, removeTcpClient] at hreg'
    · exact Or.inr (has_kept hh fun t wsa st he ht => hrun ⟨t, wsa, st, he, ht⟩)

/-- A completion without bytes is on its way to `CloseSession`. -/
theorem doomed_of_empty (ha : Attributed s) {t i : Nat} {r : Result} {op : IoOp} {st : List Stmt} (h0 : s.threads[t]? = some [])
    (hop : s.inflight[i]? = some op) (hbr : branch op r = some st) (hem : r.empty = true) (hcl : op.client = c)
    (he : s.dispatch t i r = { (s.land op r).setThread t st with inflight := s.inflight.eraseIdx i }) :
    Doomed (s.step (.dispatch t i r)) c := by
  subst hcl
  refine Or.inl ⟨op.io, ⟨st, ?_, ?_⟩, registered_bound hb hg hreg (ha.flying op (List.mem_of_getElem? hop)).2⟩
  · rw [step_eq hc, handle, he]
    simp only [setThread, land_threads]
    exact List.mem_set (List.getElem?_eq_some_iff.mp h0).1 _
  · rcases branch_cases hbr with ⟨-, rfl | rfl⟩ | ⟨hn, -⟩
    · simp [failedBranch]
    · simp [failedBranch]
    · rw [hem] at hn; cases hn

/-- A worker that gives the receive of a registered session up calls `CloseSession` for it. -/
theorem doomed_of_abandons (ha : Attributed s) (h : s.abandons e = some c) : Doomed (s.step e) c := by
  cases e with
  | dispatch t i r =>
    rcases dispatch_picks s t i r with ⟨hp, -⟩ | ⟨op, st, hp, h0, hop, hbr, he⟩
    · simp [abandons, hp, runs] at h
    simp only [abandons, hp] at h
    split at h
    · rename_i hk
      cases h
      exact doomed_of_empty hb hg hc hreg ha h0 hop hbr hk.2 rfl he
    · cases h
  | run t wsa =>
    rcases ht : s.threads[t]? with _ | _ | ⟨i, st⟩
    · simp [abandons, picks, runs, ht] at h
    · simp [abandons, picks, runs, ht] at h
    simp only [abandons, picks, runs_top ht] at h
    cases i with
    | recvNext c' j =>
      simp only at h
      split at h
      · cases h
      rename_i hv
      cases h
      obtain ⟨hl, hcl, hk⟩ := ha.sound _ (has_top ht)
      obtain ⟨o, h1, h2⟩ := hb.recv c (by have := List.count_pos_iff.mpr hreg; omega)
      -- the structure the receive came back with is the session's own
      have ho : o = j.op.io := by
        unfold Linked at hl
        rw [hk, ← hcl] at hl
        exact Option.some.inj (h1.symm.trans hl)
      refine Or.inl ⟨j.op.io, has_pushed hc ht (by simp [exec, hv]), registered_bound hb hg hreg (ho ▸ h2)⟩
    | _ => cases h
  | _ => cases h

end Step

/-! ## Every registered session is watched -/

/-- A registered session has its receive, or is about to be unregistered. -/
def Watched (s : Server) : Prop := ∀ c ∈ s.registry, s.recvTokens c = 1 ∨ Doomed s c

theorem watched_step {s : Server} (hr : Reach Orderly s) {e : Ev} (hserve : Serving s e) (hc' : (s.step e).crashed = none)
    (h : Watched s) : Watched (s.step e) := by
  have hc : s.crashed = none := by
    by_contra hn
    rw [step_crashed hn] at hc'
    exact hn hc'
  have hg := Orderly.stages hr
  have hb := Orderly.bound hr
  have ha := attributed hr
  intro c hreg'
  have hacc := recvTokens_step ha (recvSide hr) hc' c
  rw [hserve.2, mark_none] at hacc
  have hnew : c ∈ s.registry ∨ ∃ t wsa o socket st, e = .run t wsa ∧
      s.threads[t]? = some (.addTcpClient c o socket :: st) := by
    rcases registry_step s e with
      he | ⟨t, wsa, c', st, -, -, he⟩ | ⟨t, wsa, c', o, socket, st, rfl, ht, he⟩ <;> rw [he] at hreg'
    · exact Or.inl hreg'
    · exact Or.inl (TcpSessionManager.mem_removeTcpClient.mp hreg').1
    · rcases TcpSessionManager.mem_addTcpClient.mp hreg' with h1 | rfl
      · exact Or.inl h1
      · exact Or.inr ⟨t, wsa, o, socket, st, rfl, ht⟩
  rcases hnew with hreg | ⟨t, wsa, o, socket, st, rfl, ht⟩
  · have hold : mark (s.creates e) c = 0 := by
      refine if_neg fun hn => ?_
      have h1 := hg.born hreg
      unfold creates at hn
      split at hn
      · cases hn; omega
      · cases hn
    by_cases hab : s.abandons e = some c
    · exact Or.inr (doomed_of_abandons hb hg hc hreg ha hab)
    · have hz : mark (s.abandons e) c = 0 := if_neg hab
      rcases h c hreg with h1 | h1
      · left; omega
      · exact Or.inr (doomed_kept hb hg hc hreg hreg' h1)
  · -- the session is new in the registry, with `Network::Run` before its `RecvAsync`
    have h1 := le_tally_of_has (Stmt.receives c) (has_top ht)
    have h2 := (tokens hr).recv c
    simp only [Stmt.receives, if_true] at h1
    simp only [abandons, creates, picks, runs_top ht, mark_none] at hacc
    simp only [recvTokens] at h2 hacc ⊢
    left
    omega

theorem watched {s : Server} (h : Reach (fun s e => Orderly s e ∧ Serving s e) s) (hc : s.crashed = none) : Watched s := by
  induction h with
  | start hs =>
    obtain ⟨n, rfl⟩ := hs
    intro c hreg
    cases hreg
  | step e hr ho ih =>
    rename_i s
    have hc' : s.crashed = none := by
      by_contra hn
      rw [step_crashed hn] at hc
      exact hn hc
    exact watched_step (hr.mono fun _ _ ho => ho.1) ho.2 hc (ih hc')

/-- While every accept has a socket, no `WSARecv` fails and the run is orderly: with no thread in
    the middle of a handler, each registered session has one receive in flight. -/
theorem a_registered_session_is_waiting {s : Server} (h : Reach (fun s e => Orderly s e ∧ Serving s e) s)
    (hi : Idle s) {c : Nat}
    (hc : c ∈ s.registry) : s.flights .recv c = 1 := by
  have hnone : ∀ x, ¬ s.Has x := by
    intro x hhas
    obtain ⟨st, hst, hx⟩ := hhas
    rw [hi.2 st hst] at hx
    cases hx
  rcases watched h hi.1 c hc with h1 | ⟨data, hh, -⟩ | hh
  · have h2 : tally (Stmt.receives c) s.threads = 0 := by
      rw [tally_eq_zero]
      intro st hst x hx
      exact absurd ⟨st, hst, hx⟩ (hnone x)
    rw [recvTokens] at h1
    omega
  · exact absurd hh (hnone _)
  · exact absurd hh (hnone _)

def servedRun : List Ev := List.flatten [
  [.accept 5], List.replicate 9 (.run 0 true), [.accept 6], List.replicate 9 (.run 0 true),
  [.dispatch 1 0 (.received [])], List.replicate 9 (.run 1 true)]

theorem the_other_session_waits :
    (servedRun.foldl step (boot 1)).registry = [1] ∧ (servedRun.foldl step (boot 1)).flights .recv 1 = 1 := by
  have hreg : (servedRun.foldl step (boot 1)).registry = [1] := by rw [boot_eq]; decide +kernel
  refine ⟨hreg, a_registered_session_is_waiting (.run (.start ⟨1, rfl⟩) ?_) ⟨?_, ?_⟩ (by rw [hreg]; simp)⟩
  all_goals rw [boot_eq]; decide +kernel

/-- The `WSARecv` of one session fails; then `Accept` does, and the session made of it cannot
    receive. -/
def orphanedRun : List Ev := List.flatten [
  [.accept 5], List.replicate 8 (.run 0 true), [.run 0 false],
  [.accept invalidSocket], List.replicate 8 (.run 0 true), [.run 0 false]]

/-- Both sessions stay registered, and nothing is in flight. -/
theorem a_failed_receive_orphans_its_session :
    ¬ ∀ s, Reach (fun _ _ => True) s → Idle s → ∀ c ∈ s.registry, s.flights .recv c = 1 := by
  intro h
  have hreg : (orphanedRun.foldl step (boot 1)).registry = [0, 1] := by rw [boot_eq]; decide +kernel
  have h0 := h _ (.any ⟨1, rfl⟩ orphanedRun) ⟨by rw [boot_eq]; decide +kernel, by rw [boot_eq]; decide +kernel⟩ 0
    (by rw [hreg]; simp)
  have h1 : (orphanedRun.foldl step (boot 1)).inflight.length = 0 := by rw [boot_eq]; decide +kernel
  rw [flights, List.length_eq_zero_iff.mp h1] at h0
  cases h0

end Server

end SigHolic.Network
