/-
  SigHolic.Network.Calm — runs in which no session is torn down.

  `CloseSession` may be called, but finds no session. Then whatever a thread or the system
  has to do with a session, the session is registered, with both structures bound to it.

  Proved: a calm run is orderly (`calm`), so what holds of orderly runs holds of
  calm ones.
-/

import SigHolic.Network.Tokens

namespace SigHolic.Network

open SigHolic.Base.Tally SigHolic.Iocp SigHolic.Socket

namespace Stmt

def tears : Stmt → Bool
  | .removeTcpClient _ | .unbindRecv _ | .enqueueRecv _ _ | .unbindSend _ | .enqueueSend _ _ => true
  | _ => false

def about : Stmt → List Nat
  | .bindSocket c _ _ | .firstRecv c _ | .flushSendBuffer c => [c]
  | .getSocket op => [op.client]
  | .checkExpired j | .checkBound j | .takeSession j => [j.op.client]
  | .recvBranch c j | .recvNext c j | .recvAsync c j | .sendBranch c j | .onSend c j | .sendNext c j | .onReceived c j
  | .tryProcessPacket c j | .processLoop c j | .loopTail c j | .processPacket c j _ | .verifyFlag c j _ _ | .echo c j _ _
  | .bcastBegin c j _ _ => [c, j.op.client]
  | .bcastCheck c j _ _ client | .bcastWrite c j _ _ client | .bcastFlush c j _ _ client | .bcastNext c j _ _ client =>
    [c, j.op.client, client]
  | _ => []

end Stmt

namespace Server

/-- No session is torn down in this step. -/
def Calm (s : Server) (e : Ev) : Prop := s.closing e = none

instance (s : Server) (e : Ev) : Decidable (Calm s e) := inferInstanceAs (Decidable (_ = _))

/-- All that is under way is about registered sessions. -/
structure Registered (s : Server) : Prop where
  flying : ∀ op ∈ s.inflight, op.client ∈ s.registry
  about : ∀ x, s.Has x → x.tears = false ∧ ∀ c ∈ x.about, c ∈ s.registry

theorem nextClient_le (s : Server) (e : Ev) : s.nextClient ≤ (s.step e).nextClient := by
  rcases nextClient_step s e with he | ⟨he, -⟩ <;> omega

theorem Stages.born {s : Server} (hg : Stages s) {c : Nat} (h : c ∈ s.registry) : c < s.nextClient := by
  by_contra hc
  have h1 := hg.unborn c (by omega)
  have h2 := List.count_pos_iff.mpr h
  omega

theorem registry_kept {s : Server} (h : Registered s) (e : Ev) {c : Nat} (hc : c ∈ s.registry) : c ∈ (s.step e).registry := by
  rcases registry_step s e with he | ⟨t, wsa, c', st, rfl, ht, -⟩ | ⟨t, wsa, c', o, socket, st, -, -, he⟩
  · rw [he]; exact hc
  · cases (h.about _ (has_top ht)).1
  · rw [he]
    exact TcpSessionManager.mem_addTcpClient.mpr (Or.inl hc)

theorem receiving_registered {s : Server} (h : Registered s) {e : Ev} {c : Nat} (hr : s.receiving e = some c) :
    c ∈ s.registry := by
  unfold receiving at hr
  split at hr
  · split at hr
    · rename_i ht
      cases hr
      exact (h.about _ (has_top ht)).2 _ (by simp [Stmt.about])
    · cases hr
  · cases hr

theorem sending_registered {s : Server} (h : Registered s) {e : Ev} {c : Nat} (hs : s.sending e = some c) :
    c ∈ s.registry := by
  unfold sending at hs
  obtain ⟨hs, -⟩ := Option.filter_eq_some_iff.mp hs
  split at hs
  · split at hs
    · rename_i ht
      cases hs
      exact (h.about _ (has_top ht)).2 _ (by simp [Stmt.about])
    · cases hs
  · split at hs
    · rename_i hm; cases hs; exact hm
    · cases hs
  · cases hs

/-- What a step posts, it posts for a registered session. -/
theorem Posted.registered {s : Server} {e : Ev} {op : IoOp} (h : s.Posted e op) (ha : Attributed s) (hr : Registered s) :
    op.client ∈ s.registry := by
  obtain ⟨-, -, ⟨-, h⟩ | ⟨-, h⟩ | ⟨t, st, c, o, rfl, ht, -, hg⟩⟩ := h
  · exact receiving_registered hr h
  · exact sending_registered hr h
  · obtain ⟨-, hb⟩ := ha.sound _ (has_top ht)
    rw [hg] at hb
    cases hb
    exact (hr.about _ (has_top ht)).2 _ (by simp [Stmt.about])

theorem branch_about {op : IoOp} {r : Result} {st : List Stmt} (h : branch op r = some st) {x : Stmt} (hx : x ∈ st) :
    x.tears = false ∧ ∀ c ∈ x.about, c = op.client := by
  rcases mem_branch h hx with rfl | rfl | ⟨n, rfl, -⟩ <;> simp [Stmt.tears, Stmt.about]

/-- What a statement pushes is about the sessions it was about, or about one taken from the
    registry. -/
theorem pushed_about {s : Server} (ha : Attributed s) (h : Registered s) {t : Nat} {wsa : Bool} {i : Stmt} {st : List Stmt}
    (ht : s.threads[t]? = some (i :: st)) (hc : Calm s (.run t wsa)) (hs : s.step (.run t wsa) = s.run t wsa) :
    ∀ x ∈ (s.exec wsa i).2, x.tears = false ∧ ∀ c ∈ x.about, c ∈ (s.step (.run t wsa)).registry := by
  obtain ⟨hi, hab⟩ := h.about i (has_top ht)
  have hsound := ha.sound i (has_top ht)
  replace hab : ∀ c ∈ i.about, c ∈ (s.step (.run t wsa)).registry := fun c hm => registry_kept h _ (hab c hm)
  intro x hm
  cases i with
  | addTcpClient c o socket =>
    simp only [exec, List.mem_singleton] at hm
    subst hm
    rw [hs, (run_fields wsa ht).registry]
    simp [Stmt.tears, Stmt.about, exec, addTcpClient]
  | takeSession j =>
    simp only [exec, hsound.2, List.mem_singleton] at hm
    subst hm
    simpa [Stmt.tears, Stmt.about] using hab
  | bcastBegin c j k packet =>
    simp only [exec] at hm
    split at hm <;> simp only [List.mem_singleton] at hm <;> subst hm
    · simpa [Stmt.tears, Stmt.about] using hab
    · rename_i client hh
      have := registry_kept h (.run t wsa) (List.mem_of_mem_head? hh)
      simp only [Stmt.about, List.mem_cons, List.not_mem_nil, or_false, forall_eq_or_imp, forall_eq] at hab
      simp [Stmt.tears, Stmt.about, hab, this]
  | bcastNext c j k packet client =>
    simp only [Stmt.about, List.mem_cons, List.not_mem_nil, or_false, forall_eq_or_imp, forall_eq] at hab
    have hcl := (h.about _ (has_top ht)).2 client (by simp [Stmt.about])
    obtain ⟨n, hn, hmem⟩ := TcpSessionManager.nextClient_of_mem hcl
    cases n with
    | none =>
      simp only [exec, hn, List.mem_singleton] at hm
      subst hm
      simp [Stmt.tears, Stmt.about, hab]
    | some client' =>
      have := registry_kept h (.run t wsa) (hmem client' rfl)
      simp only [exec, hn, List.mem_singleton] at hm
      subst hm
      simp [Stmt.tears, Stmt.about, hab, this]
  | closeSession data =>
    simp only [Calm, closing, ht] at hc
    simp only [exec, hc, List.not_mem_nil] at hm
  | removeTcpClient | unbindRecv | enqueueRecv | unbindSend | enqueueSend => cases hi
  | _ =>
    simp only [Stmt.about, List.mem_cons, List.not_mem_nil, or_false, forall_eq_or_imp, forall_eq] at hab
    simp only [exec] at hm
    (repeat' split at hm) <;> simp only [List.mem_cons, List.not_mem_nil, or_false] at hm <;>
      (first | subst hm | rcases hm with rfl | rfl) <;> simp [Stmt.tears, Stmt.about, hab]

theorem registered_step {s : Server} {e : Ev} (ha : Attributed s) (h : Registered s) (hc : Calm s e) :
    Registered (s.step e) := by
  constructor
  · intro op hop
    rcases inflight_step hop with hop | hp
    · exact registry_kept h e (h.flying op hop)
    · exact registry_kept h e (hp.registered ha h)
  · intro x hx
    rcases has_step hx with hx | ⟨socket, rfl⟩ | ⟨op, hop, _, _, r, st, _, _, hbr, hm⟩ |
        ⟨t, wsa, i, st, rfl, ht, hc0, hm⟩
    · obtain ⟨h1, h2⟩ := h.about x hx
      exact ⟨h1, fun c hm => registry_kept h e (h2 c hm)⟩
    · exact ⟨rfl, by simp [Stmt.about]⟩
    · obtain ⟨h1, h2⟩ := branch_about hbr hm
      exact ⟨h1, fun c hm => h2 c hm ▸ registry_kept h e (h.flying op hop)⟩
    · exact pushed_about ha h ht hc (step_eq hc0 _) x hm

/-- Nobody is past `CloseSession`'s test, so no structure is cleared. -/
theorem Registered.unbinding {s : Server} (h : Registered s) (e : Ev) : s.unbinding e = none := by
  unfold Server.unbinding
  split
  · split
    · rename_i ht
      cases (h.about _ (has_top ht)).1
    · rename_i ht
      cases (h.about _ (has_top ht)).1
    · rfl
  · rfl

/-- A calm step is an orderly one: nothing is cleared, and who posts is registered. -/
theorem Calm.step {s : Server} {e : Ev} (hc : Calm s e) (hb : Bound s) (h : Registered s) : Orderly s e := by
  refine ⟨?_, ?_, ?_, ?_⟩
  · intro c hcl
    rw [hc] at hcl; cases hcl
  · intro o ho
    rw [h.unbinding e] at ho; cases ho
  · intro c hr
    obtain ⟨o, h1, h2⟩ := hb.recv c (by have := List.count_pos_iff.mpr (receiving_registered h hr); omega)
    exact isBound_iff.mpr ⟨o, h1, h2⟩
  · intro c hs
    obtain ⟨o, h1, h2, -⟩ := hb.send c (by have := List.count_pos_iff.mpr (sending_registered h hs); omega)
    exact isBound_iff.mpr ⟨o, h1, h2⟩

theorem registered_boot (n : Nat) : Registered (boot n) :=
  ⟨fun _ hop => (nomatch hop), fun x hx => absurd hx (not_has_boot n x)⟩

theorem calm {s : Server} (h : Reach Calm s) : Reach Orderly s ∧ Registered s := by
  refine h.invariant (P := fun s => Reach Orderly s ∧ Registered s) (fun s hs => ⟨.start hs, ?_⟩) ?_
  · obtain ⟨n, rfl⟩ := hs
    exact registered_boot n
  · intro s e hinv hc
    obtain ⟨hr, hg⟩ := hinv
    exact ⟨.step e hr (hc.step (Orderly.bound hr) hg), registered_step (attributed hr) hg hc⟩

end Server

end SigHolic.Network
