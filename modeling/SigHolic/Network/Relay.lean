/-
  SigHolic.Network.Relay — what a session sends is what sessions received (`TryProcessPacket`,
  `ProcessPacket` and `WriteSendBuffer`, socket/TcpClient.cpp), for any mix of echo and
  broadcast frames and any interleaving of the workers.

  Several workers append to one send buffer between its partial completions; `Write` takes a
  whole packet or nothing of it. A worker numbers the frames of its session (`k`) and is at
  one of them; a broadcast goes down the registry and has written to sessions it has passed
  only (`Progress`).

  Proved, while no session is torn down and the packets come from the handlers: acknowledged
  bytes and send buffer of a session are together whole frames, each one a frame some
  session received, and those of one sender come in the order the sender received them,
  each at most once (`what_is_sent_was_received`).
-/

import SigHolic.Network.RecvStream
import SigHolic.Network.RecvToken

namespace SigHolic.Network

open SigHolic.Base.Tally SigHolic.Utility.Buffer SigHolic.Iocp SigHolic.Socket

/-- What an observation says `WriteSendBuffer` of session `d` took for a packet of a session: the
    session, the packet's number there, its bytes. -/
def Obs.relay (d : Nat) : Obs → List (Nat × Nat × List UInt8)
  | .wrote (some (c, k)) d' packet => if d' = d then [(c, k, packet.frame)] else []
  | _ => []

def Stmt.writing : Stmt → Option (Nat × Nat × Packet × Nat)
  | .echo c _ k packet => some (c, k, packet, c)
  | .bcastWrite c _ k packet client => some (c, k, packet, client)
  | _ => none

namespace Server

def relayed (s : Server) (d : Nat) : List (Nat × Nat × List UInt8) := s.log.flatMap (Obs.relay d)

def numbers (s : Server) (d c : Nat) : List Nat := ((s.relayed d).filter fun x => x.1 = c).map fun x => x.2.1

/-- No session is torn down, and packets come from the handlers. -/
def Relaying (s : Server) (e : Ev) : Prop := Calm s e ∧ e.writes = false

instance (s : Server) (e : Ev) : Decidable (Relaying s e) := inferInstanceAs (Decidable (_ ∧ _))

/-! ## What a step adds -/

theorem handedTo_eq (s : Server) (c : Nat) : s.handedTo c = (s.handedFrames c).length := by
  simp only [handedTo, handedFrames]
  induction s.log with
  | nil => rfl
  | cons x log ih =>
    simp only [List.countP_cons, List.flatMap_cons, List.length_append, ih]
    cases x with
    | handed c' k packet => by_cases e : c' = c <;> simp [Obs.handedFrame, e, Nat.add_comm]
    | _ => simp [Obs.handedFrame]

theorem wroteBy_cases (s : Server) (sender : Option (Nat × Nat)) (client : Nat) (packet : Packet) :
    s.wroteBy sender client packet = [] ∨ s.wroteBy sender client packet = [.wrote sender client packet] := by
  unfold wroteBy
  repeat' split
  · exact Or.inl rfl
  · exact Or.inl rfl
  · exact Or.inr rfl

/-- A step adds a packet taken for a session's packet in a write of that session's handler. -/
theorem relayed_step (s : Server) (e : Ev) (d : Nat) :
    (s.step e).relayed d = s.relayed d ∨
      ∃ t wsa i st c k packet, e = .run t wsa ∧ s.threads[t]? = some (i :: st) ∧ s.crashed = none ∧
        i.writing = some (c, k, packet, d) ∧ (s.step e).relayed d = s.relayed d ++ [(c, k, packet.frame)] := by
  by_cases hc : s.crashed = none
  case neg => rw [step_crashed hc]; exact Or.inl rfl
  have hlog : (s.step e).relayed d = s.relayed d ++ (s.observed e).flatMap (Obs.relay d) := by
    simp only [relayed, step_eq hc, handle_log, List.flatMap_append]
  have hnone : (s.observed e).flatMap (Obs.relay d) = [] → (s.step e).relayed d = s.relayed d := fun h => by
    rw [hlog, h, List.append_nil]
  cases e with
  | run t wsa =>
    rcases ht : s.threads[t]? with _ | _ | ⟨i, st⟩
    · exact Or.inl (hnone (by simp [observed, ht]))
    · exact Or.inl (hnone (by simp [observed, ht]))
    have hobs : s.observed (.run t wsa) = s.noted i := by simp only [observed, ht]
    rw [hobs] at hlog hnone
    -- a call of `WriteSendBuffer` with the packet, for session `client`
    have hwrite : ∀ {c k packet client}, i.writing = some (c, k, packet, client) →
        (s.noted i = [] ∨ s.noted i = [.wrote (some (c, k)) client packet]) →
          (s.step (.run t wsa)).relayed d = s.relayed d ∨
          ∃ t' wsa' i' st' c' k' packet', Ev.run t wsa = .run t' wsa' ∧ s.threads[t']? = some (i' :: st') ∧
            s.crashed = none ∧
            i'.writing = some (c', k', packet', d) ∧
            (s.step (.run t wsa)).relayed d = s.relayed d ++ [(c', k', packet'.frame)] := by
      intro c k packet client hw hn
      rcases hn with hn | hn
      · exact Or.inl (hnone (by rw [hn]; rfl))
      by_cases hd : client = d
      · subst hd
        exact Or.inr ⟨t, wsa, i, st, c, k, packet, rfl, ht, hc, hw, by rw [hlog, hn]; simp [Obs.relay]⟩
      · exact Or.inl (hnone (by rw [hn]; simp [Obs.relay, hd]))
    cases i with
    | echo => exact hwrite rfl (wroteBy_cases s _ _ _)
    | bcastWrite c j k packet client =>
      refine hwrite rfl ?_
      simp only [noted]
      split
      · exact wroteBy_cases s _ _ _
      · exact Or.inl rfl
    | _ =>
      refine Or.inl (hnone ?_)
      simp only [noted]
      (repeat' split) <;> simp [Obs.relay]
  | accept | flush => exact Or.inl (hnone rfl)
  | dispatch t i r =>
    refine Or.inl (hnone ?_)
    simp only [observed]
    (repeat' split) <;> first | rfl | (cases r <;> simp [landed, Obs.relay])
  | write c packet =>
    refine Or.inl (hnone ?_)
    simp only [observed]
    split
    · rcases wroteBy_cases s none c packet with he | he <;> rw [he] <;> simp [Obs.relay]
    · rfl

/-- A step hands a frame on in `ProcessPacket` only. -/
theorem handedFrames_step (s : Server) (e : Ev) (c : Nat) :
    (s.step e).handedFrames c = s.handedFrames c ∨
      ∃ t wsa j packet st, e = .run t wsa ∧ s.threads[t]? = some (.processPacket c j packet :: st) ∧ s.crashed = none ∧
        (s.step e).handedFrames c = s.handedFrames c ++ [packet.frame] := by
  by_cases hc : s.crashed = none
  case neg => rw [step_crashed hc]; exact Or.inl rfl
  have hlog : (s.step e).handedFrames c = s.handedFrames c ++ (s.observed e).flatMap (Obs.handedFrame c) := by
    simp only [handedFrames, step_eq hc, handle_log, List.flatMap_append]
  by_cases hrun : ∃ t wsa j packet st, e = .run t wsa ∧ s.threads[t]? = some (.processPacket c j packet :: st)
  · obtain ⟨t, wsa, j, packet, st, rfl, ht⟩ := hrun
    refine Or.inr ⟨t, wsa, j, packet, st, rfl, ht, hc, ?_⟩
    rw [hlog]
    simp [observed, ht, noted, Obs.handedFrame]
  · left
    rw [hlog, List.flatMap_eq_nil_iff.mpr, List.append_nil]
    intro x hx
    cases x with
    | handed c' k packet =>
      obtain ⟨-, t, wsa, j, st, rfl, ht⟩ := handed_observed hx
      have hcl : ¬ c' = c := by
        intro heq
        subst heq
        exact hrun ⟨t, wsa, j, packet, st, rfl, ht⟩
      simp [Obs.handedFrame, hcl]
    | _ => rfl

/-- In a calm run the registry only grows, at its end. -/
theorem registry_calm {s : Server} (h : Reach Calm s) (e : Ev) :
    (s.step e).registry = s.registry ∨ ∃ c, (s.step e).registry = s.registry ++ [c] := by
  obtain ⟨ho, hreg⟩ := calm h
  rcases registry_step s e with he | ⟨t, wsa, c', st, rfl, ht, -⟩ | ⟨t, wsa, c', o, socket, st, rfl, ht, he⟩
  · exact Or.inl he
  · cases (hreg.about _ (has_top ht)).1
  · refine Or.inr ⟨c', ?_⟩
    -- a session that is being made is not in the list, so `remove` finds nothing
    have h1 := (Orderly.stages ho).send c'
    have h2 := le_tally_of_has (Stmt.making c') (has_top ht)
    simp only [Stmt.making, if_true] at h2
    have hnot : c' ∉ s.registry := by
      intro hm
      have := List.count_pos_iff.mpr hm
      omega
    have hne : ∀ x ∈ s.registry, x ≠ c' := fun x hx hn => hnot (hn ▸ hx)
    rw [he, TcpSessionManager.addTcpClient, List.filter_eq_self.mpr (by simpa using hne)]

/-! ## Where a worker is with a frame -/

structure At (s : Server) (c k : Nat) (packet : Packet) : Prop where
  last : (s.handedFrames c).length = k + 1
  frame : (s.handedFrames c)[k]? = some packet.frame

def Written (s : Server) (c k d : Nat) : Prop := ∃ frame, (c, k, frame) ∈ s.relayed d

/-- What `ProcessPacket`'s statements have done with the packet: nothing before its write; a
    broadcast has written to sessions it has passed. -/
def Progress (s : Server) : Stmt → Prop
  | .verifyFlag c _ k packet | .echo c _ k packet | .bcastBegin c _ k packet => s.At c k packet ∧ ∀ d, ¬ s.Written c k d
  | .bcastCheck c _ k packet client | .bcastWrite c _ k packet client =>
    s.At c k packet ∧ ∀ d, s.Written c k d → d ∈ TcpSessionManager.passed s.registry client
  | .bcastFlush c _ k packet client | .bcastNext c _ k packet client =>
    s.At c k packet ∧ ∀ d, s.Written c k d → d ∈ TcpSessionManager.passed s.registry client ∨ d = client
  | _ => True

structure Relayed (s : Server) : Prop where
  inside : ∀ d packet, Obs.wrote none d packet ∉ s.log
  known : ∀ d c k frame, (c, k, frame) ∈ s.relayed d → (s.handedFrames c)[k]? = some frame
  progress : ∀ x, s.Has x → s.Progress x
  ordered : ∀ d c, (s.numbers d c).Pairwise (· < ·)

/-- A write at hand is of its sender's latest frame, and the session written to has not had it. -/
theorem Progress.fresh {s : Server} {i : Stmt} (h : s.Progress i) {c k d : Nat} {packet : Packet}
    (hw : i.writing = some (c, k, packet, d)) : s.At c k packet ∧ ¬ s.Written c k d := by
  cases i with
  | echo =>
    cases hw
    exact ⟨h.1, h.2 c⟩
  | bcastWrite =>
    cases hw
    exact ⟨h.1, fun hn => TcpSessionManager.not_mem_passed _ _ (h.2 d hn)⟩
  | _ => cases hw

theorem handler_of_writing {i : Stmt} {c k d : Nat} {packet : Packet} (h : i.writing = some (c, k, packet, d)) :
    i.handler = some c := by
  cases i with
  | echo | bcastWrite => cases h; rfl
  | _ => cases h

/-- While a handler of the session waits, its frames stand and none of them is written. -/
theorem stands_step {s : Server} {e : Ev} {c : Nat}
    (hq : ∀ t wsa i st, e = .run t wsa → s.threads[t]? = some (i :: st) → s.crashed = none →
      i.handler ≠ some c) :
    (s.step e).handedFrames c = s.handedFrames c ∧ ∀ k d, (s.step e).Written c k d → s.Written c k d := by
  constructor
  · rcases handedFrames_step s e c with he | ⟨t, wsa, j, packet, st, rfl, ht, hc, -⟩
    · exact he
    · exact absurd rfl (hq t wsa _ st rfl ht hc)
  · intro k d hwritten
    obtain ⟨frame, hm⟩ := hwritten
    rcases relayed_step s e d with he | ⟨t, wsa, i, st, c', k', packet, rfl, ht, hc, hw, he⟩ <;> rw [he] at hm
    · exact ⟨frame, hm⟩
    · rcases List.mem_append.mp hm with hm | hm
      · exact ⟨frame, hm⟩
      · simp only [List.mem_singleton, Prod.mk.injEq] at hm
        obtain ⟨rfl, -⟩ := hm
        exact absurd (handler_of_writing hw) (hq t wsa i st rfl ht hc)

/-- When the statement is known, it is the one that writes. -/
theorem relayed_run {s : Server} {t : Nat} {i : Stmt} {st : List Stmt} (ht : s.threads[t]? = some (i :: st)) (wsa : Bool)
    (d : Nat) : (s.step (.run t wsa)).relayed d = s.relayed d ∨ ∃ c k packet, i.writing = some (c, k, packet, d) := by
  rcases relayed_step s (.run t wsa) d with he | ⟨t', wsa', i', st', c, k, packet, he, ht', -, hw, -⟩
  · exact Or.inl he
  · cases he
    rw [ht] at ht'
    cases ht'
    exact Or.inr ⟨c, k, packet, hw⟩

/-- A statement that neither hands a frame on nor writes one. -/
theorem stands_run {s : Server} {t : Nat} {i : Stmt} {st : List Stmt} (ht : s.threads[t]? = some (i :: st)) (wsa : Bool)
    (hi : ∀ c j packet, i ≠ .processPacket c j packet) (c : Nat) :
    (s.step (.run t wsa)).handedFrames c = s.handedFrames c ∧
      (i.writing = none → ∀ k d, (s.step (.run t wsa)).Written c k d → s.Written c k d) := by
  constructor
  · rcases handedFrames_step s (.run t wsa) c with he | ⟨t', wsa', j, packet, st', he, ht', -⟩
    · exact he
    · cases he
      rw [ht] at ht'
      cases ht'
      exact absurd rfl (hi c j packet)
  · intro hw k d hwritten
    obtain ⟨frame, hm⟩ := hwritten
    rcases relayed_run ht wsa d with he | ⟨c', k', packet, hw'⟩
    · rw [he] at hm
      exact ⟨frame, hm⟩
    · rw [hw] at hw'
      cases hw'

theorem relayed_inside {s : Server} {e : Ev} (hw : e.writes = false) (hs : Relayed s) (d : Nat) (packet : Packet) :
    Obs.wrote none d packet ∉ (s.step e).log := by
  intro hm
  rcases mem_log_step hm with hm | ⟨-, hm⟩
  · exact hs.inside d packet hm
  · cases e with
    | write => cases hw
    | accept | flush => cases hm
    | dispatch t i r =>
      simp only [observed] at hm
      repeat' split at hm
      all_goals first
        | cases hm
        | (cases r <;> simp [landed] at hm)
    | run t wsa =>
      rcases ht : s.threads[t]? with _ | _ | ⟨i, st⟩ <;> simp only [observed, ht] at hm
      · cases hm
      · cases hm
      obtain ⟨c, j, k, hsender, -⟩ := wrote_noted hm
      cases hsender

section Step

variable {s : Server} (h : Reach Calm s) {e : Ev}
include h

/-- An iterator's way through the registry is what it was. -/
theorem passed_step {client : Nat} (hreg : client ∈ s.registry) :
    TcpSessionManager.passed (s.step e).registry client = TcpSessionManager.passed s.registry client := by
  rcases registry_calm h e with he | ⟨c, he⟩ <;> rw [he]
  exact TcpSessionManager.passed_append hreg _

/-- What a handler has done stands while it waits. -/
theorem progress_kept {x : Stmt} (hh : s.Has x)
    (hap : ∀ t wsa i st, e = .run t wsa → s.threads[t]? = some (i :: st) → s.crashed = none →
      ∀ f : Stmt → Nat, f x + f i ≤ tally f s.threads) (hx : s.Progress x) : (s.step e).Progress x := by
  obtain ⟨ho, hreg⟩ := calm h
  have ha := attributed ho
  have habout := (hreg.about x hh).2
  -- the session's receive is with this thread, so no other runs its handler
  have hstand : ∀ c, x.handler = some c →
      (s.step e).handedFrames c = s.handedFrames c ∧ ∀ k d, (s.step e).Written c k d → s.Written c k d := by
    intro c hc
    refine stands_step fun t wsa i st he ht hcr hi => ?_
    have h1 := hap t wsa i st he ht hcr (Stmt.receives c)
    rw [receives_of_handler (ha.sound x hh) hc, receives_of_handler (ha.sound i (has_top ht)) hi] at h1
    have h2 := (tokens ho).recv c
    rw [recvTokens] at h2
    omega
  have hat : ∀ {c k packet}, x.handler = some c → s.At c k packet → (s.step e).At c k packet := fun hc hat =>
    ⟨by rw [(hstand _ hc).1]; exact hat.last, by rw [(hstand _ hc).1]; exact hat.frame⟩
  cases x with
  | verifyFlag c j k packet | echo c j k packet | bcastBegin c j k packet =>
    exact ⟨hat rfl hx.1, fun d hw => hx.2 d ((hstand c rfl).2 k d hw)⟩
  | bcastCheck c j k packet client | bcastWrite c j k packet client | bcastFlush c j k packet client
  | bcastNext c j k packet client =>
    refine ⟨hat rfl hx.1, fun d hw => ?_⟩
    rw [passed_step h (habout client (by simp [Stmt.about]))]
    exact hx.2 d ((hstand c rfl).2 k d hw)
  | _ => trivial

/-- `ProcessPacket` begins with the frame last handed on, of which nothing is written. -/
theorem progress_handed (hs : Relayed s) {t : Nat} {wsa : Bool} {c : Nat} {j : Completion} {packet : Packet} {st : List Stmt}
    (ht : s.threads[t]? = some (.processPacket c j packet :: st)) :
    (s.step (.run t wsa)).Progress (.verifyFlag c j (s.handedTo c) packet) := by
  have hc := calm_uncrashed h
  have hf : (s.step (.run t wsa)).handedFrames c = s.handedFrames c ++ [packet.frame] := by
    simp [handedFrames, step_eq hc, handle_log, observed, ht, noted, Obs.handedFrame]
  refine ⟨⟨?_, ?_⟩, ?_⟩
  · rw [hf, handedTo_eq]; simp
  · rw [hf, handedTo_eq]; simp
  · intro d hw
    -- a number in the log is of a frame handed on before
    obtain ⟨frame, hm⟩ := hw
    rcases relayed_run ht wsa d with he | ⟨c', k', packet', hw'⟩
    · rw [he] at hm
      have hk := hs.known d c _ frame hm
      rw [handedTo_eq] at hk
      have := (List.getElem?_eq_some_iff.mp hk).1
      omega
    · cases hw'

/-- What a statement of `ProcessPacket` pushes goes on where it stopped. -/
theorem progress_pushed (hs : Relayed s) {t : Nat} {wsa : Bool} {i x : Stmt} {st : List Stmt}
    (ht : s.threads[t]? = some (i :: st)) (hm : x ∈ (s.exec wsa i).2) : (s.step (.run t wsa)).Progress x := by
  obtain ⟨ho, hreg⟩ := calm h
  have hc := calm_uncrashed h
  have hi := hs.progress i (has_top ht)
  have habout := (hreg.about i (has_top ht)).2
  have hpass : ∀ {client}, client ∈ s.registry →
      TcpSessionManager.passed (s.step (.run t wsa)).registry client = TcpSessionManager.passed s.registry client :=
    fun hcl => passed_step h hcl
  have hat : (∀ c j packet, i ≠ .processPacket c j packet) → ∀ {c k packet}, s.At c k packet →
      (s.step (.run t wsa)).At c k packet := by
    intro hne c k packet hat
    have := (stands_run ht wsa hne c).1
    exact ⟨by rw [this]; exact hat.last, by rw [this]; exact hat.frame⟩
  cases i with
  | processPacket c j packet =>
    have hx : x = .close c ∨ x = .verifyFlag c j (s.handedTo c) packet := by
      simp only [exec] at hm
      split at hm <;> simp only [List.mem_cons, List.not_mem_nil, or_false] at hm
      · exact Or.inr hm
      · exact hm
    rcases hx with rfl | rfl
    · trivial
    exact progress_handed h hs ht
  | verifyFlag c j k packet =>
    have hw := (stands_run ht wsa (by simp) c).2 rfl
    simp only [exec] at hm
    repeat' split at hm
    all_goals simp only [List.mem_cons, List.not_mem_nil, or_false] at hm
    · subst hm; exact ⟨hat (by simp) hi.1, fun d hn => hi.2 d (hw k d hn)⟩
    · subst hm; exact ⟨hat (by simp) hi.1, fun d hn => hi.2 d (hw k d hn)⟩
    · rcases hm with rfl | rfl <;> trivial
  | bcastBegin c j k packet =>
    have hw := (stands_run ht wsa (by simp) c).2 rfl
    simp only [exec] at hm
    split at hm <;> simp only [List.mem_singleton] at hm <;> subst hm
    · trivial
    · exact ⟨hat (by simp) hi.1, fun d hn => absurd (hw k d hn) (hi.2 d)⟩
  | bcastCheck c j k packet client =>
    have hw := (stands_run ht wsa (by simp) c).2 rfl
    have hcl := habout client (by simp [Stmt.about])
    have hp := hpass hcl
    simp only [exec, if_pos hcl] at hm
    split at hm <;> simp only [List.mem_singleton] at hm <;> subst hm
    · exact ⟨hat (by simp) hi.1, fun d hn => by rw [hp]; exact hi.2 d (hw k d hn)⟩
    · exact ⟨hat (by simp) hi.1, fun d hn => by rw [hp]; exact Or.inl (hi.2 d (hw k d hn))⟩
  | bcastWrite c j k packet client =>
    have hcl := habout client (by simp [Stmt.about])
    have hp := hpass hcl
    simp only [exec, if_pos hcl] at hm
    split at hm <;> simp only [List.mem_cons, List.not_mem_nil, or_false] at hm
    · rcases hm with rfl | rfl <;> trivial
    subst hm
    refine ⟨hat (by simp) hi.1, fun d hn => ?_⟩
    obtain ⟨frame, hm'⟩ := hn
    rw [hp]
    rcases relayed_run ht wsa d with he | ⟨c', k', packet', hw'⟩
    · rw [he] at hm'
      exact Or.inl (hi.2 d ⟨frame, hm'⟩)
    · cases hw'
      exact Or.inr rfl
  | bcastFlush c j k packet client =>
    have hw := (stands_run ht wsa (by simp) c).2 rfl
    have hcl := habout client (by simp [Stmt.about])
    simp only [exec, if_pos hcl, List.mem_cons, List.not_mem_nil, or_false] at hm
    rcases hm with rfl | rfl
    · trivial
    · exact ⟨hat (by simp) hi.1, fun d hn => by rw [hpass hcl]; exact hi.2 d (hw k d hn)⟩
  | bcastNext c j k packet client =>
    have hw := (stands_run ht wsa (by simp) c).2 rfl
    have hcl := habout client (by simp [Stmt.about])
    obtain ⟨n, hn, hmem⟩ := TcpSessionManager.nextClient_of_mem hcl
    cases n with
    | none =>
      simp only [exec, hn, List.mem_singleton] at hm
      subst hm
      trivial
    | some client' =>
      simp only [exec, hn, List.mem_singleton] at hm
      subst hm
      refine ⟨hat (by simp) hi.1, fun d hw' => ?_⟩
      rw [hpass (hmem client' rfl)]
      have hnd : s.registry.Nodup := List.nodup_iff_count_le_one.mpr fun a => by
        have := (Orderly.stages ho).send a
        omega
      exact TcpSessionManager.passed_next hnd hn (hi.2 d (hw k d hw'))
  | _ =>
    simp only [exec] at hm
    (repeat' split at hm) <;> simp only [List.mem_cons, List.not_mem_nil, or_false] at hm <;>
      (first | subst hm | rcases hm with rfl | rfl) <;> trivial

theorem relayed_inv (hw : e.writes = false) (hs : Relayed s) : Relayed (s.step e) := by
  have hgrow : ∀ (c k : Nat) (frame : List UInt8), (s.handedFrames c)[k]? = some frame →
      ((s.step e).handedFrames c)[k]? = some frame := by
    intro c k frame hk
    rcases handedFrames_step s e c with he | ⟨t, wsa, j, packet, st, -, -, -, he⟩ <;> rw [he]
    · exact hk
    · rw [List.getElem?_append_left (List.getElem?_eq_some_iff.mp hk).1]
      exact hk
  refine ⟨relayed_inside hw hs, ?_, ?_, ?_⟩
  · intro d c k frame hm
    rcases relayed_step s e d with he | ⟨t, wsa, i, st, c', k', packet, rfl, ht, -, hwr, he⟩ <;> rw [he] at hm
    · exact hgrow c k frame (hs.known d c k frame hm)
    · rcases List.mem_append.mp hm with hm | hm
      · exact hgrow c k frame (hs.known d c k frame hm)
      · simp only [List.mem_singleton, Prod.mk.injEq] at hm
        obtain ⟨rfl, rfl, rfl⟩ := hm
        exact hgrow c k _ ((hs.progress i (has_top ht)).fresh hwr).1.frame
  · intro x hh
    rcases has_apart hh with ⟨hh, hap⟩ | ⟨socket, rfl⟩ | ⟨op, -, _, _, r, st, _, _, hbr, hm⟩ |
        ⟨t, wsa, i, st, rfl, ht, -, hm⟩
    · exact progress_kept h hh hap (hs.progress x hh)
    · trivial
    · rcases mem_branch hbr hm with rfl | rfl | ⟨n, rfl, -⟩ <;> trivial
    · exact progress_pushed h hs ht hm
  · intro d c
    rcases relayed_step s e d with he | ⟨t, wsa, i, st, c', k, packet, rfl, ht, -, hwr, he⟩
    · simp only [numbers, he]
      exact hs.ordered d c
    obtain ⟨hat, hnew⟩ := (hs.progress i (has_top ht)).fresh hwr
    simp only [numbers, he, List.filter_append, List.map_append]
    by_cases hcc : c' = c
    · subst hcc
      -- numbers taken before are of frames before this one
      simp only [List.filter_cons, decide_true, if_true, List.filter_nil, List.map_cons, List.map_nil]
      rw [List.pairwise_append]
      refine ⟨hs.ordered d c', List.pairwise_singleton _ _, fun a ha b hb => ?_⟩
      rw [List.mem_singleton] at hb
      subst hb
      simp only [List.mem_map, List.mem_filter, decide_eq_true_eq] at ha
      obtain ⟨⟨c₁, k₁, frame⟩, ⟨hm, rfl⟩, rfl⟩ := ha
      have hlt := (List.getElem?_eq_some_iff.mp (hs.known d c₁ k₁ frame hm)).1
      have hlast : (s.handedFrames c₁).length = b + 1 := hat.last
      have hne : k₁ ≠ b := by
        intro heq
        subst heq
        exact hnew ⟨frame, hm⟩
      show k₁ < b
      omega
    · simp only [List.filter_cons, hcc, decide_false, Bool.false_eq_true, if_false, List.filter_nil, List.map_nil,
        List.append_nil]
      exact hs.ordered d c

end Step

theorem relayed_reach {s : Server} (h : Reach Relaying s) : Relayed s := by
  induction h with
  | start hs =>
    obtain ⟨n, rfl⟩ := hs
    exact ⟨fun _ _ hm => (nomatch hm), fun _ _ _ _ hm => (nomatch hm), fun x hx => absurd hx (not_has_boot n x),
      fun d c => List.Pairwise.nil⟩
  | step e hr hf ih => exact relayed_inv (hr.mono fun _ _ hf => hf.1) hf.2 ih

/-! ## The outgoing stream -/

theorem taken_relayed {s : Server} (h : Relayed s) (d : Nat) : s.taken d = ((s.relayed d).map fun x => x.2.2).flatten := by
  have hin := h.inside
  simp only [taken, relayed]
  generalize s.log = log at hin ⊢
  induction log with
  | nil => rfl
  | cons x log ih =>
    have hrest := ih fun d packet hm => hin d packet (List.mem_cons_of_mem _ hm)
    simp only [List.flatMap_cons, List.map_append, List.flatten_append, ← hrest]
    congr 1
    cases x with
    | wrote sender d' packet =>
      cases sender with
      | none => exact absurd List.mem_cons_self (hin d' packet)
      | some ck => by_cases e : d' = d <;> simp [Obs.takes, Obs.relay, e]
    | _ => rfl

/-- Any sessions, any mix of echo and broadcast frames, any interleaving of the workers, writes
    refused or not: what a session has sent and has still to send is a concatenation of
    whole frames, each the `k`-th frame of what some session received, and the frames of
    one sender come in its order, each at most once. -/
theorem what_is_sent_was_received {s : Server} (h : Reach Relaying s) (d : Nat) :
    ∃ sent : List (Nat × Nat × List UInt8),
      s.acknowledged d ++ (s.clients d).sendBuffer.contents = (sent.map fun x => x.2.2).flatten ∧
      (∀ c k frame, (c, k, frame) ∈ sent → (frames (s.receivedBy c))[k]? = some frame) ∧
      ∀ c, ((sent.filter fun x => x.1 = c).map fun x => x.2.1).Pairwise (· < ·) := by
  have hcalm := h.mono fun _ _ hf => hf.1
  have hr := relayed_reach h
  refine ⟨s.relayed d, ?_, ?_, hr.ordered d⟩
  · exact ((sendStream hcalm).conserved d).trans (taken_relayed hr d)
  · intro c k frame hm
    have hk := hr.known d c k frame hm
    rw [((recvStream hcalm).parsed c).handed, List.append_assoc, List.getElem?_append_left (List.getElem?_eq_some_iff.mp hk).1]
    exact hk

/-- Two sessions; the first broadcasts a frame and echoes one, the second broadcasts one in
    between, and three bytes of the first one's stream are acknowledged. -/
def mixedRun : List Ev := List.flatten [
  [.accept 5], List.replicate 9 (.run 0 true), [.accept 6], List.replicate 9 (.run 0 true),
  [.dispatch 1 0 (.received [1, 0, 2, 0x55, 7, 1, 0, 1, 0x55, 8])], List.replicate 16 (.run 1 true),
  [.dispatch 2 0 (.received [1, 0, 2, 0x55, 9])], List.replicate 28 (.run 2 true), List.replicate 30 (.run 1 true),
  [.dispatch 2 0 (.sent 3)], List.replicate 9 (.run 2 true)]

theorem two_senders_one_stream :
    (mixedRun.foldl step (boot 2)).acknowledged 0 = [1, 0, 2] ∧
      ((mixedRun.foldl step (boot 2)).clients 0).sendBuffer.contents =
        [0x55, 7, 1, 0, 2, 0x55, 9, 1, 0, 1, 0x55, 8] ∧
      ∃ sent : List (Nat × Nat × List UInt8),
        (mixedRun.foldl step (boot 2)).acknowledged 0 ++ ((mixedRun.foldl step (boot 2)).clients 0).sendBuffer.contents =
          (sent.map fun x => x.2.2).flatten ∧
        (∀ c k frame, (c, k, frame) ∈ sent → (frames ((mixedRun.foldl step (boot 2)).receivedBy c))[k]? = some frame) ∧
        ∀ c, ((sent.filter fun x => x.1 = c).map fun x => x.2.1).Pairwise (· < ·) := by
  refine ⟨?_, ?_, what_is_sent_was_received (.run (.start ⟨2, rfl⟩) ?_) 0⟩
  all_goals rw [boot_eq]; decide +kernel

end Server

end SigHolic.Network
