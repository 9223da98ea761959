/-
  SigHolic.Network.SendStream — a session's outgoing bytes (`WriteSendBuffer`,
  `FlushSendBuffer` and `OnSend`, socket/TcpClient.cpp; `WorkerThread`, network/network.cpp).

  A session writes, flushes and acknowledges in separate critical sections, from any thread.
  What one step does to the stream is said once (`stream_step`): bytes leave at the front
  and are acknowledged, or come at the back and were taken from a packet.

  Proved, while no session is torn down: a session has one send in flight at most, and its
  range is a prefix of the send buffer; acknowledged bytes and contents together are the
  packets taken; a send's completion is never ignored and `ThrowAway` never throws.
-/

import SigHolic.Network.Buffers
import SigHolic.Network.Calm

namespace SigHolic.Network

open SigHolic.Base.Tally SigHolic.Utility.Buffer SigHolic.Iocp SigHolic.Socket

def Obs.acks (c : Nat) : Obs → List UInt8
  | .acked c' data => if c' = c then data else []
  | _ => []

def Obs.takes (c : Nat) : Obs → List UInt8
  | .wrote _ c' packet => if c' = c then packet.frame else []
  | _ => []

def Stmt.completion : Stmt → Option Completion
  | .checkExpired j | .checkBound j | .takeSession j | .recvBranch _ j | .sendBranch _ j | .onSend _ j => some j
  | _ => none

namespace Server

def acknowledged (s : Server) (c : Nat) : List UInt8 := s.log.flatMap (Obs.acks c)

/-- The packets `WriteSendBuffer` did not refuse, in the order of its critical sections. -/
def taken (s : Server) (c : Nat) : List UInt8 := s.log.flatMap (Obs.takes c)

def unsent (s : Server) (c : Nat) : List UInt8 := (s.clients c).sendBuffer.contents

/-! ## What a step does to a stream -/

/-- `gone` is acknowledged, `come` is taken. -/
structure Moves (s s' : Server) (c : Nat) (gone come : List UInt8) : Prop where
  acknowledged : s'.acknowledged c = s.acknowledged c ++ gone
  taken : s'.taken c = s.taken c ++ come
  unsent : gone ++ s'.unsent c = s.unsent c ++ come

theorem moves_none {s s' : Server} {c : Nat} (new : List Obs) (hl : s'.log = s.log ++ new)
    (hn : ∀ x ∈ new, x.acks c = [] ∧ x.takes c = [])
    (hb : (s'.clients c).sendBuffer = (s.clients c).sendBuffer) : Moves s s' c [] [] := by
  have ha : new.flatMap (Obs.acks c) = [] := List.flatMap_eq_nil_iff.mpr fun x hx => (hn x hx).1
  have ht : new.flatMap (Obs.takes c) = [] := List.flatMap_eq_nil_iff.mpr fun x hx => (hn x hx).2
  refine ⟨?_, ?_, ?_⟩
  · simp only [Server.acknowledged, hl, List.flatMap_append, ha]
  · simp only [Server.taken, hl, List.flatMap_append, ht]
  · simp only [Server.unsent, hb, List.nil_append, List.append_nil]

/-- A call of `WriteSendBuffer`: the packet's bytes come, or nothing does. -/
theorem moves_write {s s' : Server} (hok : SendOk s) {sender : Option (Nat × Nat)} {client : Nat} {packet : Packet}
    (hc : s'.clients = (s.writeSendBuffer sender client packet).2.clients)
    (hl : s'.log = (s.writeSendBuffer sender client packet).2.log) (c : Nat) :
    ∃ come, Moves s s' c [] come ∧ (come = [] ∨ c = client) := by
  by_cases hf : (s.clients client).Fits packet
  · obtain ⟨b, hw, -, hb⟩ := write_taken (hok client) hf sender
    rw [hw] at hc hl
    by_cases e : c = client
    · subst e
      refine ⟨packet.frame, ⟨?_, ?_, ?_⟩, Or.inr rfl⟩
      · simp [Server.acknowledged, hl, observe, withClient, Obs.acks]
      · simp [Server.taken, hl, observe, withClient, Obs.takes]
      · simp [Server.unsent, hc, observe, withClient, hb]
    · refine ⟨[], moves_none [.wrote sender client packet] hl ?_ ?_, Or.inl rfl⟩
      · simp [Obs.acks, Obs.takes, Ne.symm e]
      · simp [hc, observe, withClient, e]
  · rw [write_refused (hok client) hf sender] at hc hl
    exact ⟨[], moves_none [] (by simp [hl]) (by simp) (by rw [hc]), Or.inl rfl⟩

/-- Statements that neither write nor acknowledge observe nothing of either. -/
theorem noted_stream (s : Server) {i : Stmt} (h : i.buffers = false) (c : Nat) :
    ∀ x ∈ s.noted i, x.acks c = [] ∧ x.takes c = [] := by
  cases i <;> simp only [Stmt.buffers, Bool.true_eq_false] at h <;> simp only [noted] <;> (repeat' split) <;>
    simp [Obs.acks, Obs.takes]

/-- What a statement does to a session's stream. -/
theorem stream_exec {s s' : Server} (hok : SendOk s) (wsa : Bool) (i : Stmt) (hc : s'.clients = (s.exec wsa i).1.clients)
    (hl : s'.log = (s.exec wsa i).1.log) (c : Nat) :
    ((∃ socket, i = .newSession socket) ∧ c = s.nextClient ∧ s'.acknowledged c = s.acknowledged c ∧
        s'.taken c = s.taken c ∧ s'.unsent c = []) ∨
      ∃ gone come, Moves s s' c gone come ∧ (come = [] ∨ c ∈ i.about) ∧
        (gone = [] ∨ (∃ j, i = .onSend c j) ∧ (s'.clients c).sendIoState = .connected) := by
  cases hb : i.buffers with
  | false =>
    refine Or.inr ⟨[], [], moves_none _ (hl.trans (exec_log s wsa i)) (noted_stream s hb c) ?_, Or.inl rfl, Or.inl rfl⟩
    rw [hc]; exact exec_sendBuffer s wsa hb c
  | true =>
    cases i with
    | newSession socket =>
      have hlog : s'.log = s.log := hl
      by_cases e : c = s.nextClient
      · refine Or.inl ⟨⟨socket, rfl⟩, e, ?_, ?_, ?_⟩
        · simp only [Server.acknowledged, hlog]
        · simp only [Server.taken, hlog]
        · simp [Server.unsent, hc, exec, newClient, e, TcpClient.new]
      · refine Or.inr ⟨[], [], moves_none [] (by simp [hlog]) (by simp) ?_, Or.inl rfl, Or.inl rfl⟩
        simp [hc, exec, newClient, e]
    | echo c' j k packet =>
      obtain ⟨come, hm, hw⟩ := moves_write hok hc hl c
      exact Or.inr ⟨[], come, hm, hw.imp_right fun e => by simp [Stmt.about, e], Or.inl rfl⟩
    | bcastWrite c' j k packet client =>
      simp only [exec] at hc hl
      split at hc <;> rename_i hreg
      · rw [if_pos hreg] at hl
        obtain ⟨come, hm, hw⟩ := moves_write hok hc hl c
        exact Or.inr ⟨[], come, hm, hw.imp_right fun e => by simp [Stmt.about, e], Or.inl rfl⟩
      · rw [if_neg hreg] at hl
        refine Or.inr ⟨[], [], moves_none [] (by simp [hl, crash]) (by simp) ?_, Or.inl rfl, Or.inl rfl⟩
        simp [hc, crash]
    | onSend c' j =>
      right
      cases hw : (s.clients c').onSend j.transferred with
      | error f =>
        simp only [exec, hw] at hc hl
        refine ⟨[], [], moves_none [] (by simp [hl, crash]) (by simp) ?_, Or.inl rfl, Or.inl rfl⟩
        simp [hc, crash]
      | ok x =>
        simp only [exec, hw] at hc hl
        obtain ⟨-, b, rfl, -, hbc⟩ := onSend_taken (hok c') hw
        by_cases e : c = c'
        · subst e
          refine ⟨(s.unsent c).take j.transferred, [], ⟨?_, ?_, ?_⟩, Or.inl rfl, Or.inr ⟨⟨j, rfl⟩, ?_⟩⟩
          · simp [Server.acknowledged, Server.unsent, hl, observe, withClient, Obs.acks]
          · simp [Server.taken, hl, observe, withClient, Obs.takes]
          · simp [Server.unsent, hc, observe, withClient, hbc]
          · simp [hc, observe, withClient]
        · refine ⟨[], [], moves_none [.acked c' ((s.clients c').sendBuffer.contents.take j.transferred)] hl ?_ ?_,
            Or.inl rfl, Or.inl rfl⟩
          · simp [Obs.acks, Obs.takes, Ne.symm e]
          · simp [hc, observe, withClient, e]
    | _ => cases hb

/-- What a step does to a session's stream: it makes the session, or bytes leave in front and
    come behind. They leave in `OnSend` only, which takes the flag down, and come for a
    registered session. -/
theorem stream_step {s : Server} (hok : SendOk s) (hr : Registered s) (e : Ev) (c : Nat) :
    (c = s.nextClient ∧ (s.step e).nextClient = s.nextClient + 1 ∧ (s.step e).acknowledged c = s.acknowledged c ∧
        (s.step e).taken c = s.taken c ∧ (s.step e).unsent c = []) ∨
      ∃ gone come, Moves s (s.step e) c gone come ∧ (come = [] ∨ c ∈ s.registry) ∧
        (gone = [] ∨ ((s.step e).clients c).sendIoState = .connected) := by
  by_cases hcr : s.crashed = none
  case neg =>
    rw [step_crashed hcr]
    exact Or.inr ⟨[], [], moves_none [] (by simp) (by simp) rfl, Or.inl rfl, Or.inl rfl⟩
  rw [step_eq hcr]
  cases e with
  | accept socket =>
    refine Or.inr ⟨[], [], moves_none _ (handle_log s _) (by simp [observed]) ?_, Or.inl rfl, Or.inl rfl⟩
    rcases accept_cases s socket with he | ⟨-, -, -, he, -⟩ <;> simp only [handle, he]
  | dispatch t i r =>
    refine Or.inr ⟨[], [], moves_none _ (handle_log s _) ?_ ?_, Or.inl rfl, Or.inl rfl⟩
    · intro x hx
      simp only [observed] at hx
      repeat' split at hx
      all_goals first
        | cases hx
        | (cases r <;> simp only [landed, List.mem_singleton, List.not_mem_nil] at hx
           subst hx
           exact ⟨rfl, rfl⟩)
    · rcases dispatch_cases s t i r with he | ⟨op, st, -, -, -, -, he⟩ <;> simp only [handle, he]
      exact land_sendBuffer s op r c
  | run t wsa =>
    rcases ht : s.threads[t]? with _ | _ | ⟨i, st⟩
    · exact Or.inr ⟨[], [], moves_none _ (handle_log s _) (by simp [observed, ht]) (by simp [handle, run, ht]),
        Or.inl rfl, Or.inl rfl⟩
    · exact Or.inr ⟨[], [], moves_none _ (handle_log s _) (by simp [observed, ht]) (by simp [handle, run, ht]),
        Or.inl rfl, Or.inl rfl⟩
    have hc : (s.handle (.run t wsa)).clients = (s.exec wsa i).1.clients := by simp only [handle, run, ht]; rfl
    have hl : (s.handle (.run t wsa)).log = (s.exec wsa i).1.log := by simp only [handle, run, ht]; rfl
    rcases stream_exec hok wsa i hc hl c with ⟨⟨socket, rfl⟩, h1, h2⟩ | ⟨gone, come, hm, hcome, hgone⟩
    · exact Or.inl ⟨h1, (run_fields wsa ht).nextClient, h2⟩
    · exact Or.inr ⟨gone, come, hm, hcome.imp_right fun h => (hr.about i (has_top ht)).2 c h, hgone.imp_right fun h => h.2⟩
  | write c' packet =>
    right
    simp only [handle, write]
    split
    · rename_i hreg
      obtain ⟨come, hm, hw⟩ := moves_write hok (show (s.writeSendBuffer none c' packet).2.clients = _ from rfl) rfl c
      exact ⟨[], come, hm, hw.imp_right fun he => by rw [he]; exact hreg, Or.inl rfl⟩
    · exact ⟨[], [], moves_none [] (by simp) (by simp) rfl, Or.inl rfl, Or.inl rfl⟩
  | flush c' wsa =>
    refine Or.inr ⟨[], [], moves_none _ (handle_log s _) (by simp [observed]) ?_, Or.inl rfl, Or.inl rfl⟩
    simp only [handle, flush]
    split
    · exact flushSendBuffer_sendBuffer s c' wsa c
    · rfl

/-! ## The send on the way -/

/-- The operation's range is a prefix of its poster's send buffer, as it was when posted. -/
structure Ranged (s : Server) (op : IoOp) : Prop where
  off : op.buf.off = 0
  len : op.buf.len = op.buf.bytes.length
  bytes : op.buf.bytes <+: s.unsent op.client

structure SendStream (s : Server) : Prop where
  flying : ∀ op ∈ s.inflight, op.kind = .send → s.Ranged op
  handled : ∀ x, s.Has x → ∀ j, x.completion = some j → j.op.kind = .send →
    s.Ranged j.op ∧ j.transferred ≤ j.op.buf.bytes.length
  conserved : ∀ c, s.acknowledged c ++ s.unsent c = s.taken c
  unborn : ∀ c, s.nextClient ≤ c → s.taken c = []

theorem sends_of_completion {x : Stmt} {j : Completion} (h : x.completion = some j) (hk : j.op.kind = .send) :
    x.sends j.op.client = 1 := by
  cases x with
  | checkExpired | checkBound | takeSession | recvBranch | sendBranch | onSend =>
    cases h
    simp [Stmt.sends, hk]
  | _ => cases h

theorem about_of_completion {x : Stmt} {j : Completion} (h : x.completion = some j) : j.op.client ∈ x.about := by
  cases x with
  | checkExpired | checkBound | takeSession | recvBranch | sendBranch | onSend => cases h; simp [Stmt.about]
  | _ => cases h

section Step

variable {s : Server} {e : Ev} (hok : SendOk s) (hr : Registered s)
include hok hr

/-- While the session's send is on the way nothing leaves its buffer in front. -/
theorem ranged_kept (hg : Stages s) (ht : Tokens (s.step e)) {op : IoOp} (hreg : op.client ∈ s.registry)
    (hlive : 0 < (s.step e).sendTokens op.client) (h : s.Ranged op) : (s.step e).Ranged op := by
  rcases stream_step hok hr e op.client with ⟨hc, -⟩ | ⟨gone, come, hm, -, hgone⟩
  · have := hg.born hreg
    omega
  · rcases hgone with rfl | hst
    · refine ⟨h.off, h.len, h.bytes.trans ⟨come, ?_⟩⟩
      rw [← hm.unsent, List.nil_append]
    · rw [ht.pending _ hlive] at hst; cases hst

theorem conserved_step (h : SendStream s) (c : Nat) :
    (s.step e).acknowledged c ++ (s.step e).unsent c = (s.step e).taken c := by
  have hc := h.conserved c
  rcases stream_step hok hr e c with ⟨hn, -, h1, h2, h3⟩ | ⟨gone, come, hm, -⟩
  · have hu := h.unborn c (by omega)
    rw [hu] at hc
    rw [h1, h2, h3, hu, (List.append_eq_nil_iff.mp hc).1]
    rfl
  · rw [hm.acknowledged, hm.taken, List.append_assoc, hm.unsent, ← List.append_assoc, hc]

theorem unborn_step (hg : Stages s) (h : SendStream s) {c : Nat} (hc : (s.step e).nextClient ≤ c)
    (hn : s.nextClient ≤ (s.step e).nextClient) : (s.step e).taken c = [] := by
  have hu := h.unborn c (by omega)
  rcases stream_step hok hr e c with ⟨-, -, -, h2, -⟩ | ⟨gone, come, hm, hcome, -⟩
  · rw [h2, hu]
  · rcases hcome with rfl | hreg
    · rw [hm.taken, hu]; rfl
    · have := hg.born hreg
      omega

end Step

/-- The completion a statement hands on is the one it had. -/
theorem pushed_completion {s : Server} {wsa : Bool} {i x : Stmt} (hsound : s.Sound i) (hm : x ∈ (s.exec wsa i).2)
    {j : Completion} (h : x.completion = some j) (hk : j.op.kind = .send) : i.completion = some j := by
  have hrecv : ∀ c j', i = .recvNext c j' ∨ i = .recvAsync c j' → j'.op.kind = .recv := by
    rintro c j' (rfl | rfl) <;> exact hsound.2.2
  cases i <;> simp only [exec] at hm <;> (repeat' split at hm) <;>
    simp only [List.mem_cons, List.not_mem_nil, or_false] at hm <;>
    (first | subst hm | rcases hm with rfl | rfl) <;>
    first
    | cases h; done
    | exact h
    | (cases h; exact absurd (hrecv _ _ (Or.inl rfl)) (by rw [hk]; simp))
    | (cases h; exact absurd (hrecv _ _ (Or.inr rfl)) (by rw [hk]; simp))

theorem branch_completion {op : IoOp} {r : Result} {st : List Stmt} (h : branch op r = some st) {x : Stmt} (hx : x ∈ st)
    {j : Completion} (hj : x.completion = some j) :
    j.op = op ∧ (op.kind = .send → (j.transferred : Int) ≤ op.buf.len) := by
  rcases mem_branch h hx with rfl | rfl | ⟨n, rfl, hle⟩
  · cases hj
  · cases hj
  · cases hj
    exact ⟨rfl, fun _ => hle⟩

/-- What `FlushSendBuffer` posts is the whole buffer. -/
theorem ranged_posting {s : Server} (hok : SendOk s) {op : IoOp} (hk : op.kind = .send)
    (h : op = s.posting op.kind op.client op.io) : s.Ranged op := by
  rw [hk] at h
  rw [h]
  exact ⟨rfl, (PulledBuffer.length_contents (hok op.client)).symm, List.prefix_rfl⟩

theorem sendStream_step {s : Server} {e : Ev} (hok : SendOk s) (hg : Stages s) (ha : Attributed s) (hr : Registered s)
    (ht : Tokens (s.step e)) (h : SendStream s) : SendStream (s.step e) := by
  refine ⟨?_, ?_, conserved_step hok hr h,
    fun c hc => unborn_step hok hr hg h hc (nextClient_le s e)⟩
  · intro op hop hk
    have hlive : 0 < (s.step e).sendTokens op.client := by
      have : 0 < (s.step e).flights .send op.client := List.countP_pos_iff.mpr ⟨op, hop, by simp [hk]⟩
      unfold sendTokens; omega
    rcases inflight_step hop with hop | hp
    · exact ranged_kept hok hr hg ht (hr.flying op hop) hlive (h.flying op hop hk)
    · exact ranged_kept hok hr hg ht (hp.registered ha hr) hlive (ranged_posting hok hk hp.2.1)
  · intro x hx j hj hk
    have hlive : 0 < (s.step e).sendTokens j.op.client := by
      have h1 := le_tally_of_has (Stmt.sends j.op.client) hx
      rw [sends_of_completion hj hk] at h1
      unfold sendTokens; omega
    rcases has_step hx with hx | ⟨socket, rfl⟩ | ⟨op, hop, _, _, r, st, _, _, hbr, hm⟩ |
        ⟨t, wsa, i, st, rfl, hth, hc0, hm⟩
    · obtain ⟨h1, h2⟩ := h.handled x hx j hj hk
      have hreg := (hr.about x hx).2 _ (about_of_completion hj)
      exact ⟨ranged_kept hok hr hg ht hreg hlive h1, h2⟩
    · cases hj
    · obtain ⟨rfl, hle⟩ := branch_completion hbr hm hj
      have h1 := h.flying _ hop hk
      have h2 := hle hk
      rw [h1.len] at h2
      exact ⟨ranged_kept hok hr hg ht (hr.flying _ hop) hlive h1, by omega⟩
    · have hi := has_top hth
      have hj' := pushed_completion (ha.sound i hi) hm hj hk
      obtain ⟨h1, h2⟩ := h.handled i hi j hj' hk
      have hreg := (hr.about i hi).2 _ (about_of_completion hj')
      exact ⟨ranged_kept hok hr hg ht hreg hlive h1, h2⟩

theorem sendStream_boot (n : Nat) : SendStream (boot n) :=
  ⟨fun _ hop => (nomatch hop), fun x hx => absurd hx (not_has_boot n x), fun _ => rfl, fun _ _ => rfl⟩

theorem sendStream {s : Server} (h : Reach Calm s) : SendStream s := by
  suffices hall : Reach Orderly s ∧ Registered s ∧ SendStream s from hall.2.2
  refine h.invariant (P := fun s => Reach Orderly s ∧ Registered s ∧ SendStream s) ?_ ?_
  · intro s hs
    obtain ⟨n, rfl⟩ := hs
    exact ⟨.start ⟨n, rfl⟩, registered_boot n, sendStream_boot n⟩
  · intro s e hinv hc
    obtain ⟨hr, hg, hst⟩ := hinv
    have hr' : Reach Orderly (s.step e) := .step e hr (hc.step (Orderly.bound hr) hg)
    exact ⟨hr', registered_step (attributed hr) hg hc,
      sendStream_step (sendOk hr) (Orderly.stages hr) (attributed hr) hg (tokens hr') hst⟩

/-! ## The whole path of a completion -/

def Heeded (s : Server) : Stmt → Prop
  | .checkExpired j | .checkBound j | .takeSession j => j.op.kind = .send → s.getClientObject j.op.io = some j.op.client
  | .recvBranch c j => j.op.kind = .send → c = j.op.client ∧ (s.clients c).recvOverlapped ≠ some j.op.io
  | .sendBranch c j =>
    j.op.kind = .send →
      c = j.op.client ∧ (s.clients c).sendOverlapped = some j.op.io ∧ (s.clients c).sendIoState = .pending
  | .onSend c j => c = j.op.client ∧ ∃ x, (s.clients c).onSend j.transferred = .ok x
  | _ => True

theorem heeded {s : Server} (hok : SendOk s) (hx : Fixed s) (ha : Attributed s) (ht : Tokens s) (h : SendStream s) {x : Stmt}
    (hh : s.Has x) : s.Heeded x := by
  have hsound := ha.sound x hh
  have hlink : ∀ {op : IoOp}, op.kind = .send → s.Linked op → (s.clients op.client).sendOverlapped = some op.io := by
    intro op hk hl
    unfold Linked at hl
    rwa [hk] at hl
  cases x with
  | checkExpired | checkBound | takeSession => exact fun _ => hsound.2
  | recvBranch c j =>
    obtain ⟨hl, rfl⟩ := hsound
    exact fun hk => ⟨rfl, fun hc => hx.apart _ _ hc (hlink hk hl)⟩
  | sendBranch c j =>
    obtain ⟨hl, rfl⟩ := hsound
    refine fun hk => ⟨rfl, hlink hk hl, ht.pending _ ?_⟩
    have h1 := le_tally_of_has (Stmt.sends j.op.client) hh
    rw [sends_of_completion rfl hk] at h1
    unfold sendTokens; omega
  | onSend c j =>
    obtain ⟨-, rfl, hk⟩ := hsound
    obtain ⟨h1, h2⟩ := h.handled _ hh j rfl hk
    have h3 := h1.bytes.length_le
    have h4 := PulledBuffer.length_contents (hok j.op.client)
    unfold unsent at h3
    obtain ⟨b, hb, -⟩ := TcpClient.onSend_spec (hok j.op.client) (n := j.transferred) (by omega)
    exact ⟨rfl, _, hb⟩
  | _ => trivial

/-- However writes, flushes and completions of a session interleave, while no session is torn
    down: one send in flight at most, its range a prefix of the send buffer since it was
    posted; what is acknowledged and what is buffered are the packets taken, in order; and
    no send completion is ignored or asks `ThrowAway` for more than there is. -/
theorem sends_are_in_order {s : Server} (h : Reach Calm s) (c : Nat) :
    s.flights .send c ≤ 1 ∧
    (∀ op ∈ s.inflight, op.kind = .send → op.client = c →
      op.buf.off = 0 ∧ op.buf.len = op.buf.bytes.length ∧ op.buf.bytes <+: (s.clients c).sendBuffer.contents) ∧
    s.acknowledged c ++ (s.clients c).sendBuffer.contents = s.taken c ∧
    ∀ x, s.Has x → s.Heeded x := by
  have hr := (calm h).1
  have hst := sendStream h
  refine ⟨?_, ?_, hst.conserved c, ?_⟩
  · have := (tokens hr).send c
    unfold sendTokens at this; omega
  · intro op hop hk hc
    obtain ⟨h1, h2, h3⟩ := hst.flying op hop hk
    exact ⟨h1, h2, hc ▸ h3⟩
  · intro x hx
    exact heeded (sendOk hr) (Orderly.fixed hr) (attributed hr) (tokens hr) hst hx

/-- Two packets written, the first one's send completed in part, and the rest posted again. -/
def resumedRun : List Ev :=
  [.accept 5] ++ List.replicate 9 (.run 0 true) ++ [.write 0 (.load [1, 0, 1, 0x55, 7]), .flush 0 true,
    .write 0 (.load [1, 0, 1, 0x55, 8]), .dispatch 1 1 (.sent 2)] ++ List.replicate 8 (.run 1 true)

theorem a_send_cut_short_is_resumed :
    (resumedRun.foldl step (boot 1)).acknowledged 0 = [1, 0] ∧ (resumedRun.foldl step (boot 1)).flights .send 0 = 1 ∧
      (resumedRun.foldl step (boot 1)).acknowledged 0 ++ ((resumedRun.foldl step (boot 1)).clients 0).sendBuffer.contents =
        (resumedRun.foldl step (boot 1)).taken 0 := by
  refine ⟨by rw [boot_eq]; decide +kernel, by rw [boot_eq]; decide +kernel, ?_⟩
  refine (sends_are_in_order (.run (.start ⟨1, rfl⟩) ?_) 0).2.2.1
  rw [boot_eq]; decide +kernel

end Server

end SigHolic.Network
