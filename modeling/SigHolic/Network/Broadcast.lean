/-
  SigHolic.Network.Broadcast — a packet for everybody registered (`ProcessPacket`'s broadcast
  branch, socket/TcpClient.cpp).

  The loop goes through the registry in order. A session without room ends it there, and
  what is closed is not that session but the one the packet came from.

  Proved, for every registry, every occupancy of the send buffers and every outcome of the
  flushes on the way:
  - `leads_broadcast`: who has the packet and who is closing when `ProcessPacket` returns.
  - `a_broadcast_is_isolated_iff`: every valid session with room has it, and the sender is
    not closed for another's sake, exactly when no valid session lacks room, or the first
    one that does is the sender and none behind it has any.
-/

import Mathlib.Data.List.TakeWhile
import SigHolic.Network.Closing
import SigHolic.Network.Framing
import SigHolic.Network.SendStream

namespace SigHolic.Network

open SigHolic.Base.Runs SigHolic.Utility.Buffer SigHolic.Iocp SigHolic.Socket

namespace Server

def lacksRoom (s : Server) (packet : Packet) (d : Nat) : Bool :=
  (s.clients d).isValid && !decide ((s.clients d).Fits packet)

/-- The sessions a broadcast gets to: those before the first one without room. -/
def gotTo (s : Server) (packet : Packet) : List Nat := s.registry.takeWhile fun d => !s.lacksRoom packet d

/-- The sessions a broadcast does not get to: from the first one without room on. -/
def cutOff (s : Server) (packet : Packet) : List Nat := s.registry.dropWhile fun d => !s.lacksRoom packet d

def firstLacking (s : Server) (packet : Packet) : Option Nat := (s.cutOff packet).head?

/-- What the session's send buffer gets of a packet broadcast to the sessions `done`. -/
def share (s : Server) (packet : Packet) (done : List Nat) (d : Nat) : List UInt8 :=
  if d ∈ done ∧ (s.clients d).isValid = true then packet.frame else []

structure Broadcasted (s₀ : Server) (c : Nat) (packet : Packet) (s : Server) : Prop where
  unsent : ∀ d, s.unsent d = s₀.unsent d ++ s₀.share packet (s₀.gotTo packet) d
  isClosing : s₀.cutOff packet = [] → ∀ d, (s.clients d).isClosing = (s₀.clients d).isClosing
  closes : ∀ d, s.closes d = s₀.closes d + if s₀.cutOff packet ≠ [] ∧ d = c then 1 else 0

/-! ## The loop -/

/-- Since `s₀` the thread has come to `st`, and the sessions `done` have been seen to. -/
structure Delivering (s₀ : Server) (t : Nat) (packet : Packet) (done : List Nat) (st : List Stmt) (s : Server) : Prop where
  stack : s.threads[t]? = some st
  ready : Ready s
  registry : s.registry = s₀.registry
  waiting : ∀ d, d ∉ done → (s.clients d).sendBuffer = (s₀.clients d).sendBuffer
  unsent : ∀ d, s.unsent d = s₀.unsent d ++ s₀.share packet done d
  isClosing : ∀ d, (s.clients d).isClosing = (s₀.clients d).isClosing
  closes : ∀ d, s.closes d = s₀.closes d

theorem exec_isClosing (s : Server) (wsa : Bool) {i : Stmt} (hi : s.Serves i) (hc : ∀ d, i ≠ .setClosing d) (d : Nat) :
    ((s.exec wsa i).1.clients d).isClosing = (s.clients d).isClosing := by
  refine exec_field TcpClient.isClosing s wsa (fun d x hx => ?_) d
  cases hx with
  | made => cases hi
  | closed => exact absurd rfl (hc d)
  | read hw => obtain ⟨b, n, rfl⟩ := TcpClient.readPacket_cases hw; rfl
  | echoed hw | broadcast hw => obtain ⟨b, rfl⟩ := TcpClient.writeSendBuffer_cases hw; rfl
  | sent hw => obtain ⟨b, rfl⟩ := TcpClient.onSend_cases hw; rfl
  | _ => rfl

theorem exec_closes (s : Server) (wsa : Bool) {i : Stmt} (hc : ∀ d, i ≠ .close d) (d : Nat) :
    (s.exec wsa i).1.closes d = s.closes d := by
  rw [closes, exec_log, List.countP_append, countP_noted s d hc, Nat.add_zero]
  rfl

section Loop

variable {s₀ s : Server} {c t : Nat} {j : Completion} {n : Nat} {packet : Packet} {done post : List Nat} {client : Nat}
  {st : List Stmt} {P : Server → Prop}

/-- A statement that neither writes to a session nor closes one. -/
theorem delivering_exec {i : Stmt} (h : Delivering s₀ t packet done (i :: st) s) (hi : s.Serves i) (hb : i.buffers = false)
    (hc : ∀ d, i ≠ .setClosing d ∧ i ≠ .close d)
    (k : ∀ wsa s', Delivering s₀ t packet done ((s.exec wsa i).2 ++ st) s' → Leads (advance t) P s') :
    Leads (advance t) P s := by
  refine .next fun wsa => k wsa _ ?_
  obtain ⟨hr, hk⟩ := ready_exec h.ready hi wsa 0
  have hsame := exec_sendBuffer s wsa hb
  rw [advance_eq h.ready.crashed h.stack]
  refine ⟨stack_setThread h.stack (exec_threads s wsa i) _, ⟨hr.crashed, hr.sendOk, hr.nodup, hr.equipped⟩,
    hk.registry.trans h.registry, fun d hd => (hsame d).trans (h.waiting d hd), fun d => ?_, fun d => ?_, fun d => ?_⟩
  · rw [← h.unsent d]
    exact congrArg PulledBuffer.contents (hsame d)
  · rw [← h.isClosing d]
    exact exec_isClosing s wsa hi (fun d => (hc d).1) d
  · rw [← h.closes d]
    exact exec_closes s wsa (fun d => (hc d).2) d

/-- A session passed over gets nothing. -/
theorem Delivering.passed (h : Delivering s₀ t packet done st s) (hv : (s₀.clients client).isValid = false) :
    Delivering s₀ t packet (done ++ [client]) st s := by
  refine ⟨h.stack, h.ready, h.registry, fun d hd => h.waiting d fun hm => hd (by simp [hm]), fun d => ?_, h.isClosing,
      h.closes⟩
  rw [h.unsent d]
  by_cases e : d = client
  · simp [share, e, hv]
  · simp [share, e]

/-- A session with room gets the frame. -/
theorem delivering_write (h : Delivering s₀ t packet done (.bcastWrite c j n packet client :: st) s)
    (hmem : client ∈ s₀.registry) (hd : client ∉ done) (hv : (s₀.clients client).isValid = true)
    (hf : (s₀.clients client).Fits packet)
    (k : ∀ s', Delivering s₀ t packet (done ++ [client]) (.bcastFlush c j n packet client :: st) s' →
      Leads (advance t) P s') :
    Leads (advance t) P s := by
  have hb := h.waiting client hd
  have hreg : client ∈ s.registry := h.registry ▸ hmem
  have hf' : (s.clients client).Fits packet := by unfold TcpClient.Fits at *; rw [hb]; exact hf
  obtain ⟨b, hw, hok, hct⟩ := write_taken (h.ready.sendOk client) hf' (some (c, n))
  refine .next fun wsa => k _ ?_
  have hi : s.Serves (.bcastWrite c j n packet client) := hreg
  obtain ⟨hr, hk⟩ := ready_exec h.ready hi wsa 0
  rw [advance_eq h.ready.crashed h.stack]
  have hcl : ∀ d, (s.exec wsa (.bcastWrite c j n packet client)).1.clients d =
      (s.withClient client { s.clients client with sendBuffer := b }).clients d := by
    intro d
    simp only [exec, if_pos hreg, hw]
    rfl
  have hst : (s.exec wsa (.bcastWrite c j n packet client)).2 = [.bcastFlush c j n packet client] := by
    simp only [exec, if_pos hreg, hw]
    rw [if_neg (by omega)]
  rw [hst]
  refine ⟨stack_setThread h.stack (exec_threads s wsa _) _, ⟨hr.crashed, hr.sendOk, hr.nodup, hr.equipped⟩,
    hk.registry.trans h.registry, fun d hd' => ?_, fun d => ?_, fun d => ?_, fun d => ?_⟩
  · have e : d ≠ client := by rintro rfl; simp at hd'
    rw [← h.waiting d fun hm => hd' (by simp [hm])]
    exact congrArg TcpClient.sendBuffer ((hcl d).trans (withClient_ne s _ e))
  · by_cases e : d = client
    · subst e
      have h1 := h.unsent d
      simp only [share, hd, false_and, if_false, List.append_nil] at h1
      rw [← h1]
      simpa [Server.unsent, hcl, setThread, share, hv] using hct
    · have h1 := h.unsent d
      simp only [share, List.mem_append, List.mem_singleton, e, or_false] at h1 ⊢
      rw [← h1]
      exact congrArg (fun x : TcpClient => x.sendBuffer.contents) ((hcl d).trans (withClient_ne s _ e))
  · rw [← h.isClosing d]
    exact exec_isClosing s wsa hi (by simp) d
  · rw [← h.closes d]
    exact exec_closes s wsa (by simp) d

/-- The sender is closed, and what the sessions have is left alone. -/
theorem delivering_close (h : Delivering s₀ t packet done (.close c :: .loopTail c j :: st) s)
    (k : ∀ s', s'.threads[t]? = some (.loopTail c j :: st) →
      (∀ d, s'.unsent d = s₀.unsent d ++ s₀.share packet done d) →
      (∀ d, s'.closes d = s₀.closes d + if d = c then 1 else 0) → Leads (advance t) P s') :
    Leads (advance t) P s := by
  refine .next fun wsa => .next fun wsa' => ?_
  have h1 : advance t s wsa = (s.closesocket c).setThread t (.setClosing c :: .loopTail c j :: st) :=
    advance_eq h.ready.crashed h.stack
  have ht : ((s.closesocket c).setThread t (.setClosing c :: .loopTail c j :: st)).threads[t]? =
      some (.setClosing c :: .loopTail c j :: st) := stack_setThread h.stack rfl _
  rw [h1, advance_eq (s := (s.closesocket c).setThread t (.setClosing c :: .loopTail c j :: st)) h.ready.crashed ht]
  refine k _ (stack_setThread ht rfl _) (fun d => ?_) fun d => ?_
  · rw [← h.unsent d]
    refine congrArg PulledBuffer.contents ?_
    exact exec_sendBuffer ((s.closesocket c).setThread t (.setClosing c :: .loopTail c j :: st)) wsa' (i := .setClosing c) rfl d
  · rw [← h.closes d]
    by_cases e : d = c
    · simp [closes, exec, Server.setClosing, setThread, withClient, closesocket, e]
    · simp [closes, exec, Server.setClosing, setThread, withClient, closesocket, e, Ne.symm e]

/-- A session without room ends the broadcast: what is closed is the sender. -/
theorem delivering_refused (h : Delivering s₀ t packet done (.bcastWrite c j n packet client :: st) s)
    (hmem : client ∈ s₀.registry) (hd : client ∉ done) (hf : ¬ (s₀.clients client).Fits packet)
    (k : ∀ s', s'.threads[t]? = some (.loopTail c j :: st) →
      (∀ d, s'.unsent d = s₀.unsent d ++ s₀.share packet done d) →
      (∀ d, s'.closes d = s₀.closes d + if d = c then 1 else 0) → Leads (advance t) P s') :
    Leads (advance t) P s := by
  have hb := h.waiting client hd
  have hreg : client ∈ s.registry := h.registry ▸ hmem
  have hf' : ¬ (s.clients client).Fits packet := by unfold TcpClient.Fits at *; rw [hb]; exact hf
  have hw := write_refused (h.ready.sendOk client) hf' (some (c, n))
  refine .next fun wsa => ?_
  rw [advance_eq h.ready.crashed h.stack]
  simp only [exec, if_pos hreg, hw]
  refine delivering_close ?_ k
  exact ⟨stack_setThread h.stack rfl _, h.ready.of_same rfl rfl fun _ => ⟨rfl, rfl⟩, h.registry, h.waiting, h.unsent,
    h.isClosing, h.closes⟩

/-- Where the loop stops. -/
theorem gotTo_cut (hreg : s₀.registry = done ++ client :: post) (hdone : ∀ d ∈ done, s₀.lacksRoom packet d = false)
    (hl : s₀.lacksRoom packet client = true) : s₀.gotTo packet = done ∧ s₀.cutOff packet = client :: post := by
  have hall : ∀ d ∈ done, (!s₀.lacksRoom packet d) = true := fun d hd => by rw [hdone d hd]; rfl
  constructor
  · rw [gotTo, hreg, List.takeWhile_append_of_pos hall, List.takeWhile_cons_of_neg (by simp [hl]), List.append_nil]
  · rw [cutOff, hreg, List.dropWhile_append_of_pos hall, List.dropWhile_cons_of_neg (by simp [hl])]

theorem gotTo_all (hall : ∀ d ∈ s₀.registry, s₀.lacksRoom packet d = false) :
    s₀.gotTo packet = s₀.registry ∧ s₀.cutOff packet = [] := by
  constructor
  · exact List.takeWhile_eq_self_iff.mpr fun d hd => by rw [hall d hd]; rfl
  · exact List.dropWhile_eq_nil_iff.mpr fun d hd => by rw [hall d hd]; rfl

variable (k : ∀ s', s'.threads[t]? = some (.loopTail c j :: st) → Broadcasted s₀ c packet s' → Leads (advance t) P s')
include k

/-- The loop at a session: what comes after it is `hnext`. -/
theorem leads_deliver (hreg : s₀.registry = done ++ client :: post) (hnd : s₀.registry.Nodup)
    (hdone : ∀ d ∈ done, s₀.lacksRoom packet d = false)
    (hnext : s₀.lacksRoom packet client = false → ∀ s, Delivering s₀ t packet (done ++ [client])
      (.bcastNext c j n packet client :: st) s → Leads (advance t) P s)
    (h : Delivering s₀ t packet done (.bcastCheck c j n packet client :: st) s) : Leads (advance t) P s := by
  have hd : client ∉ done := by
    rw [hreg] at hnd
    exact fun hm => (List.nodup_append.mp hnd).2.2 client hm client (by simp) rfl
  have hmem : client ∈ s₀.registry := by rw [hreg]; simp
  have hval : (s.clients client).isValid = (s₀.clients client).isValid := by unfold TcpClient.isValid; rw [h.isClosing]
  have hreg' : client ∈ s.registry := h.registry ▸ hmem
  refine delivering_exec h hreg' rfl (by simp) fun wsa s' hs => ?_
  simp only [exec, if_pos hreg'] at hs
  split at hs
  · rename_i hv
    rw [hval] at hv
    by_cases hf : (s₀.clients client).Fits packet
    · have hl : s₀.lacksRoom packet client = false := by simp [lacksRoom, hf]
      refine delivering_write hs hmem hd hv hf fun s₁ h1 => ?_
      have hm1 : client ∈ s₁.registry := h1.registry ▸ hmem
      refine delivering_exec h1 hm1 rfl (by simp) fun _ s₂ h2 => ?_
      simp only [exec, if_pos hm1] at h2
      exact delivering_exec h2 (h2.ready.equipped client (h2.registry ▸ hmem)) rfl (by simp) fun _ s₃ h3 => hnext hl s₃ h3
    · have hl : s₀.lacksRoom packet client = true := by simp [lacksRoom, hf, hv]
      obtain ⟨hg, hc⟩ := gotTo_cut hreg hdone hl
      refine delivering_refused hs hmem hd hf fun s'' h1 h2 h3 => k s'' h1 ⟨?_, ?_, ?_⟩
      · intro d
        rw [h2 d, hg]
      · intro hnil
        rw [hc] at hnil; cases hnil
      · intro d
        rw [h3 d, hc]; simp
  · rename_i hv
    rw [hval, Bool.not_eq_true] at hv
    exact hnext (by simp [lacksRoom, hv]) s' (hs.passed hv)

theorem leads_deliveries (hnd : s₀.registry.Nodup) (post : List Nat) : ∀ (done : List Nat) (client : Nat) (s : Server),
    s₀.registry = done ++ client :: post → (∀ d ∈ done, s₀.lacksRoom packet d = false) →
    Delivering s₀ t packet done (.bcastCheck c j n packet client :: st) s → Leads (advance t) P s := by
  induction post with
  | nil =>
    intro done client s hreg hdone h
    refine leads_deliver k hreg hnd hdone (fun hl s hs => ?_) h
    have hn := nextClient_split (hreg ▸ hnd)
    rw [← hreg, ← hs.registry] at hn
    have hmem : client ∈ s.registry := by rw [hs.registry, hreg]; simp
    refine delivering_exec hs hmem rfl (by simp) fun wsa s' hs' => ?_
    simp only [exec, hn] at hs'
    have hall : ∀ d ∈ s₀.registry, s₀.lacksRoom packet d = false := by
      intro d hd
      rw [hreg, List.mem_append, List.mem_singleton] at hd
      rcases hd with hd | rfl
      · exact hdone d hd
      · exact hl
    obtain ⟨hg, hc⟩ := gotTo_all hall
    refine k s' hs'.stack ⟨fun d => ?_, fun _ => hs'.isClosing, fun d => ?_⟩
    · rw [hs'.unsent d, hg, hreg]
    · rw [hs'.closes d, hc]; simp
  | cons client' post ih =>
    intro done client s hreg hdone h
    refine leads_deliver k hreg hnd hdone (fun hl s hs => ?_) h
    have hn := nextClient_split (hreg ▸ hnd)
    rw [← hreg, ← hs.registry] at hn
    have hmem : client ∈ s.registry := by rw [hs.registry, hreg]; simp
    refine delivering_exec hs hmem rfl (by simp) fun wsa s' hs' => ?_
    simp only [exec, hn] at hs'
    refine ih (done ++ [client]) client' s' (by simp [hreg]) (fun d hd => ?_) hs'
    rw [List.mem_append, List.mem_singleton] at hd
    rcases hd with hd | rfl
    · exact hdone d hd
    · exact hl

end Loop

/-- `ProcessPacket` on a packet to broadcast returns, and the broadcast has run. -/
theorem leads_broadcast {s : Server} (hr : Ready s) {c t : Nat} {j : Completion} {packet : Packet} {st : List Stmt}
    (ht : s.threads[t]? = some (.processPacket c j packet :: st)) (hsum : packet.checkSum = 0x55) (hflag : packet.flag = 0x02) :
    Leads (advance t) (fun s' => s'.threads[t]? = some (.loopTail c j :: st) ∧ Broadcasted s c packet s') s := by
  have hend : ∀ s', s'.threads[t]? = some (.loopTail c j :: st) → Broadcasted s c packet s' →
      Leads (advance t) (fun s' => s'.threads[t]? = some (.loopTail c j :: st) ∧ Broadcasted s c packet s') s' :=
    fun s' h1 h2 => .here ⟨h1, h2⟩
  refine .next fun wsa => ?_
  rw [advance_eq hr.crashed ht]
  have h0 : Delivering s t packet [] (.verifyFlag c j (s.handedTo c) packet :: st)
      ((s.exec wsa (.processPacket c j packet)).1.setThread t ((s.exec wsa (.processPacket c j packet)).2 ++ st)) := by
    simp only [exec, hsum, if_true]
    exact ⟨stack_setThread ht rfl _, hr.of_same rfl rfl fun _ => ⟨rfl, rfl⟩, rfl, fun _ _ => rfl,
      fun d => by simp [share, Server.unsent, observe, setThread], fun _ => rfl,
      fun d => by simp [closes, observe, setThread]⟩
  refine delivering_exec h0 trivial rfl (by simp) fun wsa s₁ h1 => ?_
  simp only [exec, hflag, if_true, show ¬ (0x02 : UInt8) = 0x01 by decide, if_false] at h1
  refine delivering_exec h1 trivial rfl (by simp) fun wsa s₂ h2 => ?_
  simp only [exec, h1.registry] at h2
  cases hreg : s.registry with
  | nil =>
    simp only [hreg, List.head?_nil] at h2
    have hall : ∀ d ∈ s.registry, s.lacksRoom packet d = false := by simp [hreg]
    obtain ⟨hg, hc⟩ := gotTo_all hall
    refine hend s₂ h2.stack ⟨fun d => ?_, fun _ => h2.isClosing, fun d => ?_⟩
    · rw [h2.unsent d, hg, hreg]
    · rw [h2.closes d, hc]; simp
  | cons client post =>
    simp only [hreg, List.head?_cons] at h2
    exact leads_deliveries hend hr.nodup post [] client s₂ hreg (by simp) h2

/-! ## Isolation -/

/-- Since `s₀`, every valid session with room has the packet once, and `Close` of the sender has
    not been called, unless it is itself the first to lack room. -/
structure Isolated (s₀ s : Server) (c : Nat) (packet : Packet) : Prop where
  delivered : ∀ d ∈ s₀.registry, (s₀.clients d).isValid = true → (s₀.clients d).Fits packet →
    s.unsent d = s₀.unsent d ++ packet.frame
  sender : s₀.firstLacking packet = some c ∨
    s.closes c = s₀.closes c ∧ (s.clients c).isClosing = (s₀.clients c).isClosing

/-- If a valid session lacks room, the first one that does is the sender, and nobody behind it
    has any. -/
def Unblocked (s : Server) (c : Nat) (packet : Packet) : Prop :=
  ∀ d, s.firstLacking packet = some d →
    d = c ∧ ∀ d' ∈ s.cutOff packet, (s.clients d').isValid = true → ¬ (s.clients d').Fits packet

theorem gotTo_append_cutOff (s : Server) (packet : Packet) : s.gotTo packet ++ s.cutOff packet = s.registry :=
  List.takeWhile_append_dropWhile

theorem frame_ne_nil (packet : Packet) : packet.frame ≠ [] := by
  intro h
  have h1 := congrArg List.length h
  have h2 := le_size packet
  rw [Packet.length_frame, List.length_nil] at h1
  omega

theorem isolated_iff {s₀ s : Server} {c : Nat} {packet : Packet} (hnd : s₀.registry.Nodup) (h : Broadcasted s₀ c packet s) :
    Isolated s₀ s c packet ↔ Unblocked s₀ c packet := by
  have hsplit := gotTo_append_cutOff s₀ packet
  rw [← hsplit] at hnd
  have hmem : ∀ d, d ∈ s₀.registry ↔ d ∈ s₀.gotTo packet ∨ d ∈ s₀.cutOff packet := by
    intro d
    rw [← hsplit, List.mem_append]
  constructor
  · intro hi x hx
    have hcut : s₀.cutOff packet ≠ [] := by rintro e; rw [firstLacking, e] at hx; cases hx
    refine ⟨?_, ?_⟩
    · -- the loop has ended at `x`, so `Close` has been called once more
      rcases hi.sender with hs | ⟨hs, -⟩
      · exact Option.some.inj (hx.symm.trans hs)
      · have hc := h.closes c
        rw [if_pos ⟨hcut, rfl⟩] at hc
        omega
    · intro d hd hv hf
      -- a session behind the cut has got nothing
      have h1 := hi.delivered d ((hmem d).mpr (Or.inr hd)) hv hf
      have h2 : d ∉ s₀.gotTo packet := fun hg => (List.nodup_append.mp hnd).2.2 d hg d hd rfl
      rw [h.unsent d] at h1
      simp only [share, h2, false_and, if_false] at h1
      exact frame_ne_nil packet (List.append_cancel_left h1).symm
  · intro hcase
    cases hx : s₀.firstLacking packet with
    | none =>
      have hnil : s₀.cutOff packet = [] := List.head?_eq_none_iff.mp hx
      refine ⟨?_, Or.inr ⟨?_, h.isClosing hnil c⟩⟩
      · intro d hd hv _
        rw [hmem, hnil] at hd
        rw [h.unsent d]
        simp [share, hv, hd.resolve_right (by simp)]
      · rw [h.closes c, if_neg (by simp [hnil]), Nat.add_zero]
    | some x =>
      obtain ⟨rfl, hcut⟩ := hcase x hx
      refine ⟨?_, Or.inl hx⟩
      intro d hd hv hf
      rcases (hmem d).mp hd with hg | hc
      · rw [h.unsent d]; simp [share, hv, hg]
      · exact absurd hf (hcut d hc hv)

/-- For every registry, every occupancy of the send buffers and every packet to broadcast,
    whatever the flushes on the way come to: `ProcessPacket` returns; every valid session
    with room has the packet once and `Close` is not called for another's sake exactly when
    `Unblocked`. -/
theorem a_broadcast_is_isolated_iff {s : Server} (hr : Ready s) {c t : Nat} {j : Completion} {packet : Packet} {st : List Stmt}
    (ht : s.threads[t]? = some (.processPacket c j packet :: st)) (hsum : packet.checkSum = 0x55) (hflag : packet.flag = 0x02) :
    Leads (advance t) (fun s' => s'.threads[t]? = some (.loopTail c j :: st) ∧
      (Isolated s s' c packet ↔ Unblocked s c packet)) s :=
  (leads_broadcast hr ht hsum hflag).mono fun _ h => ⟨h.1, isolated_iff hr.nodup h.2⟩

def Broadcasts (s : Server) (t c : Nat) (j : Completion) (packet : Packet) : Prop :=
  s.threads[t]? = some [.processPacket c j packet] ∧ packet.checkSum = 0x55 ∧ packet.flag = 0x02 ∧ 0 < packet.dataSize

def broadcaster (s : Server) (t c : Nat) : Option (Completion × Packet) :=
  match s.threads[t]? with
  | some [.processPacket c' j packet] =>
    if c' = c ∧ packet.checkSum = 0x55 ∧ packet.flag = 0x02 ∧ 0 < packet.dataSize then some (j, packet) else none
  | _ => none

theorem broadcasts_of_some {s : Server} {t c : Nat} (h : (s.broadcaster t c).isSome = true) :
    ∃ j packet, s.Broadcasts t c j packet := by
  unfold broadcaster at h
  split at h
  · rename_i ht
    split at h
    · rename_i hp
      obtain ⟨rfl, hp⟩ := hp
      exact ⟨_, _, ht, hp⟩
    · cases h
  · cases h

/-- Three sessions; the first receives a packet to broadcast, and calls `ProcessPacket`. -/
def crowd : List Ev :=
  [.accept 5] ++ List.replicate 9 (.run 0 true) ++ [.accept 6] ++ List.replicate 9 (.run 0 true) ++
    [.accept 7] ++ List.replicate 9 (.run 0 true)

def broadcastRun (writes : List Ev) : List Ev :=
  crowd ++ writes ++ [.dispatch 1 0 (.received [1, 0, 2, 0x55, 7])] ++ List.replicate 7 (.run 1 true)

theorem with_room_everybody_has_it :
    ∃ j packet, (broadcastRun [] |>.foldl step (boot 1)).Broadcasts 1 0 j packet ∧
      Leads (advance 1) (fun s' => s'.threads[1]? = some [.loopTail 0 j] ∧
        (Isolated (broadcastRun [] |>.foldl step (boot 1)) s' 0 packet ↔
          Unblocked (broadcastRun [] |>.foldl step (boot 1)) 0 packet)) (broadcastRun [] |>.foldl step (boot 1)) := by
  obtain ⟨j, packet, h⟩ := broadcasts_of_some (s := broadcastRun [] |>.foldl step (boot 1)) (t := 1) (c := 0)
    (by rw [boot_eq]; decide +kernel)
  refine ⟨j, packet, h, a_broadcast_is_isolated_iff (.of_reach (.any ⟨1, rfl⟩ _) ?_) h.1 h.2.1 h.2.2.1⟩
  rw [boot_eq]; decide +kernel

def processed (s : Server) (t c : Nat) : Bool :=
  match s.threads[t]? with
  | some [.loopTail c' _] => c' == c
  | _ => false

def fill : List Ev :=
  List.replicate 3 (.write 1 (.load [0xff, 0xff, 1, 0x55])) ++ [.write 1 (.load [0xf3, 0xff, 1, 0x55])]

/-- Not every broadcast is isolated: with the second of three sessions full, the third gets
    nothing and the sender is closed. -/
theorem a_full_session_stops_a_broadcast :
    ¬ ∀ s, Reach (fun _ _ => True) s → ∀ t c j packet, s.Broadcasts t c j packet → ∀ n,
      ((List.replicate n true).foldl (advance t) s).processed t c = true →
      (∀ m < n, ((List.replicate m true).foldl (advance t) s).processed t c = false) →
      Isolated s ((List.replicate n true).foldl (advance t) s) c packet := by
  intro h
  obtain ⟨j, packet, hb⟩ := broadcasts_of_some (s := (broadcastRun fill).foldl step (boot 1)) (t := 1) (c := 0)
    (by rw [boot_eq]; decide +kernel)
  have hi := h _ (.any ⟨1, rfl⟩ (broadcastRun fill)) 1 0 j packet hb 12 (by rw [boot_eq]; decide +kernel)
    (by rw [boot_eq]; decide +kernel)
  have h0 : (((broadcastRun fill).foldl step (boot 1)).clients 2).sendBuffer.length = 0 := by rw [boot_eq]; decide +kernel
  have h1 : (((List.replicate 12 true).foldl (advance 1) ((broadcastRun fill).foldl step (boot 1))).unsent 2).length = 0 := by
    rw [boot_eq]; decide +kernel
  have hlt := packet.dataSize_lt
  have hd := hi.delivered 2 (by rw [boot_eq]; decide +kernel) (by rw [boot_eq]; decide +kernel) (by
    unfold TcpClient.Fits Packet.size packetHeaderSize bufferSize
    rw [h0]
    omega)
  rw [hd, List.length_append, Packet.length_frame] at h1
  have := le_size packet
  omega

end Server

end SigHolic.Network
