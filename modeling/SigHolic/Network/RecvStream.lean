/-
  SigHolic.Network.RecvStream — a session's incoming bytes (`OnReceived` and
  `TryProcessPacket`, socket/TcpClient.cpp).

  Bytes received stand behind the contents of the receive buffer, are counted, and leave it
  frame by frame for `ProcessPacket`, each step in the hands of the one thread that has
  the session's receive.

  Proved, while no session is torn down: the frames the reference parser finds in what a
  session received are those handed on, the one being read and those still buffered, in
  order (`recvStream`).
-/

import SigHolic.Network.Calm
import SigHolic.Network.RecvSide

namespace SigHolic.Network

open SigHolic.Base.Area SigHolic.Base.Tally SigHolic.Utility.Buffer SigHolic.Iocp SigHolic.Socket

def Obs.arrived (c : Nat) : Obs → List UInt8
  | .received c' data => if c' = c then data else []
  | _ => []

def Obs.handedFrame (c : Nat) : Obs → List (List UInt8)
  | .handed c' _ packet => if c' = c then [packet.frame] else []
  | _ => []

namespace Stmt

def landing (c : Nat) (x : Stmt) : Nat :=
  match x.arriving with
  | some j => if j.op.kind = .recv ∧ j.op.client = c then j.transferred else 0
  | none => 0

def reads (c : Nat) : Stmt → List (List UInt8)
  | .processPacket _ j packet => if j.op.kind = .recv ∧ j.op.client = c then [packet.frame] else []
  | _ => []

def fills : Stmt → Bool
  | .newSession _ | .onReceived _ _ | .processLoop _ _ => true
  | _ => false

end Stmt

namespace Server

/-! ## The stream -/

/-- The bytes the system has stored for the session. -/
def receivedBy (s : Server) (c : Nat) : List UInt8 := s.log.flatMap (Obs.arrived c)

def handedFrames (s : Server) (c : Nat) : List (List UInt8) := s.log.flatMap (Obs.handedFrame c)

def reading (s : Server) (c : Nat) : List (List UInt8) := gather (Stmt.reads c) s.threads

/-- The bytes stored behind the contents and not counted yet. -/
def stored (s : Server) (c : Nat) : List UInt8 :=
  slice (s.clients c).recvBuffer.buffer (s.clients c).recvBuffer.length.toNat (tally (Stmt.landing c) s.threads)

def unread (s : Server) (c : Nat) : List UInt8 := (s.clients c).recvBuffer.contents

/-- The frames of what was received are those handed on, the one being read and those still
    buffered. -/
structure Parsed (s : Server) (c : Nat) : Prop where
  handed : frames (s.receivedBy c) = s.handedFrames c ++ s.reading c ++ frames (s.unread c ++ s.stored c)
  left : residue (s.receivedBy c) = residue (s.unread c ++ s.stored c)

structure RecvStream (s : Server) : Prop where
  parsed : ∀ c, s.Parsed c
  unborn : ∀ c, s.nextClient ≤ c → s.receivedBy c = []

/-- The bytes themselves. -/
theorem Parsed.bytes {s : Server} {c : Nat} (h : s.Parsed c) :
    (s.handedFrames c ++ s.reading c).flatten ++ (s.unread c ++ s.stored c) = s.receivedBy c := by
  have h1 := Base.Framing.parse_flatten wireSize_settled (s.receivedBy c)
  have h2 := Base.Framing.parse_flatten wireSize_settled (s.unread c ++ s.stored c)
  have h3 := h.handed
  have h4 := h.left
  simp only [frames, residue] at h3 h4
  rw [h3, h4, List.flatten_append, List.append_assoc, h2] at h1
  exact h1

theorem log_quiet (s s' : Server) (new : List Obs) (hl : s'.log = s.log ++ new) {c : Nat}
    (hn : ∀ x ∈ new, x.arrived c = [] ∧ x.handedFrame c = []) :
    s'.receivedBy c = s.receivedBy c ∧ s'.handedFrames c = s.handedFrames c := by
  have ha : new.flatMap (Obs.arrived c) = [] := List.flatMap_eq_nil_iff.mpr fun x hx => (hn x hx).1
  have hh : new.flatMap (Obs.handedFrame c) = [] := List.flatMap_eq_nil_iff.mpr fun x hx => (hn x hx).2
  simp only [receivedBy, handedFrames, hl, List.flatMap_append, ha, hh, List.append_nil, and_self]

theorem parsed_same {s s' : Server} {c : Nat} (h : s.Parsed c) (new : List Obs) (hl : s'.log = s.log ++ new)
    (hn : ∀ x ∈ new, x.arrived c = [] ∧ x.handedFrame c = [])
    (hb : (s'.clients c).recvBuffer = (s.clients c).recvBuffer) (hr : s'.reading c = s.reading c)
    (hld : tally (Stmt.landing c) s'.threads = tally (Stmt.landing c) s.threads) : s'.Parsed c := by
  obtain ⟨h1, h2⟩ := log_quiet _ _ _ hl hn
  have h3 : s'.unread c = s.unread c := by simp only [unread, hb]
  have h4 : s'.stored c = s.stored c := by simp only [stored, hb, hld]
  exact ⟨by rw [h1, h2, h3, h4, hr]; exact h.handed, by rw [h1, h3, h4]; exact h.left⟩

/-! ### Statements -/

theorem landing_of_receives (c : Nat) {x : Stmt} (h : x.receives c = 0) : x.landing c = 0 := by
  cases x <;> simp_all [Stmt.receives, Stmt.landing, Stmt.arriving]

theorem reads_of_receives (c : Nat) {x : Stmt} (h : x.receives c = 0) : x.reads c = [] := by
  cases x <;> simp_all [Stmt.receives, Stmt.reads]

/-- A receive not counted yet is handed on from statement to statement, up to `OnReceived`. -/
theorem exec_landing {s : Server} (h : RecvSide s) (wsa : Bool) {i : Stmt} (hh : s.Has i) (hs : s.Sound i)
    (hi : ∀ c j, i ≠ .onReceived c j) (c : Nat) : weight (Stmt.landing c) (s.exec wsa i).2 = i.landing c := by
  cases i with
  | onReceived c' j => exact absurd rfl (hi c' j)
  | checkExpired j | checkBound j | takeSession j => simp [exec, hs.2, Stmt.landing, Stmt.arriving]
  | recvBranch c' j =>
    obtain ⟨hl, rfl⟩ := hs
    by_cases hk : j.op.kind = .recv
    · have hp := (h.arriving _ hh j rfl hk).1.pending
      have ho : (s.clients j.op.client).recvOverlapped = some j.op.io := by
        unfold Linked at hl
        rwa [hk] at hl
      simp [exec, hp, ho, Stmt.landing, Stmt.arriving]
    · simp only [exec]
      split <;> simp [Stmt.landing, Stmt.arriving, hk]
  | _ =>
    simp only [exec]
    (repeat' split) <;> simp [Stmt.landing, Stmt.arriving]

theorem exec_reads (s : Server) (wsa : Bool) {i : Stmt} (hi : ∀ c j, i ≠ .processLoop c j)
    (hi' : ∀ c j packet, i ≠ .processPacket c j packet) (c : Nat) : (s.exec wsa i).2.flatMap (Stmt.reads c) = i.reads c := by
  cases i with
  | processLoop c' j => exact absurd rfl (hi c' j)
  | processPacket c' j packet => exact absurd rfl (hi' c' j packet)
  | _ =>
    simp only [exec]
    (repeat' split) <;> simp [Stmt.reads]

theorem noted_recv (s : Server) {i : Stmt} (hi : ∀ c j packet, i ≠ .processPacket c j packet) (c : Nat) :
    ∀ x ∈ s.noted i, x.arrived c = [] ∧ x.handedFrame c = [] := by
  cases i with
  | processPacket c' j packet => exact absurd rfl (hi c' j packet)
  | echo =>
    intro x hx
    rw [mem_wroteBy hx]
    exact ⟨rfl, rfl⟩
  | bcastWrite =>
    intro x hx
    rw [mem_wroteBy (mem_noted_write hx)]
    exact ⟨rfl, rfl⟩
  | _ =>
    simp only [noted]
    (repeat' split) <;> simp [Obs.arrived, Obs.handedFrame]

/-- With the session's receive at the top of a stack, all that is under way of it is there. -/
theorem alone_at {s : Server} (hk : Tokens s) {t c : Nat} (wsa : Bool) {i : Stmt} {st : List Stmt}
    (ht : s.threads[t]? = some (i :: st)) (hi : i.receives c = 1) :
    tally (Stmt.landing c) s.threads = i.landing c ∧ s.reading c = i.reads c ∧
      (s.run t wsa).reading c = (s.exec wsa i).2.flatMap (Stmt.reads c) := by
  have h1 : tally (Stmt.receives c) s.threads ≤ 1 := by
    have := hk.recv c
    unfold recvTokens at this; omega
  have hg := gather_alone (fun a => reads_of_receives c (x := a)) ht h1 (by omega)
  refine ⟨tally_alone (fun a => landing_of_receives c (x := a)) ht h1 (by omega), hg.1, ?_⟩
  have hth : (s.run t wsa).threads = s.threads.set t ((s.exec wsa i).2 ++ st) := by
    simp only [run, ht, setThread, exec_threads]
  simp only [reading, hth]
  exact hg.2 _

section Run

variable {s : Server} {t : Nat} {wsa : Bool} {c : Nat} {st : List Stmt} (h : s.Parsed c)
include h

theorem parsed_quiet {i : Stmt} (ht : s.threads[t]? = some (i :: st))
    (hb : ((s.exec wsa i).1.clients c).recvBuffer = (s.clients c).recvBuffer)
    (hn : ∀ x ∈ s.noted i, x.arrived c = [] ∧ x.handedFrame c = [])
    (hr : (s.exec wsa i).2.flatMap (Stmt.reads c) = i.reads c)
    (hld : weight (Stmt.landing c) (s.exec wsa i).2 = i.landing c) : (s.run t wsa).Parsed c := by
  have hth : (s.run t wsa).threads = s.threads.set t ((s.exec wsa i).2 ++ st) := by
    simp only [run, ht, setThread, exec_threads]
  have hl : (s.run t wsa).log = s.log ++ s.noted i := by
    simp only [run, ht]
    exact exec_log s wsa i
  refine parsed_same h _ hl hn ?_ ?_ ?_
  · simp only [run, ht]
    exact hb
  · simp only [reading, hth]
    refine gather_set _ ht ?_
    rw [List.flatMap_append, List.flatMap_cons, hr]
  · have := tally_run (Stmt.landing c) wsa ht
    omega

variable (hk : Tokens s)
include hk

/-- `OnReceived`: the bytes stored behind the contents become part of them. -/
theorem parsed_onReceived (hr : RecvSide s) {j : Completion} (hrecv : j.op.kind = .recv) (hc : j.op.client = c)
    (ht : s.threads[t]? = some (.onReceived c j :: st)) : (s.run t wsa).Parsed c := by
  subst hc
  obtain ⟨hw, hle⟩ := hr.arriving _ (has_top ht) j rfl hrecv
  rw [hw.len] at hle
  obtain ⟨-, hct⟩ := PulledBuffer.forceAddLength_spec (hr.ok j.op.client) hle
  obtain ⟨h1, h2, h3⟩ := alone_at hk (c := j.op.client) wsa ht (by simp [Stmt.receives, hrecv])
  simp only [Stmt.landing, Stmt.arriving, hrecv, and_self, if_true] at h1
  have h4 := tally_run (Stmt.landing j.op.client) wsa ht
  simp only [exec, Stmt.landing, Stmt.arriving, hrecv, and_self, if_true, weight_cons, weight_nil] at h4
  have hcl : (s.run t wsa).unread j.op.client = s.unread j.op.client ++ s.stored j.op.client := by
    simp only [unread, stored, h1]
    rw [← hct]
    simp [run, ht, exec, setThread, withClient, TcpClient.addReceived]
  have hst : (s.run t wsa).stored j.op.client = [] := by
    have h5 : tally (Stmt.landing j.op.client) (s.run t wsa).threads = 0 := by omega
    rw [stored, h5, slice_zero]
  obtain ⟨h5, h6⟩ := log_quiet s (s.run t wsa) [] (c := j.op.client)
    (by simp [run, ht, exec, setThread, withClient]) (by simp)
  have h7 : (s.run t wsa).reading j.op.client = s.reading j.op.client := by rw [h3, h2]; rfl
  refine ⟨?_, ?_⟩
  · rw [h5, h6, h7, hcl, hst, List.append_nil]; exact h.handed
  · rw [h5, hcl, hst, List.append_nil]; exact h.left

/-- `ProcessPacket` is called with the frame read. -/
theorem parsed_processPacket {j : Completion} {packet : Packet} (hrecv : j.op.kind = .recv) (hc : j.op.client = c)
    (ht : s.threads[t]? = some (.processPacket c j packet :: st)) : (s.run t wsa).Parsed c := by
  subst hc
  obtain ⟨-, h2, h3⟩ := alone_at hk (c := j.op.client) wsa ht (by simp [Stmt.receives, hrecv])
  have h4 := tally_run (Stmt.landing j.op.client) wsa ht
  have h5 : (s.run t wsa).log = s.log ++ [.handed j.op.client (s.handedTo j.op.client) packet] := by
    simp only [run, ht]
    exact exec_log s wsa _
  have h6 : (s.run t wsa).handedFrames j.op.client = s.handedFrames j.op.client ++ s.reading j.op.client := by
    rw [h2]
    simp [handedFrames, h5, Obs.handedFrame, Stmt.reads, hrecv]
  have h7 : (s.run t wsa).receivedBy j.op.client = s.receivedBy j.op.client := by simp [receivedBy, h5, Obs.arrived]
  have h8 : (s.run t wsa).reading j.op.client = [] := by
    rw [h3]
    simp only [exec]
    split <;> simp [Stmt.reads]
  have h9 : (s.run t wsa).clients = s.clients := by simp [run, ht, exec, setThread, observe]
  have h10 : (s.run t wsa).stored j.op.client = s.stored j.op.client := by
    have hw : weight (Stmt.landing j.op.client) (s.exec wsa (.processPacket j.op.client j packet)).2 = 0 := by
      simp only [exec]
      split <;> simp [Stmt.landing, Stmt.arriving]
    rw [hw] at h4
    simp only [stored, h9]
    congr 1
  have h11 : (s.run t wsa).unread j.op.client = s.unread j.op.client := by simp only [unread, h9]
  refine ⟨?_, ?_⟩
  · rw [h7, h6, h8, h10, h11, List.append_nil]; exact h.handed
  · rw [h7, h10, h11]; exact h.left

/-- A round of `TryProcessPacket`'s loop reads the first frame of the contents. -/
theorem parsed_processLoop (hr : RecvSide s) {j : Completion} (hrecv : j.op.kind = .recv) (hc : j.op.client = c)
    (ht : s.threads[t]? = some (.processLoop c j :: st)) : (s.run t wsa).Parsed c := by
  subst hc
  rcases hw : (s.clients j.op.client).readPacket with f | _ | ⟨packet, x⟩
  · refine parsed_quiet h ht ?_ (noted_recv s (by simp) _) ?_ ?_ <;>
      simp [exec, hw, crash, Stmt.reads, Stmt.landing, Stmt.arriving]
  · refine parsed_quiet h ht ?_ (noted_recv s (by simp) _) ?_ ?_ <;>
      simp [exec, hw, Stmt.reads, Stmt.landing, Stmt.arriving]
  obtain ⟨-, hf, hl⟩ := TcpClient.readPacket_took (hr.ok j.op.client) hw
  obtain ⟨h1, h2, h3⟩ := alone_at hk (c := j.op.client) wsa ht (by simp [Stmt.receives, hrecv])
  have h4 := tally_run (Stmt.landing j.op.client) wsa ht
  simp only [exec, hw, Stmt.landing, Stmt.arriving, weight_cons, weight_nil] at h1 h4
  have hst : s.stored j.op.client = [] := by
    rw [stored, h1, slice_zero]
  have hst' : (s.run t wsa).stored j.op.client = [] := by
    rw [stored, show tally (Stmt.landing j.op.client) (s.run t wsa).threads = 0 by omega, slice_zero]
  have hcl : (s.run t wsa).unread j.op.client = x.recvBuffer.contents := by
    simp [unread, run, ht, exec, hw, setThread, withClient]
  obtain ⟨h5, h6⟩ := log_quiet s (s.run t wsa) [] (c := j.op.client)
    (by simp [run, ht, exec, hw, setThread, withClient]) (by simp)
  have h7 : (s.run t wsa).reading j.op.client = [packet.frame] := by
    rw [h3]
    simp [exec, hw, Stmt.reads, hrecv]
  have h8 : s.reading j.op.client = [] := h2
  have h9 := h.handed
  have h10 := h.left
  rw [h8, hst, List.append_nil, List.append_nil, unread, hf] at h9
  rw [hst, List.append_nil, unread, hl] at h10
  refine ⟨?_, ?_⟩
  · rw [h5, h6, h7, hcl, hst', h9, List.append_nil, List.append_assoc]; rfl
  · rw [h5, hcl, hst', h10, List.append_nil]

end Run

theorem exec_recvBuffer (s : Server) (wsa : Bool) {i : Stmt} (h : i.fills = false) (d : Nat) :
    ((s.exec wsa i).1.clients d).recvBuffer = (s.clients d).recvBuffer := by
  refine exec_field TcpClient.recvBuffer s wsa (fun d x hx => ?_) d
  cases hx with
  | made | received | read => cases h
  | echoed hw | broadcast hw => obtain ⟨b, rfl⟩ := TcpClient.writeSendBuffer_cases hw; rfl
  | sent hw => obtain ⟨b, rfl⟩ := TcpClient.onSend_cases hw; rfl
  | _ => rfl

/-- The session made has received nothing. -/
theorem parsed_newSession {s : Server} {t c socket : Nat} {wsa : Bool} {st : List Stmt} (h : RecvStream s)
    (ht : s.threads[t]? = some (.newSession socket :: st)) (hc : c = s.nextClient) : (s.run t wsa).Parsed c := by
  have hnil := h.unborn c (by omega)
  have hb := (h.parsed c).bytes
  rw [hnil, List.append_eq_nil_iff, List.append_eq_nil_iff] at hb
  obtain ⟨-, -, hst⟩ := hb
  have hh := (h.parsed c).handed
  rw [hnil] at hh
  have hld : tally (Stmt.landing c) (s.run t wsa).threads = 0 := by
    have h1 := congrArg List.length hst
    have h2 := tally_run (Stmt.landing c) wsa ht
    simp only [stored, length_slice, List.length_nil] at h1
    simp only [exec, Stmt.landing, Stmt.arriving, weight_cons, weight_nil] at h2
    omega
  have hrd : (s.run t wsa).reading c = s.reading c := by
    simp only [reading, run, ht, setThread, exec_threads]
    exact gather_set _ ht (by simp [exec, Stmt.reads])
  have hun : (s.run t wsa).unread c = [] := by
    simp [unread, run, ht, exec, setThread, newClient, hc, TcpClient.new]
  have hst' : (s.run t wsa).stored c = [] := by rw [stored, hld, slice_zero]
  obtain ⟨h5, h6⟩ := log_quiet s (s.run t wsa) [] (c := c)
    (by simp [run, ht, exec, setThread, newClient]) (by simp)
  have hfr : frames ([] : List UInt8) = [] := rfl
  rw [hfr] at hh
  obtain ⟨hh, -⟩ := List.append_eq_nil_iff.mp hh.symm
  refine ⟨?_, ?_⟩
  · rw [h5, h6, hrd, hun, hst', hnil, hh]; rfl
  · rw [h5, hun, hst', hnil]; rfl

theorem parsed_run {s : Server} {t c : Nat} {wsa : Bool} {i : Stmt} {st : List Stmt} (ha : Attributed s) (hk : Tokens s)
    (hr : RecvSide s) (h : RecvStream s) (ht : s.threads[t]? = some (i :: st)) : (s.run t wsa).Parsed c := by
  have hsound := ha.sound i (has_top ht)
  have hl : ∀ {i : Stmt}, s.threads[t]? = some (i :: st) → (∀ c j, i ≠ .onReceived c j) →
      weight (Stmt.landing c) (s.exec wsa i).2 = i.landing c :=
    fun ht hi => exec_landing hr wsa (has_top ht) (ha.sound _ (has_top ht)) hi c
  cases i with
  | newSession socket =>
    by_cases e : c = s.nextClient
    · exact parsed_newSession h ht e
    · exact parsed_quiet (h.parsed c) ht (by simp [exec, newClient, e]) (noted_recv s (by simp) c)
        (exec_reads s wsa (by simp) (by simp) c) (hl ht (by simp))
  | onReceived c' j =>
    obtain ⟨-, hcl, hrecv⟩ := hsound
    by_cases e : c = c'
    · subst e; exact parsed_onReceived (h.parsed c) hk hr hrecv hcl.symm ht
    · refine parsed_quiet (h.parsed c) ht (by simp [exec, withClient, e]) (noted_recv s (by simp) c)
        (exec_reads s wsa (by simp) (by simp) c) ?_
      simp [exec, Stmt.landing, Stmt.arriving, ← hcl, Ne.symm e]
  | processLoop c' j =>
    obtain ⟨-, hcl, hrecv⟩ := hsound
    by_cases e : c = c'
    · subst e; exact parsed_processLoop (h.parsed c) hk hr hrecv hcl.symm ht
    · refine parsed_quiet (h.parsed c) ht ?_ (noted_recv s (by simp) c) ?_ (hl ht (by simp))
      · simp only [exec]
        split
        · rfl
        · rfl
        · rename_i x _
          exact congrArg TcpClient.recvBuffer (withClient_ne s x e)
      · simp only [exec]
        split <;> simp [Stmt.reads, ← hcl, Ne.symm e]
  | processPacket c' j packet =>
    obtain ⟨-, hcl, hrecv⟩ := hsound
    by_cases e : c = c'
    · subst e; exact parsed_processPacket (h.parsed c) hk hrecv hcl.symm ht
    · refine parsed_quiet (h.parsed c) ht rfl ?_ ?_ (hl ht (by simp))
      · simp [noted, Obs.arrived, Obs.handedFrame, Ne.symm e]
      · simp only [exec]
        split <;> simp [Stmt.reads, ← hcl, Ne.symm e]
  | _ =>
    exact parsed_quiet (h.parsed c) ht (exec_recvBuffer s wsa rfl c) (noted_recv s (by simp) c)
      (exec_reads s wsa (by simp) (by simp) c) (hl ht (by simp))

/-! ### Completions -/

theorem branch_landing {op : IoOp} {r : Result} {st : List Stmt} (h : branch op r = some st) (c : Nat) :
    weight (Stmt.landing c) st = (match r with | .received data => if op.client = c then data.length else 0 | _ => 0) ∧
      st.flatMap (Stmt.reads c) = [] := by
  rcases branch_cases h with ⟨he, hst⟩ | ⟨-, n, rfl, -, ⟨data, rfl, rfl, hk⟩ | ⟨rfl, hk⟩⟩
  · have h0 : weight (Stmt.landing c) st = 0 ∧ st.flatMap (Stmt.reads c) = [] := by
      rcases hst with rfl | rfl <;> simp [failedBranch, Stmt.landing, Stmt.arriving, Stmt.reads]
    refine ⟨h0.1.trans ?_, h0.2⟩
    cases r with
    | received data =>
      have hnil : data.length = 0 := by simpa [Result.empty] using he
      simp [hnil]
    | failed | sent => rfl
  · simp [Stmt.landing, Stmt.arriving, Stmt.reads, hk]
  · simp [Stmt.landing, Stmt.arriving, Stmt.reads, hk]

/-- A receive completes: its bytes stand behind the contents, and nothing else of the session is
    under way. -/
theorem parsed_received {s s' : Server} {i : Nat} {op : IoOp} {data : List UInt8} (hk : Tokens s) (hr : RecvSide s)
    (h : s.Parsed op.client) (hop : s.inflight[i]? = some op) (hrecv : op.kind = .recv)
    (hl : s'.log = s.log ++ [.received op.client data]) (hb : (s'.clients op.client).recvBuffer =
      (s.clients op.client).recvBuffer.store op.buf.off data) (hrd : s'.reading op.client = s.reading op.client)
    (hld : tally (Stmt.landing op.client) s'.threads = tally (Stmt.landing op.client) s.threads + data.length) :
    s'.Parsed op.client := by
  have hm := List.mem_of_getElem? hop
  have h0 : tally (Stmt.receives op.client) s.threads = 0 := by
    have h1 := hk.recv op.client
    have h2 : 0 < s.flights .recv op.client := List.countP_pos_iff.mpr ⟨op, hm, by simp [hrecv]⟩
    unfold recvTokens at h1; omega
  have hland : tally (Stmt.landing op.client) s.threads = 0 := by
    rw [tally_eq_zero] at h0 ⊢
    exact fun st hst x hx => landing_of_receives _ (h0 st hst x hx)
  have hread : s.reading op.client = [] := gather_eq_nil (fun a => reads_of_receives _ (x := a)) h0
  have hst : s.stored op.client = [] := by rw [stored, hland, slice_zero]
  have hoff := (hr.flying op hm hrecv).off
  have hun : s'.unread op.client = s.unread op.client := by
    rw [unread, hb, hoff, PulledBuffer.store_contents]; rfl
  have hst' : s'.stored op.client = data := by
    rw [stored, hb, hoff, hld, hland, Nat.zero_add]
    exact slice_blit_self _ _ _
  have hrc : s'.receivedBy op.client = s.receivedBy op.client ++ data := by simp [receivedBy, hl, Obs.arrived]
  have hhf : s'.handedFrames op.client = s.handedFrames op.client := by simp [handedFrames, hl, Obs.handedFrame]
  have h1 := h.handed
  have h2 := h.left
  rw [hread, hst, List.append_nil, List.append_nil] at h1
  rw [hst, List.append_nil] at h2
  refine ⟨?_, ?_⟩
  · rw [hrc, hhf, hrd, hread, hun, hst', frames_append, h1, h2, List.append_nil, List.append_assoc, ← frames_append]
  · rw [hrc, hun, hst', residue_append, h2, ← residue_append]

theorem parsed_dispatch {s : Server} {t i c : Nat} {r : Result} (hk : Tokens s) (hr : RecvSide s) (h : s.Parsed c) :
    (s.dispatch t i r).Parsed c := by
  rcases dispatch_cases s t i r with he | ⟨op, st, -, h0, hop, hb, he⟩
  · rw [he]; exact h
  obtain ⟨hw, hrd⟩ := branch_landing hb c
  have hth : (s.dispatch t i r).threads = s.threads.set t st := by simp only [he, setThread, land_threads]
  have hrd' : (s.dispatch t i r).reading c = s.reading c := by
    simp only [reading, hth]
    exact gather_set _ h0 (by rw [hrd]; rfl)
  have hld := tally_set (Stmt.landing c) h0 st
  rw [weight_nil, ← hth, hw, Nat.add_zero] at hld
  cases r with
  | failed => exact parsed_same h [] (by simp [he, land, setThread]) (by simp) (by rw [he]; rfl) hrd' hld
  | sent n => exact parsed_same h [] (by simp [he, land, setThread]) (by simp) (by rw [he]; rfl) hrd' hld
  | received data =>
    have hlog : (s.dispatch t i (.received data)).log = s.log ++ [.received op.client data] := by
      simp [he, land, setThread, observe, withClient]
    by_cases e : op.client = c
    · subst e
      have hrecv : op.kind = .recv := by
        simp only [branch, Option.ite_none_right_eq_some] at hb
        exact hb.1.1
      refine parsed_received hk hr h hop hrecv hlog ?_ hrd' (by simpa using hld)
      simp [he, land, setThread, observe, withClient]
    · refine parsed_same h _ hlog (by simp [Obs.arrived, Obs.handedFrame, e]) ?_ hrd' (by simpa [e] using hld)
      simp [he, land, setThread, observe, withClient, Ne.symm e]

/-! ### Runs -/

theorem parsed_step {s : Server} {e : Ev} (ha : Attributed s) (hk : Tokens s) (hr : RecvSide s) (h : RecvStream s) (c : Nat) :
    (s.step e).Parsed c := by
  have hp := h.parsed c
  by_cases hc : s.crashed = none
  case neg => rw [step_crashed hc]; exact hp
  rw [step_eq hc]
  cases e with
  | accept socket =>
    rcases accept_cases s socket with he | ⟨h0, hth, -, hcl, hl, -⟩ <;> simp only [handle]
    · rw [he]; exact hp
    · refine parsed_same hp [] (by simp [hl]) (by simp) (by rw [hcl]) ?_ ?_
      · simp only [reading, hth]
        exact gather_set _ h0 (by simp [Stmt.reads])
      · have := tally_set (Stmt.landing c) h0 [.newSession socket]
        simpa [hth, Stmt.landing, Stmt.arriving] using this
  | dispatch t i r => exact parsed_dispatch hk hr hp
  | run t wsa =>
    simp only [handle]
    rcases ht : s.threads[t]? with _ | _ | ⟨i, st⟩
    · simp only [run, ht]; exact hp
    · simp only [run, ht]; exact hp
    · exact parsed_run ha hk hr h ht
  | write c' packet =>
    simp only [handle, write]
    split
    · refine parsed_same hp _ (writeSendBuffer_log s none c' packet) ?_ ?_ ?_ ?_
      · intro x hx
        rw [mem_wroteBy hx]; exact ⟨rfl, rfl⟩
      · rcases writeSendBuffer_clients s none c' packet c with h1 | ⟨rfl, n, hw⟩
        · rw [h1]
        · obtain ⟨b, hb⟩ := TcpClient.writeSendBuffer_cases hw
          rw [hb]
      · simp only [reading, writeSendBuffer_threads]
      · rw [writeSendBuffer_threads]
    · exact hp
  | flush c' wsa =>
    simp only [handle, flush]
    split
    · refine parsed_same hp [] (by rw [flushSendBuffer_rest]; simp) (by simp) ?_ ?_ ?_
      · rcases flushSendBuffer_clients s c' wsa c with h1 | ⟨rfl, -, -, h1⟩ <;> rw [h1]
      · simp only [reading, flushSendBuffer_threads]
      · rw [flushSendBuffer_threads]
    · exact hp

/-- Only the completion of a receive adds to what was received. -/
theorem receivedBy_step (s : Server) (e : Ev) (c : Nat) :
    (s.step e).receivedBy c = s.receivedBy c ∨ ∃ t i op data, e = .dispatch t i (.received data) ∧
      s.inflight[i]? = some op ∧ op.client = c ∧ (s.step e).receivedBy c = s.receivedBy c ++ data := by
  by_cases hc : s.crashed = none
  case neg => rw [step_crashed hc]; exact Or.inl rfl
  rw [step_eq hc]
  have hl := handle_log s e
  cases e with
  | accept | flush => exact Or.inl (log_quiet _ _ _ hl (by simp [observed])).1
  | write c' packet =>
    refine Or.inl (log_quiet _ _ _ hl fun x hx => ?_).1
    simp only [observed] at hx
    split at hx
    · rw [mem_wroteBy hx]; exact ⟨rfl, rfl⟩
    · cases hx
  | run t wsa =>
    rcases ht : s.threads[t]? with _ | _ | ⟨i, st⟩ <;> simp only [observed, ht] at hl
    · exact Or.inl (log_quiet _ _ _ hl (by simp)).1
    · exact Or.inl (log_quiet _ _ _ hl (by simp)).1
    · left
      by_cases hi : ∃ c' j packet, i = .processPacket c' j packet
      · obtain ⟨c', j, packet, rfl⟩ := hi
        simp [receivedBy, hl, noted, Obs.arrived]
      · exact (log_quiet _ _ _ hl (noted_recv s (fun c' j packet he => hi ⟨c', j, packet, he⟩) c)).1
  | dispatch t i r =>
    simp only [observed] at hl
    split at hl
    case isFalse => exact Or.inl (log_quiet _ _ _ hl (by simp)).1
    cases hop : s.inflight[i]? with
    | none => rw [hop] at hl; exact Or.inl (log_quiet _ _ _ hl (by simp)).1
    | some op =>
      simp only [hop] at hl
      split at hl
      case isFalse => exact Or.inl (log_quiet _ _ _ hl (by simp)).1
      cases r with
      | failed | sent => exact Or.inl (log_quiet _ _ _ hl (by simp [Server.landed])).1
      | received data =>
        by_cases e : op.client = c
        · refine Or.inr ⟨t, i, op, data, rfl, hop, e, ?_⟩
          simp [receivedBy, hl, Server.landed, Obs.arrived, e]
        · exact Or.inl (log_quiet _ _ _ hl (by simp [Server.landed, Obs.arrived, Obs.handedFrame, e])).1

theorem recvStream_boot (n : Nat) : RecvStream (boot n) := by
  have h0 : ∀ c, (boot n).stored c = [] := by
    intro c
    rw [stored, show (boot n).threads = List.replicate (n + 1) [] from rfl, tally_replicate, slice_zero]
  have h1 : ∀ c, (boot n).reading c = [] := by
    intro c
    refine gather_eq_nil (f := Stmt.receives c) (fun a => reads_of_receives c (x := a)) ?_
    exact tally_replicate (Stmt.receives c) (n + 1)
  refine ⟨fun c => ⟨?_, ?_⟩, fun _ _ => rfl⟩
  · rw [h0, h1]; rfl
  · rw [h0]; rfl

theorem recvStream {s : Server} (h : Reach Calm s) : RecvStream s := by
  refine h.invariant_of (Q := fun s => (Reach Orderly s ∧ Registered s) ∧ RecvSide s)
    (fun _ hr => ⟨calm hr, recvSide (calm hr).1⟩) (fun _ ⟨n, hn⟩ => hn ▸ recvStream_boot n) ?_
  intro s e hinv hs _
  obtain ⟨⟨ho, hg⟩, hr⟩ := hinv
  refine ⟨parsed_step (attributed ho) (tokens ho) hr hs, fun c hc => ?_⟩
  have hn := nextClient_le s e
  -- bytes are stored for registered sessions only
  rcases receivedBy_step s e c with he | ⟨t, i, op, data, -, hop, rfl, -⟩
  · rw [he]; exact hs.unborn c (by omega)
  · have := (Orderly.stages ho).born (hg.flying op (List.mem_of_getElem? hop))
    omega

end Server

end SigHolic.Network
