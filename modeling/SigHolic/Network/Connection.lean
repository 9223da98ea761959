/-
  SigHolic.Network.Connection — the two ends of a connection (`WriteSendBuffer` to `OnSend` on
  one side, `OnReceived` on the other, socket/TcpClient.cpp).

  The sender's session is one of a server that runs on; its stream is what its sends have
  had acknowledged. The receiver's is one of another server, fed the stream chunk by chunk.

  Proved:
  - `decoding_undoes_encoding`: packets with a payload come out as they went in, however the
    sends and the receives cut the stream, and nothing is left.
  - `only_a_zero_header_wedges`: what `OnReceived` leaves in the buffer is less than a
    frame, unless a header with `dataSize_ = 0` stands where a frame starts: the loop
    neither takes it nor closes the session.
-/

import SigHolic.Network.Framing
import SigHolic.Network.SendStream

namespace SigHolic.Network

open SigHolic.Base.Area SigHolic.Base.Runs SigHolic.Utility.Buffer SigHolic.Iocp SigHolic.Socket

def Obs.takenPacket (c : Nat) : Obs → List Packet
  | .wrote _ c' packet => if c' = c then [packet] else []
  | _ => []

namespace Server

/-! ## Decoding undoes encoding -/

def takenPackets (s : Server) (c : Nat) : List Packet := s.log.flatMap (Obs.takenPacket c)

theorem taken_eq (s : Server) (c : Nat) : s.taken c = ((s.takenPackets c).map Packet.frame).flatten := by
  have hone : ∀ x : Obs, x.takes c = ((x.takenPacket c).map Packet.frame).flatten := by
    intro x
    cases x with
    | wrote sender d packet =>
      by_cases e : d = c
      · simp [Obs.takes, Obs.takenPacket, e]
      · simp [Obs.takes, Obs.takenPacket, e]
    | _ => rfl
  unfold taken takenPackets
  induction s.log with
  | nil => rfl
  | cons x log ih => rw [List.flatMap_cons, List.flatMap_cons, List.map_append, List.flatten_append, hone, ih]

/-- Where the send buffer is empty, all that was taken is acknowledged. -/
theorem acknowledged_all {s : Server} (h : Reach Calm s) {c : Nat} (h0 : (s.clients c).sendBuffer.getLength = 0) :
    s.acknowledged c = s.taken c := by
  have hlen : (s.clients c).sendBuffer.length = 0 := h0
  have hnil : s.unsent c = [] := by simp only [unsent, PulledBuffer.contents, hlen]; rfl
  have := (sendStream h).conserved c
  rwa [hnil, List.append_nil] at this

theorem same_loads (ps : List Packet) : List.Forall₂ Packet.Same ((ps.map Packet.frame).map Packet.load) ps := by
  induction ps with
  | nil => exact .nil
  | cons p ps ih => exact .cons (same_load p) ih

/-- For every run of the sender's server in which no session is torn down, whatever its
    `WriteSendBuffer` took (packets with a payload) and however its sends completed: once all is
    acknowledged, feeding the stream to a session of any server with an empty receive buffer,
    cut in any way, hands to `ProcessPacket` these packets in order, with the same header
    fields and payloads, and leaves that buffer empty. -/
theorem decoding_undoes_encoding {s : Server} (hs : Reach Calm s) {c : Nat} (h0 : (s.clients c).sendBuffer.getLength = 0)
    (hp : ∀ p ∈ s.takenPackets c, 1 ≤ p.dataSize)
    {r : Server} (hr : Reach (fun _ _ => True) r) (hcr : r.crashed = none) {d t : Nat}
    (hd : (r.clients d).sendOverlapped ≠ none) (ht : r.idle t = true) (hb : (r.clients d).recvBuffer.getLength = 0) (op : IoOp)
    (chunks : List (List UInt8)) (hch : chunks.flatten = s.acknowledged c) :
    Feeds t d op (fun r' => r'.crashed = none ∧
      (∃ packets, r'.handedPackets d = r.handedPackets d ++ packets ∧
        List.Forall₂ Packet.Same packets (s.takenPackets c)) ∧
      (r'.clients d).recvBuffer.getLength = 0) chunks r := by
  obtain ⟨hf, hres⟩ := frames_concat hp
  refine Feeds.mono (fun r' h => ?_) chunks r (feeds_received hr hcr hd ht hb op chunks)
  rw [hch, acknowledged_all hs h0, taken_eq, hf, hres] at h
  obtain ⟨st, h⟩ := h
  refine ⟨h.ready.crashed, ⟨_, h.handed, same_loads _⟩, ?_⟩
  have hlen := PulledBuffer.length_contents h.ok
  rw [show (r'.clients d).recvBuffer.contents = [] from h.unread] at hlen
  exact hlen.symm

def drainedRun : List Ev := resumedRun ++ [.dispatch 1 1 (.sent 8)] ++ List.replicate 8 (.run 1 true)

theorem two_packets_arrive :
    (drainedRun.foldl step (boot 1)).acknowledged 0 = [1, 0, 1, 0x55, 7, 1, 0, 1, 0x55, 8] ∧
      Feeds 1 0 ⟨.recv, 0, 5, ⟨0, 0, 0, []⟩⟩ (fun r' => r'.crashed = none ∧
        (∃ packets, r'.handedPackets 0 = (madeRun.foldl step (boot 1)).handedPackets 0 ++ packets ∧
          List.Forall₂ Packet.Same packets ((drainedRun.foldl step (boot 1)).takenPackets 0)) ∧
        (r'.clients 0).recvBuffer.getLength = 0)
        [[1, 0, 1, 0x55], [7, 1], [0, 1, 0x55, 8]] (madeRun.foldl step (boot 1)) := by
  have hack : (drainedRun.foldl step (boot 1)).acknowledged 0 = [1, 0, 1, 0x55, 7, 1, 0, 1, 0x55, 8] := by
    rw [boot_eq]; decide +kernel
  refine ⟨hack, decoding_undoes_encoding (.run (.start ⟨1, rfl⟩) ?_) ?_ ?_
      (.any ⟨1, rfl⟩ madeRun) ?_ ?_ ?_ ?_ _ _ hack.symm⟩
  all_goals rw [boot_eq]; decide +kernel

/-! ## What `OnReceived` leaves -/

def ProperPrefix (x : TcpClient) : Prop :=
  x.recvBuffer.getLength < packetHeaderSize ∨
    x.recvBuffer.getLength < packetHeaderSize + Packet.dataSize x.recvBuffer.getPtr

instance (x : TcpClient) : Decidable (ProperPrefix x) := inferInstanceAs (Decidable (_ ∨ _))

/-- The session is closing, or waits for the rest of a frame. -/
def Unwedged (s : Server) (c : Nat) : Prop := (s.clients c).isValid = false ∨ ProperPrefix (s.clients c)

instance (s : Server) (c : Nat) : Decidable (s.Unwedged c) := inferInstanceAs (Decidable (_ ∨ _))

def returned (s : Server) (t c : Nat) : Bool :=
  match s.threads[t]? with
  | some [.recvNext c' _] => c' == c
  | _ => false

/-- With no complete frame in the buffer, what is there is less than a frame, unless it starts
    with a header that announces no payload. -/
theorem properPrefix_iff {x : TcpClient} (hok : x.recvBuffer.Ok) (hn : Base.Framing.next wireSize x.recvBuffer.contents = none) :
    ProperPrefix x ↔ zeroHeader x.recvBuffer.contents = false := by
  have h1 := hok.nonneg
  unfold PulledBuffer.contents at hn ⊢
  rw [next_slice] at hn
  have hnot : ¬ (Packet.dataSize x.recvBuffer.buffer > 0 ∧ Packet.size x.recvBuffer.buffer ≤ x.recvBuffer.length.toNat) := by
    intro h
    rw [if_pos h] at hn
    cases hn
  rw [← Bool.not_eq_true, zeroHeader_slice]
  unfold ProperPrefix PulledBuffer.getLength PulledBuffer.getPtr
  unfold Packet.size at hnot
  unfold packetHeaderSize at *
  omega

/-- From every state the server can be in, for every stream and every way to cut it: where no header
    with `dataSize_ = 0` stands at the start of a frame, what a call of `OnReceived` leaves is
    less than a frame, of the largest size too, and `RecvAsync` has room; where one does, a
    session that is not closing is left with it. -/
theorem only_a_zero_header_wedges {s : Server} (h : Reach (fun _ _ => True) s) (hcr : s.crashed = none) {c t : Nat}
    (hs : (s.clients c).sendOverlapped ≠ none) (ht : s.idle t = true) (h0 : (s.clients c).recvBuffer.getLength = 0) (op : IoOp)
    (chunks : List (List UInt8)) :
    Feeds t c op (fun s' =>
      (zeroHeader (residue chunks.flatten) = false → s'.Unwedged c ∧
        (s'.clients c).recvBuffer.getLength < 4 + 65535 ∧ 0 < (s'.clients c).recvBuffer.getEmptyLength) ∧
      ((s'.clients c).isValid = true → (s'.Unwedged c ↔ zeroHeader (residue chunks.flatten) = false))) chunks s := by
  refine Feeds.mono (fun s' hr => ?_) chunks s (feeds_received h hcr hs ht h0 op chunks)
  obtain ⟨st, hr⟩ := hr
  have hun : (s'.clients c).recvBuffer.contents = residue chunks.flatten := hr.unread
  have hn : Base.Framing.next wireSize (s'.clients c).recvBuffer.contents = none := by
    rw [hun]; exact Base.Framing.next_rest wireSize_settled _
  have hpp := properPrefix_iff hr.ok hn
  rw [hun] at hpp
  refine ⟨?_, ?_⟩
  · intro hz
    have hlt := Packet.dataSize_lt (s'.clients c).recvBuffer.getPtr
    have hlen : (s'.clients c).recvBuffer.getLength < 4 + 65535 := by
      rcases hpp.mpr hz with h | h <;> unfold packetHeaderSize at h <;> omega
    refine ⟨Or.inr (hpp.mpr hz), hlen, ?_⟩
    unfold PulledBuffer.getLength at hlen
    rw [PulledBuffer.getEmptyLength_eq hr.ok]
    unfold bufferSize
    omega
  · intro hv
    rw [← hpp, Unwedged, hv]
    simp

theorem a_cut_frame_waits :
    zeroHeader (residue [[2, 0, 1], [0x55, 7]].flatten) = false ∧
      Feeds 1 0 ⟨.recv, 0, 5, ⟨0, 0, 0, []⟩⟩ (fun s' =>
        (zeroHeader (residue [[2, 0, 1], [0x55, 7]].flatten) = false → s'.Unwedged 0 ∧
          (s'.clients 0).recvBuffer.getLength < 4 + 65535 ∧ 0 < (s'.clients 0).recvBuffer.getEmptyLength) ∧
        ((s'.clients 0).isValid = true → (s'.Unwedged 0 ↔ zeroHeader (residue [[2, 0, 1], [0x55, 7]].flatten) = false)))
        [[2, 0, 1], [0x55, 7]] (madeRun.foldl step (boot 1)) := by
  refine ⟨by decide +kernel, only_a_zero_header_wedges (.any ⟨1, rfl⟩ madeRun) ?_ ?_ ?_ ?_ _ _⟩
  all_goals rw [boot_eq]; decide +kernel

/-- A peer sends a header alone, with `dataSize_ = 0`. -/
def wedgedRun : List Ev := madeRun ++ [.dispatch 1 0 (.received [0, 0, 1, 0x55])] ++ List.replicate 8 (.run 1 true)

/-- Not every call of `OnReceived` leaves less than a frame in the buffer of a session that is
    not closing. -/
theorem a_zero_header_is_neither_taken_nor_rejected :
    ¬ ∀ s, Reach Calm s → ∀ t c, s.returned t c = true → s.Unwedged c := by
  intro h
  have := h (wedgedRun.foldl step (boot 1)) (.run (.start ⟨1, rfl⟩) (by rw [boot_eq]; decide +kernel)) 1 0
    (by rw [boot_eq]; decide +kernel)
  revert this
  rw [boot_eq]
  decide +kernel

end Server

end SigHolic.Network
