/-
  SigHolic.Network.ByteCount — the two counts of a session's received bytes (`OnReceived`
  and `TryProcessPacket`, socket/TcpClient.cpp).

  `m_RecvBytes` is the session's, `m_Length` the buffer's. `OnReceived` adds to both, a
  round of the loop takes from both what `Read` returned: the size that stood in the buffer
  before `Read` pulled the next frame over it. Each is one statement of the thread that
  handles the receive.

  Proved: `the_counts_agree`: in every run in which `OnReceived` is called for no more
  bytes than there was room for (`RoomPosted`), the counts are equal and within the array in
  every state: when `ProcessPacket` is called, and when `OnReceived` has returned. Orderly
  runs are such runs (`roomPosted`).
-/

import SigHolic.Network.RecvSide

namespace SigHolic.Network

open SigHolic.Utility.Buffer SigHolic.Iocp SigHolic.Socket

namespace Server

structure Counted (x : TcpClient) : Prop where
  ok : x.recvBuffer.Ok
  agree : x.recvBytes = x.recvBuffer.getLength

theorem new_counted : Counted .new := ⟨PulledBuffer.new_ok, rfl⟩

/-- `OnReceived` adds to both. -/
theorem Counted.received {x : TcpClient} (h : Counted x) {n : Nat} (hn : (n : Int) ≤ x.recvBuffer.getEmptyLength) :
    Counted (x.addReceived n) := by
  refine ⟨(PulledBuffer.forceAddLength_spec h.ok hn).1, ?_⟩
  show int32 (x.recvBytes + n) = int32 (x.recvBuffer.length + n)
  rw [h.agree]
  rfl

/-- A round of the loop takes from both. -/
theorem Counted.read {x x' : TcpClient} (h : Counted x) {packet : Packet} (hw : x.readPacket = .ok (some (packet, x'))) :
    Counted x' := by
  have hnonneg := h.ok.nonneg
  have hle := h.ok.le
  have hbs : (bufferSize : Int) = 262144 := rfl
  cases hn : Base.Framing.next wireSize x.recvBuffer.contents with
  | none => rw [TcpClient.readPacket_none h.ok hn] at hw; cases hw
  | some n =>
    obtain ⟨b, hr, hok, hc, -⟩ := TcpClient.readPacket_some h.ok hn
    rw [hr] at hw
    cases hw
    have hall := PulledBuffer.length_contents h.ok
    have hsize := (Base.Framing.next_eq_some.mp hn).2
    have hlen := PulledBuffer.length_contents hok
    rw [hc, List.length_drop, Nat.cast_sub hsize, hall] at hlen
    have hcount : int32 (x.recvBytes - n) = x.recvBuffer.length - n := by
      rw [h.agree]
      exact int32_eq (x := x.recvBuffer.length - n) (by omega) (by omega)
    exact ⟨hok, hcount.trans hlen⟩

theorem Counted.bounds {x : TcpClient} (h : Counted x) : 0 ≤ x.recvBytes ∧ x.recvBytes ≤ bufferSize := by
  rw [h.agree]
  exact ⟨h.ok.nonneg, h.ok.le⟩

/-- The session whose `OnReceived` is called in this step, and with what. -/
def counting (s : Server) : Ev → Option (Nat × Completion)
  | .run t _ =>
    match s.threads[t]? with
    | some (.onReceived c j :: _) => some (c, j)
    | _ => none
  | _ => none

/-- If the step calls `OnReceived`, there was room in the buffer for what was received. -/
def RoomPosted (s : Server) (e : Ev) : Prop :=
  ∀ c j, s.counting e = some (c, j) → (j.transferred : Int) ≤ (s.clients c).recvBuffer.getEmptyLength

instance (s : Server) (e : Ev) : Decidable (RoomPosted s e) :=
  match h : s.counting e with
  | none => isTrue (by simp [RoomPosted, h])
  | some (c, j) =>
    decidable_of_iff ((j.transferred : Int) ≤ (s.clients c).recvBuffer.getEmptyLength) (by simp [RoomPosted, h])

theorem counted_step {s : Server} (h : ∀ c, Counted (s.clients c)) {e : Ev} (hr : RoomPosted s e) (c : Nat) :
    Counted ((s.step e).clients c) := by
  rcases step_clients s e c with h1 | h1
  · rw [h1]; exact h c
  generalize (s.step e).clients c = x at h1 ⊢
  cases h1 with
  | stored => exact ⟨⟨(h c).ok.nonneg, (h c).ok.le⟩, (h c).agree⟩
  | flushed => exact ⟨(h c).ok, (h c).agree⟩
  | written hw =>
    obtain ⟨b, rfl⟩ := TcpClient.writeSendBuffer_cases hw
    exact ⟨(h c).ok, (h c).agree⟩
  | ran ht h1 =>
    cases h1 with
    | made hn => exact new_counted
    | received =>
      exact (h c).received (hr c _ (by simp only [counting, ht]))
    | read hw => exact (h c).read hw
    | echoed hw | broadcast hw =>
      obtain ⟨b, rfl⟩ := TcpClient.writeSendBuffer_cases hw
      exact ⟨(h c).ok, (h c).agree⟩
    | sent hw =>
      obtain ⟨b, rfl⟩ := TcpClient.onSend_cases hw
      exact ⟨(h c).ok, (h c).agree⟩
    | initialized | firstPosted | recvPosted | boundRecv | boundSend | flushed | closed => exact ⟨(h c).ok, (h c).agree⟩

/-- In every state of a run in which no `OnReceived` is for more than there was room for, a session's `m_RecvBytes` is
    the length of its buffer, not negative and within the array. -/
theorem the_counts_agree {s : Server} (h : Reach RoomPosted s) (c : Nat) :
    (s.clients c).recvBytes = (s.clients c).recvBuffer.getLength ∧ 0 ≤ (s.clients c).recvBytes ∧
      (s.clients c).recvBytes ≤ bufferSize := by
  have hall : ∀ c, Counted (s.clients c) := by
    refine h.invariant (P := fun s => ∀ c, Counted (s.clients c)) ?_ fun s e hs hr c => counted_step hs hr c
    intro s hs c
    obtain ⟨n, rfl⟩ := hs
    exact new_counted
  exact ⟨(hall c).agree, (hall c).bounds⟩

/-- In orderly runs a receive is for at most the room there is. -/
theorem roomPosted {s : Server} (h : Reach Orderly s) (e : Ev) : RoomPosted s e := by
  intro c j hj
  unfold counting at hj
  split at hj
  · split at hj
    · rename_i ht
      cases hj
      obtain ⟨-, rfl, hk⟩ := (attributed h).sound _ (has_top ht)
      obtain ⟨hw, hle⟩ := (recvSide h).arriving _ (has_top ht) j rfl hk
      rw [← hw.len]
      exact hle
    · cases hj
  · cases hj

def countedRun : List Ev := List.flatten [
  [.accept 5], List.replicate 9 (.run 0 true), [.dispatch 1 0 (.received [1, 0, 1, 0x55, 7, 2, 0])],
    List.replicate 12 (.run 1 true)]

theorem two_bytes_are_left :
    ((countedRun.foldl step (boot 1)).clients 0).recvBuffer.getLength = 2 ∧
      ((countedRun.foldl step (boot 1)).clients 0).recvBytes =
        ((countedRun.foldl step (boot 1)).clients 0).recvBuffer.getLength := by
  refine ⟨by rw [boot_eq]; decide +kernel, (the_counts_agree (.run (.start ⟨1, rfl⟩) ?_) 0).1⟩
  rw [boot_eq]
  decide +kernel

end Server

end SigHolic.Network
