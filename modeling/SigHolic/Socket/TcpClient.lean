/-
  SigHolic.Socket.TcpClient — one session's object (socket/TcpClient.cpp).

  Each function here is one atomic piece of the source: a critical section of
  `m_pSendLock` (`EnqueueSendBuffer`, `FlushSendBuffer`, `IsValid`, `OnSend`), or code that
  only the thread handling the session's receive runs. What spans several of them
  (`OnReceived`, `TryProcessPacket`, `ProcessPacket`) is a program of the server's threads
  (`Network.Server`).

  The outcome of a `WSASend` or `WSARecv` is an argument: `true` when it succeeds or
  returns `ERROR_IO_PENDING` (a completion will be queued), `false` for any other error.
  Left out: the peer's address (printed only), `m_SendBytes` (never used).
-/

import SigHolic.Utility.Buffer
import SigHolic.Socket.Packet

namespace SigHolic.Socket

open SigHolic.Base SigHolic.Base.Area SigHolic.Utility.Buffer

inductive IoState where
  | notConnected
  | connected
  | pending
  deriving DecidableEq, Repr

/-- The range of an array handed to `WSASend` or `WSARecv` (`WSABUF`), with the bytes it
    held then, and the `OVERLAPPED` that goes with it. -/
structure WsaBuf where
  io : Nat
  off : Int
  len : Int
  bytes : List UInt8

structure TcpClient where
  socket : Nat
  isClosing : Bool
  recvOverlapped : Option Nat
  recvIoState : IoState
  recvBuffer : PulledBuffer
  recvBytes : Int
  sendOverlapped : Option Nat
  sendIoState : IoState
  sendBuffer : PulledBuffer

namespace TcpClient

def new : TcpClient :=
  ⟨0, false, none, .notConnected, .new, 0, none, .notConnected, .new⟩

def initializeSocket (c : TcpClient) (socket : Nat) : TcpClient := { c with socket := socket, recvIoState := .connected }

def isValid (c : TcpClient) : Bool := !c.isClosing

/-! ## Sending -/

def enqueueSendBuffer (c : TcpClient) (buffer : Nat → UInt8) (sendBytes : Int) : Except Fault (Int × TcpClient) := do
  let r ← c.sendBuffer.write buffer sendBytes
  let c : TcpClient := { c with sendBuffer := r.2 }
  if r.1 ≠ sendBytes then .ok (-1, c) else .ok (r.1, c)

def writeSendBuffer (c : TcpClient) (packet : Packet) : Except Fault (Int × TcpClient) :=
  c.enqueueSendBuffer packet (packet.dataSize + packetHeaderSize)

/-- The flag is set before the call, and a failed call leaves it set. -/
def sendAsync (c : TcpClient) (wsaSend : Bool) : Except Fault (Int × TcpClient × Option WsaBuf) :=
  if c.sendBuffer.getLength > 0 then
    if c.sendIoState = .pending then .ok (0, c, none)
    else
      match c.sendOverlapped with
      | none => .error .badAccess
      | some io =>
        let c : TcpClient := { c with sendIoState := .pending }
        let buf : WsaBuf := ⟨io, 0, c.sendBuffer.getLength, c.sendBuffer.contents⟩
        if wsaSend then .ok (0, c, some buf) else .ok (-1, c, none)
  else .ok (0, { c with sendIoState := .connected }, none)

def flushSendBuffer (c : TcpClient) (wsaSend : Bool) : Except Fault (Int × TcpClient × Option WsaBuf) :=
  if c.sendBuffer.getLength > 0 then c.sendAsync wsaSend else .ok (0, c, none)

def onSend (c : TcpClient) (transferred : Int) : Except Fault TcpClient := do
  let r ← c.sendBuffer.throwAway transferred
  .ok { c with sendBuffer := r.2, sendIoState := .connected }

/-! ## Receiving -/

/-- `RecvAsync`: the state is not tested, only warned about. -/
def recvAsync (c : TcpClient) (wsaRecv : Bool) : Except Fault (Int × TcpClient × Option WsaBuf) :=
  match c.recvOverlapped with
  | none => .error .badAccess
  | some io =>
    let c : TcpClient := { c with recvIoState := .pending }
    let buf : WsaBuf := ⟨io, c.recvBuffer.getEmptyPtr, c.recvBuffer.getEmptyLength, []⟩
    if wsaRecv then .ok (0, c, some buf) else .ok (-1, c, none)

/-- What `OnReceived(transferred)` does before `TryProcessPacket`. -/
def addReceived (c : TcpClient) (transferred : Int) : TcpClient :=
  { c with
    recvBytes := int32 (c.recvBytes + transferred)
    recvBuffer := c.recvBuffer.forceAddLength transferred
    recvIoState := .connected }

/-- The test of `TryProcessPacket`'s loop and, when it holds, the `Read` of one packet into
    a zeroed array. The packet pointer is the start of the buffer at every round (the
    assignment inside the loop is to a shadowing variable). -/
def readPacket (c : TcpClient) : Except Fault (Option (Packet × TcpClient)) :=
  let packetPointer : Packet := c.recvBuffer.getPtr
  if packetPointer.dataSize > 0 ∧ c.recvBuffer.getLength ≥ packetPointer.dataSize + packetHeaderSize then do
    let r ← c.recvBuffer.read (packetPointer.dataSize + packetHeaderSize) (fun _ => 0) bufferSize
    .ok (some (r.2.1, { c with recvBuffer := r.2.2, recvBytes := int32 (c.recvBytes - r.1) }))
  else .ok none

/-! ## What the operations can change -/

theorem writeSendBuffer_cases {c x : TcpClient} {packet : Packet} {n : Int}
    (h : c.writeSendBuffer packet = .ok (n, x)) : ∃ b, x = { c with sendBuffer := b } := by
  unfold writeSendBuffer enqueueSendBuffer at h
  rcases hw : c.sendBuffer.write packet (packet.dataSize + packetHeaderSize) with f | ⟨r, b⟩
  · rw [hw] at h; cases h
  · rw [hw, ok_bind] at h
    refine ⟨b, ?_⟩
    split at h <;> (cases h; rfl)

theorem flushSendBuffer_cases {c x : TcpClient} {ok : Bool} {n : Int} {buf : Option WsaBuf}
    (h : c.flushSendBuffer ok = .ok (n, x, buf)) :
    (x = c ∧ buf = none) ∨
      (0 < c.sendBuffer.length ∧ c.sendIoState ≠ .pending ∧ x = { c with sendIoState := .pending } ∧
        ∃ io, c.sendOverlapped = some io ∧
          buf = if ok then some ⟨io, 0, c.sendBuffer.length, c.sendBuffer.contents⟩ else none) := by
  unfold flushSendBuffer sendAsync at h
  by_cases hl : c.sendBuffer.getLength > 0
  · by_cases hp : c.sendIoState = .pending
    · simp only [hl, hp, if_true] at h
      cases h; exact Or.inl ⟨rfl, rfl⟩
    · cases ho : c.sendOverlapped with
      | none => simp only [hl, hp, ho, if_true, if_false] at h; cases h
      | some io =>
        refine Or.inr ⟨hl, hp, ?_⟩
        cases ok
        · simp only [hl, hp, ho, if_true, if_false, Bool.false_eq_true] at h
          cases h; exact ⟨rfl, io, rfl, rfl⟩
        · simp only [hl, hp, ho, if_true, if_false] at h
          cases h; exact ⟨rfl, io, rfl, rfl⟩
  · simp only [hl, if_false] at h
    cases h; exact Or.inl ⟨rfl, rfl⟩

theorem recvAsync_cases {c x : TcpClient} {ok : Bool} {n : Int} {buf : Option WsaBuf}
    (h : c.recvAsync ok = .ok (n, x, buf)) :
    x = { c with recvIoState := .pending } ∧ ∃ io, c.recvOverlapped = some io ∧
      buf = if ok then some ⟨io, c.recvBuffer.getEmptyPtr, c.recvBuffer.getEmptyLength, []⟩ else none := by
  unfold recvAsync at h
  cases ho : c.recvOverlapped with
  | none => simp only [ho] at h; cases h
  | some io =>
    cases ok
    · simp only [ho, Bool.false_eq_true, if_false] at h
      cases h; exact ⟨rfl, io, rfl, rfl⟩
    · simp only [ho, if_true] at h
      cases h; exact ⟨rfl, io, rfl, rfl⟩

theorem onSend_cases {c x : TcpClient} {n : Int} (h : c.onSend n = .ok x) :
    ∃ b, x = { c with sendBuffer := b, sendIoState := .connected } := by
  unfold onSend at h
  rcases hw : c.sendBuffer.throwAway n with f | ⟨r, b⟩
  · rw [hw] at h; cases h
  · rw [hw, ok_bind] at h
    cases h; exact ⟨b, rfl⟩

theorem readPacket_cases {c x : TcpClient} {packet : Packet} (h : c.readPacket = .ok (some (packet, x))) :
    ∃ b n, x = { c with recvBuffer := b, recvBytes := n } := by
  simp only [readPacket] at h
  split at h
  · rcases hw : c.recvBuffer.read (Packet.dataSize c.recvBuffer.getPtr + packetHeaderSize) (fun _ => 0) bufferSize
      with f | ⟨r, d, b⟩
    · rw [hw] at h; cases h
    · rw [hw, ok_bind] at h
      cases h; exact ⟨_, _, rfl⟩
  · cases h

/-! ## What the operations do -/

def Fits (c : TcpClient) (packet : Packet) : Prop := c.sendBuffer.length + packet.size ≤ bufferSize

instance (c : TcpClient) (packet : Packet) : Decidable (c.Fits packet) := inferInstanceAs (Decidable (_ ≤ _))

theorem size_lt (packet : Packet) : packet.size < 2 ^ 30 := by
  have := packet.dataSize_lt
  unfold Packet.size packetHeaderSize
  omega

theorem write_fits {c : TcpClient} (h : c.sendBuffer.Ok) {packet : Packet} (hf : c.Fits packet) :
    ∃ b, c.writeSendBuffer packet = .ok ((packet.size : Int), { c with sendBuffer := b }) ∧ b.Ok ∧
      b.contents = c.sendBuffer.contents ++ packet.frame := by
  obtain ⟨b, hw, hok, hc⟩ := PulledBuffer.write_fits h packet (n := packet.size) hf
  refine ⟨b, ?_, hok, hc⟩
  show c.enqueueSendBuffer packet (packet.size : Int) = _
  unfold enqueueSendBuffer
  rw [hw, ok_bind, if_neg (by simp)]

theorem write_full {c : TcpClient} (h : c.sendBuffer.Ok) {packet : Packet} (hf : ¬ c.Fits packet) :
    c.writeSendBuffer packet = .ok (-1, c) := by
  have hle := h.le
  have hbs : (bufferSize : Int) = 262144 := rfl
  have hsize := size_lt packet
  have hw := PulledBuffer.write_full h packet (n := packet.size) (by unfold Fits at hf; omega) (by omega)
  show c.enqueueSendBuffer packet (packet.size : Int) = _
  unfold enqueueSendBuffer
  rw [hw, ok_bind, if_pos (by simp only; omega)]

theorem flush_empty {c : TcpClient} (hl : ¬ c.sendBuffer.length > 0) (ok : Bool) :
    c.flushSendBuffer ok = .ok (0, c, none) := by
  simp [flushSendBuffer, PulledBuffer.getLength, hl]

theorem flush_pending {c : TcpClient} (hp : c.sendIoState = .pending) (ok : Bool) :
    c.flushSendBuffer ok = .ok (0, c, none) := by
  unfold flushSendBuffer sendAsync
  simp only [hp, if_true]
  split <;> rfl

theorem flush_posts {c : TcpClient} (hl : c.sendBuffer.length > 0) (hp : c.sendIoState ≠ .pending) {io : Nat}
    (hio : c.sendOverlapped = some io) (ok : Bool) :
    c.flushSendBuffer ok =
      .ok (if ok then 0 else -1, { c with sendIoState := .pending },
        if ok then some ⟨io, 0, c.sendBuffer.length, c.sendBuffer.contents⟩ else none) := by
  unfold flushSendBuffer sendAsync
  simp only [PulledBuffer.getLength, hl, hp, hio, if_true, if_false]
  cases ok <;> rfl

theorem onSend_spec {c : TcpClient} (h : c.sendBuffer.Ok) {n : Nat} (hn : n ≤ c.sendBuffer.length) :
    ∃ b, c.onSend n = .ok { c with sendBuffer := b, sendIoState := .connected } ∧ b.Ok ∧
      b.contents = c.sendBuffer.contents.drop n := by
  obtain ⟨b, ht, hok, hc⟩ := PulledBuffer.throwAway_spec h hn
  refine ⟨b, ?_, hok, hc⟩
  unfold onSend
  rw [ht, ok_bind]

/-- Whatever the buffer's state, a round of the loop has read what the header at its start announces. -/
theorem readPacket_size {c x : TcpClient} {packet : Packet} (hw : c.readPacket = .ok (some (packet, x))) :
    packet.size = Packet.size c.recvBuffer.getPtr ∧ (Packet.size c.recvBuffer.getPtr : Int) ≤ c.recvBuffer.getLength := by
  have hlt := Packet.dataSize_lt c.recvBuffer.buffer
  have hbs : bufferSize = 262144 := rfl
  have hps : packetHeaderSize = 4 := rfl
  simp only [readPacket] at hw
  split at hw
  · rename_i hloop
    obtain ⟨-, hl⟩ := hloop
    unfold PulledBuffer.getPtr at hl hw ⊢
    rcases hr : c.recvBuffer.read (Packet.dataSize c.recvBuffer.buffer + packetHeaderSize) (fun _ => 0) bufferSize
      with f | ⟨r, d, b⟩
    · rw [hr] at hw; cases hw
    · rw [hr, ok_bind] at hw
      cases hw
      have hcopy := PulledBuffer.read_copies hr
      rw [memcpy_s_ok _ _ _ _ _ _ (by omega) (by omega) (by omega) (by omega) (by omega)] at hcopy
      cases hcopy
      refine ⟨?_, hl⟩
      unfold Packet.size
      exact congrArg (· + packetHeaderSize) (dataSize_load c.recvBuffer.buffer)
  · cases hw

/-- A round of the loop shortens the receive buffer. -/
theorem readPacket_shortens {c x : TcpClient} {packet : Packet} (hw : c.readPacket = .ok (some (packet, x))) :
    x.recvBuffer.length.toNat < c.recvBuffer.length.toNat ∧ -2 ^ 31 ≤ x.recvBuffer.length := by
  have hps : packetHeaderSize = 4 := rfl
  simp only [readPacket] at hw
  split at hw
  · rename_i hloop
    obtain ⟨hd, hl⟩ := hloop
    rcases hr : c.recvBuffer.read (Packet.dataSize c.recvBuffer.getPtr + packetHeaderSize) (fun _ => 0) bufferSize
      with f | ⟨r, d, b⟩
    · rw [hr] at hw; cases hw
    · rw [hr, ok_bind] at hw
      cases hw
      unfold PulledBuffer.read at hr
      unfold PulledBuffer.getLength at hl
      rw [if_neg (by omega)] at hr
      rcases hm : memcpy_s (fun _ => 0) 0 bufferSize c.recvBuffer.buffer 0
          (Packet.dataSize c.recvBuffer.getPtr + packetHeaderSize)
        with f | dest
      · rw [hm] at hr; cases hr
      · rw [hm, ok_bind] at hr
        rcases hp : c.recvBuffer.pull (Packet.dataSize c.recvBuffer.getPtr + packetHeaderSize) with f | b'
        · rw [hp] at hr; cases hr
        · rw [hp] at hr
          cases hr
          obtain ⟨hlt, hge⟩ := PulledBuffer.pull_length hp hl
          refine ⟨?_, hge⟩
          simp only
          omega
  · cases hw

/-- The loop's test holds exactly when the buffered bytes start with a complete frame. -/
theorem readPacket_none {c : TcpClient} (h : c.recvBuffer.Ok) (hn : Framing.next wireSize c.recvBuffer.contents = none) :
    c.readPacket = .ok none := by
  have h1 := h.nonneg
  unfold PulledBuffer.contents at hn
  rw [next_slice] at hn
  unfold readPacket
  rw [if_neg]
  intro hloop
  obtain ⟨hd, hl⟩ := hloop
  rw [if_pos ⟨hd, by unfold Packet.size; unfold PulledBuffer.getLength PulledBuffer.getPtr at *; omega⟩] at hn
  cases hn

/-- A round of the loop takes exactly the first frame, byte for byte. -/
theorem readPacket_some {c : TcpClient} (h : c.recvBuffer.Ok) {n : Nat}
    (hn : Framing.next wireSize c.recvBuffer.contents = some n) :
    ∃ b, c.readPacket = .ok (some (.load (c.recvBuffer.contents.take n),
        { c with recvBuffer := b, recvBytes := int32 (c.recvBytes - n) })) ∧ b.Ok ∧
      b.contents = c.recvBuffer.contents.drop n ∧
      (Packet.load (c.recvBuffer.contents.take n)).frame = c.recvBuffer.contents.take n := by
  have h1 := h.nonneg
  have h2 := h.le
  have hbs : bufferSize = 262144 := rfl
  have hc : c.recvBuffer.contents = slice c.recvBuffer.buffer 0 c.recvBuffer.length.toNat := rfl
  rw [hc, next_slice] at hn
  simp only [Option.ite_none_right_eq_some, Option.some.injEq] at hn
  obtain ⟨⟨hd, hl⟩, rfl⟩ := hn
  have hlt := Packet.dataSize_lt c.recvBuffer.buffer
  have hsz : Packet.size c.recvBuffer.buffer = Packet.dataSize c.recvBuffer.buffer + packetHeaderSize := rfl
  have hps : packetHeaderSize = 4 := rfl
  obtain ⟨b, hr, hok, hb⟩ := PulledBuffer.read_spec h (fun _ => 0)
    (n := Packet.size c.recvBuffer.buffer) (d := bufferSize) (by omega) (by omega) (by omega)
  refine ⟨b, ?_, hok, hb, ?_⟩
  · unfold readPacket
    rw [if_pos ⟨hd, by unfold PulledBuffer.getLength PulledBuffer.getPtr; omega⟩]
    show (c.recvBuffer.read (Packet.size c.recvBuffer.buffer : Int) (fun _ => 0) bufferSize >>= _) = _
    rw [hr, ok_bind]
    rfl
  · rw [hc, take_slice _ _ hl]
    exact frame_load _

/-- What a round of the loop has taken was the first frame of the buffered bytes. -/
theorem readPacket_took {c x : TcpClient} {packet : Packet} (h : c.recvBuffer.Ok) (hw : c.readPacket = .ok (some (packet, x))) :
    x.recvBuffer.Ok ∧ frames c.recvBuffer.contents = packet.frame :: frames x.recvBuffer.contents ∧
      residue c.recvBuffer.contents = residue x.recvBuffer.contents := by
  cases hn : Framing.next wireSize c.recvBuffer.contents with
  | none => rw [readPacket_none h hn] at hw; cases hw
  | some n =>
    obtain ⟨b, hr, hok, hc, hf⟩ := readPacket_some h hn
    rw [hr] at hw
    cases hw
    refine ⟨hok, ?_, ?_⟩
    · rw [frames, Framing.frames_of_some wireSize_settled hn, hf, ← hc]; rfl
    · rw [residue, Framing.rest_of_some wireSize_settled hn, ← hc]; rfl

end TcpClient

end SigHolic.Socket
