/-
  SigHolic.Socket.SendLock — the functions of a session's send side, statement by statement,
  under `m_pSendLock` (socket/TcpClient.cpp: `WriteSendBuffer`, `EnqueueSendBuffer`,
  `FlushSendBuffer`, `SendAsync`, `OnSend`, `IsValid`; utility/Buffer.h: `Write`, `ThrowAway`).

  Any number of threads call them on one session: those that send a packet, and the worker
  that has the completion of the session's `WSASend`. `FlushSendBuffer` enters the lock it
  has a second time, in `SendAsync`. An operation counts as in flight until the `OnSend` of
  its completion has the lock.

  Proved, of every interleaving of the statements in which no `WSASend` fails and every `OnSend`
  stands for a completion (`send_calls_are_serial`): when the lock is free, the session is what
  the calls make of it one after the other in the order of the lock, and each call answers what
  it answers there; at most one `WSASend` is in flight, its bytes are the first of the buffer and
  `m_SendIoState` says so; and what was acknowledged, followed by the buffer, is the packets that were
  accepted, whole and in that order.
-/

import SigHolic.Base.Sections
import SigHolic.Socket.SendState

namespace SigHolic.Socket.SendLock

open SigHolic.Base SigHolic.Base.Runs SigHolic.Base.Sections SigHolic.Base.Sections.Prog SigHolic.Base.Area
open SigHolic.Utility.Buffer SigHolic.Socket.SendState

structure Half where
  client : TcpClient
  /-- What `WSASend` was called with. -/
  posted : List WsaBuf

namespace Half

def setBuffer (s : Half) (b : PulledBuffer) : Half := { s with client := { s.client with sendBuffer := b } }

def setState (s : Half) (x : IoState) : Half := { s with client := { s.client with sendIoState := x } }

end Half

def write (startPoint : Nat → UInt8) (length : Int) : Prog Half (Except Fault Int) := do
  let s ← read
  if int32 (s.client.sendBuffer.length + length) > bufferSize then pure (.ok (-1))
  else
    match memcpy_s s.client.sendBuffer.buffer s.client.sendBuffer.length (int32 (bufferSize - s.client.sendBuffer.length))
      startPoint 0 length with
    | .error f => pure (.error f)
    | .ok buffer => do
      modify fun s => s.setBuffer { s.client.sendBuffer with buffer := buffer }
      modify fun s => s.setBuffer { s.client.sendBuffer with length := int32 (s.client.sendBuffer.length + length) }
      pure (.ok length)

def throwAway (throwLength : Int) : Prog Half (Except Fault Int) := do
  let s ← read
  if throwLength > s.client.sendBuffer.length then pure (.error .thrown)
  else do
    modify fun s => s.setBuffer { s.client.sendBuffer with length := int32 (s.client.sendBuffer.length - throwLength) }
    let s ← read
    if s.client.sendBuffer.length > 0 then
      match memcpy_s (fun _ => 0) 0 bufferSize s.client.sendBuffer.buffer throwLength s.client.sendBuffer.length with
      | .error f => pure (.error f)
      | .ok tempBuffer => do
        modify fun s => s.setBuffer s.client.sendBuffer.clear
        let r ← write tempBuffer s.client.sendBuffer.length
        match r with
        | .error f => pure (.error f)
        | .ok _ => pure (.ok throwLength)
    else pure (.ok throwLength)

def enqueueSendBuffer (buffer : Nat → UInt8) (sendBytes : Int) : Prog Half (Except Fault Int) := autoLock true do
  let writtenBytes ← write buffer sendBytes
  match writtenBytes with
  | .error f => pure (.error f)
  | .ok n => if n ≠ sendBytes then pure (.ok (-1)) else pure (.ok n)

def writeSendBuffer (packet : Packet) : Prog Half (Except Fault Int) :=
  enqueueSendBuffer packet (packet.dataSize + packetHeaderSize)

def sendAsync (wsaSend : Bool) : Prog Half (Except Fault Int) := autoLock true do
  let s ← read
  if s.client.sendBuffer.getLength > 0 then do
    let s ← read
    if s.client.sendIoState = .pending then pure (.ok 0)
    else do
      modify fun s => s.setState .pending
      let s ← read
      match s.client.sendOverlapped with
      | none => pure (.error .badAccess)
      | some io =>
        let buf : WsaBuf := ⟨io, 0, s.client.sendBuffer.getLength, s.client.sendBuffer.contents⟩
        if wsaSend then do
          modify fun s => { s with posted := s.posted ++ [buf] }
          pure (.ok 0)
        else pure (.ok (-1))
  else do
    modify fun s => s.setState .connected
    pure (.ok 0)

def flushSendBuffer (wsaSend : Bool) : Prog Half (Except Fault Int) := autoLock true do
  let s ← read
  if s.client.sendBuffer.getLength > 0 then sendAsync wsaSend else pure (.ok 0)

/-- `OnSend(transferred)`; `OnSend(0)` does nothing. -/
def onSend (transferred : Int) : Prog Half (Except Fault Int) := autoLock true do
  let r ← throwAway transferred
  match r with
  | .error f => pure (.error f)
  | .ok _ => do
    modify fun s => s.setState .connected
    pure (.ok 0)

def isValid : Prog Half Bool := autoLock true do
  let s ← read
  if s.client.isClosing then pure false else pure true

inductive Call where
  | writeSendBuffer (packet : Packet)
  | flushSendBuffer (wsaSend : Bool)
  | onSend (transferred : Nat)
  | isValid

inductive Answer where
  | int (r : Except Fault Int)
  | bool (b : Bool)

def code : Call → Prog Half Answer
  | .writeSendBuffer packet => writeSendBuffer packet >>= fun r => pure (.int r)
  | .flushSendBuffer wsaSend => flushSendBuffer wsaSend >>= fun r => pure (.int r)
  | .onSend transferred => onSend transferred >>= fun r => pure (.int r)
  | .isValid => isValid >>= fun b => pure (.bool b)

/-! ## Each call alone -/

theorem alone_write (startPoint : Nat → UInt8) (length : Int) (s : Half) :
    (write startPoint length).alone s =
      match s.client.sendBuffer.write startPoint length with
      | .error f => (.error f, s)
      | .ok (n, b) => (.ok n, s.setBuffer b) := by
  by_cases hn : int32 (s.client.sendBuffer.length + length) > bufferSize
  · simp only [write, PulledBuffer.write, alone_bind, alone_read, hn, if_true]
    rfl
  · cases hm : memcpy_s s.client.sendBuffer.buffer s.client.sendBuffer.length
      (int32 (bufferSize - s.client.sendBuffer.length)) startPoint 0 length with
    | error f =>
      simp only [write, PulledBuffer.write, alone_bind, alone_read, hn, if_false, hm]
      rfl
    | ok buffer =>
      simp only [write, PulledBuffer.write, alone_bind, alone_read, hn, if_false, hm]
      rfl

/-- A `ThrowAway` that does not end the process. -/
theorem alone_throwAway {n r : Int} {s : Half} {b : PulledBuffer} (h : s.client.sendBuffer.throwAway n = .ok (r, b)) :
    (throwAway n).alone s = (.ok n, s.setBuffer b) := by
  unfold PulledBuffer.throwAway PulledBuffer.pull at h
  by_cases hn : n > s.client.sendBuffer.length
  · simp only [hn, if_true] at h
    cases h
  by_cases hpos : int32 (s.client.sendBuffer.length - n) > 0
  · cases hm : memcpy_s (fun _ => 0) 0 bufferSize s.client.sendBuffer.buffer n (int32 (s.client.sendBuffer.length - n)) with
    | error f =>
      simp only [hn, if_false, hpos, if_true, hm] at h
      cases h
    | ok tempBuffer =>
      simp only [hn, if_false, hpos, if_true, hm, ok_bind] at h
      simp only [throwAway, alone_bind, alone_read, hn, if_false, alone_modify, Half.setBuffer, hpos, if_true, hm, alone_write,
        PulledBuffer.clear]
      rw [PulledBuffer.clear] at h
      cases hw : PulledBuffer.write ⟨fun _ => 0, 0⟩ tempBuffer (int32 (s.client.sendBuffer.length - n)) with
      | error f =>
        rw [hw] at h
        cases h
      | ok w =>
        rw [hw] at h
        cases h
        rfl
  · simp only [hn, if_false, hpos, ok_bind] at h
    cases h
    simp only [throwAway, alone_bind, alone_read, hn, if_false, alone_modify, Half.setBuffer, hpos]
    rfl

/-- A `WriteSendBuffer` that does not end the process. -/
theorem alone_writeSendBuffer {packet : Packet} {n : Int} {s : Half} {x : TcpClient}
    (h : s.client.writeSendBuffer packet = .ok (n, x)) :
    (writeSendBuffer packet).alone s = (.ok n, { s with client := x }) := by
  unfold TcpClient.writeSendBuffer TcpClient.enqueueSendBuffer at h
  cases hw : s.client.sendBuffer.write packet (packet.dataSize + packetHeaderSize) with
  | error f =>
    rw [hw] at h
    cases h
  | ok r =>
    rw [hw, ok_bind] at h
    simp only [writeSendBuffer, enqueueSendBuffer, alone_autoLock, alone_bind, alone_write, hw, Half.setBuffer]
    by_cases hn : r.1 ≠ packet.dataSize + packetHeaderSize
    · rw [if_pos hn] at h
      cases h
      rw [if_pos hn]
      rfl
    · rw [if_neg hn] at h
      cases h
      rw [if_neg hn]
      rfl

theorem alone_sendAsync {wsaSend : Bool} {n : Int} {s : Half} {x : TcpClient} {buf : Option WsaBuf}
    (h : s.client.sendAsync wsaSend = .ok (n, x, buf)) :
    (sendAsync wsaSend).alone s = (.ok n, ⟨x, s.posted ++ buf.toList⟩) := by
  unfold TcpClient.sendAsync at h
  by_cases hl : s.client.sendBuffer.getLength > 0
  · by_cases hp : s.client.sendIoState = .pending
    · simp only [hl, hp, if_true] at h
      cases h
      simp [sendAsync, hl, hp]
    · cases ho : s.client.sendOverlapped with
      | none =>
        simp only [hl, hp, ho, if_true, if_false] at h
        cases h
      | some io =>
        simp only [hl, hp, ho, if_true, if_false] at h
        cases wsaSend with
        | true =>
          cases h
          simp [sendAsync, hl, hp, Half.setState, ho]
        | false =>
          cases h
          simp [sendAsync, hl, hp, Half.setState, ho]
  · simp only [hl, if_false] at h
    cases h
    simp [sendAsync, hl, Half.setState]

theorem alone_flushSendBuffer {wsaSend : Bool} {n : Int} {s : Half} {x : TcpClient} {buf : Option WsaBuf}
    (h : s.client.flushSendBuffer wsaSend = .ok (n, x, buf)) :
    (flushSendBuffer wsaSend).alone s = (.ok n, ⟨x, s.posted ++ buf.toList⟩) := by
  unfold TcpClient.flushSendBuffer at h
  by_cases hl : s.client.sendBuffer.getLength > 0
  · simp only [hl, if_true] at h
    simp only [flushSendBuffer, alone_autoLock, alone_bind, alone_read, hl, if_true]
    exact alone_sendAsync h
  · simp only [hl, if_false] at h
    cases h
    simp [flushSendBuffer, hl]

theorem alone_onSend {n : Int} {s : Half} {x : TcpClient} (h : s.client.onSend n = .ok x) :
    (onSend n).alone s = (.ok 0, { s with client := x }) := by
  unfold TcpClient.onSend at h
  cases ht : s.client.sendBuffer.throwAway n with
  | error f =>
    rw [ht] at h
    cases h
  | ok r =>
    rw [ht, ok_bind] at h
    cases h
    simp only [onSend, alone_autoLock, alone_bind, alone_throwAway ht, alone_modify]
    rfl

theorem alone_isValid (s : Half) : isValid.alone s = (s.client.isValid, s) := by
  by_cases hc : s.client.isClosing = true
  · simp [isValid, TcpClient.isValid, hc]
  · simp [isValid, TcpClient.isValid, hc]

/-! ## One section each -/

theorem nested_write (startPoint : Nat → UInt8) (length : Int) : Nested 0 (write startPoint length) := by
  refine nested_bind nested_read fun s => ?_
  split
  · exact nested_pure _
  · split
    · exact nested_pure _
    · exact nested_bind (nested_modify _) fun _ => nested_bind (nested_modify _) fun _ => nested_pure _

theorem nested_throwAway (throwLength : Int) : Nested 0 (throwAway throwLength) := by
  refine nested_bind nested_read fun s => ?_
  split
  · exact nested_pure _
  · refine nested_bind (nested_modify _) fun _ => nested_bind nested_read fun s => ?_
    split
    · split
      · exact nested_pure _
      · refine nested_bind (nested_modify _) fun _ => nested_bind (nested_write _ _) fun r => ?_
        split
        · exact nested_pure _
        · exact nested_pure _
    · exact nested_pure _

theorem nested_sendAsync (wsaSend : Bool) : Nested 0 (sendAsync wsaSend) := by
  refine nested_autoLock true (nested_bind nested_read fun s => ?_)
  split
  · refine nested_bind nested_read fun s => ?_
    split
    · exact nested_pure _
    · refine nested_bind (nested_modify _) fun _ => nested_bind nested_read fun s => ?_
      split
      · exact nested_pure _
      · split
        · exact nested_bind (nested_modify _) fun _ => nested_pure _
        · exact nested_pure _
  · exact nested_bind (nested_modify _) fun _ => nested_pure _

theorem locked_code (c : Call) : Locked (code c) := by
  cases c with
  | writeSendBuffer packet =>
    refine locked_map (locked_autoLock (nested_bind (nested_write _ _) fun r => ?_)) _
    split
    · exact nested_pure _
    · split
      · exact nested_pure _
      · exact nested_pure _
  | flushSendBuffer wsaSend =>
    refine locked_map (locked_autoLock (nested_bind nested_read fun s => ?_)) _
    split
    · exact nested_sendAsync wsaSend
    · exact nested_pure _
  | onSend transferred =>
    refine locked_map (locked_autoLock (nested_bind (nested_throwAway _) fun r => ?_)) _
    split
    · exact nested_pure _
    · exact nested_bind (nested_modify _) fun _ => nested_pure _
  | isValid =>
    refine locked_map (locked_autoLock (nested_bind nested_read fun s => ?_)) _
    split
    · exact nested_pure _
    · exact nested_pure _

/-! ## The calls in the order of the lock -/

structure Spec where
  side : Side
  posted : List WsaBuf
  /-- The packets `WriteSendBuffer` did not refuse. -/
  accepted : List Packet
  /-- The bytes `OnSend` removed. -/
  acked : List UInt8

namespace Spec

def start (x : TcpClient) : Spec := ⟨⟨x, [], true, none⟩, [], [], []⟩

def half (s : Spec) : Half := ⟨s.side.client, s.posted⟩

def takes (s : Spec) (packet : Packet) : List Packet :=
  match s.side.client.writeSendBuffer packet with
  | .ok (n, _) => if n = -1 then [] else [packet]
  | .error _ => []

def posts (s : Spec) (wsaSend : Bool) : List WsaBuf :=
  match s.side.client.flushSendBuffer wsaSend with
  | .ok (_, _, buf) => buf.toList
  | .error _ => []

def step (s : Spec) : Call → Spec
  | .writeSendBuffer packet =>
    { s with side := s.side.step (.writeSendBuffer packet), accepted := s.accepted ++ s.takes packet }
  | .flushSendBuffer wsaSend =>
    { s with side := s.side.step (.flushSendBuffer wsaSend), posted := s.posted ++ s.posts wsaSend }
  | .onSend transferred =>
    { s with
      side := s.side.step (.completed 0 true transferred)
      acked := s.acked ++ s.side.client.sendBuffer.contents.take transferred }
  | .isValid => s

def answer (s : Spec) : Call → Answer
  | .writeSendBuffer packet => .int ((s.side.client.writeSendBuffer packet).map Prod.fst)
  | .flushSendBuffer wsaSend => .int ((s.side.client.flushSendBuffer wsaSend).map Prod.fst)
  | .onSend transferred => .int ((s.side.client.onSend transferred).map fun _ => 0)
  | .isValid => .bool s.side.client.isValid

/-- No `WSASend` fails, and `OnSend` is called for the completion of an operation in flight. -/
def CallOk (s : Spec) : Call → Prop
  | .flushSendBuffer wsaSend => s.side.fails (.flushSendBuffer wsaSend) = false
  | .onSend transferred => ∃ buf ∈ s.side.inflight.head?, 0 < transferred ∧ transferred ≤ buf.len
  | _ => True

instance (s : Spec) : (c : Call) → Decidable (s.CallOk c)
  | .flushSendBuffer _ => inferInstanceAs (Decidable (_ = _))
  | .onSend _ => inferInstanceAs (Decidable (∃ buf ∈ s.side.inflight.head?, _))
  | .writeSendBuffer _ | .isValid => inferInstanceAs (Decidable True)

structure Good (s : Spec) : Prop where
  sane : s.side.Sane
  bound : s.side.bound = true
  /-- The session's stream is the packets that were accepted, in order. -/
  stream : s.acked ++ s.side.client.sendBuffer.contents = (s.accepted.map Packet.frame).flatten
  /-- The bytes in flight are the first of the buffer. -/
  front : ∀ buf ∈ s.side.inflight, buf.off = 0 ∧ buf.bytes = s.side.client.sendBuffer.contents.take buf.len.toNat

theorem step_side {s : Spec} (h : s.Good) (e : SendState.Ev) : s.side.step e = s.side.handle e := by
  simp [Side.step, h.sane.running]

def Runs (s : Spec) (c : Call) : Prop := (code c).alone s.half = (s.answer c, (s.step c).half) ∧ (s.step c).Good

theorem runs_write {s : Spec} (h : s.Good) (packet : Packet) : s.Runs (.writeSendBuffer packet) := by
  have hsane : (s.side.step (.writeSendBuffer packet)).Sane := by
    rw [step_side h]
    exact Side.sane_write h.sane packet
  by_cases hf : s.side.client.Fits packet
  · obtain ⟨b, hw, -, hc⟩ := TcpClient.write_fits h.sane.ok hf
    have htakes : s.takes packet = [packet] := by
      simp only [takes, hw]
      rw [if_neg (by omega)]
    have hside : s.side.step (.writeSendBuffer packet) = { s.side with client := { s.side.client with sendBuffer := b } } := by
      rw [step_side h]
      simp only [Side.handle, hw]
    refine ⟨?_, hsane, by simp only [step, hside, h.bound], ?_, ?_⟩
    · have halone := alone_writeSendBuffer (s := s.half) hw
      simp only [code, alone_bind, halone, answer, hw, step, hside]
      rfl
    · simp only [step, htakes, hside, hc]
      rw [← List.append_assoc, h.stream]
      simp
    · intro buf hb
      simp only [step, hside] at hb ⊢
      obtain ⟨hoff, hbytes⟩ := h.front buf hb
      obtain ⟨-, hpos, hle⟩ := h.sane.bytes buf hb
      have hlen := PulledBuffer.length_contents h.sane.ok
      refine ⟨hoff, ?_⟩
      rw [hc, List.take_append_of_le_length (by omega)]
      exact hbytes
  · have hw := TcpClient.write_full h.sane.ok hf
    have htakes : s.takes packet = [] := by simp only [takes, hw, if_true]
    have hside : s.side.step (.writeSendBuffer packet) = s.side := by
      rw [step_side h]
      simp only [Side.handle, hw]
    refine ⟨?_, hsane, by simp only [step, hside, h.bound], ?_, ?_⟩
    · have halone := alone_writeSendBuffer (s := s.half) hw
      simp only [code, alone_bind, halone, answer, hw, step, hside]
      rfl
    · simp only [step, htakes, hside, List.append_nil]
      exact h.stream
    · simp only [step, hside]
      exact h.front

theorem runs_flush {s : Spec} (h : s.Good) {wsaSend : Bool} (hok : s.CallOk (.flushSendBuffer wsaSend)) :
    s.Runs (.flushSendBuffer wsaSend) := by
  have hsane : (s.side.step (.flushSendBuffer wsaSend)).Sane := by
    rw [step_side h]
    exact Side.sane_flush h.sane hok
  have hcode : ∀ {n : Int} {x : TcpClient} {buf : Option WsaBuf}, s.side.client.flushSendBuffer wsaSend = .ok (n, x, buf) →
      (code (.flushSendBuffer wsaSend)).alone s.half =
        (s.answer (.flushSendBuffer wsaSend), (s.step (.flushSendBuffer wsaSend)).half) := by
    intro n x buf hw
    have halone := alone_flushSendBuffer (s := s.half) hw
    simp only [code, alone_bind, halone, answer, hw, step, step_side h, Side.handle, Side.posted, posts]
    rfl
  have hbound : ∀ {n : Int} {x : TcpClient} {buf : Option WsaBuf}, s.side.client.flushSendBuffer wsaSend = .ok (n, x, buf) →
      (s.step (.flushSendBuffer wsaSend)).side.bound = true := by
    intro n x buf hw
    simp only [step, step_side h, Side.handle, Side.posted, hw, h.bound]
  by_cases hl : s.side.client.sendBuffer.length > 0
  case neg =>
    have hw := TcpClient.flush_empty hl wsaSend
    refine ⟨hcode hw, hsane, hbound hw, ?_, ?_⟩
    · simp only [step, step_side h, Side.handle, hw, Side.posted]
      exact h.stream
    · simp only [step, step_side h, Side.handle, hw, Side.posted, Option.toList, List.append_nil]
      exact h.front
  by_cases hp : s.side.client.sendIoState = .pending
  · have hw := TcpClient.flush_pending hp wsaSend
    refine ⟨hcode hw, hsane, hbound hw, ?_, ?_⟩
    · simp only [step, step_side h, Side.handle, hw, Side.posted]
      exact h.stream
    · simp only [step, step_side h, Side.handle, hw, Side.posted, Option.toList, List.append_nil]
      exact h.front
  · obtain ⟨io, hio⟩ := Option.ne_none_iff_exists'.mp h.sane.overlapped
    have hw := TcpClient.flush_posts hl hp hio wsaSend
    have hlen := PulledBuffer.length_contents h.sane.ok
    refine ⟨hcode hw, hsane, hbound hw, ?_, ?_⟩
    · simp only [step, step_side h, Side.handle, hw, Side.posted]
      exact h.stream
    · intro buf hb
      simp only [step, step_side h, Side.handle, hw, Side.posted] at hb ⊢
      rcases List.mem_append.mp hb with hb | hb
      · exact h.front buf hb
      · cases wsaSend with
        | false => simp at hb
        | true =>
          simp only [if_true, Option.toList, List.mem_singleton] at hb
          subst hb
          refine ⟨rfl, ?_⟩
          rw [List.take_of_length_le (by simp only; omega)]

theorem runs_onSend {s : Spec} (h : s.Good) {transferred : Nat} (hok : s.CallOk (.onSend transferred)) :
    s.Runs (.onSend transferred) := by
  obtain ⟨buf, hhead, hpos, hle⟩ := hok
  have hi : s.side.inflight[0]? = some buf := by rw [← List.head?_eq_getElem?]; exact hhead
  have hm := List.mem_of_getElem? hi
  obtain ⟨hio, -, hbuf⟩ := h.sane.bytes buf hm
  have hp : s.side.client.sendIoState = .pending := h.sane.truthful.mpr (List.ne_nil_of_mem hm)
  have hsane : (s.side.step (.completed 0 true transferred)).Sane := by
    rw [step_side h]
    refine Side.sane_completed h.sane ?_
    simp [Side.fails, hi, h.bound, Nat.ne_of_gt hpos]
  obtain ⟨b, hw, -, hc⟩ := TcpClient.onSend_spec h.sane.ok (n := transferred) (by omega)
  have hside : s.side.step (.completed 0 true transferred) =
      ⟨{ s.side.client with sendBuffer := b, sendIoState := .connected }, [], true, s.side.crashed⟩ := by
    rw [step_side h]
    simp [Side.handle, hi, hle, Side.complete, h.bound, Nat.ne_of_gt hpos, hio, hp, hw, h.sane.last hi]
  refine ⟨?_, hsane, by simp only [step, hside], ?_, ?_⟩
  · have halone := alone_onSend (s := s.half) hw
    simp only [code, alone_bind, halone, answer, hw, step, hside]
    rfl
  · simp only [step, hside, hc]
    rw [List.append_assoc, List.take_append_drop]
    exact h.stream
  · intro buf' hb
    simp only [step, hside] at hb
    cases hb

theorem runs {s : Spec} (h : s.Good) {c : Call} (hok : s.CallOk c) : s.Runs c := by
  cases c with
  | writeSendBuffer packet => exact runs_write h packet
  | flushSendBuffer wsaSend => exact runs_flush h hok
  | onSend transferred => exact runs_onSend h hok
  | isValid =>
    refine ⟨?_, h⟩
    simp only [code, alone_bind, alone_isValid, alone_pure]
    rfl

theorem start_good {x : TcpClient} (h : Side.Fresh x) (he : x.sendBuffer.contents = []) : (start x).Good :=
  ⟨Side.sane_start h, rfl, by simp [start, he], by simp [start]⟩

end Spec

def serialSide (x : TcpClient) (order : List Call) : Spec := order.foldl Spec.step (.start x)

theorem sequential_eq {x : TcpClient} (h : Side.Fresh x) (he : x.sendBuffer.contents = []) {order : List Call}
    (hok : Along Spec.step Spec.CallOk (.start x) order) :
    answers (fun s c => (Spec.answer s c, Spec.step s c)) (.start x) order = answers (sequential code) ⟨x, []⟩ order ∧
      (serialSide x order).Good ∧ serialObject code ⟨x, []⟩ order = (serialSide x order).half := by
  have hstep : ∀ (s : Spec) (m : Half) (c : Call), s.Good ∧ m = s.half → s.CallOk c →
      s.answer c = (sequential code m c).1 ∧ ((s.step c).Good ∧ (sequential code m c).2 = (s.step c).half) := by
    intro s m c hs hc
    obtain ⟨hgood, rfl⟩ := hs
    obtain ⟨halone, hnext⟩ := Spec.runs hgood hc
    exact ⟨(congrArg Prod.fst halone).symm, hnext, congrArg Prod.snd halone⟩
  exact @answers_eq Spec Call Spec.CallOk Half Answer (fun s c => (s.answer c, s.step c)) (sequential code)
    (fun s m => s.Good ∧ m = s.half) hstep _ _ _ ⟨Spec.start_good h he, rfl⟩ hok

/-- A session's send side under `m_pSendLock`, in every interleaving of the statements of its callers in which no
    `WSASend` fails and every `OnSend` stands for a completion: when the lock is free the session is what the calls make of it one
    after the other in the order of the lock; a call returns what it answers at its place there; at most one `WSASend` is in
    flight, of the first bytes of the buffer, and `m_SendIoState` says so; the acknowledged bytes and the buffer
    are the accepted packets, whole, in that order. -/
theorem send_calls_are_serial {x : TcpClient} (hx : Side.Fresh x) (he : x.sendBuffer.contents = [])
    {s : Machine Call Half Answer} (h : Reached code ⟨x, []⟩ s) (hok : Along Spec.step Spec.CallOk (.start x) s.order) :
    (s.lock = none → s.object = (serialSide x s.order).half) ∧
      (∀ y ∈ s.returns, ∃ i, y.place = some i ∧ s.order[i]? = some y.call ∧
        y.answer = (serialSide x (s.order.take i)).answer y.call) ∧
      (s.returns.filterMap Return.place).Nodup ∧
      (serialSide x s.order).side.inflight.length ≤ 1 ∧
      (serialSide x s.order).side.Truthful ∧
      (∀ buf ∈ (serialSide x s.order).side.inflight,
        buf.bytes = (serialSide x s.order).side.client.sendBuffer.contents.take buf.len.toNat) ∧
      (serialSide x s.order).acked ++ (serialSide x s.order).side.client.sendBuffer.contents =
        ((serialSide x s.order).accepted.map Packet.frame).flatten := by
  obtain ⟨hfree, hreturns, honce⟩ := serial locked_code h
  obtain ⟨hanswers, hgood, hobject⟩ := sequential_eq hx he hok
  refine ⟨?_, ?_, honce, hgood.sane.one, hgood.sane.truthful, ?_, hgood.stream⟩
  · intro hl
    rw [hfree hl, hobject]
  · intro y hy
    obtain ⟨i, hplace, hcall, hanswer⟩ := hreturns y hy
    rw [← hanswers] at hanswer
    exact ⟨i, hplace, hcall, answers_at hcall hanswer⟩
  · intro buf hb
    exact (hgood.front buf hb).2

/-- Two threads write a packet each, statement by statement in turn, and a third flushes; then six bytes are acknowledged,
    while the session is asked whether it is valid. -/
def twoWriters : List (Sections.Ev Call) := List.flatten [
  [.call 0 (.writeSendBuffer (.load [1, 0, 1, 0x55, 7])), .call 1 (.writeSendBuffer (.load [1, 0, 1, 0x55, 8])),
    .call 2 (.flushSendBuffer true)],
  (List.replicate 7 [.run 1, .run 0, .run 2]).flatten, List.replicate 6 (.run 0), List.replicate 12 (.run 2),
  [.call 0 (.onSend 6), .call 1 .isValid], (List.replicate 13 [.run 1, .run 0]).flatten]

theorem two_writers_do_not_mix :
    (twoWriters.foldl (Machine.step code) (.start ⟨Side.newSession, []⟩)).returns.length = 5 ∧
      (twoWriters.foldl (Machine.step code) (.start ⟨Side.newSession, []⟩)).object.posted.map WsaBuf.bytes =
        [[1, 0, 1, 0x55, 8, 1, 0, 1, 0x55, 7]] ∧
      (serialSide Side.newSession (twoWriters.foldl (Machine.step code) (.start ⟨Side.newSession, []⟩)).order).acked =
        [1, 0, 1, 0x55, 8, 1] ∧
      (serialSide Side.newSession (twoWriters.foldl (Machine.step code)
        (.start ⟨Side.newSession, []⟩)).order).side.Truthful := by
  refine ⟨by decide +kernel, by decide +kernel, by decide +kernel, ?_⟩
  refine (send_calls_are_serial Side.newSession_fresh (by decide) (reached _ _ twoWriters) ?_).2.2.2.2.1
  decide +kernel

end SigHolic.Socket.SendLock
