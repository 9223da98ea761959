/-
  SigHolic.Utility.BufferQueue — a `PulledBuffer` over any sequence of calls.

  `call` is one call of a public operation with the caller's ints, and what the caller
  gets: the result, for `Read` also the destination array, or the fault. A call that raises
  has changed nothing yet: the test is the first statement of `Read` and of `ThrowAway`. A
  receive is what a completed `WSARecv` and `OnReceived` do to the array and the length.

  Proved: called as the program calls it (`Allowed`), the buffer is a queue of at most
  `BUFFER_SIZE` bytes (`buffer_is_a_queue`): every answer is the queue's, and the getters
  describe the queue's bytes and the room behind them. The bytes a pull leaves behind are
  never seen.
-/

import SigHolic.Base.BoundedQueue
import SigHolic.Base.Runs
import SigHolic.Utility.Buffer

namespace SigHolic.Utility.Buffer

open SigHolic.Base SigHolic.Base.Area SigHolic.Base.Runs

inductive Op where
  | write (startPoint : Nat → UInt8) (length : Int)
  | read (readLength : Int) (destBuffer : Nat → UInt8) (destLength : Int)
  | throwAway (throwLength : Int)
  | clear
  /-- The bytes are stored at `GetEmptyPtr()`, then `ForceAddLength`. -/
  | receive (data : List UInt8)

inductive Reply where
  | done
  | returned (value : Int)
  | delivered (value : Int) (destBuffer : Nat → UInt8)
  | raised (fault : Fault)

namespace PulledBuffer

def call (b : PulledBuffer) : Op → Reply × PulledBuffer
  | .write startPoint length =>
    match b.write startPoint length with
    | .error f => (.raised f, b)
    | .ok (value, b') => (.returned value, b')
  | .read readLength destBuffer destLength =>
    match b.read readLength destBuffer destLength with
    | .error f => (.raised f, b)
    | .ok (value, dest, b') => (.delivered value dest, b')
  | .throwAway throwLength =>
    match b.throwAway throwLength with
    | .error f => (.raised f, b)
    | .ok (value, b') => (.returned value, b')
  | .clear => (.done, b.clear)
  | .receive data => (.done, (b.store b.getEmptyPtr data).forceAddLength data.length)

/-- The largest frame: a header and a payload of a 16-bit length. -/
def maxWrite : Int := 65539

/-- The calls the program makes. -/
def Allowed (b : PulledBuffer) : Op → Prop
  | .write _ length => 0 ≤ length ∧ length ≤ maxWrite
  | .read readLength _ destLength => 0 ≤ readLength ∧ readLength ≤ destLength ∧ destLength < 2 ^ 31
  | .throwAway throwLength => 0 ≤ throwLength ∧ throwLength < 2 ^ 31
  | .clear => True
  | .receive data => (data.length : Int) ≤ b.getEmptyLength

instance (b : PulledBuffer) : (op : Op) → Decidable (b.Allowed op)
  | .write _ _ | .throwAway _ => inferInstanceAs (Decidable (_ ∧ _))
  | .read _ _ _ => inferInstanceAs (Decidable (_ ∧ _ ∧ _))
  | .clear => inferInstanceAs (Decidable True)
  | .receive _ => inferInstanceAs (Decidable (_ ≤ _))

end PulledBuffer

/-! ## The queue -/

abbrev ByteQueue := BoundedQueue UInt8 bufferSize

def ByteQueue.call (q : ByteQueue) : Op → Reply × ByteQueue
  | .write startPoint length =>
    match q.append (slice startPoint 0 length.toNat) with
    | some q' => (.returned length, q')
    | none => (.returned (-1), q)
  | .read readLength destBuffer _ =>
    match q.remove readLength.toNat with
    | some (out, q') => (.delivered readLength (blit destBuffer 0 out), q')
    | none => (.raised .thrown, q)
  | .throwAway throwLength =>
    match q.remove throwLength.toNat with
    | some (_, q') => (.returned throwLength, q')
    | none => (.raised .thrown, q)
  | .clear => (.done, .empty)
  | .receive data =>
    match q.append data with
    | some q' => (.done, q')
    | none => (.done, q)

structure Represents (b : PulledBuffer) (q : ByteQueue) : Prop where
  ok : b.Ok
  contents : b.contents = q.items

theorem Represents.length {b : PulledBuffer} {q : ByteQueue} (h : Represents b q) : b.length = q.items.length := by
  rw [← PulledBuffer.length_contents h.ok, h.contents]

structure Describes (b : PulledBuffer) (q : ByteQueue) : Prop where
  getLength : b.getLength = q.items.length
  getPtr : slice b.getPtr 0 q.items.length = q.items
  /-- The room starts right behind the contents. -/
  getEmptyPtr : b.getEmptyPtr = q.items.length
  getEmptyLength : b.getEmptyLength = q.free

theorem Represents.describes {b : PulledBuffer} {q : ByteQueue} (h : Represents b q) : Describes b q := by
  have hlen := h.length
  have hbound := q.bounded
  refine ⟨hlen, ?_, hlen, ?_⟩
  · have hc := h.contents
    unfold PulledBuffer.contents at hc
    rwa [hlen, Int.toNat_natCast] at hc
  · rw [PulledBuffer.getEmptyLength_eq h.ok, hlen, BoundedQueue.free]
    omega

/-! ## One call -/

section

variable {b : PulledBuffer} {q : ByteQueue} (h : Represents b q)
include h

theorem write_refines (startPoint : Nat → UInt8) {n : Nat} (hn : (n : Int) ≤ PulledBuffer.maxWrite) :
    (b.call (.write startPoint n)).1 = (q.call (.write startPoint n)).1 ∧
      Represents (b.call (.write startPoint n)).2 (q.call (.write startPoint n)).2 := by
  have hlen := h.length
  have hmax : PulledBuffer.maxWrite = 65539 := rfl
  have hle := h.ok.le
  have hbs : (bufferSize : Int) = 262144 := rfl
  have hnew : (slice startPoint 0 n).length = n := length_slice _ _ _
  simp only [PulledBuffer.call, ByteQueue.call, Int.toNat_natCast]
  by_cases hfit : q.items.length + (slice startPoint 0 n).length ≤ bufferSize
  · obtain ⟨b', hw, hok, hc⟩ := PulledBuffer.write_fits h.ok startPoint (n := n) (by omega)
    obtain ⟨q', hq, hi⟩ := BoundedQueue.append_fits hfit
    simp only [hw, hq]
    exact ⟨trivial, hok, by rw [hc, hi, h.contents]⟩
  · have hw := PulledBuffer.write_full h.ok startPoint (n := n) (by omega) (by omega)
    have hq := BoundedQueue.append_full (Nat.lt_of_not_le hfit)
    simp only [hw, hq]
    exact ⟨trivial, h⟩

theorem read_refines (dest : Nat → UInt8) {n d : Nat} (hd : n ≤ d) (hmax : d < 2 ^ 31) :
    (b.call (.read n dest d)).1 = (q.call (.read n dest d)).1 ∧
      Represents (b.call (.read n dest d)).2 (q.call (.read n dest d)).2 := by
  have hlen := h.length
  simp only [PulledBuffer.call, ByteQueue.call, Int.toNat_natCast]
  by_cases hn : n ≤ q.items.length
  · obtain ⟨b', hr, hok, hc⟩ := PulledBuffer.read_spec h.ok dest (n := n) (d := d) (by omega) hd hmax
    obtain ⟨q', hq, hi⟩ := BoundedQueue.remove_there hn
    simp only [hr, hq, h.contents]
    exact ⟨trivial, hok, by rw [hc, hi, h.contents]⟩
  · have hr := PulledBuffer.read_throws (b := b) (n := n) (by omega) dest d
    have hq := BoundedQueue.remove_short (q := q) (n := n) (by omega)
    simp only [hr, hq]
    exact ⟨trivial, h⟩

theorem throwAway_refines (n : Nat) :
    (b.call (.throwAway n)).1 = (q.call (.throwAway n)).1 ∧
      Represents (b.call (.throwAway n)).2 (q.call (.throwAway n)).2 := by
  have hlen := h.length
  simp only [PulledBuffer.call, ByteQueue.call, Int.toNat_natCast]
  by_cases hn : n ≤ q.items.length
  · obtain ⟨b', ht, hok, hc⟩ := PulledBuffer.throwAway_spec h.ok (n := n) (by omega)
    obtain ⟨q', hq, hi⟩ := BoundedQueue.remove_there hn
    simp only [ht, hq]
    exact ⟨trivial, hok, by rw [hc, hi, h.contents]⟩
  · have ht := PulledBuffer.throwAway_throws (b := b) (n := n) (by omega)
    have hq := BoundedQueue.remove_short (q := q) (n := n) (by omega)
    simp only [ht, hq]
    exact ⟨trivial, h⟩

theorem receive_refines {data : List UInt8} (hd : (data.length : Int) ≤ b.getEmptyLength) :
    (b.call (.receive data)).1 = (q.call (.receive data)).1 ∧
      Represents (b.call (.receive data)).2 (q.call (.receive data)).2 := by
  have hlen := h.length
  obtain ⟨hok, hc⟩ := PulledBuffer.receive_spec h.ok data hd
  rw [PulledBuffer.getEmptyLength_eq h.ok] at hd
  have hfit : q.items.length + data.length ≤ bufferSize := by omega
  obtain ⟨q', hq, hi⟩ := BoundedQueue.append_fits hfit
  simp only [PulledBuffer.call, ByteQueue.call, hq]
  exact ⟨trivial, hok, by rw [hc, hi, h.contents]⟩

/-- A call that the program makes is answered as by the queue. -/
theorem call_refines {op : Op} (ha : b.Allowed op) :
    (b.call op).1 = (q.call op).1 ∧ Represents (b.call op).2 (q.call op).2 := by
  cases op with
  | write startPoint length =>
    obtain ⟨h0, hmax⟩ := ha
    obtain ⟨n, rfl⟩ := Int.eq_ofNat_of_zero_le h0
    exact write_refines h startPoint hmax
  | read readLength dest destLength =>
    obtain ⟨h0, hle, hmax⟩ := ha
    obtain ⟨n, rfl⟩ := Int.eq_ofNat_of_zero_le h0
    obtain ⟨d, rfl⟩ := Int.eq_ofNat_of_zero_le (h0.trans hle)
    exact read_refines h dest (by omega) (by omega)
  | throwAway throwLength =>
    obtain ⟨h0, -⟩ := ha
    obtain ⟨n, rfl⟩ := Int.eq_ofNat_of_zero_le h0
    exact throwAway_refines h n
  | clear => exact ⟨rfl, PulledBuffer.new_ok, rfl⟩
  | receive data => exact receive_refines h ha

end

/-! ## Any sequence of calls -/

def bufferAfter (ops : List Op) : PulledBuffer := ops.foldl (after PulledBuffer.call) .new

def queueAfter (ops : List Op) : ByteQueue := ops.foldl (after ByteQueue.call) .empty

theorem new_represents : Represents .new .empty := ⟨PulledBuffer.new_ok, rfl⟩

/-- From the constructor on, whatever the program calls, the buffer answers as a queue of at most `BUFFER_SIZE`
    bytes does, its length stays in bounds, and the getters describe the queue. -/
theorem buffer_is_a_queue (ops : List Op) (h : Along (after PulledBuffer.call) PulledBuffer.Allowed .new ops) :
    answers PulledBuffer.call .new ops = answers ByteQueue.call .empty ops ∧
      (bufferAfter ops).Ok ∧ (bufferAfter ops).contents = (queueAfter ops).items ∧
      Describes (bufferAfter ops) (queueAfter ops) := by
  have hstep : ∀ b q op, Represents b q → PulledBuffer.Allowed b op →
      (PulledBuffer.call b op).1 = (ByteQueue.call q op).1 ∧
        Represents (after PulledBuffer.call b op) (after ByteQueue.call q op) := by
    intro b q op hr ha
    exact call_refines hr ha
  obtain ⟨hanswers, hrep⟩ := answers_eq hstep new_represents h
  exact ⟨hanswers, hrep.ok, hrep.contents, hrep.describes⟩

/-- Two bytes written, one read, two received, and one more thrown away than there are. -/
def fewCalls : List Op :=
  [.write (fun i => if i = 0 then 7 else 8) 2, .read 1 (fun _ => 0) 1, .receive [9, 10], .throwAway 4]

theorem few_calls_on_a_queue :
    (bufferAfter fewCalls).contents = (queueAfter fewCalls).items ∧ (queueAfter fewCalls).items = [8, 9, 10] := by
  have h : Along (after PulledBuffer.call) PulledBuffer.Allowed .new fewCalls := by decide +kernel
  exact ⟨(buffer_is_a_queue fewCalls h).2.2.1, by decide +kernel⟩

end SigHolic.Utility.Buffer
