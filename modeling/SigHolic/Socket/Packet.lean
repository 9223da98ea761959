/-
  SigHolic.Socket.Packet — the wire format (packet/Packet.h).

  A `Packet*` is read as the bytes it points to: a little-endian 16-bit `dataSize_`, then
  `flag_` and `checkSum_` (the structs are packed to one byte), then the payload. A frame
  is the header and `dataSize_` payload bytes.

  `frames` and `residue` are the reference parser of a received stream: take
  `4 + dataSize_` bytes off the front as long as `dataSize_ > 0` and that many bytes are
  there.
-/

import SigHolic.Base.Area
import SigHolic.Base.Framing

namespace SigHolic.Socket

open SigHolic.Base.Area SigHolic.Base

abbrev Packet := Nat → UInt8

def packetHeaderSize : Nat := 4

def sizeofPacket : Nat := packetHeaderSize + 65532

namespace Packet

def dataSize (p : Packet) : Nat := (p 0).toNat + 256 * (p 1).toNat

def flag (p : Packet) : UInt8 := p 2

def checkSum (p : Packet) : UInt8 := p 3

def size (p : Packet) : Nat := p.dataSize + packetHeaderSize

/-- The packet's frame: the header and the payload it announces. -/
def frame (p : Packet) : List UInt8 := slice p 0 p.size

/-- A zeroed array that starts with `f`: the destination of the receive loop's `Read`. -/
def load (f : List UInt8) : Packet := blit (fun _ => 0) 0 f

def Valid (p : Packet) : Prop := p.checkSum = 0x55 ∧ (p.flag = 0x01 ∨ p.flag = 0x02)

instance (p : Packet) : Decidable p.Valid := inferInstanceAs (Decidable (_ ∧ _))

theorem dataSize_lt (p : Packet) : p.dataSize < 65536 := by
  have h0 := (p 0).toNat_lt
  have h1 := (p 1).toNat_lt
  unfold dataSize
  omega

@[simp] theorem length_frame (p : Packet) : p.frame.length = p.size := length_slice _ _ _

structure Same (p q : Packet) : Prop where
  dataSize : p.dataSize = q.dataSize
  flag : p.flag = q.flag
  checkSum : p.checkSum = q.checkSum
  data : ∀ i < p.dataSize, p (packetHeaderSize + i) = q (packetHeaderSize + i)

end Packet

/-! ## The reference parser -/

def wireSize : List UInt8 → Option Nat
  | a :: b :: _ =>
    let dataSize := a.toNat + 256 * b.toNat
    if dataSize > 0 then some (dataSize + packetHeaderSize) else none
  | _ => none

def frames (stream : List UInt8) : List (List UInt8) := Framing.frames wireSize stream

def residue (stream : List UInt8) : List UInt8 := Framing.rest wireSize stream

theorem wireSize_gt {xs : List UInt8} {n : Nat} (h : wireSize xs = some n) : 4 < n := by
  unfold wireSize at h
  split at h
  · simp only [Option.ite_none_right_eq_some, Option.some.injEq, packetHeaderSize] at h
    omega
  · cases h

theorem wireSize_settled : Framing.Settled wireSize where
  pos h := Nat.lt_of_le_of_lt (Nat.zero_le _) (wireSize_gt h)
  stable {xs n} ys h _ := by
    unfold wireSize at h
    split at h
    · exact h
    · cases h

/-- Where the stream was cut does not matter. -/
theorem frames_append (xs ys : List UInt8) : frames (xs ++ ys) = frames xs ++ frames (residue xs ++ ys) :=
  Framing.frames_append wireSize_settled xs ys

theorem residue_append (xs ys : List UInt8) : residue (xs ++ ys) = residue (residue xs ++ ys) :=
  Framing.rest_append wireSize_settled xs ys

/-- The stream starts with a whole header that announces no payload. -/
def zeroHeader : List UInt8 → Bool
  | a :: b :: _ :: _ :: _ => a.toNat + 256 * b.toNat == 0
  | _ => false

/-! ## Arrays that hold a stream -/

/-- An array's first frame size, read off the stream it starts with. -/
theorem wireSize_slice (m : Packet) {len : Nat} (h : 2 ≤ len) :
    wireSize (slice m 0 len) = if m.dataSize > 0 then some m.size else none := by
  obtain ⟨k, rfl⟩ := Nat.exists_eq_add_of_le h
  rw [slice_add]
  rfl

theorem next_slice (m : Packet) (len : Nat) :
    Framing.next wireSize (slice m 0 len) = if m.dataSize > 0 ∧ m.size ≤ len then some m.size else none := by
  by_cases h : 2 ≤ len
  · unfold Framing.next
    rw [wireSize_slice m h, length_slice]
    by_cases hd : m.dataSize > 0
    · by_cases hs : m.size ≤ len
      · rw [if_pos hd, if_pos ⟨hd, hs⟩]; simp [hs]
      · rw [if_pos hd, if_neg (by simp [hs])]; simp; omega
    · rw [if_neg hd, if_neg (by simp [hd])]; rfl
  · have hs : ¬ m.size ≤ len := by unfold Packet.size packetHeaderSize; omega
    rw [if_neg (by simp [hs]), Option.eq_none_iff_forall_ne_some]
    intro n hn
    obtain ⟨h1, h2⟩ := Framing.next_eq_some.mp hn
    have := wireSize_gt h1
    rw [length_slice] at h2; omega

theorem zeroHeader_slice (m : Packet) (len : Nat) :
    zeroHeader (slice m 0 len) = true ↔ packetHeaderSize ≤ len ∧ m.dataSize = 0 := by
  by_cases h : packetHeaderSize ≤ len
  · obtain ⟨k, rfl⟩ := Nat.exists_eq_add_of_le h
    rw [slice_add, show zeroHeader (slice m 0 packetHeaderSize ++ slice m (0 + packetHeaderSize) k) = (m.dataSize == 0) from rfl]
    simp
  · have hlen : (slice m 0 len).length < 4 := by rw [length_slice]; unfold packetHeaderSize at h; omega
    match hs : slice m 0 len, hlen with
    | [], _ | [_], _ | [_, _], _ | [_, _, _], _ => simp [zeroHeader, h]

theorem load_apply {f : List UInt8} {i : Nat} (h : i < f.length) : Packet.load f i = f[i] := by
  have := blit_at (fun _ => (0 : UInt8)) 0 h
  rwa [Nat.zero_add] at this

/-- A frame copied to the start of a zeroed array. -/
theorem load_frame_apply (m : Packet) {i : Nat} (h : i < m.size) : Packet.load m.frame i = m i := by
  rw [load_apply (by rw [Packet.length_frame]; exact h)]
  simp [Packet.frame, slice]

theorem le_size (m : Packet) : 4 ≤ m.size := by unfold Packet.size packetHeaderSize; omega

theorem dataSize_load (m : Packet) : (Packet.load m.frame).dataSize = m.dataSize := by
  have := le_size m
  unfold Packet.dataSize
  rw [load_frame_apply m (by omega), load_frame_apply m (by omega)]

/-- A complete frame, copied to the start of a zeroed array, is that array's own frame. -/
theorem frame_load (m : Packet) : (Packet.load m.frame).frame = m.frame := by
  have hsize : (Packet.load m.frame).size = m.size := by
    unfold Packet.size
    rw [dataSize_load]
  unfold Packet.frame
  rw [show slice m 0 m.size = m.frame from rfl, hsize]
  refine slice_congr fun i hi => ?_
  rw [Nat.zero_add, load_frame_apply m hi]

/-- What the receive loop makes of a packet's frame is the packet. -/
theorem same_load (m : Packet) : (Packet.load m.frame).Same m := by
  have hge := le_size m
  refine ⟨dataSize_load m, load_frame_apply m (by omega), load_frame_apply m (by omega), fun i hi => ?_⟩
  rw [dataSize_load] at hi
  refine load_frame_apply m ?_
  unfold Packet.size
  omega

/-- A packet with a payload is a complete frame on the wire. -/
theorem wireSize_frame {m : Packet} (h : 0 < m.dataSize) : wireSize m.frame = some m.frame.length := by
  have := le_size m
  rw [Packet.length_frame, Packet.frame, wireSize_slice m (by omega), if_pos h]

/-- Every stream's frame is the frame of the array it is copied to. -/
theorem frame_load_of_mem {stream f : List UInt8} (h : f ∈ frames stream) : (Packet.load f).frame = f := by
  induction stream using Framing.induction wireSize_settled with
  | stop xs hn => rw [frames, Framing.frames_of_none hn] at h; cases h
  | frame xs n hn ih =>
    rw [frames, Framing.frames_of_some wireSize_settled hn] at h
    rcases List.mem_cons.mp h with rfl | h
    · -- the stream is what stands at the start of an array
      have hxs : slice (Packet.load xs) 0 xs.length = xs := slice_blit_self _ _ _
      rw [← hxs, next_slice] at hn
      simp only [Option.ite_none_right_eq_some, Option.some.injEq] at hn
      obtain ⟨⟨-, hle⟩, rfl⟩ := hn
      have htake : xs.take (Packet.load xs).size = (Packet.load xs).frame := by
        rw [← congrArg (List.take (Packet.load xs).size) hxs]
        exact take_slice _ _ hle
      rw [htake]
      exact frame_load _
    · exact ih h

/-- What packets with a payload look like on the wire is read back frame by frame. -/
theorem frames_concat {ps : List Packet} (h : ∀ p ∈ ps, 0 < p.dataSize) :
    frames (ps.map Packet.frame).flatten = ps.map Packet.frame ∧ residue (ps.map Packet.frame).flatten = [] := by
  have hall : ∀ f ∈ ps.map Packet.frame, wireSize f = some f.length := by
    intro f hf
    obtain ⟨p, hp, rfl⟩ := List.mem_map.mp hf
    exact wireSize_frame (h p hp)
  have hparse := Framing.parse_concat wireSize_settled hall
  exact ⟨by rw [frames, Framing.frames, hparse], by rw [residue, Framing.rest, hparse]⟩

end SigHolic.Socket
