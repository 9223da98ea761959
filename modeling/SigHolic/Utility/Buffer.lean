/-
  SigHolic.Utility.Buffer — `PulledBuffer` (utility/Buffer.h): the 256 KiB array behind
  each half of a session.

  `m_Length` is a 32-bit int and the lengths are the caller's ints, so sums wrap
  (`int32`) and a negative length is a huge `size_t` (`sizeT`). `memcpy_s` copies
  nothing when the count exceeds the destination. A copy that would start before its
  array, or is longer than any array can be, is a `badAccess`; `throw;` with no exception at
  hand is `thrown`. Both end the process. `IBuffer` and `BufferFactory` only dispatch to
  this one class.

  The contents are the first `m_Length` bytes; what lies behind them is stale. While
  `0 ≤ m_Length ≤ BUFFER_SIZE` (`Ok`) the buffer is a queue of bytes:
  - `write_fits` / `write_full`: `Write` appends all or nothing;
  - `read_spec` / `throwAway_spec`: `Read` and `ThrowAway` remove exactly a prefix;
  - `read_throws` / `throwAway_throws`: asking for more than there is ends the process;
  - `receive_spec`: bytes stored at `GetEmptyPtr()` are appended by `ForceAddLength`.
-/

import Mathlib.Algebra.Order.Ring.Int
import SigHolic.Base.Area

namespace SigHolic.Utility.Buffer

open SigHolic.Base.Area

inductive Fault where
  | thrown
  | badAccess
  deriving DecidableEq, Repr

def bufferSize : Nat := 65536 * 4

def int32 (x : Int) : Int := x.bmod (2 ^ 32)

/-- An int passed as a `size_t` (the project builds for Win32). -/
def sizeT (x : Int) : Nat := (x % 2 ^ 32).toNat

/-- `memcpy_s(dst + dstOff, destsz, src + srcOff, count)`. The source ignores the result. -/
def memcpy_s (dst : Nat → UInt8) (dstOff destsz : Int) (src : Nat → UInt8) (srcOff count : Int) :
    Except Fault (Nat → UInt8) :=
  if sizeT destsz < sizeT count then .ok dst
  else if 0 < sizeT count ∧ (dstOff < 0 ∨ srcOff < 0) ∨ 2 ^ 31 ≤ sizeT count then .error .badAccess
  else .ok (blit dst dstOff.toNat (slice src srcOff.toNat (sizeT count)))

structure PulledBuffer where
  /-- `m_Buffer`, `BUFFER_SIZE` bytes. -/
  buffer : Nat → UInt8
  /-- `m_Length`. -/
  length : Int

namespace PulledBuffer

def new : PulledBuffer := ⟨fun _ => 0, 0⟩

def getPtr (b : PulledBuffer) : Nat → UInt8 := b.buffer

def getLength (b : PulledBuffer) : Int := b.length

def getEmptyPtr (b : PulledBuffer) : Int := b.length

def getEmptyLength (b : PulledBuffer) : Int := int32 (bufferSize - b.length)

def write (b : PulledBuffer) (startPoint : Nat → UInt8) (length : Int) : Except Fault (Int × PulledBuffer) :=
  if int32 (b.length + length) > bufferSize then .ok (-1, b)
  else do
    let buffer ← memcpy_s b.buffer b.length (int32 (bufferSize - b.length)) startPoint 0 length
    .ok (length, ⟨buffer, int32 (b.length + length)⟩)

def forceAddLength (b : PulledBuffer) (length : Int) : PulledBuffer := { b with length := int32 (b.length + length) }

def clear (_ : PulledBuffer) : PulledBuffer := ⟨fun _ => 0, 0⟩

/-- The common end of `Read` and `ThrowAway`: the length is reduced, and what is left is
    pulled to the front through a temporary array. An emptied array is left as it is. -/
def pull (b : PulledBuffer) (count : Int) : Except Fault PulledBuffer :=
  let b : PulledBuffer := { b with length := int32 (b.length - count) }
  if b.length > 0 then do
    let tempBuffer ← memcpy_s (fun _ => 0) 0 bufferSize b.buffer count b.length
    let r ← (clear b).write tempBuffer b.length
    .ok r.2
  else .ok b

/-- The result, the destination array after the copy, and the buffer. -/
def read (b : PulledBuffer) (readLength : Int) (destBuffer : Nat → UInt8) (destLength : Int) :
    Except Fault (Int × (Nat → UInt8) × PulledBuffer) :=
  if readLength > b.length then .error .thrown
  else do
    let destBuffer ← memcpy_s destBuffer 0 destLength b.buffer 0 readLength
    let b ← b.pull readLength
    .ok (readLength, destBuffer, b)

def throwAway (b : PulledBuffer) (throwLength : Int) : Except Fault (Int × PulledBuffer) :=
  if throwLength > b.length then .error .thrown
  else do
    let b ← b.pull throwLength
    .ok (throwLength, b)

/-- What a completed `WSARecv` leaves in the array: `data` at offset `off`. -/
def store (b : PulledBuffer) (off : Int) (data : List UInt8) : PulledBuffer :=
  { b with buffer := blit b.buffer off.toNat data }

/-! ## The contents -/

structure Ok (b : PulledBuffer) : Prop where
  nonneg : 0 ≤ b.length
  le : b.length ≤ bufferSize

def contents (b : PulledBuffer) : List UInt8 := slice b.buffer 0 b.length.toNat

end PulledBuffer

open PulledBuffer

@[simp] theorem ok_bind {α β : Type} (x : α) (f : α → Except Fault β) : (Except.ok x >>= f) = f x := rfl

theorem int32_eq {x : Int} (h : 0 ≤ x) (h' : x < 2 ^ 31) : int32 x = x := by
  unfold int32
  rw [Int.bmod_eq_emod_of_lt] <;> omega

theorem int32_le {x : Int} (h : -2 ^ 31 ≤ x) : int32 x ≤ x := by
  unfold int32
  by_cases hlt : x < 2 ^ 31
  · rw [Int.bmod_eq_of_le] <;> omega
  · have := Int.bmod_lt (x := x) (m := 2 ^ 32) (by decide)
    omega

theorem int32_ge (x : Int) : -2 ^ 31 ≤ int32 x := by
  have := Int.le_bmod (x := x) (m := 2 ^ 32) (by decide)
  unfold int32
  omega

theorem sizeT_eq {x : Int} (h : 0 ≤ x) (h' : x < 2 ^ 31) : sizeT x = x.toNat := by
  unfold sizeT
  rw [Int.emod_eq_of_lt h (by omega)]

theorem memcpy_s_ok (dst : Nat → UInt8) (dstOff destsz : Int) (src : Nat → UInt8) (srcOff count : Int) (hd : 0 ≤ dstOff)
    (hs : 0 ≤ srcOff) (hc : 0 ≤ count) (hle : count ≤ destsz) (hlt : destsz < 2 ^ 31) :
    memcpy_s dst dstOff destsz src srcOff count =
      .ok (blit dst dstOff.toNat (slice src srcOff.toNat count.toNat)) := by
  unfold memcpy_s
  rw [sizeT_eq hc (by omega), sizeT_eq (by omega) hlt, if_neg (by omega), if_neg (by omega)]

namespace PulledBuffer

theorem new_ok : new.Ok := ⟨Int.le_refl 0, by decide⟩

@[simp] theorem new_contents : new.contents = [] := rfl

@[simp] theorem clear_contents (b : PulledBuffer) : b.clear.contents = [] := rfl

theorem length_contents {b : PulledBuffer} (h : b.Ok) : (b.contents.length : Int) = b.length := by
  rw [contents, length_slice, Int.toNat_of_nonneg h.nonneg]

theorem getEmptyLength_eq {b : PulledBuffer} (h : b.Ok) : b.getEmptyLength = bufferSize - b.length := by
  have h1 := h.nonneg
  have h2 := h.le
  unfold getEmptyLength
  rw [int32_eq] <;> simp only [bufferSize] at * <;> omega

/-- Two buffers whose arrays agree on the contents have the same contents. -/
theorem contents_congr {a b : PulledBuffer} (hl : a.length = b.length) (h : ∀ i < b.length.toNat, a.buffer i = b.buffer i) :
    a.contents = b.contents := by
  unfold contents
  rw [hl]
  exact slice_congr fun i hi => by simpa using h i hi

/-! ## Write -/

theorem write_fits {b : PulledBuffer} (h : b.Ok) (src : Nat → UInt8) {n : Nat} (hn : b.length + n ≤ bufferSize) :
    ∃ b', b.write src n = .ok ((n : Int), b') ∧ b'.Ok ∧ b'.contents = b.contents ++ slice src 0 n := by
  have h1 := h.nonneg
  have hbs : (bufferSize : Int) = 262144 := rfl
  have hsum : int32 (b.length + n) = b.length + n := int32_eq (by omega) (by omega)
  have hcap : int32 (bufferSize - b.length) = bufferSize - b.length := int32_eq (by omega) (by omega)
  have hcopy := memcpy_s_ok b.buffer b.length (bufferSize - b.length) src 0 n h1 (by omega) (by omega) (by omega) (by omega)
  refine ⟨⟨blit b.buffer b.length.toNat (slice src 0 n), b.length + n⟩, ?_,
    ⟨by show 0 ≤ b.length + n; omega, hn⟩, ?_⟩
  · unfold write
    rw [hsum, hcap, if_neg (by omega), hcopy]
    rfl
  · have hlen : (b.length + n).toNat = b.length.toNat + (slice src 0 n).length := by
      rw [length_slice]; omega
    simp only [contents]
    rw [hlen, slice_blit_end]

theorem write_full {b : PulledBuffer} (h : b.Ok) (src : Nat → UInt8) {n : Nat} (hn : bufferSize < b.length + n)
    (hmax : b.length + n < 2 ^ 31) : b.write src n = .ok (-1, b) := by
  have h1 := h.nonneg
  unfold write
  rw [int32_eq (by omega) hmax, if_pos hn]

/-! ## Read and ThrowAway -/

theorem pull_spec {b : PulledBuffer} (h : b.Ok) {n : Nat} (hn : n ≤ b.length) :
    ∃ b', b.pull n = .ok b' ∧ b'.Ok ∧ b'.contents = b.contents.drop n := by
  have h1 := h.nonneg
  have h2 := h.le
  have hbs : (bufferSize : Int) = 262144 := rfl
  have hlen : int32 (b.length - n) = b.length - n := int32_eq (by omega) (by omega)
  have hdrop : b.contents.drop n = slice b.buffer n (b.length.toNat - n) := by
    rw [contents, drop_slice _ _ (by omega), Nat.zero_add]
  unfold pull
  simp only [hlen]
  by_cases hpos : b.length - n > 0
  · have hcopy := memcpy_s_ok (fun _ => 0) 0 bufferSize b.buffer n (b.length - n) (by omega) (by omega) (by omega) (by omega)
      (by omega)
    obtain ⟨k, hk⟩ : ∃ k : Nat, (k : Int) = b.length - n := ⟨(b.length - n).toNat, by omega⟩
    have hnew : (clear { b with length := b.length - n }).Ok := new_ok
    obtain ⟨b', hw, hok, hc⟩ := write_fits hnew (blit (fun _ => 0) 0 (slice b.buffer n k)) (n := k)
      (by show (0 : Int) + k ≤ bufferSize; omega)
    refine ⟨b', ?_, hok, ?_⟩
    · rw [← hk] at hcopy hw ⊢
      simp only [Int.toNat_natCast, Int.toNat_zero] at hcopy
      rw [if_pos (by omega), hcopy, ok_bind, hw, ok_bind]
    · have hself := slice_blit_self (fun _ => (0 : UInt8)) 0 (slice b.buffer n k)
      rw [length_slice] at hself
      rw [hc, hself, hdrop, show k = b.length.toNat - n by omega, clear_contents, List.nil_append]
  · rw [if_neg hpos]
    refine ⟨_, rfl, ⟨by show 0 ≤ b.length - n; omega, by show b.length - n ≤ bufferSize; omega⟩, ?_⟩
    rw [hdrop, show b.length.toNat - n = 0 by omega]
    show slice b.buffer 0 (b.length - n).toNat = []
    rw [show (b.length - n).toNat = 0 by omega, slice_zero]

theorem read_spec {b : PulledBuffer} (h : b.Ok) (dest : Nat → UInt8) {n d : Nat} (hn : n ≤ b.length) (hd : n ≤ d)
    (hmax : d < 2 ^ 31) :
    ∃ b', b.read n dest d = .ok ((n : Int), blit dest 0 (b.contents.take n), b') ∧ b'.Ok ∧
      b'.contents = b.contents.drop n := by
  have h1 := h.nonneg
  have hcopy := memcpy_s_ok dest 0 d b.buffer 0 n (by omega) (by omega) (by omega) (by omega) (by omega)
  obtain ⟨b', hp, hok, hc⟩ := pull_spec h hn
  refine ⟨b', ?_, hok, hc⟩
  unfold read
  rw [if_neg (by omega), hcopy, contents, take_slice _ _ (by omega)]
  simp only [ok_bind, hp, Int.toNat_natCast, Int.toNat_zero]

theorem throwAway_spec {b : PulledBuffer} (h : b.Ok) {n : Nat} (hn : n ≤ b.length) :
    ∃ b', b.throwAway n = .ok ((n : Int), b') ∧ b'.Ok ∧ b'.contents = b.contents.drop n := by
  obtain ⟨b', hp, hok, hc⟩ := pull_spec h hn
  refine ⟨b', ?_, hok, hc⟩
  unfold throwAway
  rw [if_neg (by omega), hp]
  rfl

/-- What a `Read` that returns has put into the destination. -/
theorem read_copies {b b' : PulledBuffer} {dest dest' : Nat → UInt8} {n d r : Int} (h : b.read n dest d = .ok (r, dest', b')) :
    memcpy_s dest 0 d b.buffer 0 n = .ok dest' := by
  unfold read at h
  split at h
  · cases h
  · rcases hm : memcpy_s dest 0 d b.buffer 0 n with f | dest''
    · rw [hm] at h; cases h
    · rw [hm, ok_bind] at h
      rcases hp : b.pull n with f | b'' <;> rw [hp] at h <;> cases h
      rfl

theorem read_throws {b : PulledBuffer} {n : Int} (hn : b.length < n) (dest : Nat → UInt8) (d : Int) :
    b.read n dest d = .error .thrown := by
  unfold read
  rw [if_pos hn]

theorem throwAway_throws {b : PulledBuffer} {n : Int} (hn : b.length < n) : b.throwAway n = .error .thrown := by
  unfold throwAway
  rw [if_pos hn]

theorem write_length {b b' : PulledBuffer} {p : Nat → UInt8} {n r : Int} (h : b.write p n = .ok (r, b')) :
    b'.length = b.length ∨ b'.length = int32 (b.length + n) := by
  unfold write at h
  split at h
  · cases h
    exact Or.inl rfl
  · rcases hm : memcpy_s b.buffer b.length (int32 (bufferSize - b.length)) p 0 n with f | buffer
    · rw [hm] at h
      cases h
    · rw [hm, ok_bind] at h
      cases h
      exact Or.inr rfl

/-- What is taken from the front is gone, whatever becomes of the rest. -/
theorem pull_length {b b' : PulledBuffer} {n : Int} (h : b.pull n = .ok b') (hn : n ≤ b.length) :
    b'.length ≤ b.length - n ∧ -2 ^ 31 ≤ b'.length := by
  have hle : int32 (b.length - n) ≤ b.length - n := int32_le (by omega)
  have hge := int32_ge (b.length - n)
  unfold pull at h
  simp only at h
  split at h
  · rename_i hpos
    rcases hm : memcpy_s (fun _ => 0) 0 bufferSize b.buffer n (int32 (b.length - n)) with f | temp
    · rw [hm] at h
      cases h
    · rw [hm, ok_bind] at h
      rcases hw : (clear ⟨b.buffer, int32 (b.length - n)⟩).write temp (int32 (b.length - n)) with f | ⟨r, c⟩
      · rw [hw] at h
        cases h
      · rw [hw, ok_bind] at h
        cases h
        rcases write_length hw with hc | hc
        · rw [hc]
          show (0 : Int) ≤ _ ∧ _
          exact ⟨by omega, by show (-2 ^ 31 : Int) ≤ 0; omega⟩
        · have := int32_le (x := (0 : Int) + int32 (b.length - n)) (by omega)
          have := int32_ge ((0 : Int) + int32 (b.length - n))
          have hc' : c.length = int32 (0 + int32 (b.length - n)) := hc
          rw [hc']
          omega
  · cases h
    exact ⟨hle, hge⟩

/-! ## Receiving -/

/-- Bytes stored behind the contents change neither the contents nor the length. -/
theorem store_contents (b : PulledBuffer) (data : List UInt8) :
    (b.store b.getEmptyPtr data).contents = b.contents := by
  refine contents_congr (b := b) rfl fun i hi => ?_
  exact blit_below _ _ hi

/-- `ForceAddLength`: the bytes behind the contents become part of them. -/
theorem forceAddLength_spec {b : PulledBuffer} (h : b.Ok) {n : Nat} (hn : (n : Int) ≤ b.getEmptyLength) :
    (b.forceAddLength n).Ok ∧ (b.forceAddLength n).contents = b.contents ++ slice b.buffer b.length.toNat n := by
  have h1 := h.nonneg
  have hbs : (bufferSize : Int) = 262144 := rfl
  rw [getEmptyLength_eq h] at hn
  have hsum : int32 (b.length + n) = b.length + n := int32_eq (by omega) (by omega)
  constructor
  · exact ⟨by show 0 ≤ int32 (b.length + n); rw [hsum]; omega,
      by show int32 (b.length + n) ≤ bufferSize; rw [hsum]; omega⟩
  · show slice b.buffer 0 (int32 (b.length + n)).toNat = _
    rw [hsum, show (b.length + n).toNat = b.length.toNat + n by omega, slice_add, Nat.zero_add]
    rfl

theorem receive_spec {b : PulledBuffer} (h : b.Ok) (data : List UInt8) (hd : (data.length : Int) ≤ b.getEmptyLength) :
    ((b.store b.getEmptyPtr data).forceAddLength data.length).Ok ∧
      ((b.store b.getEmptyPtr data).forceAddLength data.length).contents = b.contents ++ data := by
  obtain ⟨hok, hc⟩ := forceAddLength_spec (b := b.store b.getEmptyPtr data) ⟨h.nonneg, h.le⟩ hd
  refine ⟨hok, ?_⟩
  rw [hc, store_contents]
  exact congrArg _ (slice_blit_self _ _ _)

end PulledBuffer

end SigHolic.Utility.Buffer
