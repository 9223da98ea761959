/-
  SigHolic.Utility.BufferLimits — `PulledBuffer` called with any int.

  Each call should do all of its work or none (`AllOrNothing`). The tests at the head of the
  operations do not keep every int out:
  - `Write` adds before it compares: a sum past 2^31 wraps and passes, and so does any
    negative length. The copy then fails, and the length is moved all the same.
  - `Read` ignores the result of its copy into the caller's array: when that is too short,
    the bytes are delivered to nobody and removed.
  - `Read` and `ThrowAway` let a negative length pass. What is pulled to the front then
    starts before the array, or is too long for it and the buffer is emptied.

  Proved: `calls_are_all_or_nothing_iff_harmless`: in any run of calls with any ints, every
  call is all or nothing, and leaves the length in bounds, exactly when every call's
  arguments are `Harmless` for the length it finds.
-/

import SigHolic.Utility.BufferQueue

namespace SigHolic.Utility.Buffer

open SigHolic.Base.Area SigHolic.Base.Runs

def IsInt (x : Int) : Prop := -2 ^ 31 ≤ x ∧ x < 2 ^ 31

instance (x : Int) : Decidable (IsInt x) := inferInstanceAs (Decidable (_ ∧ _))

namespace PulledBuffer

/-- The arguments are ints; a receive is of no more bytes than there was room for. -/
def Callable (b : PulledBuffer) : Op → Prop
  | .write _ length => IsInt length
  | .read readLength _ destLength => IsInt readLength ∧ IsInt destLength
  | .throwAway throwLength => IsInt throwLength
  | .clear => True
  | .receive data => (data.length : Int) ≤ b.getEmptyLength

instance (b : PulledBuffer) : (op : Op) → Decidable (b.Callable op)
  | .write _ length => inferInstanceAs (Decidable (IsInt length))
  | .read _ _ _ => inferInstanceAs (Decidable (_ ∧ _))
  | .throwAway throwLength => inferInstanceAs (Decidable (IsInt throwLength))
  | .clear => inferInstanceAs (Decidable True)
  | .receive _ => inferInstanceAs (Decidable (_ ≤ _))

structure Unchanged (b b' : PulledBuffer) : Prop where
  contents : b'.contents = b.contents
  length : b'.length = b.length

structure Appended (b b' : PulledBuffer) (new : List UInt8) : Prop where
  contents : b'.contents = b.contents ++ new
  length : b'.length = b.length + new.length

structure Removed (b b' : PulledBuffer) (n : Nat) : Prop where
  le : n ≤ b.length
  contents : b'.contents = b.contents.drop n
  length : b'.length = b.length - n

/-- The call does its work or leaves the buffer as it was. `Read` may be given any array to copy into. -/
def Sound (b : PulledBuffer) : Op → Prop
  | .write p n =>
    ((b.call (.write p n)).1 = .returned n ∧ 0 ≤ n ∧ b.Appended (b.call (.write p n)).2 (slice p 0 n.toNat)) ∨
      ((b.call (.write p n)).1 = .returned (-1) ∧ b.Unchanged (b.call (.write p n)).2)
  | .read n _ d => ∀ dest,
    (∃ k value, (b.call (.read n dest d)).1 = .delivered value (blit dest 0 (b.contents.take k)) ∧
      b.Removed (b.call (.read n dest d)).2 k) ∨
      ((b.call (.read n dest d)).1 ≠ .raised .badAccess ∧ b.Unchanged (b.call (.read n dest d)).2)
  | .throwAway n =>
    ((b.call (.throwAway n)).1 = .returned n ∧ 0 ≤ n ∧ b.Removed (b.call (.throwAway n)).2 n.toNat) ∨
      ((b.call (.throwAway n)).1 = .raised .thrown ∧ b.Unchanged (b.call (.throwAway n)).2)
  | _ => True

def AllOrNothing (b : PulledBuffer) (op : Op) : Prop := b.Sound op ∧ (b.call op).2.Ok

/-- The arguments do no harm to a buffer of this length. The last case of `Read` is a negative length so large
    that an empty buffer is emptied. -/
def Harmless (b : PulledBuffer) : Op → Prop
  | .write _ n => 0 ≤ n ∧ b.length + n < 2 ^ 31
  | .read n _ d =>
    b.length < n ∨ (0 ≤ n ∧ (n = 0 ∨ d < 0 ∨ n ≤ d)) ∨
      (b.length = 0 ∧ -2 ^ 31 < n ∧ n < -bufferSize ∧ ¬ (n ≤ d ∧ d < 0))
  | .throwAway n => 0 ≤ n
  | _ => True

instance (b : PulledBuffer) : (op : Op) → Decidable (b.Harmless op)
  | .write _ _ => inferInstanceAs (Decidable (_ ∧ _))
  | .read _ _ _ => inferInstanceAs (Decidable (_ ∨ _ ∨ _))
  | .throwAway _ => inferInstanceAs (Decidable (_ ≤ _))
  | .clear => inferInstanceAs (Decidable True)
  | .receive _ => inferInstanceAs (Decidable True)

def other (b : PulledBuffer) : Nat → UInt8 := fun _ => b.buffer 0 + 1

end PulledBuffer

open PulledBuffer

/-! ## Ints out of range -/

theorem int32_small {x : Int} (h : -2 ^ 31 ≤ x) (h' : x < 2 ^ 31) : int32 x = x := by
  unfold int32
  rw [Int.bmod_eq_of_le] <;> omega

theorem int32_wraps {x : Int} (h : 2 ^ 31 ≤ x) (h' : x < 2 ^ 32) : int32 x = x - 2 ^ 32 := by
  have hsub : int32 x = int32 (x - 2 ^ 32) := by
    unfold int32
    exact (Int.sub_bmod_right x (2 ^ 32)).symm
  rw [hsub, int32_small (by omega) (by omega)]

theorem sizeT_neg {x : Int} (h : -2 ^ 31 ≤ x) (h' : x < 0) : sizeT x = (x + 2 ^ 32).toNat := by
  unfold sizeT
  omega

/-- A copy of more than the destination holds is none. -/
theorem memcpy_s_short {dst : Nat → UInt8} {dstOff destsz : Int} {src : Nat → UInt8} {srcOff count : Int}
    (h : sizeT destsz < sizeT count) : memcpy_s dst dstOff destsz src srcOff count = .ok dst := if_pos h

/-- A copy within the arrays. -/
theorem memcpy_s_copies {dst : Nat → UInt8} {destsz : Int} {src : Nat → UInt8} {n : Nat} (hn : n < 2 ^ 31)
    (h : n ≤ sizeT destsz) : memcpy_s dst 0 destsz src 0 n = .ok (blit dst 0 (slice src 0 n)) := by
  have hsize : sizeT n = n := by rw [sizeT_eq (by omega) (by omega), Int.toNat_natCast]
  unfold memcpy_s
  rw [hsize, if_neg (by omega), if_neg (by omega)]
  rfl

/-- A negative count is too much for every array. -/
theorem memcpy_s_negative {dst : Nat → UInt8} {destsz : Int} {src : Nat → UInt8} {n : Int} (hn : IsInt n) (hneg : n < 0)
    (hd : IsInt destsz) :
    memcpy_s dst 0 destsz src 0 n = if n ≤ destsz ∧ destsz < 0 then .error .badAccess else .ok dst := by
  have h1 := hn.1
  have h2 := hd.1
  have h3 := hd.2
  have hcount := sizeT_neg h1 hneg
  by_cases hd0 : 0 ≤ destsz
  · have hsize := sizeT_eq hd0 h3
    rw [if_neg (by omega), memcpy_s_short (by omega)]
  · have hsize := sizeT_neg h2 (by omega)
    by_cases hle : n ≤ destsz
    · unfold memcpy_s
      rw [if_neg (by omega), if_pos (by omega), if_pos (by omega)]
    · rw [if_neg (by omega), memcpy_s_short (by omega)]

/-! ## What the operations do then -/

section

variable {b : PulledBuffer} (h : b.Ok)
include h

/-- A length that is negative, or whose sum with the buffer's wraps: nothing is copied, and the length is moved. -/
theorem write_harm (p : Nat → UInt8) {n : Int} (hn : IsInt n) (hharm : n < 0 ∨ 2 ^ 31 ≤ b.length + n) :
    b.write p n = .ok (n, ⟨b.buffer, int32 (b.length + n)⟩) ∧ int32 (b.length + n) < b.length := by
  have h1 := h.nonneg
  have h2 := h.le
  have h3 := hn.1
  have h4 := hn.2
  have hbs : (bufferSize : Int) = 262144 := rfl
  have hroom : int32 (bufferSize - b.length) = bufferSize - b.length := int32_eq (by omega) (by omega)
  have hroom' : sizeT (bufferSize - b.length) = (bufferSize - b.length).toNat := sizeT_eq (by omega) (by omega)
  have hsum : int32 (b.length + n) < b.length := by
    rcases hharm with hneg | hwrap
    · rw [int32_small (by omega) (by omega)]
      omega
    · rw [int32_wraps hwrap (by omega)]
      omega
  have hcount : (bufferSize - b.length).toNat < sizeT n := by
    rcases lt_or_ge n 0 with hneg | hpos
    · rw [sizeT_neg h3 hneg]
      omega
    · rw [sizeT_eq hpos h4]
      omega
  refine ⟨?_, hsum⟩
  unfold write
  rw [if_neg (by omega), hroom, memcpy_s_short (by rw [hroom']; exact hcount)]
  rfl

/-- Pulling by a negative length reads before the array, or empties the buffer, or wraps the length. -/
theorem pull_negative {n : Int} (hn : IsInt n) (hneg : n < 0) :
    (b.length - n ≤ bufferSize ∧ b.pull n = .error .badAccess) ∨
      (bufferSize < b.length - n ∧ b.length - n < 2 ^ 31 ∧ b.pull n = .ok b.clear) ∨
      (2 ^ 31 ≤ b.length - n ∧ b.pull n = .ok { b with length := b.length - n - 2 ^ 32 }) := by
  have h1 := h.nonneg
  have h2 := h.le
  have h3 := hn.1
  have hbs : (bufferSize : Int) = 262144 := rfl
  rcases lt_or_ge (b.length - n) (2 ^ 31) with hlt | hge
  · have hlen : int32 (b.length - n) = b.length - n := int32_small (by omega) (by omega)
    have hsize : sizeT (b.length - n) = (b.length - n).toNat := sizeT_eq (by omega) hlt
    have hcap : sizeT bufferSize = bufferSize := rfl
    unfold pull
    simp only [hlen]
    rw [if_pos (by omega)]
    rcases le_or_gt (b.length - n) bufferSize with hle | hbig
    · refine Or.inl ⟨hle, ?_⟩
      unfold memcpy_s
      rw [if_neg (by omega), if_pos (by omega)]
      rfl
    · refine Or.inr (Or.inl ⟨hbig, hlt, ?_⟩)
      have hfull : int32 (0 + (b.length - n)) = b.length - n := by rw [zero_add, hlen]
      rw [memcpy_s_short (by omega), ok_bind]
      show (do
        let r ← write ⟨fun _ => 0, 0⟩ (fun _ => 0) (b.length - n)
        .ok r.2) = .ok b.clear
      unfold write
      rw [if_pos (by rw [hfull]; exact hbig)]
      rfl
  · refine Or.inr (Or.inr ⟨hge, ?_⟩)
    unfold pull
    simp only [int32_wraps hge (by omega)]
    rw [if_neg (by omega)]

/-! ## One call -/

theorem write_all_or_nothing (p : Nat → UInt8) {n : Int} (hn : IsInt n) :
    b.AllOrNothing (.write p n) ↔ b.Harmless (.write p n) := by
  have h1 := h.nonneg
  have h2 := h.le
  have h3 := hn.2
  have hbs : (bufferSize : Int) = 262144 := rfl
  by_cases hharm : n < 0 ∨ 2 ^ 31 ≤ b.length + n
  · obtain ⟨hw, hlt⟩ := write_harm h p hn hharm
    refine iff_of_false ?_ ?_
    · intro hdone
      obtain ⟨hsound, hok⟩ := hdone
      simp only [Sound, call, hw] at hsound hok
      have hnonneg := hok.nonneg
      rcases hsound with ⟨-, hpos, happ⟩ | ⟨-, hsame⟩
      · have hlen := happ.length
        rw [length_slice] at hlen
        simp only at hlen hnonneg
        omega
      · have hlen := hsame.length
        simp only at hlen
        omega
    · intro hgood
      simp only [Harmless] at hgood
      omega
  · obtain ⟨k, rfl⟩ := Int.eq_ofNat_of_zero_le (a := n) (by omega)
    refine iff_of_true ?_ ⟨by omega, by omega⟩
    rcases le_or_gt (b.length + k) bufferSize with hfit | hfull
    · obtain ⟨b', hw, hok, hc⟩ := write_fits h p (n := k) hfit
      have hlen := length_contents hok
      rw [hc, List.length_append, Nat.cast_add, length_contents h] at hlen
      simp only [AllOrNothing, Sound, call, hw]
      exact ⟨Or.inl ⟨trivial, by omega, hc, hlen.symm⟩, hok⟩
    · have hw := write_full h p hfull (by omega)
      simp only [AllOrNothing, Sound, call, hw]
      exact ⟨Or.inr ⟨trivial, rfl, rfl⟩, h⟩

theorem throwAway_all_or_nothing {n : Int} (hn : IsInt n) : b.AllOrNothing (.throwAway n) ↔ b.Harmless (.throwAway n) := by
  have h1 := h.nonneg
  rcases lt_or_ge n 0 with hneg | hpos
  · refine iff_of_false (fun hdone => ?_) fun hgood => absurd hgood (not_le_of_gt hneg)
    obtain ⟨hsound, -⟩ := hdone
    have ht : b.throwAway n = (b.pull n >>= fun b' => .ok (n, b')) := if_neg (by omega)
    simp only [Sound, call] at hsound
    rcases pull_negative h hn hneg with ⟨-, hp⟩ | ⟨-, -, hp⟩ | ⟨-, hp⟩ <;> rw [ht, hp] at hsound
    · rcases hsound with ⟨hr, -⟩ | ⟨hr, -⟩ <;> cases hr
    · rcases hsound with ⟨-, hpos, -⟩ | ⟨hr, -⟩
      · omega
      · cases hr
    · rcases hsound with ⟨-, hpos, -⟩ | ⟨hr, -⟩
      · omega
      · cases hr
  · refine iff_of_true ?_ hpos
    obtain ⟨k, rfl⟩ := Int.eq_ofNat_of_zero_le hpos
    rcases le_or_gt (k : Int) b.length with hle | hgt
    · obtain ⟨b', ht, hok, hc⟩ := throwAway_spec h (n := k) hle
      have hlen := length_contents hok
      rw [hc, List.length_drop, Nat.cast_sub (by have := length_contents h; omega), length_contents h] at hlen
      simp only [AllOrNothing, Sound, call, ht]
      exact ⟨Or.inl ⟨trivial, hpos, hle, hc, hlen.symm⟩, hok⟩
    · have ht := throwAway_throws (b := b) hgt
      simp only [AllOrNothing, Sound, call, ht]
      exact ⟨Or.inr ⟨trivial, rfl, rfl⟩, h⟩

theorem other_ne_blit {k : Nat} (hk : 0 < k) (hle : (k : Int) ≤ b.length) : blit b.other 0 (b.contents.take k) ≠ b.other := by
  intro heq
  have hlen : k ≤ b.length.toNat := by have := h.nonneg; omega
  have hhead := congrFun heq 0
  rw [contents, take_slice _ _ hlen] at hhead
  have hat := blit_at b.other 0 (l := slice b.buffer 0 k) (i := 0) (by rw [length_slice]; exact hk)
  rw [Nat.zero_add, hhead] at hat
  simp [slice, other] at hat

omit h in
theorem read_eq {n : Int} (hle : n ≤ b.length) (dest : Nat → UInt8) (d : Int) :
    b.read n dest d = (memcpy_s dest 0 d b.buffer 0 n >>= fun dest => b.pull n >>= fun b' => .ok (n, dest, b')) :=
  if_neg (not_lt_of_ge hle)

omit h in
theorem not_sound_of_badAccess {dest : Nat → UInt8} {n d : Int} (hr : ∀ dest, b.read n dest d = .error .badAccess) :
    ¬ b.Sound (.read n dest d) := by
  intro hsound
  simp only [Sound, call, hr] at hsound
  rcases hsound dest with ⟨k, value, hreply, -⟩ | ⟨hreply, -⟩
  · cases hreply
  · exact hreply rfl

/-- Bytes that are removed and not copied: some destination would show them. -/
theorem not_sound_of_no_copy {dest : Nat → UInt8} {n d value : Int} {b' : PulledBuffer}
    (hr : ∀ dest, b.read n dest d = .ok (value, dest, b')) (hlt : b'.length < b.length) : ¬ b.Sound (.read n dest d) := by
  intro hsound
  simp only [Sound, call, hr] at hsound
  rcases hsound b.other with ⟨k, value, hreply, hremoved⟩ | ⟨-, hsame⟩
  · have hlen := hremoved.length
    simp only [Reply.delivered.injEq] at hreply
    exact other_ne_blit h (by omega) hremoved.le hreply.2.symm
  · have hlen := hsame.length
    omega

/-- `Read` of a negative length delivers nothing, so it may not take anything either. -/
theorem read_negative (dest : Nat → UInt8) {n d : Int} (hn : IsInt n) (hneg : n < 0) (hd : IsInt d) :
    b.AllOrNothing (.read n dest d) ↔ b.Harmless (.read n dest d) := by
  have h1 := h.nonneg
  have hcopy : ∀ dest, memcpy_s dest 0 d b.buffer 0 n = if n ≤ d ∧ d < 0 then .error .badAccess else .ok dest :=
    fun _ => memcpy_s_negative hn hneg hd
  by_cases hover : n ≤ d ∧ d < 0
  · have hr : ∀ dest, b.read n dest d = .error .badAccess := by
      intro dest
      rw [read_eq (by omega), hcopy, if_pos hover]
      rfl
    refine iff_of_false (fun hdone => not_sound_of_badAccess hr hdone.1) ?_
    intro hgood
    simp only [Harmless] at hgood
    omega
  · have hr : ∀ dest, b.read n dest d = (b.pull n >>= fun b' => .ok (n, dest, b')) := by
      intro dest
      rw [read_eq (by omega), hcopy, if_neg hover]
      rfl
    rcases pull_negative h hn hneg with ⟨hnear, hp⟩ | ⟨hfar, hlt, hp⟩ | ⟨hwrap, hp⟩ <;> rw [hp] at hr
    · refine iff_of_false (fun hdone => not_sound_of_badAccess hr hdone.1) ?_
      intro hgood
      simp only [Harmless] at hgood
      omega
    · -- emptied, which is no harm to an empty buffer
      by_cases hempty : b.length = 0
      · refine iff_of_true ?_ (Or.inr (Or.inr ⟨hempty, by omega, by omega, hover⟩))
        have hnil : b.contents = [] := by
          unfold contents
          rw [hempty]
          rfl
        simp only [AllOrNothing, Sound, call, hr, ok_bind]
        exact ⟨fun _ => Or.inr ⟨by simp, by rw [hnil, clear_contents], hempty.symm⟩, new_ok⟩
      · have hlost : b.clear.length < b.length := lt_of_le_of_ne h1 (Ne.symm hempty)
        refine iff_of_false (fun hdone => not_sound_of_no_copy h hr hlost hdone.1) ?_
        intro hgood
        simp only [Harmless] at hgood
        omega
    · refine iff_of_false ?_ ?_
      · intro hdone
        obtain ⟨-, hok⟩ := hdone
        simp only [call, hr, ok_bind] at hok
        have hnonneg := hok.nonneg
        have hlt := hn.1
        simp only at hnonneg
        have h2 := h.le
        have hbs : (bufferSize : Int) = 262144 := rfl
        omega
      · intro hgood
        have h2 := hn.1
        simp only [Harmless] at hgood
        omega

/-- `Read` of a prefix delivers it if it fits the array it is given, and takes it in any case. -/
theorem read_prefix (dest : Nat → UInt8) {k : Nat} {d : Int} (hle : (k : Int) ≤ b.length) (hd : IsInt d) :
    b.AllOrNothing (.read k dest d) ↔ b.Harmless (.read k dest d) := by
  have h1 := h.nonneg
  have h2 := h.le
  have hbs : (bufferSize : Int) = 262144 := rfl
  obtain ⟨b', hp, hok, hc⟩ := pull_spec h hle
  have hall := length_contents h
  have hlen := length_contents hok
  rw [hc, List.length_drop, Nat.cast_sub (by omega), hall] at hlen
  by_cases hroom : (k : Int) = 0 ∨ d < 0 ∨ (k : Int) ≤ d
  · have hcopy : ∀ dest, memcpy_s dest 0 d b.buffer 0 k = .ok (blit dest 0 (b.contents.take k)) := by
      intro dest
      rw [contents, take_slice _ _ (by omega)]
      refine memcpy_s_copies (by omega) ?_
      rcases lt_or_ge d 0 with hneg | hpos
      · have := hd.1
        rw [sizeT_neg hd.1 hneg]
        omega
      · rw [sizeT_eq hpos hd.2]
        omega
    refine iff_of_true ?_ (Or.inr (Or.inl ⟨by omega, hroom⟩))
    simp only [AllOrNothing, Sound, call, read_eq hle, hcopy, ok_bind, hp]
    exact ⟨fun _ => Or.inl ⟨k, k, rfl, hle, hc, hlen.symm⟩, hok⟩
  · have hcopy : ∀ dest, memcpy_s dest 0 d b.buffer 0 k = .ok dest := by
      intro dest
      refine memcpy_s_short ?_
      rw [sizeT_eq (by omega) hd.2, sizeT_eq (by omega) (by omega)]
      omega
    have hr : ∀ dest, b.read k dest d = .ok ((k : Int), dest, b') := by
      intro dest
      rw [read_eq hle, hcopy, ok_bind, hp, ok_bind]
    refine iff_of_false (fun hdone => not_sound_of_no_copy h hr (by omega) hdone.1) ?_
    intro hgood
    simp only [Harmless] at hgood
    omega

theorem read_all_or_nothing (dest : Nat → UInt8) {n d : Int} (hn : IsInt n) (hd : IsInt d) :
    b.AllOrNothing (.read n dest d) ↔ b.Harmless (.read n dest d) := by
  rcases lt_or_ge b.length n with hgt | hle
  · have hr := fun dest => read_throws (b := b) hgt dest d
    refine iff_of_true ?_ (Or.inl hgt)
    simp only [AllOrNothing, Sound, call, hr]
    exact ⟨fun _ => Or.inr ⟨by simp, rfl, rfl⟩, h⟩
  · rcases lt_or_ge n 0 with hneg | hpos
    · exact read_negative h dest hn hneg hd
    · obtain ⟨k, rfl⟩ := Int.eq_ofNat_of_zero_le hpos
      exact read_prefix h dest hle hd

theorem call_all_or_nothing {op : Op} (hcall : b.Callable op) : b.AllOrNothing op ↔ b.Harmless op := by
  cases op with
  | write p n => exact write_all_or_nothing h p hcall
  | read n dest d => exact read_all_or_nothing h dest hcall.1 hcall.2
  | throwAway n => exact throwAway_all_or_nothing h hcall
  | clear => exact iff_of_true ⟨trivial, new_ok⟩ trivial
  | receive data => exact iff_of_true ⟨trivial, (receive_spec h data hcall).1⟩ trivial

end

/-! ## Any run -/

/-- Every call of a run does all of its work or none and leaves the length in bounds, if and only if every call's
    arguments are harmless. -/
theorem calls_are_all_or_nothing_iff_harmless (ops : List Op) (h : Along (after call) Callable new ops) :
    Along (after call) AllOrNothing new ops ↔ Along (after call) Harmless new ops :=
  along_congr (P := Ok) (fun _ _ _ _ ha => ha.2) (fun _ _ hok hc => call_all_or_nothing hok hc) new_ok h

/-- Five bytes read into an array of four, and a negative length. -/
theorem short_reads_and_negative_writes_do_harm :
    Along (after call) Callable new [.write (fun _ => 7) 5, .read 5 (fun _ => 0) 4] ∧
      ¬ Along (after call) AllOrNothing new [.write (fun _ => 7) 5, .read 5 (fun _ => 0) 4] ∧
      Along (after call) Callable new [.write (fun _ => 7) (-1)] ∧
      ¬ Along (after call) AllOrNothing new [.write (fun _ => 7) (-1)] := by
  refine ⟨by decide +kernel, fun hread => ?_, by decide +kernel, fun hwrite => ?_⟩
  · have hbad := (read_all_or_nothing hread.1.2 _ (by decide) (by decide)).mp hread.2.1
    exact absurd hbad (by decide +kernel)
  · have hbad := (write_all_or_nothing new_ok _ (by decide)).mp hwrite.1
    exact absurd hbad (by decide +kernel)

theorem few_calls_are_all_or_nothing :
    Along (after call) Callable new fewCalls ∧ Along (after call) AllOrNothing new fewCalls := by
  have hcall : Along (after call) Callable new fewCalls := by decide +kernel
  exact ⟨hcall, (calls_are_all_or_nothing_iff_harmless fewCalls hcall).mpr (by decide +kernel)⟩

end SigHolic.Utility.Buffer
