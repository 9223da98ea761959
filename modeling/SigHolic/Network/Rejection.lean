/-
  SigHolic.Network.Rejection — what becomes of a packet `ProcessPacket` rejects, and of those
  behind it (`TcpClient::ProcessPacket` and `TryProcessPacket`).

  A bad checksum closes the socket and the flag is looked at all the same; after any `Close`
  the loop goes on with the next packet of the chunk. So a session that has been rejected
  is still echoed and broadcast.

  Proved: while no packet from the session's first invalid one on carries the flag of an echo
  or a broadcast, nothing of those packets is written into any send buffer, for every
  stream, every segmentation and every interleaving.
-/

import SigHolic.Network.Teardown

namespace SigHolic.Network

open SigHolic.Base.Tally SigHolic.Socket

namespace Server

def tainted (s : Server) (c : Nat) : Bool :=
  s.log.any fun | .handed c' _ packet => c' == c && !decide packet.Valid | _ => false

/-- A packet `ProcessPacket` is called with, from the session's first invalid one on, has not the
    flag of an echo or a broadcast. -/
def Silent (s : Server) : Ev → Prop
  | .run t _ =>
    match s.threads[t]? with
    | some (.processPacket c _ packet :: _) =>
      (!decide packet.Valid || s.tainted c) = true → packet.flag ≠ 0x01 ∧ packet.flag ≠ 0x02
    | _ => True
  | _ => True

def processing (s : Server) : Ev → Option (Nat × Packet)
  | .run t _ =>
    match s.threads[t]? with
    | some (.processPacket c _ packet :: _) => some (c, packet)
    | _ => none
  | _ => none

theorem silent_iff {s : Server} {e : Ev} : Silent s e ↔
    ∀ p ∈ s.processing e, (!decide p.2.Valid || s.tainted p.1) = true → p.2.flag ≠ 0x01 ∧ p.2.flag ≠ 0x02 := by
  cases e with
  | run t wsa =>
    simp only [Silent, processing]
    split <;> simp
  | _ => simp [Silent, processing]

instance (s : Server) (e : Ev) : Decidable (Silent s e) := decidable_of_iff _ silent_iff.symm

/-- The `k`-th packet of the session has been handed over, and no packet up to it was invalid. -/
structure Good (s : Server) (c k : Nat) : Prop where
  past : k < s.handedTo c
  valid : ∀ i packet, .handed c i packet ∈ s.log → i ≤ k → packet.Valid

def Heard (s : Server) : Stmt → Prop
  | .verifyFlag c _ k packet => k < s.handedTo c ∧ ((packet.flag = 0x01 ∨ packet.flag = 0x02) → s.Good c k)
  | .echo c _ k _ | .bcastBegin c _ k _ | .bcastCheck c _ k _ _ | .bcastWrite c _ k _ _ | .bcastFlush c _ k _ _
  | .bcastNext c _ k _ _ => s.Good c k
  | _ => True

structure Quelled (s : Server) : Prop where
  numbered : ∀ c i packet, .handed c i packet ∈ s.log → i < s.handedTo c
  heard : ∀ x, s.Has x → s.Heard x
  wrote : ∀ c k client packet, .wrote (some (c, k)) client packet ∈ s.log → s.Good c k

theorem handedTo_step (s : Server) (e : Ev) (c : Nat) : s.handedTo c ≤ (s.step e).handedTo c := by
  by_cases hc : s.crashed = none
  · rw [step_eq hc, handedTo, handedTo, handle_log, List.countP_append]
    omega
  · rw [step_crashed hc]

/-- A later packet has a later number. -/
theorem good_kept {s : Server} {c k : Nat} (h : s.Good c k) (e : Ev) : (s.step e).Good c k := by
  refine ⟨Nat.lt_of_lt_of_le h.past (handedTo_step s e c), fun i packet hm hi => ?_⟩
  rcases mem_log_step hm with hm | ⟨-, hm⟩
  · exact h.valid i packet hm hi
  · have := (handed_observed hm).1
    have := h.past
    omega

theorem heard_kept {s : Server} {x : Stmt} (h : s.Heard x) (e : Ev) : (s.step e).Heard x := by
  cases x with
  | verifyFlag c j k packet =>
    exact ⟨Nat.lt_of_lt_of_le h.1 (handedTo_step s e c), fun hf => good_kept (h.2 hf) e⟩
  | echo | bcastBegin | bcastCheck | bcastWrite | bcastFlush | bcastNext => exact good_kept h e
  | _ => trivial

theorem numbered_step {s : Server} {e : Ev} (h : ∀ c i packet, .handed c i packet ∈ s.log → i < s.handedTo c) :
    ∀ c i packet, .handed c i packet ∈ (s.step e).log → i < (s.step e).handedTo c := by
  intro c i packet hm
  rcases mem_log_step hm with hm | ⟨hc, hm⟩
  · exact Nat.lt_of_lt_of_le (h c i packet hm) (handedTo_step s e c)
  · obtain ⟨rfl, t, wsa, j, st, rfl, ht⟩ := handed_observed hm
    simp [handedTo, step_eq hc, handle_log, observed, ht, noted]

/-- A packet whose flag is looked at for a write was handed over with none before it invalid. -/
theorem good_handed {s : Server} {t : Nat} {wsa : Bool} {c : Nat} {j : Completion} {packet : Packet} {st : List Stmt}
    (ht : s.threads[t]? = some (.processPacket c j packet :: st))
    (hs : Silent s (.run t wsa)) (hf : packet.flag = 0x01 ∨ packet.flag = 0x02)
    (hlt : s.handedTo c < (s.step (.run t wsa)).handedTo c) : (s.step (.run t wsa)).Good c (s.handedTo c) := by
  simp only [Silent, ht] at hs
  have hclean : ¬ (!decide packet.Valid || s.tainted c) = true := by
    intro h
    obtain ⟨h1, h2⟩ := hs h
    rcases hf with hf | hf
    · exact h1 hf
    · exact h2 hf
  simp only [Bool.or_eq_true, Bool.not_eq_true', decide_eq_false_iff_not, not_or, not_not] at hclean
  refine ⟨hlt, fun i packet' hm _ => ?_⟩
  rcases mem_log_step hm with hm | ⟨-, hm⟩
  · by_contra hv
    refine hclean.2 (List.any_eq_true.mpr ⟨_, hm, ?_⟩)
    simp [hv]
  · obtain ⟨-, t', wsa', j', st', he, ht'⟩ := handed_observed hm
    cases he
    rw [ht] at ht'
    cases ht'
    exact hclean.1

theorem heard_pushed {s : Server} (h : Quelled s) {t : Nat} {wsa : Bool} {i : Stmt} {st : List Stmt}
    (ht : s.threads[t]? = some (i :: st)) (hs : Silent s (.run t wsa)) (hc : s.crashed = none) :
    ∀ x ∈ (s.exec wsa i).2, (s.step (.run t wsa)).Heard x := by
  have hi' := heard_kept (h.heard i (has_top ht)) (.run t wsa)
  intro x hm
  cases i with
  | processPacket c j packet =>
    have hlt : s.handedTo c < (s.step (.run t wsa)).handedTo c := by
      simp [handedTo, step_eq hc, handle_log, observed, ht, noted]
    have hv : (s.step (.run t wsa)).Heard (.verifyFlag c j (s.handedTo c) packet) :=
      ⟨hlt, fun hf => good_handed ht hs hf hlt⟩
    simp only [exec] at hm
    split at hm <;> simp only [List.mem_cons, List.not_mem_nil, or_false] at hm
    · subst hm; exact hv
    · rcases hm with rfl | rfl
      · trivial
      · exact hv
  | verifyFlag c j k packet =>
    simp only [exec] at hm
    split at hm
    · rename_i hf
      simp only [List.mem_singleton] at hm
      subst hm
      exact hi'.2 (Or.inl hf)
    · split at hm
      · rename_i hf
        simp only [List.mem_singleton] at hm
        subst hm
        exact hi'.2 (Or.inr hf)
      · simp only [List.mem_cons, List.not_mem_nil, or_false] at hm
        rcases hm with rfl | rfl <;> trivial
  | bcastBegin | bcastCheck | bcastWrite | bcastFlush | bcastNext | echo =>
    simp only [exec] at hm
    (repeat' split at hm) <;> simp only [List.mem_cons, List.not_mem_nil, or_false] at hm <;>
      (first | subst hm | rcases hm with rfl | rfl) <;> first | exact hi' | trivial
  | _ =>
    simp only [exec] at hm
    (repeat' split at hm) <;> simp only [List.mem_cons, List.not_mem_nil, or_false] at hm <;>
      (first | subst hm | rcases hm with rfl | rfl) <;> trivial

theorem wrote_observed {s : Server} (h : Quelled s) {e : Ev} {c k client : Nat} {packet : Packet}
    (hm : Obs.wrote (some (c, k)) client packet ∈ s.observed e) : s.Good c k := by
  obtain ⟨t, wsa, x, st, rfl, ht, hm⟩ := mem_observed hm (by simp) (by simp)
  have hx := h.heard x (has_top ht)
  obtain ⟨c', j, k', hsender, ⟨rfl, -⟩ | rfl⟩ := wrote_noted hm <;> cases hsender
  · exact hx
  · exact hx

theorem branch_heard {s : Server} {op : IoOp} {r : Result} {st : List Stmt} (h : branch op r = some st) :
    ∀ x ∈ st, s.Heard x := by
  intro x hx
  rcases mem_branch h hx with rfl | rfl | ⟨n, rfl, -⟩ <;> trivial

theorem quelled_step {s : Server} {e : Ev} (h : Quelled s) (hs : Silent s e) : Quelled (s.step e) := by
  refine ⟨numbered_step h.numbered, ?_, ?_⟩
  · intro x hh
    rcases has_step hh with hh | ⟨socket, rfl⟩ | ⟨op, -, _, _, r, st, _, _, hb, hm⟩ | ⟨t, wsa, i, st, rfl, ht, hc, hm⟩
    · exact heard_kept (h.heard x hh) e
    · trivial
    · exact branch_heard hb x hm
    · exact heard_pushed h ht hs hc x hm
  · intro c k client packet hm
    rcases mem_log_step hm with hm | ⟨-, hm⟩
    · exact good_kept (h.wrote c k client packet hm) e
    · exact good_kept (wrote_observed h hm) e

theorem quelled_boot (n : Nat) : Quelled (boot n) :=
  ⟨fun _ _ _ hm => (nomatch hm), fun x hx => absurd hx (not_has_boot n x), fun _ _ _ _ hm => (nomatch hm)⟩

/-- Whatever was received, however it was cut and whoever is registered, while no packet from the
    first invalid one of a session on asks for an echo or a broadcast: none of those packets
    is written into a send buffer. -/
theorem nothing_is_written_after_an_invalid_packet {s : Server} (h : Reach Silent s) :
    ∀ c i packet, Obs.handed c i packet ∈ s.log → ¬ packet.Valid →
      ∀ k client packet', i ≤ k → Obs.wrote (some (c, k)) client packet' ∉ s.log := by
  have hq : Quelled s := h.invariant (fun _ ⟨n, hn⟩ => hn ▸ quelled_boot n) fun _ _ hq hs => quelled_step hq hs
  intro c i packet hm hv k client packet' hk hw
  exact hv ((hq.wrote c k client packet' hw).valid i packet hm hk)

def chunkRun (chunk : List UInt8) (n : Nat) : List Ev :=
  [.accept 5] ++ List.replicate 9 (.run 0 true) ++ [.dispatch 1 0 (.received chunk)] ++ List.replicate n (.run 1 true)

/-- An echo, then a packet with an unknown flag. -/
theorem an_unknown_flag_is_not_written :
    ((chunkRun [1, 0, 1, 0x55, 7, 1, 0, 3, 0x55, 8] 16).foldl step (boot 1)).tainted 0 = true ∧
      ∀ c i packet, Obs.handed c i packet ∈ ((chunkRun [1, 0, 1, 0x55, 7, 1, 0, 3, 0x55, 8] 16).foldl step (boot 1)).log →
        ¬ packet.Valid → ∀ k client packet', i ≤ k → Obs.wrote (some (c, k)) client packet' ∉
          ((chunkRun [1, 0, 1, 0x55, 7, 1, 0, 3, 0x55, 8] 16).foldl step (boot 1)).log := by
  refine ⟨by rw [boot_eq]; decide +kernel, nothing_is_written_after_an_invalid_packet (.run (.start ⟨1, rfl⟩) ?_)⟩
  rw [boot_eq]; decide +kernel

/-- A bad checksum, and the packet is echoed. -/
theorem a_bad_checksum_is_echoed :
    ¬ ∀ s, Reach (fun _ _ => True) s → ∀ c i packet, Obs.handed c i packet ∈ s.log → ¬ packet.Valid →
      ∀ k client packet', i ≤ k → Obs.wrote (some (c, k)) client packet' ∉ s.log := by
  intro h
  replace h := h _ (.any ⟨1, rfl⟩ (chunkRun [1, 0, 1, 0, 7] 12))
  have h1 : ((chunkRun [1, 0, 1, 0, 7] 12).foldl step (boot 1)).log.any
      (fun | .handed c i packet => c == 0 && i == 0 && !decide packet.Valid | _ => false) = true := by
    rw [boot_eq]; decide +kernel
  have h2 : ((chunkRun [1, 0, 1, 0, 7] 12).foldl step (boot 1)).log.any
      (fun | .wrote sender _ _ => sender == some (0, 0) | _ => false) = true := by
    rw [boot_eq]; decide +kernel
  obtain ⟨x, hx, hxv⟩ := List.any_eq_true.mp h1
  obtain ⟨y, hy, hyv⟩ := List.any_eq_true.mp h2
  split at hxv
  · split at hyv
    · simp only [Bool.and_eq_true, beq_iff_eq, Bool.not_eq_true', decide_eq_false_iff_not] at hxv hyv
      obtain ⟨⟨rfl, rfl⟩, hv⟩ := hxv
      subst hyv
      exact h 0 0 _ hx hv 0 _ _ (Nat.le_refl 0) hy
    · cases hyv
  · cases hxv

end Server

end SigHolic.Network
