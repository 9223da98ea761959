/-
  SigHolic.Network.FrameSize — how large the frames handed on are (`TryProcessPacket`,
  `ProcessPacket` and `WriteSendBuffer`, socket/TcpClient.cpp; packet/Packet.h).

  `Packet` reserves 65532 bytes of payload; `dataSize_` can announce 65535, and the loop asks
  only that it is not 0 and the frame complete. The array `ProcessPacket` gets and the send
  buffers have 256 KB, so a frame that is longer than a `Packet` is handed on and copied whole.

  Proved:
  - every copy `WriteSendBuffer` makes for an echo or a broadcast is of a packet handed over
    (`Copied`), so only the reading of frames decides (`handed_frames_fit`: in every run);
  - for every stream and every segmentation, the frames handed over and their copies fit a
    `Packet` exactly when no frame of the stream is longer.
-/

import SigHolic.Network.Framing

namespace SigHolic.Network

open SigHolic.Base.Runs SigHolic.Base.Tally SigHolic.Utility.Buffer SigHolic.Iocp SigHolic.Socket

/-- The packet of the session that an observation says was used as a `Packet`: by
    `ProcessPacket`, or by `WriteSendBuffer` for an echo or a broadcast. -/
def Obs.usedPacket (c : Nat) : Obs → Option Packet
  | .handed c' _ packet | .wrote (some (c', _)) _ packet => if c' = c then some packet else none
  | _ => none

def Stmt.carries : Stmt → Option (Nat × Nat × Packet)
  | .verifyFlag c _ k packet | .echo c _ k packet | .bcastBegin c _ k packet | .bcastCheck c _ k packet _
  | .bcastWrite c _ k packet _ | .bcastFlush c _ k packet _ | .bcastNext c _ k packet _ => some (c, k, packet)
  | _ => none

namespace Server

def since (s : Server) (old : List Obs) : List Obs := s.log.drop old.length

/-- Every frame of the session handed over since, and every copy of one, is within a `Packet`. -/
def AllFit (s : Server) (old : List Obs) (c : Nat) : Prop :=
  ∀ x ∈ s.since old, ∀ packet, x.usedPacket c = some packet → packet.size ≤ sizeofPacket

def looping (s : Server) : Ev → Option Nat
  | .run t _ =>
    match s.threads[t]? with
    | some (.processLoop c _ :: _) => some c
    | _ => none
  | _ => none

def FrameFits (s : Server) (c : Nat) : Prop :=
  (Packet.size (s.clients c).recvBuffer.getPtr : Int) ≤ (s.clients c).recvBuffer.getLength →
    Packet.size (s.clients c).recvBuffer.getPtr ≤ sizeofPacket

instance (s : Server) (c : Nat) : Decidable (FrameFits s c) := inferInstanceAs (Decidable (_ → _))

/-- If the step takes a frame off a receive buffer, it is within a `Packet`. -/
def ReadsFit (s : Server) (e : Ev) : Prop := ∀ c, s.looping e = some c → s.FrameFits c

instance (s : Server) (e : Ev) : Decidable (ReadsFit s e) :=
  match h : s.looping e with
  | none => isTrue (by simp [ReadsFit, h])
  | some c => decidable_of_iff (s.FrameFits c) (by simp [ReadsFit, h])

/-! ## Copies are of packets handed over -/

/-- Since the log was `old`, what was written for a session's packet was handed over before, and
    so was what the threads in `T` work on. -/
structure Copied (old : List Obs) (T : Nat → Prop) (s : Server) : Prop where
  log : s.log = old ++ s.since old
  written : ∀ c k client packet, Obs.wrote (some (c, k)) client packet ∈ s.since old → Obs.handed c k packet ∈ s.since old
  carried : ∀ t, T t → ∀ st, s.threads[t]? = some st → ∀ x ∈ st, ∀ c k packet, x.carries = some (c, k, packet) →
    Obs.handed c k packet ∈ s.since old

theorem pushed_carries {s : Server} {wsa : Bool} {i x : Stmt} (hm : x ∈ (s.exec wsa i).2) {c k : Nat} {packet : Packet}
    (h : x.carries = some (c, k, packet)) :
    i.carries = some (c, k, packet) ∨ (k = s.handedTo c ∧ ∃ j, i = .processPacket c j packet) := by
  cases i <;> simp only [exec] at hm <;> (repeat' split at hm) <;>
    simp only [List.mem_cons, List.not_mem_nil, or_false] at hm <;>
    (first | subst hm | rcases hm with rfl | rfl) <;>
    first
    | cases h; done
    | exact Or.inl h
    | (cases h; exact Or.inr ⟨rfl, _, rfl⟩)

/-- What is written for a session's packet is the packet the statement works on. -/
theorem carries_of_wrote {s : Server} {i : Stmt} {c k client : Nat} {packet : Packet}
    (h : Obs.wrote (some (c, k)) client packet ∈ s.noted i) : i.carries = some (c, k, packet) := by
  obtain ⟨c', j, k', hsender, ⟨rfl, -⟩ | rfl⟩ := wrote_noted h <;> cases hsender
  · rfl
  · rfl

theorem step_log (s : Server) (e : Ev) : (s.step e).log = s.log ++ if s.crashed = none then s.observed e else [] := by
  split
  · rename_i hc
    rw [step_eq hc, handle_log]
  · rename_i hc
    rw [step_crashed hc, List.append_nil]

theorem branch_carries {op : IoOp} {r : Result} {st : List Stmt} (h : branch op r = some st) {x : Stmt} (hx : x ∈ st) :
    x.carries = none := by
  rcases mem_branch h hx with rfl | rfl | ⟨n, rfl, -⟩ <;> rfl

/-- A statement on a thread after a step was there, or starts the thread, or was pushed by its top. -/
theorem mem_stack_step {s : Server} {e : Ev} {t : Nat} {st : List Stmt} (h : (s.step e).threads[t]? = some st) {x : Stmt}
    (hx : x ∈ st) :
    (∃ st', s.threads[t]? = some st' ∧ x ∈ st') ∨ x.carries = none ∨
      ∃ wsa i st', e = .run t wsa ∧ s.crashed = none ∧ s.threads[t]? = some (i :: st') ∧ x ∈ (s.exec wsa i).2 := by
  have hset : ∀ {t' : Nat} {new : List Stmt}, (s.step e).threads = s.threads.set t' new →
      (t' = t ∧ new = st) ∨ s.threads[t]? = some st := by
    intro t' new hts
    rw [hts] at h
    rcases set_cases h with ⟨rfl, rfl⟩ | ⟨-, hst⟩
    · exact Or.inl ⟨rfl, rfl⟩
    · exact Or.inr hst
  rcases threads_step s e with
    hts | ⟨socket, -, -, hts⟩ | ⟨t', n, r, op, st', -, -, -, -, -, hb, hts⟩ | ⟨t', wsa, i, st', rfl, hc, ht, hts⟩
  · exact Or.inl ⟨st, hts ▸ h, hx⟩
  · rcases hset hts with ⟨-, rfl⟩ | hst
    · rw [List.mem_singleton.mp hx]
      exact Or.inr (Or.inl rfl)
    · exact Or.inl ⟨st, hst, hx⟩
  · rcases hset hts with ⟨-, rfl⟩ | hst
    · exact Or.inr (Or.inl (branch_carries hb hx))
    · exact Or.inl ⟨st, hst, hx⟩
  · rcases hset hts with ⟨rfl, rfl⟩ | hst
    · rcases List.mem_append.mp hx with hx | hx
      · exact Or.inr (Or.inr ⟨wsa, i, st', rfl, hc, ht, hx⟩)
      · exact Or.inl ⟨_, ht, List.mem_cons_of_mem _ hx⟩
    · exact Or.inl ⟨st, hst, hx⟩

section Copied

variable {old : List Obs} {T : Nat → Prop} {s : Server}

theorem Copied.since_step (h : Copied old T s) (e : Ev) :
    (s.step e).since old = s.since old ++ if s.crashed = none then s.observed e else [] := by
  have hlog := step_log s e
  rw [h.log, List.append_assoc] at hlog
  rw [show (s.step e).since old = (s.step e).log.drop old.length from rfl, hlog, List.drop_left]

theorem copied_step (h : Copied old T s) {e : Ev} (he : ∀ t wsa, e = .run t wsa → T t) : Copied old T (s.step e) := by
  have hsince := h.since_step e
  have hold : ∀ x ∈ s.since old, x ∈ (s.step e).since old := fun x hx => by rw [hsince]; exact List.mem_append_left _ hx
  refine ⟨?_, ?_, ?_⟩
  · rw [hsince, step_log, ← List.append_assoc, ← h.log]
  · intro c k client packet hm
    rw [hsince] at hm
    rcases List.mem_append.mp hm with hm | hm
    · exact hold _ (h.written c k client packet hm)
    · split at hm
      · obtain ⟨t, wsa, i, st, rfl, ht, hn⟩ := mem_observed hm (by simp) (by simp)
        exact hold _ (h.carried t (he t wsa rfl) _ ht i List.mem_cons_self c k packet (carries_of_wrote hn))
      · cases hm
  · intro t' hT st' hst x hx c k packet hx'
    rcases mem_stack_step hst hx with ⟨st, ht, hx⟩ | hnone | ⟨wsa, i, st, rfl, hc, ht, hx⟩
    · exact hold _ (h.carried t' hT st ht x hx c k packet hx')
    · rw [hnone] at hx'; cases hx'
    · rcases pushed_carries hx hx' with hi | ⟨rfl, j, rfl⟩
      · exact hold _ (h.carried t' hT _ ht i List.mem_cons_self c k packet hi)
      · rw [hsince, if_pos hc]
        simp [observed, ht, noted]

theorem copied_advance {t : Nat} (hT : T t) (wsa : Bool) (h : Copied old T s) : Copied old T (advance t s wsa) :=
  copied_step h fun _ _ he => by cases he; exact hT

/-- A chunk arrives. -/
theorem copied_receive {t c : Nat} {op : IoOp} (chunk : List UInt8) (h : Copied old T s) :
    Copied old T (s.receive t c op chunk) := by
  refine ⟨h.log, h.written, ?_⟩
  intro t' hT st hst x hx c' k packet hx'
  rcases set_cases hst with ⟨rfl, rfl⟩ | ⟨-, hst⟩
  · rw [List.mem_singleton.mp hx] at hx'
    cases hx'
  · exact h.carried t' hT st hst x hx c' k packet hx'

end Copied

theorem copied_boot (n : Nat) : Copied [] (fun _ => True) (boot n) :=
  ⟨rfl, fun _ _ _ _ hm => (nomatch hm),
    fun _ _ st hst x hx => absurd ⟨st, List.mem_of_getElem? hst, hx⟩ (not_has_boot n x)⟩

theorem copied {ok : Server → Ev → Prop} {s : Server} (h : Reach ok s) : Copied [] (fun _ => True) s :=
  h.invariant (P := Copied [] fun _ => True) (fun _ ⟨n, hs⟩ => hs ▸ copied_boot n) fun _ _ hs _ =>
    copied_step hs fun _ _ _ => trivial

/-- What was handed over fits if all was, and so do the copies. -/
theorem allFit_of_handed {old : List Obs} {T : Nat → Prop} {s : Server} (h : Copied old T s) {c : Nat}
    (hfit : ∀ k packet, Obs.handed c k packet ∈ s.since old → packet.size ≤ sizeofPacket) : s.AllFit old c := by
  intro x hx packet hp
  unfold Obs.usedPacket at hp
  split at hp
  · simp only [Option.ite_none_right_eq_some, Option.some.injEq] at hp
    obtain ⟨rfl, rfl⟩ := hp
    exact hfit _ _ hx
  · simp only [Option.ite_none_right_eq_some, Option.some.injEq] at hp
    obtain ⟨rfl, rfl⟩ := hp
    exact hfit _ _ (h.written _ _ _ _ hx)
  · cases hp

/-! ## Every run -/

structure Sized (s : Server) : Prop where
  handed : ∀ c k packet, Obs.handed c k packet ∈ s.log → packet.size ≤ sizeofPacket
  read : ∀ c j packet, s.Has (.processPacket c j packet) → packet.size ≤ sizeofPacket

/-- `ProcessPacket` is called with what was read. -/
theorem pushed_processPacket {s : Server} {wsa : Bool} {i : Stmt} {c : Nat} {j : Completion} {packet : Packet}
    (hm : Stmt.processPacket c j packet ∈ (s.exec wsa i).2) :
    i = .processLoop c j ∧ ∃ x, (s.clients c).readPacket = .ok (some (packet, x)) := by
  cases i with
  | processLoop c' j' =>
    simp only [exec] at hm
    split at hm
    · cases hm
    · simp at hm
    · rename_i hw
      simp only [List.mem_singleton, Stmt.processPacket.injEq] at hm
      obtain ⟨rfl, rfl, rfl⟩ := hm
      exact ⟨rfl, _, hw⟩
  | _ =>
    simp only [exec] at hm
    (repeat' split at hm) <;> simp at hm

theorem sized_step {s : Server} (h : Sized s) {e : Ev} (he : ReadsFit s e) : Sized (s.step e) := by
  refine ⟨?_, ?_⟩
  · intro c k packet hm
    rcases mem_log_step hm with hm | ⟨-, hm⟩
    · exact h.handed c k packet hm
    · obtain ⟨-, t, wsa, j, st, rfl, ht⟩ := handed_observed hm
      exact h.read c j packet (has_top ht)
  · intro c j packet hx
    rcases has_step hx with hx | ⟨socket, heq⟩ | ⟨op, _, _, _, r, st, _, _, hb, hm⟩ | ⟨t, wsa, i, st, rfl, ht, -, hm⟩
    · exact h.read c j packet hx
    · cases heq
    · rcases mem_branch hb hm with heq | heq | ⟨n, heq, -⟩ <;> cases heq
    · obtain ⟨rfl, x, hw⟩ := pushed_processPacket hm
      obtain ⟨hsize, hlen⟩ := TcpClient.readPacket_size hw
      rw [hsize]
      exact he c (by simp only [looping, ht]) hlen

/-- In every run in which no frame longer than a `Packet` is read, none is handed over or copied. -/
theorem handed_frames_fit {s : Server} (h : Reach ReadsFit s) (c : Nat) : s.AllFit [] c := by
  have hsized : Sized s := by
    refine h.invariant (P := Sized) ?_ fun s e hs he => sized_step hs he
    intro s hs
    obtain ⟨n, rfl⟩ := hs
    exact ⟨fun _ _ _ hm => (nomatch hm), fun c j packet hx => absurd hx (not_has_boot n _)⟩
  exact allFit_of_handed (copied h) fun k packet hm => hsized.handed c k packet hm

/-! ## Every stream -/

theorem mem_handedPacket {log : List Obs} {c : Nat} {packet : Packet} :
    packet ∈ log.flatMap (Obs.handedPacket c) ↔ ∃ k, Obs.handed c k packet ∈ log := by
  rw [List.mem_flatMap]
  constructor
  · intro hmem
    obtain ⟨x, hx, hp⟩ := hmem
    unfold Obs.handedPacket at hp
    split at hp
    · split at hp
      · rename_i hc
        rw [List.mem_singleton.mp hp, ← hc]
        exact ⟨_, hx⟩
      · cases hp
    · cases hp
  · intro hmem
    obtain ⟨k, hx⟩ := hmem
    exact ⟨_, hx, by simp [Obs.handedPacket]⟩

/-- The frames of a stream handed over since `s`, and their copies, fit when the frames do. -/
theorem allFit_iff {s s' : Server} {c t : Nat} {stream left : List UInt8} {st : List Stmt}
    (hr : Receiving s c t (frames stream) left st s') {T : Nat → Prop} (h : Copied s.log T s') :
    s'.AllFit s.log c ↔ ∀ f ∈ frames stream, f.length ≤ sizeofPacket := by
  have hhanded := hr.handed
  rw [handedPackets, h.log, List.flatMap_append] at hhanded
  have hsince : (s'.since s.log).flatMap (Obs.handedPacket c) = (frames stream).map Packet.load := List.append_cancel_left hhanded
  have hsize : ∀ f ∈ frames stream, (Packet.load f).size = f.length := fun f hf => by
    rw [← Packet.length_frame, frame_load_of_mem hf]
  constructor
  · intro hall f hf
    have hm : Packet.load f ∈ (s'.since s.log).flatMap (Obs.handedPacket c) := by
      rw [hsince]
      exact List.mem_map_of_mem hf
    obtain ⟨k, hk⟩ := mem_handedPacket.mp hm
    rw [← hsize f hf]
    exact hall _ hk _ (if_pos rfl)
  · intro hall
    refine allFit_of_handed h fun k packet hk => ?_
    have hm := mem_handedPacket.mpr ⟨k, hk⟩
    rw [hsince] at hm
    obtain ⟨f, hf, rfl⟩ := List.mem_map.mp hm
    rw [hsize f hf]
    exact hall f hf

/-- What the calls of `OnReceived` on a stream have handed over and copied. -/
theorem feeds_copied {s : Server} (h : Reach (fun _ _ => True) s) (hcr : s.crashed = none) {c t : Nat}
    (hs : (s.clients c).sendOverlapped ≠ none) (ht : s.idle t = true) (h0 : (s.clients c).recvBuffer.getLength = 0) (op : IoOp)
    (chunks : List (List UInt8)) :
    Feeds t c op (fun s' => s'.AllFit s.log c ↔ ∀ f ∈ frames chunks.flatten, f.length ≤ sizeofPacket) chunks s := by
  have hstart : Copied s.log (· = t) s := by
    have hsince : s.since s.log = [] := List.drop_length
    refine ⟨by rw [hsince, List.append_nil], fun _ _ _ _ hm => ?_, ?_⟩
    · rw [hsince] at hm; cases hm
    · intro t' heq st hst x hx
      subst heq
      rw [idle_iff.mp ht] at hst
      cases hst
      cases hx
  have hfeeds := Feeds.keeps (I := Copied s.log (· = t)) (fun s wsa hs => copied_advance (T := (· = t)) rfl wsa hs)
    (fun s chunk hs => copied_receive chunk hs) chunks s (feeds_received h hcr hs ht h0 op chunks) hstart
  refine Feeds.mono (fun s' hs' => ?_) chunks s hfeeds
  obtain ⟨⟨st, hr⟩, hc⟩ := hs'
  exact allFit_iff hr hc

/-- From every state the server can be in, for every stream and every way to cut it: the frames handed to
    `ProcessPacket` and the copies made of them for echoes and broadcasts are within a `Packet` exactly when no complete
    frame of the stream is longer. And in every run, of all threads and sessions, in which no longer frame is read, none
    is handed over or copied. -/
theorem accepted_frames_fit_iff {s : Server} (h : Reach (fun _ _ => True) s) (hcr : s.crashed = none) {c t : Nat}
    (hs : (s.clients c).sendOverlapped ≠ none) (ht : s.idle t = true) (h0 : (s.clients c).recvBuffer.getLength = 0) (op : IoOp)
    (chunks : List (List UInt8)) :
    Feeds t c op (fun s' => s'.AllFit s.log c ↔ ∀ f ∈ frames chunks.flatten, f.length ≤ sizeofPacket) chunks s ∧
      ∀ s', Reach ReadsFit s' → ∀ d, s'.AllFit [] d :=
  ⟨feeds_copied h hcr hs ht h0 op chunks, fun _ h' d => handed_frames_fit h' d⟩

def made : Server := madeRun.foldl step (boot 1)

theorem made_ready : Reach (fun _ _ => True) made ∧ made.crashed = none ∧ (made.clients 0).sendOverlapped ≠ none ∧
    made.idle 1 = true ∧ (made.clients 0).recvBuffer.getLength = 0 ∧ (made.clients 0).recvBuffer.getEmptyLength = 262144 := by
  refine ⟨.any ⟨1, rfl⟩ madeRun, ?_⟩
  rw [made, boot_eq]
  decide +kernel

def recvOp : IoOp := ⟨.recv, 0, 5, ⟨0, 0, 0, []⟩⟩

def shortRun : List Ev := madeRun ++ .dispatch 1 0 (.received [1, 0, 1, 0x55, 7]) :: List.replicate 12 (.run 1 true)

theorem short_frames_fit :
    Feeds 1 0 recvOp (fun s' => s'.AllFit made.log 0) [[1, 0, 1], [0x55, 7, 2, 0, 2, 0x55, 8], [9, 1]] made ∧
      ((shortRun.foldl step (boot 1)).handedPackets 0).length = 1 ∧ (shortRun.foldl step (boot 1)).AllFit [] 0 := by
  obtain ⟨hreach, hcr, hs, ht, h0, -⟩ := made_ready
  have h := accepted_frames_fit_iff hreach hcr hs ht h0 recvOp [[1, 0, 1], [0x55, 7, 2, 0, 2, 0x55, 8], [9, 1]]
  refine ⟨Feeds.mono (fun s' hs' => hs'.mpr (by decide +kernel)) _ _ h.1, by rw [boot_eq]; decide +kernel, h.2 _ ?_ 0⟩
  refine .run (.start ⟨1, rfl⟩) ?_
  rw [boot_eq]
  decide +kernel

def longFrame : List UInt8 := [0xFD, 0xFF, 0x01, 0x55] ++ List.replicate 65533 7

theorem length_longFrame : longFrame.length = 65537 := by
  rw [longFrame, List.length_append, List.length_replicate]
  rfl

theorem frames_longFrame : frames longFrame = [longFrame] := by
  have hwire : wireSize longFrame = some longFrame.length := by
    rw [length_longFrame]
    rfl
  have hall : ∀ f ∈ [longFrame], wireSize f = some f.length := by
    intro f hf
    rw [List.mem_singleton.mp hf]
    exact hwire
  have hparse := Base.Framing.parse_concat wireSize_settled hall
  rw [List.flatten_singleton] at hparse
  rw [frames, Base.Framing.frames, hparse]

/-- It arrives in one piece, and there is room for it: `OnReceived` returns, and a frame longer than a `Packet` has been
    handed over. -/
theorem a_long_frame_is_handed_over :
    (longFrame.length : Int) ≤ (made.clients 0).recvBuffer.getEmptyLength ∧
      ∃ n s', s' = (List.replicate n true).foldl (advance 1) (made.receive 1 0 recvOp longFrame) ∧
        s'.threads[1]? = some [.recvNext 0 ⟨recvOp, longFrame.length⟩] ∧ ¬ s'.AllFit made.log 0 := by
  obtain ⟨hreach, hcr, hs, ht, h0, hroom⟩ := made_ready
  have hle : (longFrame.length : Int) ≤ (made.clients 0).recvBuffer.getEmptyLength := by
    rw [hroom, length_longFrame]
    decide
  have hfeeds := feeds_copied hreach hcr hs ht h0 recvOp [longFrame]
  obtain ⟨n, hstack, hfit⟩ := (hfeeds (List.cons_ne_nil _ _) hle).iterate true
  refine ⟨hle, n, _, rfl, hstack, fun hall => ?_⟩
  rw [List.flatten_singleton] at hfit
  have hsize := hfit.mp hall longFrame (by rw [frames_longFrame]; exact List.mem_singleton_self _)
  rw [length_longFrame] at hsize
  exact absurd hsize (by decide)

end Server

end SigHolic.Network
