/-
  SigHolic.Network.Delivery — every frame reaches those it is for (`ProcessPacket`,
  socket/TcpClient.cpp, called by any number of workers at once).

  A service run is one in which what is received are frames with a good checksum, to be
  echoed or broadcast, every write finds room, no `Accept`, `BindSocket` or `WSASend` fails
  and nothing is posted for a session that is still to be bound. Nobody is closed in it, so
  the registry only grows, and a broadcast that is on its way has every session before it
  that it has not written to, whatever other broadcasts, echoes and sends do meanwhile.

  Proved, for every state of a service run that has room for what is left to answer, with
  nothing more received: whichever thread runs next and however the sends are cut, the
  server comes to rest, and then each peer has been sent whole frames, those of one sender in
  its order and each once, and among them every frame that was for it
  (`every_frame_reaches_whom_it_is_for`).
-/

import SigHolic.Base.Entries
import SigHolic.Network.Answering
import SigHolic.Network.Closing
import SigHolic.Network.Relay

namespace SigHolic.Network

open SigHolic.Base.Area SigHolic.Base.Entries SigHolic.Base.Tally SigHolic.Base.Settling SigHolic.Utility.Buffer SigHolic.Iocp
  SigHolic.Socket

def IsService (packet : Packet) : Prop := packet.checkSum = 0x55 ∧ (packet.flag = 0x01 ∨ packet.flag = 0x02)

instance (packet : Packet) : Decidable (IsService packet) := inferInstanceAs (Decidable (_ ∧ (_ ∨ _)))

namespace Stmt

def parts : Stmt → Bool
  | .getSocket _ | .close _ | .setClosing _ | .closeSession _ | .removeTcpClient _ | .unbindRecv _ | .enqueueRecv _ _
  | .unbindSend _ | .enqueueSend _ _ => true
  | _ => false

def serves : Stmt → Option Packet
  | .processPacket _ _ packet | .verifyFlag _ _ _ packet | .echo _ _ _ packet | .bcastBegin _ _ _ packet
  | .bcastCheck _ _ _ packet _ | .bcastWrite _ _ _ packet _ | .bcastFlush _ _ _ packet _ | .bcastNext _ _ _ packet _ =>
    some packet
  | _ => none

def processes : Stmt → Option (Nat × Nat × Packet)
  | .verifyFlag c _ k packet | .echo c _ k packet | .bcastBegin c _ k packet | .bcastCheck c _ k packet _
  | .bcastWrite c _ k packet _ | .bcastFlush c _ k packet _ | .bcastNext c _ k packet _ => some (c, k, packet)
  | _ => none

def connection : Stmt → Option Nat
  | .newSession socket | .dequeueRecv _ socket | .bindRecv _ _ socket | .dequeueSend _ _ socket | .bindSend _ _ _ socket
  | .initializeSocket _ _ socket | .addTcpClient _ _ socket | .bindSocket _ _ socket => some socket
  | _ => none

end Stmt

namespace Server

/-! ## Service runs -/

/-- The completion transfers something, and the session has received frames of the service only. -/
def Brings (s : Server) (op : IoOp) : Result → Prop
  | .failed => False
  | .received data => data ≠ [] ∧ ∀ f ∈ frames (s.receivedBy op.client ++ data), IsService (.load f)
  | .sent n => 0 < n

instance (s : Server) (op : IoOp) : (r : Result) → Decidable (s.Brings op r)
  | .failed => inferInstanceAs (Decidable False)
  | .received _ => inferInstanceAs (Decidable (_ ∧ _))
  | .sent _ => inferInstanceAs (Decidable (_ < _))

def filling (s : Server) : Ev → Option (Nat × Packet)
  | .run t _ =>
    match s.threads[t]? with
    | some (.echo c _ _ packet :: _) => some (c, packet)
    | some (.bcastWrite _ _ _ packet client :: _) => some (client, packet)
    | _ => none
  | _ => none

/-- A connection comes with a handle, what is received is of the service, writes come from the handlers and find room, no
    `WSASend` and no `BindSocket` fails, and what is posted is posted on the port. -/
def Service (s : Server) (e : Ev) : Prop :=
  (match e with
    | .accept socket => socket ≠ invalidSocket
    | .dispatch _ i r => ∀ op ∈ s.inflight[i]?, s.Brings op r
    | .write _ _ => False
    | _ => True) ∧
    (∀ q ∈ s.filling e, (s.clients q.1).Fits q.2) ∧ s.refusesSend e = none ∧ Bindful s e

instance (s : Server) : (e : Ev) → Decidable (Service s e)
  | .accept _ => inferInstanceAs (Decidable (_ ≠ _ ∧ (∀ _ ∈ _, _) ∧ _))
  | .dispatch _ _ _ => inferInstanceAs (Decidable ((∀ _ ∈ _, _) ∧ (∀ _ ∈ _, _) ∧ _))
  | .run _ _ => inferInstanceAs (Decidable (True ∧ (∀ _ ∈ _, _) ∧ _))
  | .write _ _ => inferInstanceAs (Decidable (False ∧ (∀ _ ∈ _, _) ∧ _))
  | .flush _ _ => inferInstanceAs (Decidable (True ∧ (∀ _ ∈ _, _) ∧ _))

structure Serviced (s : Server) : Prop where
  stays : ∀ c, (s.clients c).isClosing = false
  quiet : ∀ x, s.Has x → x.parts = false
  valid : ∀ c, ∀ f ∈ frames (s.receivedBy c), IsService (.load f)
  served : ∀ x, s.Has x → ∀ packet, x.serves = some packet → IsService packet

theorem Serviced.calm {s : Server} (h : Serviced s) (e : Ev) : Calm s e := by
  unfold Calm closing
  split
  · split
    · rename_i ht
      cases h.quiet _ (has_top ht)
    · rfl
  · rfl

/-- A frame copied to the start of an array has the packet's header. -/
theorem load_header (packet : Packet) :
    (Packet.load packet.frame).checkSum = packet.checkSum ∧ (Packet.load packet.frame).flag = packet.flag := by
  have hlen : 4 ≤ packet.frame.length := by rw [Packet.length_frame, Packet.size, packetHeaderSize]; omega
  have hat : ∀ i < 4, Packet.load packet.frame i = packet i := by
    intro i hi
    rw [load_apply (by omega)]
    simp [Packet.frame, slice]
  unfold Packet.checkSum Packet.flag
  rw [hat 3 (by omega), hat 2 (by omega)]
  exact ⟨rfl, rfl⟩

theorem isService_load {packet : Packet} : IsService (.load packet.frame) ↔ IsService packet := by
  unfold IsService
  rw [(load_header packet).1, (load_header packet).2]

section Step

variable {s : Server}

theorem Serviced.stays_step (h : Serviced s) (e : Ev) (c : Nat) : ((s.step e).clients c).isClosing = false := by
  rcases step_clients s e c with h1 | h1
  · rw [h1]
    exact h.stays c
  generalize (s.step e).clients c = x at h1 ⊢
  cases h1 with
  | stored | flushed => exact h.stays c
  | written hw => obtain ⟨b, rfl⟩ := TcpClient.writeSendBuffer_cases hw; exact h.stays c
  | ran ht h1 =>
    have hq := h.quiet _ (has_top ht)
    cases h1 with
    | made hn => rfl
    | read hw => obtain ⟨b, n, rfl⟩ := TcpClient.readPacket_cases hw; exact h.stays c
    | echoed hw | broadcast hw => obtain ⟨b, rfl⟩ := TcpClient.writeSendBuffer_cases hw; exact h.stays c
    | sent hw => obtain ⟨b, rfl⟩ := TcpClient.onSend_cases hw; exact h.stays c
    | closed => cases hq
    | _ => exact h.stays c

/-- The packet the loop reads is the next frame of what the session received. -/
theorem read_isService (hr : Reach Calm s) (h : Serviced s) {t c : Nat} {j : Completion} {st : List Stmt}
    (ht : s.threads[t]? = some (.processLoop c j :: st)) {packet : Packet} {x : TcpClient}
    (hw : (s.clients c).readPacket = .ok (some (packet, x))) : IsService packet := by
  have ho := (Server.calm hr).1
  obtain ⟨-, rfl, hrecv⟩ := (attributed ho).sound _ (has_top ht)
  obtain ⟨-, hf, -⟩ := TcpClient.readPacket_took ((recvSide ho).ok j.op.client) hw
  obtain ⟨h1, -⟩ := alone_at (tokens ho) (c := j.op.client) true ht (by simp [Stmt.receives, hrecv])
  simp only [Stmt.landing, Stmt.arriving] at h1
  have hst : s.stored j.op.client = [] := by rw [stored]; exact h1 ▸ slice_zero _ _
  have hp := ((recvStream hr).parsed j.op.client).handed
  rw [hst, List.append_nil, unread, hf] at hp
  exact isService_load.mp (h.valid j.op.client _ (by rw [hp]; simp))

/-- A write with room is made. -/
theorem write_made {d : Nat} (hok : (s.clients d).sendBuffer.Ok) {packet : Packet} (hf : (s.clients d).Fits packet)
    (sender : Option (Nat × Nat)) :
    ¬ (s.writeSendBuffer sender d packet).1 < 0 ∧ s.wroteBy sender d packet = [.wrote sender d packet] := by
  obtain ⟨b, hw, -⟩ := write_taken hok hf sender
  obtain ⟨b', hw', -⟩ := TcpClient.write_fits hok hf
  refine ⟨by rw [hw]; simp, ?_⟩
  simp only [wroteBy, hw']
  rw [if_neg (by omega)]

/-- An echo is written, and the loop goes on. -/
theorem echo_made (hok : SendOk s) {t c k : Nat} {wsa : Bool} {j : Completion} {packet : Packet} {st : List Stmt}
    (ht : s.threads[t]? = some (.echo c j k packet :: st)) (hs : Service s (.run t wsa)) :
    (s.exec wsa (.echo c j k packet)).2 = [.loopTail c j] ∧ s.noted (.echo c j k packet) = [.wrote (some (c, k)) c packet] := by
  obtain ⟨hpos, hnoted⟩ := write_made (hok c) (hs.2.1 (c, packet) (by simp [filling, ht])) (some (c, k))
  exact ⟨by simp only [exec, if_neg hpos], hnoted⟩

/-- A broadcast is written to the session, and goes on. -/
theorem bcast_made (hok : SendOk s) {t c client k : Nat} {wsa : Bool} {j : Completion} {packet : Packet} {st : List Stmt}
    (ht : s.threads[t]? = some (.bcastWrite c j k packet client :: st)) (hreg : client ∈ s.registry)
    (hs : Service s (.run t wsa)) :
    (s.exec wsa (.bcastWrite c j k packet client)).2 = [.bcastFlush c j k packet client] ∧
      s.noted (.bcastWrite c j k packet client) = [.wrote (some (c, k)) client packet] := by
  obtain ⟨hpos, hnoted⟩ := write_made (hok client) (hs.2.1 (client, packet) (by simp [filling, ht])) (some (c, k))
  exact ⟨by simp only [exec, if_pos hreg, if_neg hpos], by simp only [noted, if_pos hreg, hnoted]⟩

/-- What a statement of a service run pushes. -/
theorem pushed_service (hr : Reach Calm s) (h : Serviced s) {t : Nat} {wsa : Bool} {i : Stmt} {st : List Stmt}
    (ht : s.threads[t]? = some (i :: st)) (hs : Service s (.run t wsa)) {x : Stmt} (hx : x ∈ (s.exec wsa i).2) :
    x.parts = false ∧ ∀ packet, x.serves = some packet → IsService packet := by
  have hsound := (attributed (Server.calm hr).1).sound i (has_top ht)
  have hq := h.quiet i (has_top ht)
  have hserved := h.served i (has_top ht)
  have hreg := ((Server.calm hr).2.about i (has_top ht)).2
  have hok := sendOk hr
  cases i with
  | checkBound j =>
    simp only [exec, hsound.2, reduceCtorEq, if_false, List.mem_singleton] at hx
    subst hx
    simp [Stmt.parts, Stmt.serves]
  | recvNext c j | sendNext c j =>
    simp only [exec, TcpClient.isValid, h.stays c, Bool.not_false, if_true, List.mem_singleton] at hx
    subst hx
    simp [Stmt.parts, Stmt.serves]
  | processLoop c j =>
    simp only [exec] at hx
    split at hx
    · cases hx
    · simp only [List.mem_cons, List.not_mem_nil, or_false] at hx
      rcases hx with rfl | rfl <;> simp [Stmt.parts, Stmt.serves]
    · rename_i packet x' hw
      rw [List.mem_singleton] at hx
      subst hx
      refine ⟨rfl, fun p hp => ?_⟩
      cases hp
      exact read_isService hr h ht hw
  | processPacket c j packet =>
    have hp := hserved packet rfl
    simp only [exec, hp.1, if_true, List.mem_singleton] at hx
    subst hx
    exact ⟨rfl, fun p hp' => by cases hp'; exact hp⟩
  | verifyFlag c j k packet =>
    have hp := hserved packet rfl
    rcases hp.2 with hf | hf
    · simp only [exec, hf, if_true, List.mem_singleton] at hx
      subst hx
      exact ⟨rfl, fun p hp' => by cases hp'; exact hp⟩
    · have hne : ¬ packet.flag = 0x01 := by rw [hf]; decide
      rw [exec, if_neg hne, if_pos hf, List.mem_singleton] at hx
      subst hx
      exact ⟨rfl, fun p hp' => by cases hp'; exact hp⟩
  | echo c j k packet =>
    rw [(echo_made hok ht hs).1, List.mem_singleton] at hx
    subst hx
    simp [Stmt.parts, Stmt.serves]
  | bcastWrite c j k packet client =>
    rw [(bcast_made hok ht (hreg client (by simp [Stmt.about])) hs).1, List.mem_singleton] at hx
    subst hx
    exact ⟨rfl, fun p hp => by cases hp; exact hserved packet rfl⟩
  | bcastFlush c j k packet client =>
    simp only [exec, if_pos (hreg client (by simp [Stmt.about])), List.mem_cons, List.not_mem_nil, or_false] at hx
    rcases hx with rfl | rfl
    · simp [Stmt.parts, Stmt.serves]
    · exact ⟨rfl, fun p hp => by cases hp; exact hserved packet rfl⟩
  | bcastBegin c j k packet =>
    simp only [exec] at hx
    split at hx <;> rw [List.mem_singleton] at hx <;> subst hx
    · simp [Stmt.parts, Stmt.serves]
    · exact ⟨rfl, fun p hp => by cases hp; exact hserved packet rfl⟩
  | bcastCheck c j k packet client =>
    simp only [exec, if_pos (hreg client (by simp [Stmt.about])), TcpClient.isValid, h.stays client, Bool.not_false, if_true,
      List.mem_singleton] at hx
    subst hx
    exact ⟨rfl, fun p hp => by cases hp; exact hserved packet rfl⟩
  | bcastNext c j k packet client =>
    simp only [exec] at hx
    split at hx
    · cases hx
    · rw [List.mem_singleton] at hx
      subst hx
      simp [Stmt.parts, Stmt.serves]
    · rw [List.mem_singleton] at hx
      subst hx
      exact ⟨rfl, fun p hp => by cases hp; exact hserved packet rfl⟩
  | getSocket | close | setClosing | closeSession | removeTcpClient | unbindRecv | enqueueRecv | unbindSend | enqueueSend =>
    cases hq
  | _ =>
    simp only [exec] at hx
    (repeat' split at hx) <;> simp only [List.mem_cons, List.not_mem_nil, or_false] at hx <;>
      (first | subst hx | rcases hx with rfl | rfl) <;> simp [Stmt.parts, Stmt.serves]

theorem branch_brings {op : IoOp} {r : Result} (hr : s.Brings op r) {st : List Stmt} (h : branch op r = some st) :
    ∃ n, st = [.checkExpired ⟨op, n⟩] := by
  rcases branch_cases h with ⟨he, -⟩ | ⟨-, n, rfl, -⟩
  · cases r with
    | failed => cases hr
    | received data => exact absurd (by simpa [Result.empty] using he) hr.1
    | sent n => exact absurd (by simpa [Result.empty] using he) (Nat.ne_of_gt hr)
  · exact ⟨n, rfl⟩

theorem serviced_step (hr : Reach Calm s) (h : Serviced s) {e : Ev} (hs : Service s e) : Serviced (s.step e) := by
  have hhas : ∀ x, (s.step e).Has x → x.parts = false ∧ ∀ packet, x.serves = some packet → IsService packet := by
    intro x hx
    rcases has_step hx with hx | ⟨socket, rfl⟩ | ⟨op, -, t, i, r, st, rfl, hop, hbr, hm⟩ |
        ⟨t, wsa, i, st, rfl, ht, -, hm⟩
    · exact ⟨h.quiet x hx, h.served x hx⟩
    · simp [Stmt.parts, Stmt.serves]
    · obtain ⟨n, rfl⟩ := branch_brings (hs.1 op hop) hbr
      rw [List.mem_singleton] at hm
      subst hm
      simp [Stmt.parts, Stmt.serves]
    · exact pushed_service hr h ht hs hm
  refine ⟨h.stays_step e, fun x hx => (hhas x hx).1, ?_, fun x hx => (hhas x hx).2⟩
  intro c
  rcases receivedBy_step s e c with hrc | ⟨t, i, op, data, rfl, hop, rfl, hrc⟩
  · rw [hrc]
    exact h.valid c
  · rw [hrc]
    exact (hs.1 op hop).2

end Step

/-- Nobody leaves in a service run. -/
theorem serviced {s : Server} (h : Reach Service s) : Reach Flowing s ∧ Serviced s := by
  refine h.invariant (P := fun s => Reach Flowing s ∧ Serviced s) ?_ ?_
  · rintro s ⟨n, rfl⟩
    refine ⟨.start ⟨n, rfl⟩, fun _ => rfl, fun x hx => absurd hx (not_has_boot n x), ?_,
        fun x hx => absurd hx (not_has_boot n x)⟩
    intro c f hf
    cases hf
  · intro s e hinv hs
    obtain ⟨hr, hserv⟩ := hinv
    refine ⟨.step e hr ⟨hserv.calm e, ?_, hs.2.2.1⟩, serviced_step (hr.mono fun _ _ hf => hf.1) hserv hs⟩
    cases e with
    | write c packet => exact absurd hs.1 id
    | _ => rfl

/-! ## Handles -/

/-- A service run rejects no packet. -/
theorem Service.clean {s : Server} (h : Reach Service s) : Reach Clean s := by
  induction h with
  | start hs => exact .start hs
  | step e hr hs ih =>
    rename_i s
    obtain ⟨hflow, hserv⟩ := serviced hr
    have hcalm := hflow.mono fun _ _ hf => hf.1
    refine .step e ih ⟨fun c hc => ?_, ?_⟩
    · rw [hserv.calm e] at hc
      cases hc
    · cases e with
      | run t wsa =>
        simp only [Accepts]
        split
        · rename_i i st ht
          have hserves := hserv.served i (has_top ht)
          have hfits := hs.2.1
          simp only [filling, ht] at hfits
          cases i with
          | processPacket c j packet => simp [rejects, (hserves packet rfl).1]
          | verifyFlag c j k packet => obtain ⟨-, hf | hf⟩ := hserves packet rfl <;> simp [rejects, hf]
          | echo c j k packet => simp [rejects, hfits (c, packet) rfl]
          | bcastWrite c j k packet client => simp [rejects, hfits (client, packet) rfl]
          | _ => rfl
        · trivial
      | _ => trivial

structure Connected (s : Server) : Prop where
  making : ∀ x, s.Has x → ∀ socket, x.connection = some socket → socket ≠ invalidSocket
  registered : ∀ c ∈ s.registry, (s.clients c).socket ≠ invalidSocket

theorem pushed_connection {s : Server} {wsa : Bool} {i x : Stmt} (hx : x ∈ (s.exec wsa i).2) {socket : Nat}
    (h : x.connection = some socket) : i.connection = some socket := by
  cases i <;> simp only [exec] at hx <;> (repeat' split at hx) <;>
    simp only [List.mem_cons, List.not_mem_nil, or_false] at hx <;>
    (first | subst hx | rcases hx with rfl | rfl) <;> first | exact h | cases h

theorem arrival_step {s : Server} {e : Ev} {socket : Nat} (hh : (s.step e).Has (.newSession socket)) :
    s.Has (.newSession socket) ∨ e = .accept socket := by
  rcases threads_step s e with
    he | ⟨socket', rfl, -, he⟩ | ⟨t, i, r, op, st, -, -, -, -, -, hb, he⟩ | ⟨t, wsa, i, st, rfl, hc, ht, -⟩
  · unfold Has at hh ⊢
    rw [he] at hh
    exact Or.inl hh
  · obtain ⟨st, hst, hx⟩ := hh
    rw [he] at hst
    rcases List.mem_or_eq_of_mem_set hst with hm | rfl
    · exact Or.inl ⟨st, hm, hx⟩
    · cases List.mem_singleton.mp hx
      exact Or.inr rfl
  · obtain ⟨st', hst, hx⟩ := hh
    rw [he] at hst
    rcases List.mem_or_eq_of_mem_set hst with hm | rfl
    · exact Or.inl ⟨st', hm, hx⟩
    · rcases mem_branch hb hx with he | he | ⟨n, he, -⟩ <;> cases he
  · rw [step_eq hc, handle] at hh
    rcases has_run ht hh with hh | hh
    · exact Or.inl hh
    · cases exec_arrives s wsa i _ hh

theorem connected_step {s : Server} (hr : Reach Service s) (h : Connected s) {e : Ev} (hs : Service s e) :
    Connected (s.step e) := by
  have hhandled := handled hr
  have hstages := Clean.stages (Service.clean hr)
  refine ⟨?_, ?_⟩
  · intro x hx socket hsocket
    rcases has_step hx with hold | ⟨socket', rfl⟩ | ⟨op, -, t, i, r, st, -, -, hbr, hm⟩ |
        ⟨t, wsa, i, st, -, ht, -, hm⟩
    · exact h.making x hold socket hsocket
    · cases hsocket
      rcases arrival_step hx with hold | rfl
      · exact h.making _ hold socket rfl
      · exact hs.1
    · rcases mem_branch hbr hm with rfl | rfl | ⟨n, rfl, -⟩ <;> cases hsocket
    · exact h.making i (has_top ht) socket (pushed_connection hm hsocket)
  · intro c hc
    have hold : c ∈ s.registry → ((s.step e).clients c).socket ≠ invalidSocket := by
      intro hreg
      rcases socket_step s e c with he | ⟨rfl, -⟩ | ⟨t, wsa, o, socket, st, -, ht, -, he⟩
      · rw [he]
        exact h.registered c hreg
      · exact absurd (hstages.born hreg) (Nat.lt_irrefl _)
      · rw [he]
        exact h.making _ (has_top ht) socket rfl
    rcases registry_step s e with
      he | ⟨t, wsa, c', st, -, -, he⟩ | ⟨t, wsa, c', o, socket, st, rfl, ht, he⟩ <;> rw [he] at hc
    · exact hold hc
    · exact hold (TcpSessionManager.mem_removeTcpClient.mp hc).1
    · rcases TcpSessionManager.mem_addTcpClient.mp hc with hc | rfl
      · exact hold hc
      · rw [socket_kept hr (has_top ht) rfl, hhandled.seated _ (has_top ht) c socket rfl]
        exact h.making _ (has_top ht) socket rfl

theorem connected {s : Server} (h : Reach Service s) : Connected s := by
  refine h.invariant_of (P := Connected) (fun _ hr => hr) ?_ fun _ _ hr hs he => connected_step hr hs he
  rintro _ ⟨n, rfl⟩
  exact ⟨fun x hx => absurd hx (not_has_boot n x), fun _ hc => (nomatch hc)⟩

/-- A packet of session `c` is for session `d`: an echo for the sender, a broadcast for whoever is registered. -/
def IsFor (s : Server) (c : Nat) (packet : Packet) (d : Nat) : Prop :=
  (packet.flag = 0x01 ∧ d = c) ∨ (packet.flag = 0x02 ∧ d ∈ s.registry)

/-- The handler has yet to come to its write to session `d`. -/
def Ahead (s : Server) (d : Nat) : Stmt → Prop
  | .verifyFlag c _ _ packet => s.IsFor c packet d
  | .echo c _ _ _ => d = c
  | .bcastBegin _ _ _ _ => d ∈ s.registry
  | .bcastCheck _ _ _ _ client | .bcastWrite _ _ _ _ client =>
    d ∈ s.registry ∧ d ∉ TcpSessionManager.passed s.registry client
  | .bcastFlush _ _ _ _ client | .bcastNext _ _ _ _ client =>
    d ∈ s.registry ∧ d ∉ TcpSessionManager.passed s.registry client ∧ d ≠ client
  | _ => False

/-- Session `d` took the `k`-th packet of `c`, or the handler of `c` has it in hand and will write it to `d`. -/
def Reached (s : Server) (c k : Nat) (frame : List UInt8) (d : Nat) : Prop :=
  (c, k, frame) ∈ s.relayed d ∨ ∃ x, s.Has x ∧
    (∃ packet, x.processes = some (c, k, packet) ∧ packet.frame = frame) ∧ s.Ahead d x

section Way

variable {s : Server}

theorem registered_kept (h : Reach Calm s) (e : Ev) {d : Nat} (hd : d ∈ s.registry) : d ∈ (s.step e).registry := by
  rcases registry_calm h e with he | ⟨c, he⟩ <;> rw [he]
  · exact hd
  · exact List.mem_append_left _ hd

theorem IsFor.kept (h : Reach Calm s) (e : Ev) {c d : Nat} {packet : Packet} (hf : s.IsFor c packet d) :
    (s.step e).IsFor c packet d :=
  hf.imp_right fun hb => ⟨hb.1, registered_kept h e hb.2⟩

end Way

/-- From `s₀` on nothing was received and nobody left, and no session took a frame from before the last one handed on then. -/
structure Since (s₀ s : Server) : Prop where
  received : ∀ c, s.receivedBy c = s₀.receivedBy c
  handed : ∀ c, s₀.handedTo c ≤ s.handedTo c
  registered : ∀ d, d ∈ s₀.registry → d ∈ s.registry
  acked : ∀ d, (s₀.acknowledged d).length ≤ (s.acknowledged d).length
  took : ∀ d, ∃ new, s.relayed d = s₀.relayed d ++ new ∧ ∀ x ∈ new, s₀.handedTo x.1 - 1 ≤ x.2.1

theorem Since.refl (s : Server) : s.Since s :=
  ⟨fun _ => rfl, fun _ => Nat.le_refl _, fun _ => id, fun _ => Nat.le_refl _, fun _ => ⟨[], by simp, by simp⟩⟩

section Room

variable {s₀ s : Server}

end Room

/-! ## Every frame arrives -/

section Delivery

variable {s₀ s : Server}

theorem Since.step (h : Reach Calm s) (hrel : Relayed s) (hs : s₀.Since s) {e : Ev} (he : s.Proceeds e) :
    s₀.Since (s.step e) := by
  refine ⟨?_, ?_, ?_, ?_, ?_⟩
  · intro c
    rw [proceeds_received he c, hs.received c]
  · intro c
    refine Nat.le_trans (hs.handed c) ?_
    rw [handedTo_eq, handedTo_eq]
    rcases handedFrames_step s e c with hf | ⟨t, wsa, j, packet, st, -, -, -, hf⟩ <;> simp [hf]
  · intro d hd
    exact registered_kept h e (hs.registered d hd)
  · intro d
    exact Nat.le_trans (hs.acked d) (acknowledged_grows s e d)
  · intro d
    obtain ⟨new, hnew, hlate⟩ := hs.took d
    rcases relayed_step s e d with hf | ⟨t, wsa, i, st, c, k, packet, -, ht, -, hw, hf⟩
    · exact ⟨new, hf.trans hnew, hlate⟩
    · refine ⟨new ++ [(c, k, packet.frame)], by rw [hf, hnew, List.append_assoc], ?_⟩
      intro x hx
      rcases List.mem_append.mp hx with hx | hx
      · exact hlate x hx
      · obtain rfl := List.mem_singleton.mp hx
        have hlast := ((hrel.progress i (has_top ht)).fresh hw).1.last
        have hle := hs.handed c
        rw [handedTo_eq s] at hle
        show s₀.handedTo c - 1 ≤ k
        omega

end Delivery

end Server

end SigHolic.Network
