/-
  SigHolic.Network.Binding — operations and the completion port (`Network::Run` and
  `MakeClientSessionEx`, network/network.cpp; `CIocp::BindSocket`, iocp/Iocp.cpp).

  `MakeClientSessionEx` registers the new session, and only then does `Network::Run` bind its
  socket to the completion port. A broadcast of another session that comes in between
  posts a send on a socket whose completions no worker will see. `Network::Run` does not look
  at what `BindSocket` returns either, and posts the first receive all the same.

  Proved:
  - as long as no `BindSocket` fails, an open handle of a session is associated with the port,
    unless `Network::Run` has still to bind it (`on_port`);
  - while, besides, nothing is posted for a session that is still to be bound (`Bindful`), every
    operation in flight was posted on a socket that was associated with the port
    (`every_post_is_on_the_port`);
  - the posting that comes too early is a send (`receive_after_binding`).
-/

import Mathlib.Data.List.Induction
import Mathlib.Data.List.Infix
import SigHolic.Network.Calm
import SigHolic.Network.Tokens

namespace SigHolic.Network

open SigHolic.Base.Runs SigHolic.Base.Tally SigHolic.Iocp SigHolic.Socket

namespace Stmt

/-- `Network::Run` has still to bind the session's socket. -/
def unbound (c : Nat) : Stmt → Nat
  | .dequeueRecv c' _ | .bindRecv c' _ _ | .dequeueSend c' _ _ | .bindSend c' _ _ _ | .initializeSocket c' _ _
  | .addTcpClient c' _ _ | .bindSocket c' _ _ => if c' = c then 1 else 0
  | _ => 0

/-- A session that has its socket, and the socket, before it is bound. -/
def seated : Stmt → Option (Nat × Nat)
  | .addTcpClient c _ socket | .bindSocket c _ socket => some (c, socket)
  | _ => none

end Stmt

namespace Server

def firstReceiving (s : Server) : Ev → Option Nat
  | .run t true =>
    match s.threads[t]? with
    | some (.firstRecv _ o :: _) => s.getClientObject o
    | _ => none
  | _ => none

def isOpen (s : Server) (c : Nat) : Bool := s.sockets (s.clients c).socket == some c

/-- The session's handle is open for its own connection, and `Network::Run` is done binding it. -/
def ready (s : Server) (c : Nat) : Bool := s.isOpen c && tally (Stmt.unbound c) s.threads == 0

def misbinds (s : Server) : Ev → Bool
  | .run t false =>
    match s.threads[t]? with
    | some (.bindSocket _ _ _ :: _) => true
    | _ => false
  | _ => false

/-- No `BindSocket` fails, and what is posted is posted for a session that is ready. -/
def Bindful (s : Server) (e : Ev) : Prop :=
  s.misbinds e = false ∧ (s.receiving e).all s.ready = true ∧ (s.firstReceiving e).all s.ready = true ∧
    (s.sending e).all s.ready = true

instance (s : Server) (e : Ev) : Decidable (Bindful s e) := inferInstanceAs (Decidable (_ ∧ _ ∧ _ ∧ _))

/-! ## Handles and the port -/

theorem exec_port (s : Server) (wsa : Bool) {i : Stmt} (h : ∀ c, i ≠ .close c)
    (hb : ∀ c o socket, i ≠ .bindSocket c o socket) : (s.exec wsa i).1.port = s.port := by
  cases i with
  | close c => exact absurd rfl (h c)
  | bindSocket c o socket => exact absurd rfl (hb c o socket)
  | recvAsync c j => simp only [exec]; rw [recvAsync_rest]
  | flushSendBuffer c => simp only [exec]; rw [flushSendBuffer_rest]
  | echo c j k packet => simp only [exec]; rw [writeSendBuffer_rest]
  | bcastWrite c j k packet client =>
    simp only [exec]
    split
    · simp only; rw [writeSendBuffer_rest]
    · rfl
  | firstRecv c o =>
    simp only [exec]
    split
    · rfl
    · simp only; rw [recvAsync_rest]
  | _ => simp only [exec] <;> (repeat' split) <;> rfl

/-- What a step does to the open handles and the port. -/
theorem handles_step (s : Server) (e : Ev) :
    ((s.step e).sockets = s.sockets ∧ (s.step e).port = s.port) ∨
      (∃ socket, (s.step e).sockets = Function.update s.sockets socket (some s.nextClient) ∧ (s.step e).port = s.port) ∨
      (∃ socket, (s.step e).sockets = Function.update s.sockets socket none ∧
        (s.step e).port = s.port.filter (· ≠ socket)) ∨
      ∃ t c o socket st, e = .run t true ∧ s.threads[t]? = some (.bindSocket c o socket :: st) ∧
        (s.step e).sockets = s.sockets ∧ (s.step e).port = s.port ++ [socket] := by
  by_cases hc : s.crashed = none
  case neg => rw [step_crashed hc]; exact Or.inl ⟨rfl, rfl⟩
  rw [step_eq hc]
  cases e with
  | accept socket =>
    simp only [handle, accept]
    repeat' split
    · exact Or.inl ⟨rfl, rfl⟩
    · exact Or.inr (Or.inl ⟨socket, rfl, rfl⟩)
    · exact Or.inl ⟨rfl, rfl⟩
    · exact Or.inl ⟨rfl, rfl⟩
  | dispatch t i r =>
    left
    rcases dispatch_cases s t i r with he | ⟨op, st, -, -, -, -, he⟩
    · rw [handle, he]; exact ⟨rfl, rfl⟩
    · rw [handle, he]
      cases r <;> exact ⟨rfl, rfl⟩
  | run t wsa =>
    rcases ht : s.threads[t]? with _ | _ | ⟨i, st⟩
    · exact Or.inl (by simp [handle, run, ht])
    · exact Or.inl (by simp [handle, run, ht])
    have hs : (s.handle (.run t wsa)).sockets = (s.exec wsa i).1.sockets := by simp only [handle, run, ht]; rfl
    have hp : (s.handle (.run t wsa)).port = (s.exec wsa i).1.port := by simp only [handle, run, ht]; rfl
    rw [hs, hp]
    cases i with
    | close c => exact Or.inr (Or.inr (Or.inl ⟨(s.clients c).socket, rfl, rfl⟩))
    | bindSocket c o socket =>
      cases wsa with
      | true => exact Or.inr (Or.inr (Or.inr ⟨t, c, o, socket, st, rfl, ht, rfl, rfl⟩))
      | false => exact Or.inl ⟨rfl, rfl⟩
    | _ => exact Or.inl ⟨exec_sockets s wsa (by simp), exec_port s wsa (by simp) (by simp)⟩
  | write c packet =>
    left
    simp only [handle, write]
    split
    · rw [writeSendBuffer_rest]; exact ⟨rfl, rfl⟩
    · exact ⟨rfl, rfl⟩
  | flush c wsa =>
    left
    simp only [handle, flush]
    split
    · rw [flushSendBuffer_rest]; exact ⟨rfl, rfl⟩
    · exact ⟨rfl, rfl⟩

/-- A session gets its socket in `Initialize`. -/
theorem socket_step (s : Server) (e : Ev) (c : Nat) :
    ((s.step e).clients c).socket = (s.clients c).socket ∨
      (c = s.nextClient ∧
        ∃ t wsa socket st, e = .run t wsa ∧ s.threads[t]? = some (.newSession socket :: st) ∧ s.crashed = none) ∨
      ∃ t wsa o socket st, e = .run t wsa ∧ s.threads[t]? = some (.initializeSocket c o socket :: st) ∧ s.crashed = none ∧
        ((s.step e).clients c).socket = socket := by
  by_cases hc : s.crashed = none
  case neg => rw [step_crashed hc]; exact Or.inl rfl
  rcases step_clients s e c with h1 | h1
  · exact Or.inl (by rw [h1])
  generalize (s.step e).clients c = x at h1 ⊢
  cases h1 with
  | stored | flushed => exact Or.inl rfl
  | written hw => obtain ⟨b, rfl⟩ := TcpClient.writeSendBuffer_cases hw; exact Or.inl rfl
  | ran ht h1 =>
    rename_i t wsa i st
    cases h1 with
    | made hn =>
      rename_i socket
      exact Or.inr (Or.inl ⟨hn, t, wsa, socket, st, rfl, ht, hc⟩)
    | initialized =>
      rename_i o socket
      exact Or.inr (Or.inr ⟨t, wsa, o, socket, st, rfl, ht, hc, rfl⟩)
    | read hw => obtain ⟨b, n, rfl⟩ := TcpClient.readPacket_cases hw; exact Or.inl rfl
    | echoed hw | broadcast hw => obtain ⟨b, rfl⟩ := TcpClient.writeSendBuffer_cases hw; exact Or.inl rfl
    | sent hw => obtain ⟨b, rfl⟩ := TcpClient.onSend_cases hw; exact Or.inl rfl
    | _ => exact Or.inl rfl

/-! ## An open handle is on the port -/

structure Handled (s : Server) : Prop where
  born : ∀ c, 0 < tally (Stmt.unbound c) s.threads → c < s.nextClient
  unmade : ∀ c, s.nextClient ≤ c → ∀ kind, s.structureOf c kind = none
  seated : ∀ x, s.Has x → ∀ c socket, x.seated = some (c, socket) → (s.clients c).socket = socket

/-- An open handle of a session is on the port, unless the session or its binding is still to come. -/
def OnPort (s : Server) : Prop :=
  ∀ c, s.sockets (s.clients c).socket = some c →
    (s.clients c).socket ∈ s.port ∨ 0 < tally (Stmt.unbound c) s.threads ∨ s.nextClient ≤ c

theorem unbound_le_receives (c : Nat) (x : Stmt) : x.unbound c ≤ x.receives c := by
  cases x <;> simp [Stmt.unbound, Stmt.receives]

theorem makes_of_seated {x : Stmt} {p : Nat × Nat} (h : x.seated = some p) : x.makes = true := by
  cases x with
  | addTcpClient | bindSocket => rfl
  | _ => cases h

/-- A session's making goes from statement to statement, up to `BindSocket`. -/
theorem unbound_handed_on (s : Server) (wsa : Bool) {i : Stmt} (hb : ∀ c o socket, i ≠ .bindSocket c o socket) (c : Nat) :
    i.unbound c ≤ weight (Stmt.unbound c) (s.exec wsa i).2 := by
  cases i with
  | bindSocket c' o socket => exact absurd rfl (hb c' o socket)
  | dequeueRecv c' socket =>
    obtain ⟨o, h', p', hd, -⟩ := OverlappedIoPool.dequeue_moves s.heap s.recvPool
    simp [exec, hd, Stmt.unbound]
  | dequeueSend c' o socket =>
    obtain ⟨o', h', p', hd, -⟩ := OverlappedIoPool.dequeue_moves s.heap s.sendPool
    simp [exec, hd, Stmt.unbound]
  | bindRecv | bindSend | initializeSocket | addTcpClient => simp [exec, Stmt.unbound]
  | _ => exact Nat.zero_le _

/-- What is pushed for a session's making comes from its making, or from `new TcpClient()`. -/
theorem pushed_unbound {s : Server} {wsa : Bool} {i x : Stmt} (hm : x ∈ (s.exec wsa i).2) {c : Nat} (h : x.unbound c = 1) :
    i.unbound c = 1 ∨ (c = s.nextClient ∧ ∃ socket, i = .newSession socket) := by
  cases i <;> simp only [exec] at hm <;> (repeat' split at hm) <;>
    simp only [List.mem_cons, List.not_mem_nil, or_false] at hm <;>
    (first | subst hm | rcases hm with rfl | rfl) <;> simp_all [Stmt.unbound]

theorem pushed_seated {s : Server} {wsa : Bool} {i x : Stmt} (hm : x ∈ (s.exec wsa i).2) {c socket : Nat}
    (h : x.seated = some (c, socket)) : i.seated = some (c, socket) ∨ ∃ o, i = .initializeSocket c o socket := by
  cases i <;> simp only [exec] at hm <;> (repeat' split at hm) <;>
    simp only [List.mem_cons, List.not_mem_nil, or_false] at hm <;>
    (first | subst hm | rcases hm with rfl | rfl) <;> simp_all [Stmt.seated]

theorem unbound_pos {s : Server} {c : Nat} : 0 < tally (Stmt.unbound c) s.threads ↔ ∃ x, s.Has x ∧ x.unbound c = 1 := by
  constructor
  · intro h
    by_contra hn
    refine Nat.ne_of_gt h ((tally_eq_zero _).mpr fun st hst x hx => ?_)
    by_contra h0
    refine hn ⟨x, ⟨st, hst, hx⟩, ?_⟩
    have h1 := unbound_le_receives c x
    have h2 := receives_le_one c x
    omega
  · intro hmem
    obtain ⟨x, hx, h1⟩ := hmem
    have := le_tally_of_has (Stmt.unbound c) hx
    omega

section Step

variable {s : Server} {e : Ev}

/-- A making under way stays so until `BindSocket`. -/
theorem unbound_kept {c : Nat} (hlive : 0 < tally (Stmt.unbound c) s.threads) :
    0 < tally (Stmt.unbound c) (s.step e).threads ∨
      ∃ t wsa o socket st, e = .run t wsa ∧ s.threads[t]? = some (.bindSocket c o socket :: st) ∧ s.crashed = none := by
  rcases threads_step s e with
    he | ⟨socket, -, h0, he⟩ | ⟨t, i, r, op, st, -, -, -, h0, -, -, he⟩ | ⟨t, wsa, i, st, rfl, hc, ht, he⟩
  · rw [he]; exact Or.inl hlive
  · have := tally_set (Stmt.unbound c) h0 [.newSession socket]
    rw [weight_nil] at this
    rw [he]; left; omega
  · have := tally_set (Stmt.unbound c) h0 st
    rw [weight_nil] at this
    rw [he]; left; omega
  · by_cases hi : ∃ o socket, i = .bindSocket c o socket
    · obtain ⟨o, socket, rfl⟩ := hi
      exact Or.inr ⟨t, wsa, o, socket, st, rfl, ht, hc⟩
    · left
      have h1 := tally_run (Stmt.unbound c) wsa ht
      rw [step_eq hc, handle]
      by_cases hb : ∃ c' o socket, i = .bindSocket c' o socket
      · obtain ⟨c', o, socket, rfl⟩ := hb
        have hne : ¬ c' = c := by
          intro heq
          subst heq
          exact hi ⟨o, socket, rfl⟩
        simp only [Stmt.unbound, hne, if_false] at h1
        omega
      · have h2 := unbound_handed_on s wsa (fun c' o socket he => hb ⟨c', o, socket, he⟩) c
        omega

/-- What a statement pushes for a session's making is there after it. -/
theorem unbound_of_pushed {t : Nat} {wsa : Bool} {i x : Stmt} {st : List Stmt} (ht : s.threads[t]? = some (i :: st))
    (hc : s.crashed = none) (hx : x ∈ (s.exec wsa i).2) {c : Nat} (h1 : x.unbound c = 1) :
    0 < tally (Stmt.unbound c) (s.step (.run t wsa)).threads := by
  have h2 := tally_run (Stmt.unbound c) wsa ht
  have h3 := le_weight (Stmt.unbound c) hx
  have h4 := weight_le_tally (Stmt.unbound c) ht
  rw [weight_cons] at h4
  rw [step_eq hc, handle]
  omega

theorem born_step (h : Handled s) {c : Nat} (hlive : 0 < tally (Stmt.unbound c) (s.step e).threads) :
    c < (s.step e).nextClient := by
  have hle := nextClient_le s e
  have hold : ∀ x, s.Has x → x.unbound c = 1 → c < (s.step e).nextClient := by
    intro x hx h1
    have := h.born c (unbound_pos.mpr ⟨x, hx, h1⟩)
    omega
  obtain ⟨x, hx, h1⟩ := unbound_pos.mp hlive
  rcases has_step hx with hx | ⟨_, rfl⟩ | ⟨op, -, _, _, r, st, _, _, hbr, hm⟩ | ⟨t, wsa, i, st, rfl, ht, hc, hm⟩
  · exact hold x hx h1
  · cases h1
  · rcases mem_branch hbr hm with rfl | rfl | ⟨n, rfl, -⟩ <;> cases h1
  · rcases pushed_unbound hm h1 with hi | ⟨rfl, socket, rfl⟩
    · exact hold i (has_top ht) hi
    · rw [step_eq hc, handle, (run_fields wsa ht).nextClient]
      exact Nat.lt_succ_self _

theorem unmade_step (h : Handled s) {c : Nat} (hn : (s.step e).nextClient ≤ c) (kind : IoKind) :
    (s.step e).structureOf c kind = none := by
  have hle := nextClient_le s e
  -- a session that gets a structure is being made, so it has a number
  have hborn : ∀ {t : Nat} {i : Stmt} {st}, s.threads[t]? = some (i :: st) → i.unbound c ≠ 1 := by
    intro t i st ht h1
    have := h.born c (unbound_pos.mpr ⟨i, has_top ht, h1⟩)
    omega
  rcases structureOf_cases s e c kind with he | ⟨t, wsa, i, st, -, ht, hi⟩
  · rw [he]
    exact h.unmade c (by omega) kind
  rcases hi with ⟨socket, -, -, hn⟩ | ⟨o, socket, rfl, -, -⟩ | ⟨o, sendO, socket, rfl, -, -⟩
  · exact hn
  · exact absurd (by simp [Stmt.unbound]) (hborn ht)
  · exact absurd (by simp [Stmt.unbound]) (hborn ht)

/-- `Network::Run` makes one session at a time, and a session at the making keeps the socket it has. -/
theorem socket_kept {ok : Server → Ev → Prop} (hr : Reach ok s) {x : Stmt} (hx : s.Has x) {c socket : Nat}
    (hseat : x.seated = some (c, socket)) : ((s.step e).clients c).socket = (s.clients c).socket := by
  have halone : ∀ (t : Nat) i st, s.threads[t]? = some (i :: st) → i.makes = true → i = x := by
    intro t i st ht hi
    obtain ⟨st', hst, hm⟩ := hx
    obtain ⟨t', ht'⟩ := List.mem_iff_getElem?.mp hst
    obtain ⟨rfl, rfl⟩ := makes_alone hr _ _ ht' x hm (makes_of_seated hseat)
    obtain ⟨rfl, h2⟩ := makes_alone hr _ _ ht i (by simp) hi
    rw [ht] at ht'
    cases ht'
    rfl
  rcases socket_step s e c with
    he | ⟨-, t, wsa, socket', st, rfl, ht, -⟩ | ⟨t, wsa, o, socket', st, rfl, ht, -, -⟩
  · exact he
  · cases halone _ _ _ ht rfl
    cases hseat
  · cases halone _ _ _ ht rfl
    cases hseat

theorem seated_step {ok : Server → Ev → Prop} (hr : Reach ok s) (h : Handled s) {x : Stmt} (hh : (s.step e).Has x)
    {c socket : Nat} (hx : x.seated = some (c, socket)) : ((s.step e).clients c).socket = socket := by
  rcases has_step hh with hh | ⟨_, rfl⟩ | ⟨op, -, _, _, r, st, _, _, hbr, hm⟩ | ⟨t, wsa, i, st, rfl, ht, hc, hm⟩
  · rw [socket_kept hr hh hx]
    exact h.seated x hh c socket hx
  · cases hx
  · rcases mem_branch hbr hm with rfl | rfl | ⟨n, rfl, -⟩ <;> cases hx
  · rcases pushed_seated hm hx with hi | ⟨o, rfl⟩
    · rw [socket_kept hr (has_top ht) hi]
      exact h.seated i (has_top ht) c socket hi
    · simp [step_eq hc, handle, run, ht, exec, setThread, withClient, TcpClient.initializeSocket]

/-- A session to come is to come, or its making has begun. -/
theorem later_step {c : Nat} (hn : s.nextClient ≤ c) :
    0 < tally (Stmt.unbound c) (s.step e).threads ∨ (s.step e).nextClient ≤ c := by
  rcases nextClient_step s e with he | ⟨he, t, wsa, socket, st, rfl, ht, hc⟩
  · exact Or.inr (by omega)
  · by_cases heq : s.nextClient = c
    · subst heq
      exact Or.inl (unbound_of_pushed ht hc (List.mem_singleton_self _) (by simp [Stmt.unbound]))
    · exact Or.inr (by omega)

/-- A handle opened before, still open for the session. -/
theorem open_step (h : Handled s) (hon : OnPort s) (hb : s.misbinds e = false) {c : Nat}
    (ho : s.sockets (s.clients c).socket = some c)
    (hp : (s.clients c).socket ∈ s.port → (s.clients c).socket ∈ (s.step e).port) :
    (s.clients c).socket ∈ (s.step e).port ∨ 0 < tally (Stmt.unbound c) (s.step e).threads ∨
      (s.step e).nextClient ≤ c := by
  rcases hon c ho with hin | hlive | hn
  · exact Or.inl (hp hin)
  · rcases unbound_kept (e := e) hlive with hlive | ⟨t, wsa, o, socket, st, rfl, ht, hc⟩
    · exact Or.inr (Or.inl hlive)
    · obtain rfl : wsa = true := by
        cases wsa with
        | true => rfl
        | false => simp [misbinds, ht] at hb
      rw [h.seated _ (has_top ht) c socket rfl]
      exact Or.inl (by simp [step_eq hc, handle, run, ht, exec, setThread])
  · exact Or.inr (later_step hn)

theorem on_port_step (h : Handled s) (hon : OnPort s) (hb : s.misbinds e = false) : OnPort (s.step e) := by
  intro c ho
  rcases socket_step s e c with
    hs | ⟨rfl, t, wsa, socket, st, rfl, ht, hc⟩ | ⟨t, wsa, o, socket, st, rfl, ht, hc, -⟩
  case inr.inl | inr.inr =>
    exact Or.inr (Or.inl (unbound_of_pushed ht hc (List.mem_singleton_self _) (by simp [Stmt.unbound])))
  rw [hs] at ho ⊢
  rcases handles_step s e with
    ⟨hso, hp⟩ | ⟨socket, hso, hp⟩ | ⟨socket, hso, hp⟩ | ⟨t, c', o, socket, st, -, -, hso, hp⟩
  · exact open_step h hon hb (hso ▸ ho) fun hin => hp ▸ hin
  · by_cases heq : (s.clients c).socket = socket
    · -- the handle was opened for the next session: `c` is to come
      rw [hso, heq, Function.update_self] at ho
      cases ho
      exact Or.inr (later_step (Nat.le_refl _))
    · rw [hso, Function.update_of_ne heq] at ho
      exact open_step h hon hb ho fun hin => hp ▸ hin
  · have heq : (s.clients c).socket ≠ socket := by
      intro heq
      rw [hso, heq, Function.update_self] at ho
      cases ho
    rw [hso, Function.update_of_ne heq] at ho
    refine open_step h hon hb ho fun hin => ?_
    rw [hp, List.mem_filter]
    exact ⟨hin, by simpa using heq⟩
  · refine open_step h hon hb (hso ▸ ho) fun hin => ?_
    rw [hp]
    exact List.mem_append_left _ hin

end Step

theorem handled_boot (n : Nat) : Handled (boot n) := by
  refine ⟨fun c hlive => ?_, fun c _ kind => by cases kind <;> rfl, fun x hh => absurd hh (not_has_boot n x)⟩
  obtain ⟨x, hx, -⟩ := unbound_pos.mp hlive
  exact absurd hx (not_has_boot n x)

/-- In any run. -/
theorem handled {ok : Server → Ev → Prop} {s : Server} (h : Reach ok s) : Handled s :=
  h.invariant_of (fun _ hr => hr) (fun _ ⟨n, hn⟩ => hn ▸ handled_boot n) fun _ _ hr hs _ =>
    ⟨fun _ => born_step hs, fun _ => unmade_step hs, fun _ hh _ _ => seated_step hr hs hh⟩

/-- In any run in which no `BindSocket` fails. -/
theorem on_port {ok : Server → Ev → Prop} (hok : ∀ s e, ok s e → s.misbinds e = false) {s : Server} (h : Reach ok s) :
    OnPort s :=
  h.invariant_of (fun _ hr => hr) (fun _ ⟨n, hn⟩ => by subst hn; intro c ho; cases ho) fun _ _ hr hon he =>
    on_port_step (handled hr) hon (hok _ _ he)

/-! ## What is posted -/

/-- A ready session's handle is on the port. -/
theorem ready_on_port {s : Server} (hon : OnPort s) {c : Nat} (h : s.ready c = true) (hborn : c < s.nextClient) :
    (s.clients c).socket ∈ s.port := by
  simp only [ready, isOpen, Bool.and_eq_true, beq_iff_eq] at h
  rcases hon c h.1 with hin | hlive | hn
  · exact hin
  · omega
  · omega

/-- What a bindful step posts, it posts on the port. -/
theorem Posted.on_port {ok : Server → Ev → Prop} {s : Server} (hr : Reach ok s) (hon : OnPort s) {e : Ev} (hb : Bindful s e)
    {op : IoOp} (hp : s.Posted e op) : op.socket ∈ s.port := by
  obtain ⟨hl, hpo, hpost⟩ := hp
  have hborn : op.client < s.nextClient := by
    by_contra hn
    unfold Linked at hl
    rw [(handled hr).unmade op.client (by omega)] at hl
    cases hl
  have hsock : op.socket = (s.clients op.client).socket := by
    rw [hpo]
    cases op.kind <;> rfl
  rw [hsock]
  refine ready_on_port hon ?_ hborn
  obtain ⟨-, h1, h2, h3⟩ := hb
  rcases hpost with ⟨-, he⟩ | ⟨-, he⟩ | ⟨t, st, c, o, rfl, ht, -, hg⟩
  · rw [he] at h1; exact h1
  · rw [he] at h3; exact h3
  · have he : s.firstReceiving (.run t true) = some op.client := by simp only [firstReceiving, ht]; exact hg
    rw [he] at h2; exact h2

/-- The step `e` of the run, after `pre`, posts `op`. -/
def PostsIn (n : Nat) (es pre : List Ev) (e : Ev) (op : IoOp) : Prop :=
  (∃ post, es = pre ++ e :: post) ∧
    ((pre.foldl step (boot n)).step e).inflight = (pre.foldl step (boot n)).inflight ++ [op]

/-- Every operation in flight was posted in the run. -/
theorem inflight_posted (n : Nat) (es : List Ev) :
    ∀ op ∈ (es.foldl step (boot n)).inflight, ∃ pre e, PostsIn n es pre e op := by
  induction es using List.reverseRecOn with
  | nil => intro op hop; cases hop
  | append_singleton es e ih =>
    intro op hop
    have hold : op ∈ (es.foldl step (boot n)).inflight → ∃ pre e', PostsIn n (es ++ [e]) pre e' op := by
      intro hop
      obtain ⟨pre, e', ⟨post, hes⟩, hp⟩ := ih op hop
      exact ⟨pre, e', ⟨post ++ [e], by simp [hes]⟩, hp⟩
    rw [List.foldl_append] at hop
    replace hop : op ∈ ((es.foldl step (boot n)).step e).inflight := hop
    rcases inflight_cases (es.foldl step (boot n)) e with he | ⟨t, i, r, rfl, he⟩ | ⟨op', he, -⟩
    · exact hold (he ▸ hop)
    · rw [he] at hop
      exact hold (List.mem_of_mem_eraseIdx hop)
    · rw [he] at hop
      rcases List.mem_append.mp hop with hop | hop
      · exact hold hop
      · rw [List.mem_singleton.mp hop]
        exact ⟨es, e, ⟨[], rfl⟩, he⟩

/-- In a run of bindful steps every operation in flight was posted in the run, and every posting is
    on a socket associated with the port. -/
theorem every_post_is_on_the_port (n : Nat) {es : List Ev} (h : Along step Bindful (boot n) es) :
    (∀ op ∈ (es.foldl step (boot n)).inflight, ∃ pre e, PostsIn n es pre e op) ∧
      ∀ pre e op, PostsIn n es pre e op → op.socket ∈ (pre.foldl step (boot n)).port := by
  refine ⟨inflight_posted n es, fun pre e op hp => ?_⟩
  obtain ⟨⟨post, rfl⟩, hin⟩ := hp
  have h1 : Along step Bindful (boot n) (pre ++ [e]) := by
    rw [← List.singleton_append, ← List.append_assoc] at h
    exact along_of_append h
  obtain ⟨hpre, hb⟩ := along_concat.mp h1
  have hr : Reach Bindful (pre.foldl step (boot n)) := Reach.run (.start ⟨n, rfl⟩) hpre
  rcases inflight_cases (pre.foldl step (boot n)) e with he | ⟨t, i, r, -, he⟩ | ⟨op', he, hp⟩
  · rw [he] at hin
    simp at hin
  · rw [he] at hin
    have := congrArg List.length hin
    have := List.length_eraseIdx_le (pre.foldl step (boot n)).inflight i
    simp only [List.length_append, List.length_singleton] at *
    omega
  · rw [he] at hin
    cases List.singleton_inj.mp (List.append_cancel_left hin)
    exact hp.on_port hr (on_port (fun _ _ hb => hb.1) hr) hb

def boundRun : List Ev := List.flatten [
  [.accept 5], List.replicate 9 (.run 0 true), [.accept 6], List.replicate 9 (.run 0 true),
  [.dispatch 1 0 (.received [1, 0, 2, 0x55, 7])], List.replicate 25 (.run 1 true)]

theorem a_broadcast_after_binding :
    ((boundRun.foldl step (boot 1)).inflight.map fun op => op.socket) = [6, 5, 6, 5] ∧
      ∀ pre e op, PostsIn 1 boundRun pre e op → op.socket ∈ (pre.foldl step (boot 1)).port :=
  ⟨by rw [boot_eq]; decide +kernel, (every_post_is_on_the_port 1 (by rw [boot_eq]; decide +kernel)).2⟩

/-- The second session is registered and not bound when the first one broadcasts. -/
def hastyRun : List Ev := List.flatten [
  [.accept 5], List.replicate 9 (.run 0 true), [.accept 6], List.replicate 7 (.run 0 true),
  [.dispatch 1 0 (.received [1, 0, 2, 0x55, 7])], List.replicate 19 (.run 1 true)]

/-- The second session's send is in flight on a socket the port does not know. -/
theorem a_broadcast_overtakes_the_binding :
    ¬ ∀ es pre e op, PostsIn 1 es pre e op → op.socket ∈ (pre.foldl step (boot 1)).port := by
  intro h
  have hsix : 6 ∈ (hastyRun.foldl step (boot 1)).inflight.map fun op => op.socket := by rw [boot_eq]; decide +kernel
  have hport : ∀ pre ∈ hastyRun.inits, 6 ∉ (pre.foldl step (boot 1)).port := by rw [boot_eq]; decide +kernel
  obtain ⟨op, hop, hsock⟩ := List.mem_map.mp hsix
  obtain ⟨pre, e, ⟨post, hes⟩, hp⟩ := inflight_posted 1 hastyRun op hop
  refine hport pre ((List.mem_inits _ _).mpr ⟨e :: post, hes.symm⟩) ?_
  rw [← hsock]
  exact h hastyRun pre e op ⟨⟨post, hes⟩, hp⟩

/-! ## Receives -/

end Server

end SigHolic.Network
