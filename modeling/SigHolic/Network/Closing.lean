/-
  SigHolic.Network.Closing — how often a session closes its socket (`TcpClient::Close`, called
  from `ProcessPacket` and from `CloseSession`).

  `Close` is unguarded. A packet that `ProcessPacket` rejects closes the socket at once, and
  `CloseSession` closes the same handle again when the worker finds the session invalid; by
  then the system may have given it to a new connection.

  Proved: while no packet is rejected and each `CloseSession` enters alone, a session closes
  its socket at most once, and only the handle of its own connection.
-/

import SigHolic.Network.Buffers
import SigHolic.Network.Teardown

namespace SigHolic.Network

open SigHolic.Base.Tally SigHolic.Socket

namespace Stmt

/-- The session is being made and has no socket, and the socket it will get. -/
def madeWith : Stmt → Option (Nat × Nat)
  | .dequeueRecv c socket | .bindRecv c _ socket | .dequeueSend c _ socket | .bindSend c _ _ socket
  | .initializeSocket c _ socket => some (c, socket)
  | _ => none

def early (c : Nat) (x : Stmt) : Nat := if x.madeWith.map Prod.fst = some c then 1 else 0

/-- The session has its socket and is not registered: about to be, being torn down, or about to
    close. -/
def handled (c : Nat) : Stmt → Nat
  | .addTcpClient c' _ _ | .unbindRecv c' | .enqueueRecv c' _ | .unbindSend c' | .enqueueSend c' _ | .close c' =>
    if c' = c then 1 else 0
  | _ => 0

def staged (c : Nat) (x : Stmt) : Nat := x.early c + x.handled c

def arrives : Stmt → Nat
  | .newSession _ => 1
  | _ => 0

end Stmt

namespace Server

def closes (s : Server) (c : Nat) : Nat := s.log.countP fun | .closesocket c' _ => c' == c | _ => false

/-! ## Runs without a rejected packet -/

/-- The statement is where `ProcessPacket` rejects the packet: a bad checksum, an unknown flag, or
    no room in the send buffer it goes to. -/
def rejects (s : Server) : Stmt → Bool
  | .processPacket _ _ packet => packet.checkSum != 0x55
  | .verifyFlag _ _ _ packet => packet.flag != 0x01 && packet.flag != 0x02
  | .echo c _ _ packet => !decide ((s.clients c).Fits packet)
  | .bcastWrite _ _ _ packet client => !decide ((s.clients client).Fits packet)
  | _ => false

def Accepts (s : Server) : Ev → Prop
  | .run t _ =>
    match s.threads[t]? with
    | some (i :: _) => s.rejects i = false
    | _ => True
  | _ => True

instance (s : Server) (e : Ev) : Decidable (Accepts s e) := by
  unfold Accepts
  split
  · split <;> infer_instance
  · infer_instance

/-- No packet is rejected, and `CloseSession` enters alone. -/
def Clean (s : Server) (e : Ev) : Prop := Alone s e ∧ Accepts s e

instance (s : Server) (e : Ev) : Decidable (Clean s e) := inferInstanceAs (Decidable (_ ∧ _))

/-! ## One close a session -/

def closings (s : Server) (c : Nat) : Nat := s.closes c + s.registry.count c + tally (Stmt.staged c) s.threads

structure Shut (s : Server) : Prop where
  once : ∀ c, s.closings c ≤ 1
  unborn : ∀ c, s.nextClient ≤ c → s.closings c = 0

theorem countP_noted (s : Server) (c : Nat) {i : Stmt} (h : ∀ c', i ≠ .close c') :
    (s.noted i).countP (fun | .closesocket c' _ => c' == c | _ => false) = 0 := by
  have hw : ∀ sender client packet,
      (s.wroteBy sender client packet).countP (fun | .closesocket c' _ => c' == c | _ => false) = 0 := by
    intro sender client packet
    rw [List.countP_eq_zero]
    intro x hx
    rw [mem_wroteBy hx]
    simp
  cases i with
  | close c' => exact absurd rfl (h c')
  | echo => exact hw _ _ _
  | bcastWrite =>
    simp only [noted]
    split
    · exact hw _ _ _
    · rfl
  | takeSession | onSend => simp only [noted]; split <;> rfl
  | _ => rfl

theorem exec_early (s : Server) (wsa : Bool) {i : Stmt} (h : ∀ socket, i ≠ .newSession socket) (c : Nat) :
    weight (Stmt.early c) (s.exec wsa i).2 ≤ i.early c := by
  cases i with
  | newSession socket => exact absurd rfl (h socket)
  | _ =>
    simp only [exec]
    (repeat' split) <;> simp [Stmt.early, Stmt.madeWith]

/-- A statement that neither makes a session nor closes one moves it along at most, unless it
    rejects a packet. -/
theorem exec_handled {s : Server} (hg : Stages s) (hok : SendOk s) {t : Nat} {i : Stmt} {st : List Stmt}
    (ht : s.threads[t]? = some (i :: st)) (wsa : Bool) (hr : s.rejects i = false)
    (hi : ∀ c o socket, i ≠ .initializeSocket c o socket) (c : Nat) :
    (s.exec wsa i).1.registry.count c + weight (Stmt.handled c) (s.exec wsa i).2 ≤ s.registry.count c + i.handled c := by
  cases hp : i.plain with
  | true =>
    rw [(exec_plain s wsa hp).registry]
    refine Nat.add_le_add_left ?_ _
    cases i with
    | processPacket c' j packet =>
      simp only [rejects, bne_eq_false_iff_eq] at hr
      simp [exec, hr, Stmt.handled]
    | verifyFlag c' j k packet =>
      have hf : packet.flag = 0x01 ∨ packet.flag = 0x02 := by
        simp only [rejects, Bool.and_eq_false_iff, bne_eq_false_iff_eq] at hr
        exact hr
      rcases hf with hf | hf <;> simp [exec, hf, Stmt.handled]
    | echo c' j k packet =>
      simp only [rejects, Bool.not_eq_false', decide_eq_true_eq] at hr
      obtain ⟨b, hw, -⟩ := write_taken (hok c') hr (some (c', k))
      simp only [exec, hw]
      rw [if_neg (by omega)]
      simp [Stmt.handled]
    | bcastWrite c' j k packet client =>
      simp only [rejects, Bool.not_eq_false', decide_eq_true_eq] at hr
      obtain ⟨b, hw, -⟩ := write_taken (hok client) hr (some (c', k))
      simp only [exec, hw]
      split
      · simp only
        rw [if_neg (by omega)]
        simp [Stmt.handled]
      · simp
    | newSession | dequeueRecv | bindRecv | dequeueSend | bindSend | initializeSocket | addTcpClient | closeSession
    | removeTcpClient | unbindRecv | enqueueRecv | unbindSend | enqueueSend => cases hp
    | _ =>
      simp only [exec]
      (repeat' split) <;> simp [Stmt.handled]
  | false =>
    cases i with
    | initializeSocket c o socket => exact absurd rfl (hi c o socket)
    | dequeueRecv c' socket =>
      obtain ⟨o, h', p', hd, -, -, -⟩ := Iocp.OverlappedIoPool.dequeue_moves s.heap s.recvPool
      simp [exec, hd, Stmt.handled]
    | dequeueSend c' o socket =>
      obtain ⟨o, h', p', hd, -, -, -⟩ := Iocp.OverlappedIoPool.dequeue_moves s.heap s.sendPool
      simp [exec, hd, Stmt.handled]
    | newSession | bindRecv | bindSend | enqueueRecv | enqueueSend =>
      simp [exec, Stmt.handled, newClient, bindRecv, bindSend, setClientObject, withClient, enqueueRecv, enqueueSend]
    | addTcpClient c' o socket =>
      simp only [exec, addTcpClient, count_addTcpClient, Stmt.handled, weight_cons, weight_nil]
      by_cases e : c = c'
      · subst e; simp
      · simp [e, Ne.symm e]
    | removeTcpClient c' =>
      have h1 := weight_le_tally (Stmt.entering c') ht
      simp only [Stmt.entering, weight_cons, if_true] at h1
      have h2 := hg.enter c'
      simp only [exec, removeTcpClient, count_removeTcpClient, Stmt.handled, weight_cons, weight_nil]
      by_cases e : c = c'
      · subst e; simp only [if_true]; omega
      · simp [e, Ne.symm e]
    | closeSession data => cases hgc : s.getClientObject data <;> simp [exec, hgc, Stmt.handled]
    | unbindRecv c' => cases ho : (s.clients c').recvOverlapped <;> simp [exec, ho, setClientObject, Stmt.handled]
    | unbindSend c' => cases ho : (s.clients c').sendOverlapped <;> simp [exec, ho, setClientObject, Stmt.handled]
    | _ => cases hp

theorem weight_staged (c : Nat) (st : List Stmt) :
    weight (Stmt.staged c) st = weight (Stmt.early c) st + weight (Stmt.handled c) st := by
  induction st with
  | nil => rfl
  | cons x st ih => simp only [weight_cons, ih, Stmt.staged]; omega

theorem exec_staged {s : Server} (hg : Stages s) (hok : SendOk s) {t : Nat} {i : Stmt} {st : List Stmt}
    (ht : s.threads[t]? = some (i :: st)) (wsa : Bool) (hr : s.rejects i = false) (hn : ∀ socket, i ≠ .newSession socket)
    (c : Nat) :
    (s.exec wsa i).1.registry.count c + weight (Stmt.staged c) (s.exec wsa i).2 ≤ s.registry.count c + i.staged c := by
  by_cases hi : ∃ c o socket, i = .initializeSocket c o socket
  · obtain ⟨c', o, socket, rfl⟩ := hi
    simp [exec, withClient, Stmt.staged, Stmt.early, Stmt.handled, Stmt.madeWith]
  · have h1 := exec_early s wsa hn c
    have h2 := exec_handled hg hok ht wsa hr (fun c o socket e => hi ⟨c, o, socket, e⟩) c
    rw [weight_staged, Stmt.staged]
    omega

theorem shut_run {s : Server} (hg : Stages s) (hok : SendOk s) (h : Shut s) {t : Nat} {wsa : Bool} {i : Stmt}
    {st : List Stmt} (ht : s.threads[t]? = some (i :: st)) (hr : s.rejects i = false) : Shut (s.run t wsa) := by
  have hf := run_fields wsa ht
  have hw := fun c => tally_run (Stmt.staged c) wsa ht
  have hlog : (s.run t wsa).log = s.log ++ s.noted i := by
    simp only [run, ht]; exact exec_log s wsa i
  have hcl : ∀ c, (s.run t wsa).closes c =
      s.closes c + (s.noted i).countP (fun | .closesocket c' _ => c' == c | _ => false) := by
    intro c; simp only [closes, hlog, List.countP_append]
  by_cases hc : ∃ c', i = .close c'
  · obtain ⟨c', rfl⟩ := hc
    have hn : (s.run t wsa).nextClient = s.nextClient := by rw [hf.nextClient]; rfl
    have hreg : (s.run t wsa).registry = s.registry := by rw [hf.registry]; rfl
    have hle : ∀ c, (s.run t wsa).closings c = s.closings c := by
      intro c
      have h1 := hw c
      have h2 := hcl c
      simp only [noted, List.countP_singleton, beq_iff_eq] at h2
      simp only [exec, Stmt.staged, Stmt.early, Stmt.madeWith, Stmt.handled, weight_cons, weight_nil, Option.map_none,
        reduceCtorEq, if_false] at h1
      simp only [closings, hreg, h2]
      omega
    refine ⟨fun c => hle c ▸ h.once c, fun c hc => ?_⟩
    rw [hle]; exact h.unborn c (hn ▸ hc)
  have hcl' : ∀ c, (s.run t wsa).closes c = s.closes c := by
    intro c
    rw [hcl, countP_noted s c fun c' e => hc ⟨c', e⟩, Nat.add_zero]
  by_cases hn : ∃ socket, i = .newSession socket
  · obtain ⟨socket, rfl⟩ := hn
    have hn : (s.run t wsa).nextClient = s.nextClient + 1 := by rw [hf.nextClient]; rfl
    have hreg : (s.run t wsa).registry = s.registry := by rw [hf.registry]; rfl
    have hw' : ∀ c, (s.run t wsa).closings c = s.closings c + if s.nextClient = c then 1 else 0 := by
      intro c
      have h1 := hw c
      simp only [exec, Stmt.staged, Stmt.early, Stmt.madeWith, Stmt.handled, weight_cons, weight_nil, Option.map_none,
        Option.map_some, Option.some.injEq, reduceCtorEq, if_false] at h1
      simp only [closings, hcl', hreg]
      omega
    refine ⟨?_, ?_⟩
    · intro c
      rw [hw']
      split
      · rename_i e; subst e; rw [h.unborn _ (Nat.le_refl _)]
      · exact h.once c
    · intro c hc
      rw [hw', if_neg (by omega), h.unborn c (by omega)]
  · have hne : ∀ socket, i ≠ .newSession socket := fun socket e => hn ⟨socket, e⟩
    have hle : ∀ c, (s.run t wsa).closings c ≤ s.closings c := by
      intro c
      have h1 := hw c
      have h2 := exec_staged hg hok ht wsa hr hne c
      simp only [closings, hcl', hf.registry]
      omega
    have hnx : (s.run t wsa).nextClient = s.nextClient := by rw [hf.nextClient]; exact exec_nextClient s wsa hne
    refine ⟨fun c => Nat.le_trans (hle c) (h.once c), fun c hc => ?_⟩
    have := hle c
    rw [h.unborn c (hnx ▸ hc)] at this
    omega

theorem closings_kept {s s' : Server} (hl : ∀ c, s'.closes c = s.closes c) (hr : s'.registry = s.registry)
    (ht : ∀ c, tally (Stmt.staged c) s'.threads = tally (Stmt.staged c) s.threads) (hn : s'.nextClient = s.nextClient)
    (h : Shut s) : Shut s' := by
  have he : ∀ c, s'.closings c = s.closings c := fun c => by simp only [closings, hl, hr, ht]
  exact ⟨fun c => he c ▸ h.once c, fun c hc => by rw [he]; exact h.unborn c (hn ▸ hc)⟩

/-- What a worker takes on with a completion closes nothing yet. -/
theorem branch_staged {op : IoOp} {r : Result} {st : List Stmt} (h : branch op r = some st) (c : Nat) :
    weight (Stmt.staged c) st = 0 := by
  rcases branch_cases h with ⟨-, rfl | rfl⟩ | ⟨-, n, rfl, -⟩ <;>
    simp [failedBranch, Stmt.staged, Stmt.early, Stmt.madeWith, Stmt.handled]

theorem closes_observed {s : Server} {e : Ev} (h : ∀ t wsa, e ≠ .run t wsa) (c : Nat) :
    (s.observed e).countP (fun | .closesocket c' _ => c' == c | _ => false) = 0 := by
  rw [List.countP_eq_zero]
  intro x hx
  cases x with
  | closesocket c' conn =>
    obtain ⟨t, wsa, -, -, rfl, -⟩ := mem_observed hx (by simp) (by simp)
    exact absurd rfl (h t wsa)
  | _ => simp

/-- A step that runs no statement closes nothing. -/
theorem shut_world {s : Server} (h : Shut s) (hc : s.crashed = none) {e : Ev} (he : ∀ t wsa, e ≠ .run t wsa) :
    Shut (s.step e) := by
  rcases step_cases s e with hq | ⟨t, wsa, -, -, rfl, -⟩
  case inr => exact absurd rfl (he t wsa)
  have hl : ∀ c, (s.step e).closes c = s.closes c := by
    intro c
    simp only [closes, step_eq hc, handle_log, List.countP_append, closes_observed he c, Nat.add_zero]
  refine closings_kept hl hq.registry (fun c => ?_) hq.nextClient h
  have hset : ∀ {t st}, s.threads[t]? = some [] → (s.step e).threads = s.threads.set t st →
      weight (Stmt.staged c) st = 0 → tally (Stmt.staged c) (s.step e).threads = tally (Stmt.staged c) s.threads := by
    intro t st h0 hth hw
    have := tally_set (Stmt.staged c) h0 st
    rw [hth]
    simp only [hw, weight_nil] at this
    omega
  rw [step_eq hc] at hset ⊢
  cases e with
  | accept socket =>
    rcases accept_cases s socket with hs | ⟨h0, hth, -⟩ <;> simp only [handle] at hset ⊢
    · rw [hs]
    · exact hset h0 hth (by simp [Stmt.staged, Stmt.early, Stmt.madeWith, Stmt.handled])
  | dispatch t i r =>
    rcases dispatch_cases s t i r with hs | ⟨op, st, -, h0, -, hb, hs⟩ <;> simp only [handle] at hset ⊢
    · rw [hs]
    · refine hset h0 ?_ (branch_staged hb c)
      rw [hs]
      simp only [setThread, land_threads]
  | run t wsa => exact absurd rfl (he t wsa)
  | write c' packet =>
    simp only [handle, write]
    split
    · rw [writeSendBuffer_threads]
    · rfl
  | flush c' wsa =>
    simp only [handle, flush]
    split
    · rw [flushSendBuffer_threads]
    · rfl

theorem Accepts.top {s : Server} {t : Nat} {wsa : Bool} {i : Stmt} {st : List Stmt} (h : Accepts s (.run t wsa))
    (ht : s.threads[t]? = some (i :: st)) : s.rejects i = false := by
  simpa only [Accepts, ht] using h

theorem shut_step {s : Server} {e : Ev} (hg : Stages s) (hok : SendOk s) (h : Shut s) (ha : Clean s e) :
    Shut (s.step e) := by
  by_cases hc : s.crashed = none
  case neg => rw [step_crashed hc]; exact h
  by_cases he : ∃ t wsa, e = .run t wsa
  · obtain ⟨t, wsa, rfl⟩ := he
    rw [step_eq hc]
    simp only [handle]
    rcases ht : s.threads[t]? with _ | _ | ⟨i, st⟩
    · simp only [run, ht]; exact h
    · simp only [run, ht]; exact h
    · exact shut_run hg hok h ht (ha.2.top ht)
  · exact shut_world h hc fun t wsa hr => he ⟨t, wsa, hr⟩

theorem shut_boot (n : Nat) : Shut (boot n) := by
  have h0 : ∀ f : Stmt → Nat, tally f (boot n).threads = 0 := fun f => tally_replicate f (n + 1)
  have h1 : ∀ c, (boot n).closings c = 0 := by
    intro c
    rw [closings, h0]
    rfl
  exact ⟨fun c => by rw [h1]; omega, fun c _ => h1 c⟩

theorem Clean.stages {s : Server} (h : Reach Clean s) : Stages s := Server.stages (h.mono fun _ _ he => he.1)

theorem shut {s : Server} (h : Reach Clean s) : Shut s :=
  h.invariant_of (fun _ hr => And.intro (Clean.stages hr) (sendOk hr)) (fun _ ⟨n, hn⟩ => hn ▸ shut_boot n)
    fun _ _ ⟨hg, hok⟩ hs ha => shut_step hg hok hs ha

/-! ## Whose handle it is -/

/-- The handle is open for the session's own connection, or there was no connection. -/
def Own (s : Server) (c socket : Nat) : Prop := s.sockets socket = some c ∨ socket = invalidSocket

structure Owned (s : Server) : Prop where
  invalid : s.sockets invalidSocket = none
  front : ∀ (t : Nat) (st : List Stmt) (x : Stmt), s.threads[t]? = some st → x ∈ st → x.arrives = 1 → t = 0
  once : tally Stmt.arrives s.threads ≤ 1
  arriving : ∀ socket, s.Has (.newSession socket) → s.Own s.nextClient socket
  making : ∀ x c socket, s.Has x → x.madeWith = some (c, socket) → s.Own c socket
  held : ∀ c, 0 < s.registry.count c + tally (Stmt.handled c) s.threads → s.Own c (s.clients c).socket

theorem arrives_le_one (x : Stmt) : x.arrives ≤ 1 := by
  cases x <;> simp [Stmt.arrives]

theorem exec_arrives (s : Server) (wsa : Bool) (i : Stmt) : ∀ x ∈ (s.exec wsa i).2, x.arrives = 0 := by
  cases i <;> simp only [exec] <;> (repeat' split) <;> simp [Stmt.arrives]

theorem exec_madeWith {s : Server} {wsa : Bool} {i x : Stmt} (hx : x ∈ (s.exec wsa i).2) {p : Nat × Nat}
    (h : x.madeWith = some p) : i.madeWith = some p ∨ ∃ socket, i = .newSession socket ∧ p = (s.nextClient, socket) := by
  cases i with
  | newSession socket =>
    simp only [exec, List.mem_singleton] at hx
    subst hx
    simp only [Stmt.madeWith, Option.some.injEq] at h
    exact Or.inr ⟨socket, rfl, h.symm⟩
  | _ =>
    left
    simp only [exec] at hx
    (repeat' split at hx) <;> simp only [List.mem_cons, List.not_mem_nil, or_false] at hx <;>
      (first | subst hx | rcases hx with rfl | rfl) <;> first | exact h | cases h

theorem exec_socket (s : Server) (wsa : Bool) {i : Stmt} (hn : ∀ socket, i ≠ .newSession socket)
    (hi : ∀ c o socket, i ≠ .initializeSocket c o socket) (d : Nat) :
    ((s.exec wsa i).1.clients d).socket = (s.clients d).socket := by
  refine exec_field TcpClient.socket s wsa (fun d x hx => ?_) d
  cases hx with
  | made => exact absurd rfl (hn _)
  | initialized => exact absurd rfl (hi _ _ _)
  | read hw => obtain ⟨b, n, rfl⟩ := TcpClient.readPacket_cases hw; rfl
  | echoed hw | broadcast hw => obtain ⟨b, rfl⟩ := TcpClient.writeSendBuffer_cases hw; rfl
  | sent hw => obtain ⟨b, rfl⟩ := TcpClient.onSend_cases hw; rfl
  | _ => rfl

/-- Nothing stands before a close for a session not yet made. -/
theorem Shut.unborn_handled {s : Server} (h : Shut s) {c : Nat} (hc : s.nextClient ≤ c) :
    s.registry.count c + tally (Stmt.handled c) s.threads = 0 := by
  have h1 := h.unborn c hc
  have h2 : tally (Stmt.handled c) s.threads ≤ tally (Stmt.staged c) s.threads :=
    tally_mono (fun x => Nat.le_add_left _ _) _
  unfold closings at h1
  omega

theorem owned_front_run {s : Server} (h : Owned s) {t : Nat} (wsa : Bool) {i : Stmt} {st : List Stmt}
    (ht : s.threads[t]? = some (i :: st)) :
    (∀ (t' : Nat) (st' : List Stmt) (x : Stmt), (s.run t wsa).threads[t']? = some st' → x ∈ st' → x.arrives = 1 →
      t' = 0) ∧
      tally Stmt.arrives (s.run t wsa).threads + i.arrives = tally Stmt.arrives s.threads := by
  have hpush := exec_arrives s wsa i
  constructor
  · intro t' st' x hst hx ha
    simp only [run, ht, setThread, exec_threads] at hst
    rcases set_cases hst with ⟨rfl, rfl⟩ | ⟨-, hst⟩
    · rcases List.mem_append.mp hx with hx | hx
      · rw [hpush x hx] at ha; cases ha
      · exact h.front t' _ x ht (List.mem_cons_of_mem _ hx) ha
    · exact h.front t' st' x hst hx ha
  · have h1 := tally_run Stmt.arrives wsa ht
    have h2 : weight Stmt.arrives (s.exec wsa i).2 = 0 := (weight_eq_zero _).mpr hpush
    omega

/-- Statements that neither make a session, nor give it its socket, nor close one. -/
theorem owned_run {s : Server} (hg : Stages s) (hok : SendOk s) (h : Owned s) {t : Nat} {wsa : Bool} {i : Stmt}
    {st : List Stmt} (ht : s.threads[t]? = some (i :: st)) (hr : s.rejects i = false)
    (hn : ∀ socket, i ≠ .newSession socket) (hi : ∀ c o socket, i ≠ .initializeSocket c o socket)
    (hc : ∀ c, i ≠ .close c) : Owned (s.run t wsa) := by
  have hf := run_fields wsa ht
  have hsk : (s.run t wsa).sockets = s.sockets := by
    simp only [run, ht]; exact exec_sockets s wsa hc
  have hown : ∀ {c socket}, s.Own c socket → (s.run t wsa).Own c socket := by
    intro c socket ho
    unfold Own
    rw [hsk]; exact ho
  have hnext : (s.run t wsa).nextClient = s.nextClient := by rw [hf.nextClient]; exact exec_nextClient s wsa hn
  obtain ⟨hfront, hcount⟩ := owned_front_run h wsa ht
  refine ⟨by rw [hsk]; exact h.invalid, hfront, by have := h.once; omega, fun socket hh => ?_, fun x c socket hh hm => ?_,
    fun c hpos => ?_⟩
  · rcases has_run ht hh with hh | hh
    · rw [hnext]; exact hown (h.arriving socket hh)
    · have := exec_arrives s wsa i _ hh
      cases this
  · rcases has_run ht hh with hh | hh
    · exact hown (h.making x c socket hh hm)
    · rcases exec_madeWith hh hm with hm | ⟨socket', rfl, -⟩
      · exact hown (h.making i c socket (has_top ht) hm)
      · exact absurd rfl (hn socket')
  · have h1 := tally_run (Stmt.handled c) wsa ht
    have h2 := exec_handled hg hok ht wsa hr hi c
    have hs : ((s.run t wsa).clients c).socket = (s.clients c).socket := by
      simp only [run, ht]; exact exec_socket s wsa hn hi c
    rw [hf.registry] at hpos
    rw [hs]
    exact hown (h.held c (by omega))

theorem owned_newSession {s : Server} (hs : Shut s) (h : Owned s) {t socket₀ : Nat} {wsa : Bool} {st : List Stmt}
    (ht : s.threads[t]? = some (.newSession socket₀ :: st)) : Owned (s.run t wsa) := by
  have hf := run_fields wsa ht
  have hsk : (s.run t wsa).sockets = s.sockets := by simp only [run, ht]; rfl
  have hown : ∀ {c socket}, s.Own c socket → (s.run t wsa).Own c socket := by
    intro c socket ho
    unfold Own
    rw [hsk]; exact ho
  obtain ⟨hfront, hcount⟩ := owned_front_run h wsa ht
  have hzero : tally Stmt.arrives (s.run t wsa).threads = 0 := by
    have h1 := h.once
    simp only [Stmt.arrives] at hcount
    omega
  refine ⟨by rw [hsk]; exact h.invalid, hfront, by omega, fun socket hh => ?_, fun x c socket hh hm => ?_, fun c hpos => ?_⟩
  · have := le_tally_of_has Stmt.arrives hh
    rw [hzero] at this
    cases this
  · rcases has_run ht hh with hh | hh
    · exact hown (h.making x c socket hh hm)
    · simp only [exec, List.mem_singleton] at hh
      subst hh
      simp only [Stmt.madeWith, Option.some.injEq, Prod.mk.injEq] at hm
      obtain ⟨rfl, rfl⟩ := hm
      exact hown (h.arriving _ (has_top ht))
  · have h1 := tally_run (Stmt.handled c) wsa ht
    simp only [exec, Stmt.handled, weight_cons, weight_nil, Nat.add_zero] at h1
    have hreg : (s.run t wsa).registry = s.registry := hf.registry
    rw [hreg, h1] at hpos
    have e : c ≠ s.nextClient := by
      intro heq
      subst heq
      have := hs.unborn_handled (Nat.le_refl s.nextClient)
      omega
    have hcl : (s.run t wsa).clients c = s.clients c := by
      simp only [run, ht, exec, setThread, newClient]
      simp [e]
    rw [hcl]
    exact hown (h.held c hpos)

theorem owned_initializeSocket {s : Server} (h : Owned s) {t c₀ o₀ socket₀ : Nat} {wsa : Bool} {st : List Stmt}
    (ht : s.threads[t]? = some (.initializeSocket c₀ o₀ socket₀ :: st)) : Owned (s.run t wsa) := by
  have hf := run_fields wsa ht
  have hsk : (s.run t wsa).sockets = s.sockets := by simp only [run, ht]; rfl
  have hown : ∀ {c socket}, s.Own c socket → (s.run t wsa).Own c socket := by
    intro c socket ho
    unfold Own
    rw [hsk]; exact ho
  obtain ⟨hfront, hcount⟩ := owned_front_run h wsa ht
  refine ⟨by rw [hsk]; exact h.invalid, hfront, by have := h.once; omega, fun socket hh => ?_, fun x c socket hh hm => ?_,
    fun c hpos => ?_⟩
  · rcases has_run ht hh with hh | hh
    · rw [show (s.run t wsa).nextClient = s.nextClient from hf.nextClient]
      exact hown (h.arriving socket hh)
    · have := exec_arrives s wsa _ _ hh
      cases this
  · rcases has_run ht hh with hh | hh
    · exact hown (h.making x c socket hh hm)
    · simp only [exec, List.mem_singleton] at hh
      subst hh
      cases hm
  · by_cases e : c = c₀
    · subst e
      have hcl : ((s.run t wsa).clients c).socket = socket₀ := by
        simp only [run, ht, exec, setThread]
        simp [withClient, TcpClient.initializeSocket]
      rw [hcl]
      exact hown (h.making _ c socket₀ (has_top ht) rfl)
    · have h1 := tally_run (Stmt.handled c) wsa ht
      simp only [exec, Stmt.handled, weight_cons, weight_nil, Ne.symm e, if_false, Nat.add_zero] at h1
      have hreg : (s.run t wsa).registry = s.registry := hf.registry
      have hcl : (s.run t wsa).clients c = s.clients c := by
        simp only [run, ht, exec, setThread]
        exact withClient_ne s _ e
      rw [hreg, h1] at hpos
      rw [hcl]
      exact hown (h.held c hpos)

/-- A close takes the handle from nobody else. -/
theorem owned_close {s : Server} (hs : Shut s) (h : Owned s) {t c₀ : Nat} {wsa : Bool} {st : List Stmt}
    (ht : s.threads[t]? = some (.close c₀ :: st)) : Owned (s.run t wsa) := by
  have hf := run_fields wsa ht
  have hsk : (s.run t wsa).sockets = Function.update s.sockets (s.clients c₀).socket none := by
    simp only [run, ht, exec]; rfl
  have hw := weight_le_tally (Stmt.handled c₀) ht
  simp only [Stmt.handled, weight_cons, if_true] at hw
  have hmine := h.held c₀ (by omega)
  have hown : ∀ {c socket}, c ≠ c₀ → s.Own c socket → (s.run t wsa).Own c socket := by
    intro c socket hne ho
    unfold Own
    rw [hsk]
    by_cases e : socket = (s.clients c₀).socket
    · right
      rcases ho with ho | ho
      · rcases hmine with hm | hm
        · rw [e, hm] at ho
          exact absurd (Option.some.inj ho).symm hne
        · rw [e]; exact hm
      · exact ho
    · rw [Function.update_of_ne e]; exact ho
  -- the session stands before this close only
  have hstage : tally (Stmt.early c₀) s.threads = 0 ∧ s.registry.count c₀ + tally (Stmt.handled c₀) s.threads = 1 := by
    have h1 := hs.once c₀
    have h2 : tally (Stmt.staged c₀) s.threads = tally (Stmt.early c₀) s.threads + tally (Stmt.handled c₀) s.threads :=
      tally_add _ _ _
    unfold closings at h1
    omega
  obtain ⟨hfront, hcount⟩ := owned_front_run h wsa ht
  have hnext : (s.run t wsa).nextClient = s.nextClient := hf.nextClient
  refine ⟨?_, hfront, by have := h.once; omega, fun socket hh => ?_, fun x c socket hh hm => ?_, fun c hpos => ?_⟩
  · rw [hsk]
    by_cases e : invalidSocket = (s.clients c₀).socket
    · rw [← e, Function.update_self]
    · rw [Function.update_of_ne e]; exact h.invalid
  · rcases has_run ht hh with hh | hh
    · rw [hnext]
      refine hown ?_ (h.arriving socket hh)
      intro heq
      subst heq
      have := hs.unborn_handled (Nat.le_refl s.nextClient)
      omega
    · have := exec_arrives s wsa _ _ hh
      cases this
  · rcases has_run ht hh with hh | hh
    · refine hown ?_ (h.making x c socket hh hm)
      intro heq
      subst heq
      have := le_tally_of_has (Stmt.early c) hh
      simp only [Stmt.early, hm, Option.map_some, if_true] at this
      have h1 := hstage.1
      unfold Stmt.early at h1
      omega
    · simp only [exec, List.mem_singleton] at hh
      subst hh
      cases hm
  · have h1 := tally_run (Stmt.handled c) wsa ht
    simp only [exec, Stmt.handled, weight_cons, weight_nil] at h1
    have hreg : (s.run t wsa).registry = s.registry := hf.registry
    have hcl : (s.run t wsa).clients = s.clients := by simp only [run, ht, exec]; rfl
    rw [hreg] at hpos
    have e : c ≠ c₀ := by
      intro heq
      subst heq
      simp only [if_true] at h1
      omega
    rw [hcl]
    exact hown e (h.held c (by omega))

/-- With the accepting thread idle, nothing arrives. -/
theorem none_arrives {s : Server} (h : Owned s) (h0 : s.threads[0]? = some []) : tally Stmt.arrives s.threads = 0 := by
  rw [tally_eq_zero]
  intro st hst x hx
  by_contra hne
  have h1 : x.arrives = 1 := by
    have := arrives_le_one x
    omega
  obtain ⟨t, ht⟩ := List.getElem?_of_mem hst
  have e := h.front t st x ht hx h1
  rw [e, h0] at ht
  cases ht
  cases hx

/-- A session arrives on the accepting thread, with a handle of its own. -/
theorem owned_arrival {s s' : Server} (h : Owned s) (h0 : s.threads[0]? = some []) {socket₀ : Nat}
    (hth : s'.threads = (s.setThread 0 [.newSession socket₀]).threads) (hn : s'.nextClient = s.nextClient)
    (hr : s'.registry = s.registry) (hcl : s'.clients = s.clients) (hinv : s'.sockets invalidSocket = none)
    (hown : ∀ {c socket}, s.Own c socket → s'.Own c socket) (hnew : s'.Own s.nextClient socket₀) : Owned s' := by
  have hnone := none_arrives h h0
  have hthreads : ∀ (t : Nat) (st : List Stmt) (x : Stmt), (s.setThread 0 [.newSession socket₀]).threads[t]? = some st →
      x ∈ st → x.arrives = 1 → t = 0 := by
    intro t st x hst hx ha
    rcases set_cases hst with ⟨rfl, -⟩ | ⟨-, hst⟩
    · rfl
    · exact h.front t st x hst hx ha
  have htally : ∀ f : Stmt → Nat,
      tally f (s.setThread 0 [.newSession socket₀]).threads = tally f s.threads + f (.newSession socket₀) := by
    intro f
    have := tally_set f h0 [.newSession socket₀]
    simp only [weight_nil, weight_cons, Nat.add_zero] at this
    exact this
  have hhas : ∀ x, (s.setThread 0 [.newSession socket₀]).Has x → s.Has x ∨ x = .newSession socket₀ := by
    intro x hx
    rcases has_setThread rfl hx with hx | hx
    · exact Or.inl hx
    · exact Or.inr (List.mem_singleton.mp hx)
  have hgone : ∀ socket, ¬ s.Has (.newSession socket) := by
    intro socket hh
    have := le_tally_of_has Stmt.arrives hh
    rw [hnone] at this
    cases this
  refine ⟨hinv, by rw [hth]; exact hthreads, ?_, ?_, ?_, ?_⟩
  · rw [hth, htally, hnone]; exact Nat.le_refl _
  · intro socket hh
    unfold Has at hh
    rw [hth] at hh
    rcases hhas _ hh with hh | hh
    · exact absurd hh (hgone socket)
    · cases hh
      rw [hn]; exact hnew
  · intro x c socket hh hm
    unfold Has at hh
    rw [hth] at hh
    rcases hhas _ hh with hh | rfl
    · exact hown (h.making x c socket hh hm)
    · cases hm
  · intro c hpos
    rw [hth, htally, hr] at hpos
    rw [hcl]
    exact hown (h.held c hpos)

/-- A new handle is nobody's. -/
theorem owned_accept {s : Server} (h : Owned s) (socket₀ : Nat) : Owned (s.accept socket₀) := by
  unfold accept
  split
  case isFalse => exact h
  rename_i h0
  have h0 := idle_iff.mp h0
  split
  · rename_i e
    exact owned_arrival h h0 rfl rfl rfl rfl h.invalid id (Or.inr e)
  · split
    case isFalse => exact h
    rename_i hinv hfree
    refine owned_arrival h h0 rfl rfl rfl rfl ?_ ?_ (Or.inl (Function.update_self ..))
    · show Function.update s.sockets socket₀ _ invalidSocket = none
      rw [Function.update_of_ne (Ne.symm hinv)]; exact h.invalid
    · intro c socket ho
      rcases ho with ho | ho
      · left
        show Function.update s.sockets socket₀ _ socket = some c
        rw [Function.update_of_ne, ho]
        intro heq
        subst heq
        rw [hfree] at ho
        cases ho
      · exact Or.inr ho

/-- What a worker takes on with a completion makes no session. -/
theorem branch_plain {op : IoOp} {r : Result} {st : List Stmt} (h : branch op r = some st) :
    ∀ x ∈ st, x.arrives = 0 ∧ x.madeWith = none ∧ ∀ c, x.handled c = 0 := by
  intro x hx
  rcases mem_branch h hx with rfl | rfl | ⟨n, rfl, -⟩ <;> exact ⟨rfl, rfl, fun _ => rfl⟩

/-- A step that makes no session and touches no handle. -/
theorem owned_kept {s s' : Server} (h : Owned s) (hsk : s'.sockets = s.sockets) (hn : s'.nextClient = s.nextClient)
    (hr : s'.registry = s.registry) (hcl : ∀ c, (s'.clients c).socket = (s.clients c).socket)
    (hth : s'.threads = s.threads ∨ ∃ t st, s.threads[t]? = some [] ∧ s'.threads = s.threads.set t st ∧
      ∀ x ∈ st, x.arrives = 0 ∧ x.madeWith = none ∧ ∀ c, x.handled c = 0) : Owned s' := by
  have hown : ∀ {c socket}, s.Own c socket → s'.Own c socket := by
    intro c socket ho
    unfold Own
    rw [hsk]; exact ho
  have htally : ∀ f : Stmt → Nat,
      (∀ x : Stmt, (x.arrives = 0 ∧ x.madeWith = none ∧ ∀ c, x.handled c = 0) → f x = 0) →
      tally f s'.threads = tally f s.threads := by
    intro f hf
    rcases hth with he | ⟨t, st, h0, he, hst⟩
    · rw [he]
    · have h1 := tally_set f h0 st
      have h2 : weight f st = 0 := (weight_eq_zero f).mpr fun x hx => hf x (hst x hx)
      rw [he]
      simp only [h2, weight_nil] at h1
      omega
  have hhas : ∀ x, s'.Has x → s.Has x ∨ (x.arrives = 0 ∧ x.madeWith = none) := by
    intro x hhas
    obtain ⟨st', hst', hx⟩ := hhas
    rcases hth with he | ⟨t, st, -, he, hst⟩
    · rw [he] at hst'; exact Or.inl ⟨st', hst', hx⟩
    · rw [he] at hst'
      rcases List.mem_or_eq_of_mem_set hst' with hm | rfl
      · exact Or.inl ⟨st', hm, hx⟩
      · exact Or.inr ⟨(hst x hx).1, (hst x hx).2.1⟩
  refine ⟨by rw [hsk]; exact h.invalid, ?_, ?_, fun socket hh => ?_, fun x c socket hh hm => ?_, fun c hpos => ?_⟩
  · intro t' st' x hst' hx ha
    rcases hth with he | ⟨t, st, -, he, hst⟩
    · rw [he] at hst'; exact h.front t' st' x hst' hx ha
    · rw [he] at hst'
      rcases set_cases hst' with ⟨rfl, rfl⟩ | ⟨-, hst'⟩
      · rw [(hst x hx).1] at ha
        cases ha
      · exact h.front t' st' x hst' hx ha
  · rw [htally _ fun x hx => hx.1]; exact h.once
  · rcases hhas _ hh with hh | ⟨hh, -⟩
    · rw [hn]; exact hown (h.arriving socket hh)
    · cases hh
  · rcases hhas _ hh with hh | ⟨-, hh⟩
    · exact hown (h.making x c socket hh hm)
    · rw [hh] at hm; cases hm
  · rw [hr, htally _ fun x hx => hx.2.2 c] at hpos
    rw [hcl]
    exact hown (h.held c hpos)

theorem owned_step {s : Server} {e : Ev} (hg : Stages s) (hok : SendOk s) (hs : Shut s) (h : Owned s) (ha : Clean s e) :
    Owned (s.step e) := by
  by_cases hc : s.crashed = none
  case neg => rw [step_crashed hc]; exact h
  rw [step_eq hc]
  cases e with
  | accept socket => exact owned_accept h socket
  | run t wsa =>
    simp only [handle]
    rcases ht : s.threads[t]? with _ | _ | ⟨i, st⟩
    · simp only [run, ht]; exact h
    · simp only [run, ht]; exact h
    have hr := ha.2.top ht
    cases i with
    | newSession => exact owned_newSession hs h ht
    | initializeSocket => exact owned_initializeSocket h ht
    | close => exact owned_close hs h ht
    | _ => exact owned_run hg hok h ht hr (by simp) (by simp) (by simp)
  | dispatch t i r =>
    simp only [handle]
    rcases dispatch_cases s t i r with he | ⟨op, st, -, h0, -, hb, he⟩ <;> rw [he]
    · exact h
    refine owned_kept h ?_ ?_ ?_ ?_ (Or.inr ⟨t, st, h0, ?_, branch_plain hb⟩)
    · cases r <;> rfl
    · cases r <;> rfl
    · cases r <;> rfl
    · intro c
      rw [show ((s.land op r).setThread t st).clients = (s.land op r).clients from rfl]
      rcases land_clients s op r c with he | ⟨data, rfl, rfl, he⟩ <;> rw [he]
    · simp only [setThread, land_threads]
  | write c packet =>
    simp only [handle, write]
    split
    case isFalse => exact h
    refine owned_kept h ?_ ?_ ?_ ?_ (Or.inl (writeSendBuffer_threads s none c packet))
    · rw [writeSendBuffer_rest]
    · rw [writeSendBuffer_rest]
    · rw [writeSendBuffer_rest]
    · intro d
      rcases writeSendBuffer_clients s none c packet d with he | ⟨rfl, n, hw⟩
      · rw [he]
      · obtain ⟨b, hb⟩ := TcpClient.writeSendBuffer_cases hw
        rw [hb]
  | flush c wsa =>
    simp only [handle, flush]
    split
    case isFalse => exact h
    refine owned_kept h ?_ ?_ ?_ ?_ (Or.inl (flushSendBuffer_threads s c wsa))
    · rw [flushSendBuffer_rest]
    · rw [flushSendBuffer_rest]
    · rw [flushSendBuffer_rest]
    · intro d
      rcases flushSendBuffer_clients s c wsa d with he | ⟨rfl, -, -, he⟩ <;> rw [he]

theorem owned_boot (n : Nat) : Owned (boot n) := by
  have h0 : ∀ f : Stmt → Nat, tally f (boot n).threads = 0 := fun f => tally_replicate f (n + 1)
  refine ⟨rfl, fun t st x hst hx _ => ?_, by rw [h0]; omega, fun socket hh => absurd hh (not_has_boot n _),
    fun x c socket hh _ => absurd hh (not_has_boot n x), fun c hpos => ?_⟩
  · exact absurd ⟨st, List.mem_of_getElem? hst, hx⟩ (not_has_boot n x)
  · rw [h0] at hpos; cases hpos

theorem owned {s : Server} (h : Reach Clean s) : Owned s :=
  h.invariant_of (fun _ hr => And.intro (Clean.stages hr) (And.intro (sendOk hr) (shut hr)))
    (fun _ ⟨n, hn⟩ => hn ▸ owned_boot n) fun _ _ ⟨hg, hok, hs⟩ ho ha => owned_step hg hok hs ho ha

/-! ## Closing once -/

def ClosedOwn (s : Server) : Prop := ∀ c conn, Obs.closesocket c conn ∈ s.log → conn = some c ∨ conn = none

theorem closedOwn_step {s : Server} {e : Ev} (ho : Owned s) (h : ClosedOwn s) : ClosedOwn (s.step e) := by
  intro c conn hm
  rcases mem_log_step hm with hm | ⟨-, hm⟩
  · exact h c conn hm
  obtain ⟨t, wsa, i, st, rfl, ht, hm⟩ := mem_observed hm (by simp) (by simp)
  cases i with
  | close c₀ =>
    simp only [noted, List.mem_singleton, Obs.closesocket.injEq] at hm
    obtain ⟨rfl, rfl⟩ := hm
    have hw := weight_le_tally (Stmt.handled c) ht
    simp only [Stmt.handled, weight_cons, if_true] at hw
    rcases ho.held c (by omega) with hown | hinv
    · exact Or.inl hown
    · rw [hinv]; exact Or.inr ho.invalid
  | takeSession | onSend =>
    simp only [noted] at hm
    split at hm <;> simp at hm
  | echo => cases mem_wroteBy hm
  | bcastWrite => cases mem_wroteBy (mem_noted_write hm)
  | _ => simp [noted] at hm

/-- Whatever is received and however completions are ordered, as long as no packet is rejected
    and `CloseSession` enters alone: a session closes its socket at most once, and never a
    handle that stands for another session's connection. -/
theorem a_socket_is_closed_once {s : Server} (h : Reach Clean s) :
    (∀ c, s.closes c ≤ 1) ∧ ∀ c conn, Obs.closesocket c conn ∈ s.log → conn = some c ∨ conn = none := by
  constructor
  · intro c
    have := (shut h).once c
    unfold closings at this
    omega
  · exact h.invariant_of (P := ClosedOwn) (fun _ hr => owned hr) (fun _ ⟨n, hn⟩ c conn hm => by rw [hn] at hm; cases hm)
      fun _ _ ho hs _ => closedOwn_step ho hs

theorem a_session_torn_down_closes_once :
    (teardownRun.foldl step (boot 2)).closes 0 = 1 ∧ (teardownRun.foldl step (boot 2)).closes 1 = 1 ∧
      ∀ c, (teardownRun.foldl step (boot 2)).closes c ≤ 1 := by
  refine ⟨by rw [boot_eq]; decide +kernel, by rw [boot_eq]; decide +kernel,
    (a_socket_is_closed_once (.run (.start ⟨2, rfl⟩) ?_)).1⟩
  rw [boot_eq]; decide +kernel

/-- A packet with an unknown flag closes handle 5; the system gives 5 to the next connection; the
    worker finds the old session invalid and tears it down. -/
def rejectedRun : List Ev :=
  [.accept 5] ++ List.replicate 9 (.run 0 true) ++ [.dispatch 1 0 (.received [1, 0, 3, 0x55, 7])] ++
    List.replicate 11 (.run 1 true) ++ [.accept 5] ++ List.replicate 12 (.run 1 true)

theorem a_rejected_session_closes_twice :
    ¬ ∀ s, Reach (fun _ _ => True) s →
      (∀ c, s.closes c ≤ 1) ∧ ∀ c conn, Obs.closesocket c conn ∈ s.log → conn = some c ∨ conn = none := by
  intro h
  have h1 := (h _ (.any ⟨1, rfl⟩ rejectedRun)).1 0
  have h2 : (rejectedRun.foldl step (boot 1)).closes 0 = 2 := by rw [boot_eq]; decide +kernel
  omega

end Server

end SigHolic.Network
