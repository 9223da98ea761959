/-
  SigHolic.Network.Steps — what one step of the server changes, whatever the state: the
  statements of its threads, the operations in flight, the log.
-/

import SigHolic.Network.Server

namespace SigHolic.Network

open SigHolic.Base.Tally SigHolic.Iocp SigHolic.Socket

namespace Stmt

def posts : Stmt → Bool
  | .firstRecv _ _ | .recvAsync _ _ | .flushSendBuffer _ => true
  | _ => false

def makes : Stmt → Bool
  | .newSession _ | .dequeueRecv _ _ | .bindRecv _ _ _ | .dequeueSend _ _ _ | .bindSend _ _ _ _ | .initializeSocket _ _ _
  | .addTcpClient _ _ _ | .bindSocket _ _ _ | .firstRecv _ _ => true
  | _ => false

end Stmt

/-- The operation failed or transferred nothing: the worker turns to `CloseSession`. -/
def Result.empty : Result → Bool
  | .failed => true
  | .received data => data.length == 0
  | .sent n => n == 0

namespace Server

def Ev.writes : Ev → Bool
  | .write _ _ => true
  | _ => false

/-! ## The statements and operations of a state -/

def Has (s : Server) (x : Stmt) : Prop := ∃ st ∈ s.threads, x ∈ st

theorem has_top {s : Server} {t : Nat} {i : Stmt} {st : List Stmt} (ht : s.threads[t]? = some (i :: st)) : s.Has i :=
  ⟨_, List.mem_of_getElem? ht, by simp⟩

theorem has_setThread {s s' : Server} {t : Nat} {new : List Stmt} (hs : s'.threads = s.threads) {x : Stmt}
    (h : (s'.setThread t new).Has x) : s.Has x ∨ x ∈ new := by
  obtain ⟨st, hst, hx⟩ := h
  simp only [setThread, hs] at hst
  rcases List.mem_or_eq_of_mem_set hst with h | rfl
  · exact Or.inl ⟨st, h, hx⟩
  · exact Or.inr hx

/-- Nobody has anything to run at the start. -/
theorem not_has_boot (n : Nat) (x : Stmt) : ¬ (boot n).Has x := by
  intro h
  obtain ⟨st, hst, hx⟩ := h
  rw [List.eq_of_mem_replicate hst] at hx
  cases hx

/-- After a statement: the old ones, and those it pushes. -/
theorem has_run {s : Server} {t : Nat} {wsa : Bool} {i : Stmt} {st : List Stmt} (ht : s.threads[t]? = some (i :: st))
    {x : Stmt} (h : (s.run t wsa).Has x) : s.Has x ∨ x ∈ (s.exec wsa i).2 := by
  simp only [run, ht] at h
  rcases has_setThread (exec_threads s wsa i) h with h | h
  · exact Or.inl h
  · rcases List.mem_append.mp h with h | h
    · exact Or.inr h
    · exact Or.inl ⟨_, List.mem_of_getElem? ht, List.mem_cons_of_mem _ h⟩

/-- A statement in a thread carries its weight. -/
theorem le_tally_of_has {s : Server} {x : Stmt} (f : Stmt → Nat) (h : s.Has x) : f x ≤ tally f s.threads := by
  obtain ⟨st, hst, hx⟩ := h
  exact le_tally f hst hx

/-! ## What the calls of a session leave alone -/

theorem writeSendBuffer_rest (s : Server) (sender : Option (Nat × Nat)) (client : Nat) (packet : Packet) :
    (s.writeSendBuffer sender client packet).2 =
      { s with
        clients := (s.writeSendBuffer sender client packet).2.clients
        crashed := (s.writeSendBuffer sender client packet).2.crashed
        log := (s.writeSendBuffer sender client packet).2.log } := by
  unfold writeSendBuffer
  repeat' split
  all_goals rfl

theorem flushSendBuffer_rest (s : Server) (c : Nat) (wsa : Bool) :
    s.flushSendBuffer c wsa =
      { s with
        clients := (s.flushSendBuffer c wsa).clients
        inflight := (s.flushSendBuffer c wsa).inflight
        crashed := (s.flushSendBuffer c wsa).crashed } := by
  unfold flushSendBuffer
  split <;> rfl

theorem recvAsync_rest (s : Server) (c : Nat) (wsa : Bool) :
    s.recvAsync c wsa =
      { s with
        clients := (s.recvAsync c wsa).clients
        inflight := (s.recvAsync c wsa).inflight
        crashed := (s.recvAsync c wsa).crashed } := by
  unfold recvAsync
  split <;> rfl

/-! ## What a step posts -/

def structureOf (s : Server) (c : Nat) : IoKind → Option Nat
  | .recv => (s.clients c).recvOverlapped
  | .send => (s.clients c).sendOverlapped

def posting (s : Server) (kind : IoKind) (c io : Nat) : IoOp :=
  let x := s.clients c
  match kind with
  | .recv => ⟨.recv, c, x.socket, ⟨io, x.recvBuffer.getEmptyPtr, x.recvBuffer.getEmptyLength, []⟩⟩
  | .send => ⟨.send, c, x.socket, ⟨io, 0, x.sendBuffer.length, x.sendBuffer.contents⟩⟩

@[simp] theorem posting_kind (s : Server) (kind : IoKind) (c io : Nat) : (s.posting kind c io).kind = kind := by
  cases kind <;> rfl

@[simp] theorem posting_client (s : Server) (kind : IoKind) (c io : Nat) : (s.posting kind c io).client = c := by
  cases kind <;> rfl

@[simp] theorem posting_io (s : Server) (kind : IoKind) (c io : Nat) : (s.posting kind c io).io = io := by
  cases kind <;> rfl

theorem recvAsync_inflight (s : Server) (c : Nat) (wsa : Bool) :
    (s.recvAsync c wsa).inflight = s.inflight ∨
      ∃ io, (s.recvAsync c wsa).inflight = s.inflight ++ [s.posting .recv c io] ∧ wsa = true ∧
        s.structureOf c .recv = some io := by
  unfold recvAsync
  split
  · exact Or.inl rfl
  · exact Or.inl rfl
  · rename_i x buf hw
    obtain ⟨rfl, io, hio, hbuf⟩ := TcpClient.recvAsync_cases hw
    cases wsa
    · cases hbuf
    · cases hbuf
      refine Or.inr ⟨io, ?_, rfl, hio⟩
      simp [post, withClient, posting]

theorem flushSendBuffer_inflight (s : Server) (c : Nat) (wsa : Bool) :
    (s.flushSendBuffer c wsa).inflight = s.inflight ∨
      ∃ io, (s.flushSendBuffer c wsa).inflight = s.inflight ++ [s.posting .send c io] ∧ wsa = true ∧
        s.structureOf c .send = some io ∧ 0 < (s.clients c).sendBuffer.length ∧ (s.clients c).sendIoState ≠ .pending := by
  unfold flushSendBuffer
  split
  · exact Or.inl rfl
  · exact Or.inl rfl
  · rename_i x buf hw
    rcases TcpClient.flushSendBuffer_cases hw with ⟨-, ⟨⟩⟩ | ⟨hl, hp, rfl, io, hio, hbuf⟩
    cases wsa
    · cases hbuf
    · cases hbuf
      refine Or.inr ⟨io, ?_, rfl, hio, hl, hp⟩
      simp [post, withClient, posting]

theorem writeSendBuffer_inflight (s : Server) (sender : Option (Nat × Nat)) (client : Nat) (packet : Packet) :
    (s.writeSendBuffer sender client packet).2.inflight = s.inflight := by
  rw [writeSendBuffer_rest]

theorem exec_inflight (s : Server) (wsa : Bool) {i : Stmt} (h : i.posts = false) :
    (s.exec wsa i).1.inflight = s.inflight := by
  cases i <;> simp only [Stmt.posts, Bool.true_eq_false] at h <;> simp only [exec] <;> (repeat' split) <;>
    first
    | rfl
    | exact writeSendBuffer_inflight s _ _ _

theorem dispatch_cases (s : Server) (t i : Nat) (r : Result) :
    s.dispatch t i r = s ∨ ∃ op st, 0 < t ∧ s.threads[t]? = some [] ∧ s.inflight[i]? = some op ∧
      branch op r = some st ∧
      s.dispatch t i r = { (s.land op r).setThread t st with inflight := s.inflight.eraseIdx i } := by
  unfold dispatch
  split
  · rename_i h0
    split
    · exact Or.inl rfl
    · rename_i op hop
      split
      · exact Or.inl rfl
      · rename_i st hb
        exact Or.inr ⟨op, st, h0.1, idle_iff.mp h0.2, hop, hb, rfl⟩
  · exact Or.inl rfl

/-- What a worker does with a completion: it looks the socket up and calls `CloseSession`, or goes
    on with what was transferred. -/
theorem branch_cases {op : IoOp} {r : Result} {st : List Stmt} (h : branch op r = some st) :
    (r.empty = true ∧ (st = failedBranch op ∨ st = .getSocket op :: failedBranch op)) ∨
      (r.empty = false ∧ ∃ n : Nat, st = [.checkExpired ⟨op, n⟩] ∧ (n : Int) ≤ op.buf.len ∧
        ((∃ data, r = .received data ∧ data.length = n ∧ op.kind = .recv) ∨ (r = .sent n ∧ op.kind = .send))) := by
  cases r with
  | failed =>
    simp only [branch, Option.some.injEq] at h
    exact Or.inl ⟨rfl, Or.inr h.symm⟩
  | received data =>
    simp only [branch, Option.ite_none_right_eq_some, Option.some.injEq] at h
    obtain ⟨⟨hk, hle⟩, rfl⟩ := h
    by_cases h0 : data.length = 0
    · exact Or.inl ⟨by simp [Result.empty, h0], Or.inl (if_pos h0)⟩
    · exact Or.inr ⟨by simp [Result.empty, h0], data.length, if_neg h0, hle, Or.inl ⟨data, rfl, rfl, hk⟩⟩
  | sent n =>
    simp only [branch, Option.ite_none_right_eq_some, Option.some.injEq] at h
    obtain ⟨⟨hk, hle⟩, rfl⟩ := h
    by_cases h0 : n = 0
    · exact Or.inl ⟨by simp [Result.empty, h0], Or.inl (if_pos h0)⟩
    · exact Or.inr ⟨by simp [Result.empty, h0], n, if_neg h0, hle, Or.inr ⟨rfl, hk⟩⟩

/-- The statements among them. -/
theorem mem_branch {op : IoOp} {r : Result} {st : List Stmt} (h : branch op r = some st) {x : Stmt} (hx : x ∈ st) :
    x = .getSocket op ∨ x = .closeSession op.io ∨ ∃ n : Nat, x = .checkExpired ⟨op, n⟩ ∧
      (n : Int) ≤ op.buf.len := by
  rcases branch_cases h with ⟨-, rfl | rfl⟩ | ⟨-, n, rfl, hle, -⟩ <;>
    simp only [failedBranch, List.mem_cons, List.not_mem_nil, or_false] at hx
  · rcases hx with rfl | rfl
    · exact Or.inl rfl
    · exact Or.inr (Or.inl rfl)
  · rcases hx with rfl | rfl | rfl
    · exact Or.inl rfl
    · exact Or.inl rfl
    · exact Or.inr (Or.inl rfl)
  · exact Or.inr (Or.inr ⟨n, hx, hle⟩)

theorem accept_cases (s : Server) (socket : Nat) :
    s.accept socket = s ∨ (s.threads[0]? = some [] ∧ (s.accept socket).threads = s.threads.set 0 [.newSession socket] ∧
      (s.accept socket).inflight = s.inflight ∧ (s.accept socket).clients = s.clients ∧
      (s.accept socket).log = s.log ∧ (s.accept socket).crashed = s.crashed) := by
  unfold accept
  split
  · rename_i h0
    have h0 := idle_iff.mp h0
    repeat' split
    · exact Or.inr ⟨h0, rfl, rfl, rfl, rfl, rfl⟩
    · exact Or.inr ⟨h0, rfl, rfl, rfl, rfl, rfl⟩
    · exact Or.inl rfl
  · exact Or.inl rfl

/-- The statements after a step. -/
theorem has_step {s : Server} {e : Ev} {x : Stmt} (h : (s.step e).Has x) :
    s.Has x ∨ (∃ socket, x = .newSession socket) ∨
      (∃ op ∈ s.inflight, ∃ t i r st, e = .dispatch t i r ∧ s.inflight[i]? = some op ∧ branch op r = some st ∧
        x ∈ st) ∨
      ∃ t wsa i st, e = .run t wsa ∧ s.threads[t]? = some (i :: st) ∧ s.crashed = none ∧ x ∈ (s.exec wsa i).2 := by
  by_cases hc : s.crashed = none
  case neg => rw [step_crashed hc] at h; exact Or.inl h
  rw [step_eq hc] at h
  cases e with
  | accept socket =>
    simp only [handle] at h
    rcases accept_cases s socket with he | ⟨-, he, -⟩
    · rw [he] at h; exact Or.inl h
    · obtain ⟨st, hst, hx⟩ := h
      rw [he] at hst
      rcases List.mem_or_eq_of_mem_set hst with h | rfl
      · exact Or.inl ⟨st, h, hx⟩
      · exact Or.inr (Or.inl ⟨socket, List.mem_singleton.mp hx⟩)
  | dispatch t i r =>
    simp only [handle] at h
    rcases dispatch_cases s t i r with he | ⟨op, st, -, -, hop, hb, he⟩
    · rw [he] at h; exact Or.inl h
    · rw [he] at h
      rcases has_setThread (land_threads s op r) (x := x) (t := t) h with h | h
      · exact Or.inl h
      · exact Or.inr (Or.inr (Or.inl ⟨op, List.mem_of_getElem? hop, t, i, r, st, rfl, hop, hb, h⟩))
  | run t wsa =>
    simp only [handle] at h
    rcases ht : s.threads[t]? with _ | _ | ⟨i, st⟩
    · simp only [run, ht] at h; exact Or.inl h
    · simp only [run, ht] at h; exact Or.inl h
    · rcases has_run ht h with h | h
      · exact Or.inl h
      · exact Or.inr (Or.inr (Or.inr ⟨t, wsa, i, st, rfl, ht, hc, h⟩))
  | write c packet =>
    simp only [handle, write] at h
    left
    split at h
    · unfold Has at h; rwa [writeSendBuffer_threads] at h
    · exact h
  | flush c wsa =>
    simp only [handle, flush] at h
    left
    split at h
    · unfold Has at h; rwa [flushSendBuffer_threads] at h
    · exact h

/-- A step leaves the stacks alone or replaces one of them. -/
theorem threads_step (s : Server) (e : Ev) :
    (s.step e).threads = s.threads ∨
      (∃ socket, e = .accept socket ∧ s.threads[0]? = some [] ∧
        (s.step e).threads = s.threads.set 0 [.newSession socket]) ∨
      (∃ t i r op st, e = .dispatch t i r ∧ s.crashed = none ∧ 0 < t ∧ s.threads[t]? = some [] ∧
        s.inflight[i]? = some op ∧
        branch op r = some st ∧ (s.step e).threads = s.threads.set t st) ∨
      ∃ t wsa i st, e = .run t wsa ∧ s.crashed = none ∧ s.threads[t]? = some (i :: st) ∧
        (s.step e).threads = s.threads.set t ((s.exec wsa i).2 ++ st) := by
  by_cases hc : s.crashed = none
  case neg => rw [step_crashed hc]; exact Or.inl rfl
  rw [step_eq hc]
  cases e with
  | accept socket =>
    rcases accept_cases s socket with he | ⟨h0, he, -⟩
    · exact Or.inl (congrArg threads he)
    · exact Or.inr (Or.inl ⟨socket, rfl, h0, he⟩)
  | dispatch t i r =>
    rcases dispatch_cases s t i r with he | ⟨op, st, h1, h0, hop, hb, he⟩
    · exact Or.inl (congrArg threads he)
    · refine Or.inr (Or.inr (Or.inl ⟨t, i, r, op, st, rfl, hc, h1, h0, hop, hb, ?_⟩))
      simp only [handle, he, setThread, land_threads]
  | run t wsa =>
    rcases ht : s.threads[t]? with _ | _ | ⟨i, st⟩
    · exact Or.inl (by simp only [handle, run, ht])
    · exact Or.inl (by simp only [handle, run, ht])
    · refine Or.inr (Or.inr (Or.inr ⟨t, wsa, i, st, rfl, hc, ht, ?_⟩))
      simp only [handle, run, ht, setThread, exec_threads]
  | write c packet =>
    refine Or.inl ?_
    simp only [handle, write]
    split
    · exact writeSendBuffer_threads s none c packet
    · rfl
  | flush c wsa =>
    refine Or.inl ?_
    simp only [handle, flush]
    split
    · exact flushSendBuffer_threads s c wsa
    · rfl

/-- A statement stays until it runs. -/
theorem has_kept {s : Server} {e : Ev} {x : Stmt} (h : s.Has x)
    (hne : ∀ t wsa st, e = .run t wsa → s.threads[t]? ≠ some (x :: st)) : (s.step e).Has x := by
  obtain ⟨st₀, hst, hx⟩ := h
  obtain ⟨t₀, h₀⟩ := List.mem_iff_getElem?.mp hst
  have hset : ∀ {t : Nat} {old new : List Stmt}, s.threads[t]? = some old → (s.step e).threads = s.threads.set t new →
      (x ∈ old → x ∈ new) → (s.step e).Has x := by
    intro t old new ht he hk
    by_cases heq : t = t₀
    · subst heq
      rw [ht] at h₀
      cases h₀
      refine ⟨new, ?_, hk hx⟩
      rw [he]
      exact List.mem_set (List.getElem?_eq_some_iff.mp ht).1 new
    · refine ⟨st₀, ?_, hx⟩
      rw [he]
      exact List.mem_of_getElem? ((List.getElem?_set_ne heq).trans h₀)
  rcases threads_step s e with
    he | ⟨socket, -, h0, he⟩ | ⟨t, i, r, op, st, -, -, -, h0, -, -, he⟩ | ⟨t, wsa, i, st, rfl, -, ht, he⟩
  · exact ⟨st₀, he ▸ hst, hx⟩
  · exact hset h0 he (by simp)
  · exact hset h0 he (by simp)
  · refine hset ht he fun hm => ?_
    rcases List.mem_cons.mp hm with rfl | hm
    · exact absurd ht (hne t wsa st rfl)
    · exact List.mem_append_right _ hm

/-- As `has_step`: what was there before is not the statement that ran. -/
theorem has_apart {s : Server} {e : Ev} {x : Stmt} (h : (s.step e).Has x) :
    (s.Has x ∧ ∀ t wsa i st, e = .run t wsa → s.threads[t]? = some (i :: st) → s.crashed = none →
        ∀ f : Stmt → Nat, f x + f i ≤ tally f s.threads) ∨
      (∃ socket, x = .newSession socket) ∨
      (∃ op ∈ s.inflight, ∃ t i r st, e = .dispatch t i r ∧ s.inflight[i]? = some op ∧ branch op r = some st ∧
        x ∈ st) ∨
      ∃ t wsa i st, e = .run t wsa ∧ s.threads[t]? = some (i :: st) ∧ s.crashed = none ∧ x ∈ (s.exec wsa i).2 := by
  by_cases hrun : ∃ t wsa i st, e = .run t wsa ∧ s.threads[t]? = some (i :: st) ∧ s.crashed = none
  · obtain ⟨t, wsa, i, st, rfl, ht, hc⟩ := hrun
    by_cases hx : x ∈ (s.exec wsa i).2
    · exact Or.inr (Or.inr (Or.inr ⟨t, wsa, i, st, rfl, ht, hc, hx⟩))
    -- `x` is in what is left of the stacks when the top statement is gone
    have hrest : ∃ st' ∈ s.threads.set t st, x ∈ st' := by
      obtain ⟨st', hst', hx'⟩ := h
      obtain ⟨t', ht'⟩ := List.mem_iff_getElem?.mp hst'
      rw [step_eq hc, handle, run, ht] at ht'
      simp only [setThread, exec_threads] at ht'
      rcases set_cases ht' with ⟨rfl, rfl⟩ | ⟨hne, ht'⟩
      · refine ⟨st, List.mem_set (List.getElem?_eq_some_iff.mp ht).1 st, ?_⟩
        exact (List.mem_append.mp hx').resolve_left hx
      · exact ⟨st', List.mem_of_getElem? ((List.getElem?_set_ne hne.symm).trans ht'), hx'⟩
    obtain ⟨st', hst', hx'⟩ := hrest
    refine Or.inl ⟨?_, ?_⟩
    · rcases List.mem_or_eq_of_mem_set hst' with h1 | rfl
      · exact ⟨st', h1, hx'⟩
      · exact ⟨i :: st', List.mem_of_getElem? ht, List.mem_cons_of_mem _ hx'⟩
    · intro t' wsa' i' st'' he ht' _ f
      cases he
      rw [ht] at ht'
      cases ht'
      have h1 := tally_set f ht st
      have h2 := le_tally f hst' hx'
      rw [weight_cons] at h1
      omega
  · rcases has_step h with h | h | h | ⟨t, wsa, i, st, he, ht, hc, -⟩
    · exact Or.inl ⟨h, fun t wsa i st he ht hc => absurd ⟨t, wsa, i, st, he, ht, hc⟩ hrun⟩
    · exact Or.inr (Or.inl h)
    · exact Or.inr (Or.inr (Or.inl h))
    · exact absurd ⟨t, wsa, i, st, he, ht, hc⟩ hrun

/-! ## The threads of the server -/

/-- What holds of every stack: of an empty one, of what an accept and a completion put on a thread,
    and after each statement if before it. -/
theorem every_stack {ok : Server → Ev → Prop} {P : Nat → List Stmt → Prop} (hnil : ∀ t, P t [])
    (haccept : ∀ socket, P 0 [.newSession socket]) (hbranch : ∀ t op r st, 0 < t → branch op r = some st → P t st)
    (hrun : ∀ (s : Server) wsa t i st, P t (i :: st) → P t ((s.exec wsa i).2 ++ st)) {s : Server} (h : Reach ok s) :
    ∀ t st, s.threads[t]? = some st → P t st := by
  induction h with
  | start hs =>
    obtain ⟨n, rfl⟩ := hs
    intro t st hst
    rw [List.eq_of_mem_replicate (List.mem_of_getElem? hst)]
    exact hnil t
  | step e _ _ ih =>
    rename_i s _ _
    intro t' st' hst
    have hset : ∀ {t : Nat} {new : List Stmt}, (s.step e).threads = s.threads.set t new → P t new → P t' st' := by
      intro t new he hn
      rw [he] at hst
      rcases set_cases hst with ⟨rfl, rfl⟩ | ⟨-, hst⟩
      · exact hn
      · exact ih t' st' hst
    rcases threads_step s e with
      he | ⟨socket, -, -, he⟩ | ⟨t, i, r, op, st, -, -, h1, -, -, hb, he⟩ | ⟨t, wsa, i, st, -, -, ht, he⟩
    · exact ih t' st' (he ▸ hst)
    · exact hset he (haccept socket)
    · exact hset he (hbranch t op r st h1 hb)
    · exact hset he (hrun s wsa t i st (ih t _ ht))

theorem exec_makes (s : Server) (wsa : Bool) {i : Stmt} (h : i.makes = true) : ∀ x ∈ (s.exec wsa i).2, x.makes = true := by
  cases i <;> simp only [Stmt.makes, Bool.false_eq_true] at h <;> simp only [exec] <;> (repeat' split) <;> simp [Stmt.makes]

theorem exec_makes_one (s : Server) (wsa : Bool) {i : Stmt} (h : i.makes = true) : (s.exec wsa i).2.length ≤ 1 := by
  cases i <;> simp only [Stmt.makes, Bool.false_eq_true] at h <;> simp only [exec] <;> (repeat' split) <;> simp

theorem exec_makes_none (s : Server) (wsa : Bool) {i : Stmt} (h : i.makes = false) :
    ∀ x ∈ (s.exec wsa i).2, x.makes = false := by
  cases i <;> simp only [Stmt.makes, Bool.true_eq_false] at h <;> simp only [exec] <;> (repeat' split) <;> simp [Stmt.makes]

/-- Thread 0 runs `Network::Run` and nothing else. -/
theorem thread_zero {ok : Server → Ev → Prop} {s : Server} (h : Reach ok s) :
    ∀ st, s.threads[0]? = some st → ∀ x ∈ st, x.makes = true := by
  intro st hst
  refine every_stack (P := fun t st => t = 0 → ∀ x ∈ st, x.makes = true) (fun t _ x hx => (nomatch hx)) (fun socket _ => ?_)
    (fun t op r st h1 _ h0 => absurd h0 (by omega)) (fun s wsa t i st ih h0 x hx => ?_) h 0 st hst rfl
  · simp [Stmt.makes]
  · rcases List.mem_append.mp hx with hx | hx
    · exact exec_makes s wsa (ih h0 i (by simp)) x hx
    · exact ih h0 x (List.mem_cons_of_mem _ hx)

/-- Nobody else makes a session, and `Network::Run` makes one at a time. -/
theorem makes_alone {ok : Server → Ev → Prop} {s : Server} (h : Reach ok s) :
    ∀ t st, s.threads[t]? = some st → ∀ x ∈ st, x.makes = true → t = 0 ∧ st = [x] := by
  refine every_stack (P := fun t st => ∀ x ∈ st, x.makes = true → t = 0 ∧ st = [x]) (fun t x hx => (nomatch hx))
    (fun socket x hx _ => ?_) (fun t op r st _ hb x hx hm => ?_) (fun s wsa t i st ih x hx hm => ?_) h
  · rw [List.mem_singleton.mp hx]
    exact ⟨rfl, rfl⟩
  · rcases mem_branch hb hx with rfl | rfl | ⟨n, rfl, -⟩ <;> cases hm
  · cases hi : i.makes with
    | true =>
      -- the statement that ran was alone on thread 0, and pushes one at most
      obtain ⟨rfl, hone⟩ := ih i (by simp) hi
      obtain ⟨-, rfl⟩ := List.cons.inj hone
      rw [List.append_nil] at hx ⊢
      have hlen := exec_makes_one s wsa hi
      have hpos := List.length_pos_of_mem hx
      obtain ⟨y, hy⟩ := List.length_eq_one_iff.mp (by omega : (s.exec wsa i).2.length = 1)
      rw [hy] at hx ⊢
      rw [List.mem_singleton.mp hx]
      exact ⟨rfl, rfl⟩
    | false =>
      rcases List.mem_append.mp hx with hx | hx
      · rw [exec_makes_none s wsa hi x hx] at hm
        cases hm
      · obtain ⟨-, hone⟩ := ih x (List.mem_cons_of_mem _ hx) hm
        rw [(List.cons.inj hone).2] at hx
        cases hx

def Resting (s : Server) : Prop := ∀ st ∈ s.threads.tail, st = []

instance (s : Server) : Decidable (Resting s) := inferInstanceAs (Decidable (∀ st ∈ s.threads.tail, st = []))

/-- Then only `Network::Run` is at work. -/
theorem Resting.makes {ok : Server → Ev → Prop} {s : Server} (h : Resting s) (hr : Reach ok s) {x : Stmt} (hh : s.Has x) :
    x.makes = true := by
  obtain ⟨st, hst, hx⟩ := hh
  obtain ⟨t, ht⟩ := List.mem_iff_getElem?.mp hst
  cases t with
  | zero => exact thread_zero hr st ht x hx
  | succ t =>
    rw [← List.getElem?_tail] at ht
    rw [h st (List.mem_of_getElem? ht)] at hx
    cases hx

/-! ## What a step observes -/

def wroteBy (s : Server) (sender : Option (Nat × Nat)) (client : Nat) (packet : Packet) : List Obs :=
  match (s.clients client).writeSendBuffer packet with
  | .error _ => []
  | .ok (n, _) => if n = -1 then [] else [.wrote sender client packet]

def noted (s : Server) : Stmt → List Obs
  | .takeSession j =>
    match s.getClientObject j.op.io with
    | none => []
    | some c => [.delivered j.op.client c]
  | .onSend c j =>
    match (s.clients c).onSend j.transferred with
    | .error _ => []
    | .ok _ => [.acked c ((s.clients c).sendBuffer.contents.take j.transferred)]
  | .processPacket c _ packet => [.handed c (s.handedTo c) packet]
  | .echo c _ k packet => s.wroteBy (some (c, k)) c packet
  | .bcastWrite c _ k packet client => if client ∈ s.registry then s.wroteBy (some (c, k)) client packet else []
  | .close c => [.closesocket c (s.sockets (s.clients c).socket)]
  | .enqueueRecv c o => [.enqueuedRecv c o]
  | .enqueueSend c o => [.enqueuedSend c o]
  | _ => []

def landed (op : IoOp) : Result → List Obs
  | .received data => [.received op.client data]
  | _ => []

def observed (s : Server) : Ev → List Obs
  | .run t _ =>
    match s.threads[t]? with
    | some (i :: _) => s.noted i
    | _ => []
  | .dispatch t i r =>
    if 0 < t ∧ s.idle t then
      match s.inflight[i]? with
      | none => []
      | some op => if (branch op r).isSome then landed op r else []
    else []
  | .write c packet => if c ∈ s.registry then s.wroteBy none c packet else []
  | _ => []

theorem writeSendBuffer_log (s : Server) (sender : Option (Nat × Nat)) (client : Nat) (packet : Packet) :
    (s.writeSendBuffer sender client packet).2.log = s.log ++ s.wroteBy sender client packet := by
  rcases hw : (s.clients client).writeSendBuffer packet with f | ⟨n, x⟩
  · simp [writeSendBuffer, wroteBy, hw, crash]
  · simp only [writeSendBuffer, wroteBy, hw]
    split <;> simp [withClient, observe]

theorem exec_log (s : Server) (wsa : Bool) (i : Stmt) : (s.exec wsa i).1.log = s.log ++ s.noted i := by
  cases i with
  | recvAsync c j => simp only [exec, noted, List.append_nil]; rw [recvAsync_rest]
  | flushSendBuffer c => simp only [exec, noted, List.append_nil]; rw [flushSendBuffer_rest]
  | echo c j k packet => exact writeSendBuffer_log s _ c packet
  | bcastWrite c j k packet client =>
    simp only [exec, noted]
    split
    · exact writeSendBuffer_log s _ client packet
    · exact (List.append_nil _).symm
  | firstRecv c o =>
    simp only [exec, noted, List.append_nil]
    split
    · rfl
    · simp only; rw [recvAsync_rest]
  | takeSession j =>
    cases hg : s.getClientObject j.op.io with
    | none => simp [exec, noted, hg, crash]
    | some c => simp [exec, noted, hg, observe]
  | onSend c j =>
    cases hw : (s.clients c).onSend j.transferred with
    | error f => simp [exec, noted, hw, crash]
    | ok x => simp [exec, noted, hw, observe, withClient]
  | _ => simp only [exec, noted, List.append_nil] <;> (repeat' split) <;> rfl

theorem handle_log (s : Server) (e : Ev) : (s.handle e).log = s.log ++ s.observed e := by
  cases e with
  | accept socket =>
    rcases accept_cases s socket with he | ⟨-, -, -, -, he, -⟩ <;> simp [handle, observed, he]
  | dispatch t i r =>
    by_cases h0 : 0 < t ∧ s.idle t = true
    case neg => simp only [handle, dispatch, observed, h0, if_false, List.append_nil]
    cases hop : s.inflight[i]? with
    | none => simp only [handle, dispatch, observed, h0, hop, and_self, if_true, List.append_nil]
    | some op =>
      cases hb : branch op r with
      | none => simp [handle, dispatch, observed, h0, hop, hb]
      | some st =>
        cases r <;> simp [handle, dispatch, observed, h0, hop, hb, land, landed, setThread, observe, withClient]
  | run t wsa =>
    rcases ht : s.threads[t]? with _ | _ | ⟨i, st⟩
    · simp [handle, run, observed, ht]
    · simp [handle, run, observed, ht]
    · simp only [handle, run, observed, ht]
      exact exec_log s wsa i
  | write c packet =>
    simp only [handle, write, observed]
    split
    · exact writeSendBuffer_log s none c packet
    · simp
  | flush c wsa =>
    simp only [handle, flush, observed, List.append_nil]
    split
    · rw [flushSendBuffer_rest]
    · rfl

/-- An observation of a step is a statement's, the system's, or the application's. -/
theorem mem_log_step {s : Server} {e : Ev} {x : Obs} (h : x ∈ (s.step e).log) :
    x ∈ s.log ∨ (s.crashed = none ∧ x ∈ s.observed e) := by
  by_cases hc : s.crashed = none
  · rw [step_eq hc, handle_log] at h
    rcases List.mem_append.mp h with h | h
    · exact Or.inl h
    · exact Or.inr ⟨hc, h⟩
  · rw [step_crashed hc] at h; exact Or.inl h

theorem mem_wroteBy {s : Server} {sender : Option (Nat × Nat)} {client : Nat} {packet : Packet} {x : Obs}
    (h : x ∈ s.wroteBy sender client packet) : x = .wrote sender client packet := by
  unfold wroteBy at h
  split at h
  · cases h
  · split at h
    · cases h
    · exact List.mem_singleton.mp h

theorem mem_noted_write {s : Server} {c k client : Nat} {j : Completion} {packet : Packet} {x : Obs}
    (h : x ∈ s.noted (.bcastWrite c j k packet client)) : x ∈ s.wroteBy (some (c, k)) client packet := by
  simp only [noted] at h
  split at h
  · exact h
  · cases h

/-- The statement that writes. -/
theorem wrote_noted {s : Server} {i : Stmt} {sender : Option (Nat × Nat)} {client : Nat} {packet : Packet}
    (h : Obs.wrote sender client packet ∈ s.noted i) :
    ∃ c j k, sender = some (c, k) ∧ ((i = .echo c j k packet ∧ client = c) ∨ i = .bcastWrite c j k packet client) := by
  cases i with
  | echo c j k packet' =>
    obtain ⟨hsender, hclient, rfl⟩ := Obs.wrote.inj (mem_wroteBy h)
    exact ⟨c, j, k, hsender, Or.inl ⟨rfl, hclient⟩⟩
  | bcastWrite c j k packet' client' =>
    obtain ⟨hsender, rfl, rfl⟩ := Obs.wrote.inj (mem_wroteBy (mem_noted_write h))
    exact ⟨c, j, k, hsender, Or.inr rfl⟩
  | takeSession | onSend =>
    simp only [noted] at h
    split at h <;> simp at h
  | _ => simp [noted] at h

/-- What is neither received nor written was observed by a statement. -/
theorem mem_observed {s : Server} {e : Ev} {x : Obs} (h : x ∈ s.observed e) (hr : ∀ c data, x ≠ .received c data)
    (hw : ∀ c packet, x ≠ .wrote none c packet) :
    ∃ t wsa i st, e = .run t wsa ∧ s.threads[t]? = some (i :: st) ∧ x ∈ s.noted i := by
  cases e with
  | accept socket => cases h
  | flush c wsa => cases h
  | run t wsa =>
    rcases ht : s.threads[t]? with _ | _ | ⟨i, st⟩ <;> simp only [observed, ht] at h
    · cases h
    · cases h
    · exact ⟨t, wsa, i, st, rfl, ht, h⟩
  | write c packet =>
    simp only [observed] at h
    split at h
    · exact absurd (mem_wroteBy h) (hw _ _)
    · cases h
  | dispatch t i r =>
    simp only [observed] at h
    repeat' split at h
    all_goals first
      | cases h
      | (cases r <;> simp only [landed, List.mem_singleton, List.not_mem_nil] at h
         exact absurd h (hr _ _))

/-- The statement that hands a packet over. -/
theorem handed_observed {s : Server} {e : Ev} {c i : Nat} {packet : Packet} (h : Obs.handed c i packet ∈ s.observed e) :
    i = s.handedTo c ∧ ∃ t wsa j st, e = .run t wsa ∧ s.threads[t]? = some (.processPacket c j packet :: st) := by
  obtain ⟨t, wsa, x, st, rfl, ht, hm⟩ := mem_observed h (by simp) (by simp)
  cases x with
  | processPacket c' j packet' =>
    simp only [noted, List.mem_singleton, Obs.handed.injEq] at hm
    obtain ⟨rfl, rfl, rfl⟩ := hm
    exact ⟨rfl, t, wsa, j, st, rfl, ht⟩
  | takeSession | onSend =>
    simp only [noted] at hm
    split at hm <;> simp at hm
  | echo => cases mem_wroteBy hm
  | bcastWrite => cases mem_wroteBy (mem_noted_write hm)
  | _ => simp [noted] at hm

/-! ## What a step makes of a session's object -/

/-- What a statement makes of session `d`'s object, when it changes it. -/
inductive Change (s : Server) (d : Nat) : Stmt → TcpClient → Prop
  | made {socket : Nat} : d = s.nextClient → Change s d (.newSession socket) .new
  | boundRecv {o socket : Nat} : Change s d (.bindRecv d o socket) { s.clients d with recvOverlapped := some o }
  | boundSend {o o' socket : Nat} : Change s d (.bindSend d o o' socket) { s.clients d with sendOverlapped := some o' }
  | initialized {o socket : Nat} : Change s d (.initializeSocket d o socket) ((s.clients d).initializeSocket socket)
  | firstPosted {c o : Nat} : s.getClientObject o = some d →
      Change s d (.firstRecv c o) { s.clients d with recvIoState := .pending }
  | recvPosted {j : Completion} : Change s d (.recvAsync d j) { s.clients d with recvIoState := .pending }
  | flushed : 0 < (s.clients d).sendBuffer.length → (s.clients d).sendIoState ≠ .pending →
      Change s d (.flushSendBuffer d) { s.clients d with sendIoState := .pending }
  | received {j : Completion} : Change s d (.onReceived d j) ((s.clients d).addReceived j.transferred)
  | read {j : Completion} {packet : Packet} {x : TcpClient} : (s.clients d).readPacket = .ok (some (packet, x)) →
      Change s d (.processLoop d j) x
  | echoed {j : Completion} {k : Nat} {packet : Packet} {n : Int} {x : TcpClient} :
      (s.clients d).writeSendBuffer packet = .ok (n, x) → Change s d (.echo d j k packet) x
  | broadcast {c : Nat} {j : Completion} {k : Nat} {packet : Packet} {n : Int} {x : TcpClient} :
      (s.clients d).writeSendBuffer packet = .ok (n, x) → Change s d (.bcastWrite c j k packet d) x
  | sent {j : Completion} {x : TcpClient} : (s.clients d).onSend j.transferred = .ok x → Change s d (.onSend d j) x
  | closed : Change s d (.setClosing d) { s.clients d with isClosing := true }

/-- Only the session written to can have changed. -/
theorem withClient_clients (s : Server) (c : Nat) (x : TcpClient) (d : Nat) :
    (s.withClient c x).clients d = s.clients d ∨ (d = c ∧ (s.withClient c x).clients d = x) := by
  by_cases e : d = c
  · subst e; exact Or.inr ⟨rfl, withClient_same s d x⟩
  · exact Or.inl (withClient_ne s x e)

theorem writeSendBuffer_clients (s : Server) (sender : Option (Nat × Nat)) (client : Nat) (packet : Packet) (d : Nat) :
    (s.writeSendBuffer sender client packet).2.clients d = s.clients d ∨
      (d = client ∧ ∃ n, (s.clients client).writeSendBuffer packet =
        .ok (n, (s.writeSendBuffer sender client packet).2.clients d)) := by
  rcases hw : (s.clients client).writeSendBuffer packet with f | ⟨n, x⟩ <;> simp only [writeSendBuffer, hw]
  · exact Or.inl rfl
  · have hx : (if n = -1 then s.withClient client x
        else (s.withClient client x).observe (.wrote sender client packet)).clients = (s.withClient client x).clients := by
      split <;> rfl
    rw [hx]
    rcases withClient_clients s client x d with he | ⟨rfl, he⟩
    · exact Or.inl he
    · exact Or.inr ⟨rfl, n, by rw [he]⟩

theorem flushSendBuffer_clients (s : Server) (c : Nat) (wsa : Bool) (d : Nat) :
    (s.flushSendBuffer c wsa).clients d = s.clients d ∨
      (d = c ∧ 0 < (s.clients c).sendBuffer.length ∧ (s.clients c).sendIoState ≠ .pending ∧
        (s.flushSendBuffer c wsa).clients d = { s.clients c with sendIoState := .pending }) := by
  unfold flushSendBuffer
  split
  · exact Or.inl rfl
  · rename_i x hw
    rcases withClient_clients s c x d with he | ⟨rfl, he⟩
    · exact Or.inl he
    · rcases TcpClient.flushSendBuffer_cases hw with ⟨rfl, -⟩ | ⟨hl, hp, rfl, -⟩
      · exact Or.inl he
      · exact Or.inr ⟨rfl, hl, hp, he⟩
  · rename_i x buf hw
    rcases withClient_clients s c x d with he | ⟨rfl, he⟩
    · exact Or.inl he
    · rcases TcpClient.flushSendBuffer_cases hw with ⟨rfl, -⟩ | ⟨hl, hp, rfl, -⟩
      · exact Or.inl he
      · exact Or.inr ⟨rfl, hl, hp, he⟩

theorem recvAsync_clients (s : Server) (c : Nat) (wsa : Bool) (d : Nat) :
    (s.recvAsync c wsa).clients d = s.clients d ∨
      (d = c ∧ (s.recvAsync c wsa).clients d = { s.clients c with recvIoState := .pending }) := by
  unfold recvAsync
  split
  · exact Or.inl rfl
  · rename_i x hw
    obtain ⟨rfl, -⟩ := TcpClient.recvAsync_cases hw
    exact withClient_clients s c _ d
  · rename_i x buf hw
    obtain ⟨rfl, -⟩ := TcpClient.recvAsync_cases hw
    exact withClient_clients s c _ d

/-- The system stores what was received in the poster's array. -/
theorem land_clients (s : Server) (op : IoOp) (r : Result) (d : Nat) :
    (s.land op r).clients d = s.clients d ∨ ∃ data, r = .received data ∧ d = op.client ∧
      (s.land op r).clients d =
        { s.clients d with recvBuffer := (s.clients d).recvBuffer.store op.buf.off data } := by
  cases r with
  | failed => exact Or.inl rfl
  | sent n => exact Or.inl rfl
  | received data =>
    obtain he | ⟨rfl, he⟩ := withClient_clients s op.client
      { s.clients op.client with recvBuffer := (s.clients op.client).recvBuffer.store op.buf.off data } d
    · exact Or.inl he
    · exact Or.inr ⟨data, rfl, rfl, he⟩

theorem exec_clients (s : Server) (wsa : Bool) (i : Stmt) (d : Nat) :
    (s.exec wsa i).1.clients d = s.clients d ∨ s.Change d i ((s.exec wsa i).1.clients d) := by
  cases i with
  | newSession socket =>
    by_cases e : d = s.nextClient
    · right
      rw [show (s.exec wsa (.newSession socket)).1.clients d = .new by simp [exec, newClient, e]]
      exact .made e
    · left; simp [exec, newClient, e]
  | bindRecv c o socket =>
    rcases withClient_clients s c { s.clients c with recvOverlapped := some o } d with he | ⟨rfl, he⟩
    · exact Or.inl he
    · exact Or.inr (he ▸ .boundRecv)
  | bindSend c o o' socket =>
    rcases withClient_clients s c { s.clients c with sendOverlapped := some o' } d with he | ⟨rfl, he⟩
    · exact Or.inl he
    · exact Or.inr (he ▸ .boundSend)
  | initializeSocket c o socket =>
    rcases withClient_clients s c ((s.clients c).initializeSocket socket) d with he | ⟨rfl, he⟩
    · exact Or.inl he
    · exact Or.inr (he ▸ .initialized)
  | firstRecv c o =>
    simp only [exec]
    split
    · exact Or.inl rfl
    · rename_i c' hg
      rcases recvAsync_clients s c' wsa d with he | ⟨rfl, he⟩
      · exact Or.inl he
      · exact Or.inr (he ▸ .firstPosted hg)
  | recvAsync c j =>
    rcases recvAsync_clients s c wsa d with he | ⟨rfl, he⟩
    · exact Or.inl he
    · exact Or.inr (he ▸ .recvPosted)
  | flushSendBuffer c =>
    rcases flushSendBuffer_clients s c wsa d with he | ⟨rfl, hl, hp, he⟩
    · exact Or.inl he
    · exact Or.inr (he ▸ .flushed hl hp)
  | onReceived c j =>
    rcases withClient_clients s c ((s.clients c).addReceived j.transferred) d with he | ⟨rfl, he⟩
    · exact Or.inl he
    · exact Or.inr (he ▸ .received)
  | processLoop c j =>
    simp only [exec]
    split
    · exact Or.inl rfl
    · exact Or.inl rfl
    · rename_i packet x hw
      rcases withClient_clients s c x d with he | ⟨rfl, he⟩
      · exact Or.inl he
      · refine Or.inr ?_
        rw [he]
        exact .read hw
  | echo c j k packet =>
    rcases writeSendBuffer_clients s (some (c, k)) c packet d with he | ⟨rfl, n, he⟩
    · exact Or.inl he
    · exact Or.inr (.echoed he)
  | bcastWrite c j k packet client =>
    simp only [exec]
    split
    · rcases writeSendBuffer_clients s (some (c, k)) client packet d with he | ⟨rfl, n, he⟩
      · exact Or.inl he
      · exact Or.inr (.broadcast he)
    · exact Or.inl rfl
  | onSend c j =>
    simp only [exec]
    split
    · exact Or.inl rfl
    · rename_i x hw
      rcases withClient_clients s c x d with he | ⟨rfl, he⟩
      · exact Or.inl he
      · refine Or.inr ?_
        rw [show ((s.withClient d x).observe _).clients d = x from he]
        exact .sent hw
  | setClosing c =>
    rcases withClient_clients s c { s.clients c with isClosing := true } d with he | ⟨rfl, he⟩
    · exact Or.inl he
    · exact Or.inr (he ▸ .closed)
  | _ => left; simp only [exec] <;> (repeat' split) <;> rfl

/-- A field that a statement's change leaves as it is. -/
theorem exec_field {α : Type} (f : TcpClient → α) (s : Server) (wsa : Bool) {i : Stmt}
    (h : ∀ d x, s.Change d i x → f x = f (s.clients d)) (d : Nat) :
    f ((s.exec wsa i).1.clients d) = f (s.clients d) := by
  rcases exec_clients s wsa i d with he | he
  · rw [he]
  · exact h d _ he

inductive Became (s : Server) (d : Nat) : Ev → TcpClient → Prop
  | ran {t : Nat} {wsa : Bool} {i : Stmt} {st : List Stmt} {x : TcpClient} : s.threads[t]? = some (i :: st) → s.Change d i x →
      Became s d (.run t wsa) x
  | stored {t i : Nat} {op : IoOp} {data : List UInt8} : s.inflight[i]? = some op → d = op.client →
      Became s d (.dispatch t i (.received data))
        { s.clients d with recvBuffer := (s.clients d).recvBuffer.store op.buf.off data }
  | written {packet : Packet} {n : Int} {x : TcpClient} : (s.clients d).writeSendBuffer packet = .ok (n, x) →
      Became s d (.write d packet) x
  | flushed {wsa : Bool} : 0 < (s.clients d).sendBuffer.length → (s.clients d).sendIoState ≠ .pending →
      Became s d (.flush d wsa) { s.clients d with sendIoState := .pending }

theorem step_clients (s : Server) (e : Ev) (d : Nat) :
    (s.step e).clients d = s.clients d ∨ s.Became d e ((s.step e).clients d) := by
  by_cases hc : s.crashed = none
  case neg => rw [step_crashed hc]; exact Or.inl rfl
  rw [step_eq hc]
  cases e with
  | accept socket =>
    left
    rcases accept_cases s socket with he | ⟨-, -, -, he, -⟩ <;> simp only [handle, he]
  | dispatch t i r =>
    rcases dispatch_cases s t i r with he | ⟨op, st, -, -, hop, -, he⟩ <;> simp only [handle, he]
    · exact Or.inl trivial
    · rcases land_clients s op r d with h1 | ⟨data, rfl, hd, h1⟩ <;> simp only [setThread, h1]
      · exact Or.inl trivial
      · exact Or.inr (.stored hop hd)
  | run t wsa =>
    rcases ht : s.threads[t]? with _ | _ | ⟨i, st⟩
    · simp only [handle, run, ht]; exact Or.inl trivial
    · simp only [handle, run, ht]; exact Or.inl trivial
    rw [show (s.handle (.run t wsa)).clients = (s.exec wsa i).1.clients by simp only [handle, run, ht]; rfl]
    exact (exec_clients s wsa i d).imp_right (.ran ht)
  | write c packet =>
    simp only [handle, write]
    split
    · rcases writeSendBuffer_clients s none c packet d with h1 | ⟨rfl, n, hw⟩
      · exact Or.inl h1
      · exact Or.inr (.written hw)
    · exact Or.inl rfl
  | flush c wsa =>
    simp only [handle, flush]
    split
    · rcases flushSendBuffer_clients s c wsa d with h1 | ⟨rfl, hl, hp, h1⟩
      · exact Or.inl h1
      · rw [h1]; exact Or.inr (.flushed hl hp)
    · exact Or.inl rfl

theorem exec_nextClient (s : Server) (wsa : Bool) {i : Stmt} (h : ∀ socket, i ≠ .newSession socket) :
    (s.exec wsa i).1.nextClient = s.nextClient := by
  cases i with
  | newSession socket => exact absurd rfl (h socket)
  | recvAsync c j => simp only [exec]; rw [recvAsync_rest]
  | flushSendBuffer c => simp only [exec]; rw [flushSendBuffer_rest]
  | echo c j k packet => simp only [exec]; rw [writeSendBuffer_rest]
  | bcastWrite c j k packet client =>
    simp only [exec]
    split
    · simp only; rw [writeSendBuffer_rest]
    · rfl
  | firstRecv c o =>
    simp only [exec]
    split
    · rfl
    · simp only; rw [recvAsync_rest]
  | _ => simp only [exec] <;> (repeat' split) <;> rfl

theorem exec_sockets (s : Server) (wsa : Bool) {i : Stmt} (h : ∀ c, i ≠ .close c) :
    (s.exec wsa i).1.sockets = s.sockets := by
  cases i with
  | close c => exact absurd rfl (h c)
  | recvAsync c j => simp only [exec]; rw [recvAsync_rest]
  | flushSendBuffer c => simp only [exec]; rw [flushSendBuffer_rest]
  | echo c j k packet => simp only [exec]; rw [writeSendBuffer_rest]
  | bcastWrite c j k packet client =>
    simp only [exec]
    split
    · simp only; rw [writeSendBuffer_rest]
    · rfl
  | firstRecv c o =>
    simp only [exec]
    split
    · rfl
    · simp only; rw [recvAsync_rest]
  | _ => simp only [exec] <;> (repeat' split) <;> rfl

end Server

end SigHolic.Network
