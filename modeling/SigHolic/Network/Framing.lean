/-
  SigHolic.Network.Framing — `OnReceived`, chunk by chunk (`OnReceived`, `TryProcessPacket` and
  `ProcessPacket`, socket/TcpClient.cpp).

  One thread runs `OnReceived` on chunks of a stream, one call after the other, whatever its
  packets ask for: echoes, broadcasts to everybody registered, closing. The outcome of each
  `WSASend` on the way is open. `Leads` says that a call returns whichever way they fall.

  Proved, from every state the server can be in: every call returns without a fault, and what
  `ProcessPacket` was called with and what is left in the buffer are what the reference
  parser makes of the stream, however it was cut.
-/

import SigHolic.Network.Buffers
import SigHolic.Network.RecvStream

namespace SigHolic.Network

open SigHolic.Base.Area SigHolic.Base.Runs SigHolic.Utility.Buffer SigHolic.Iocp SigHolic.Socket

def Obs.handedPacket (c : Nat) : Obs → List Packet
  | .handed c' _ packet => if c' = c then [packet] else []
  | _ => []

def Stmt.equips : Stmt → Option Nat
  | .initializeSocket c _ _ | .addTcpClient c _ _ => some c
  | _ => none

def Stmt.prepares : Stmt → Option Nat
  | .dequeueRecv c _ | .bindRecv c _ _ | .dequeueSend c _ _ | .bindSend c _ _ _ | .initializeSocket c _ _
  | .addTcpClient c _ _ => some c
  | _ => none

namespace Server

/-! ## Registered sessions can send -/

structure Equipped (s : Server) : Prop where
  nodup : s.registry.Nodup
  born : ∀ x, s.Has x → ∀ c, x.prepares = some c → c < s.nextClient
  making : ∀ x, s.Has x → ∀ c, x.equips = some c → (s.clients c).sendOverlapped ≠ none
  registered : ∀ c ∈ s.registry, c < s.nextClient ∧ (s.clients c).sendOverlapped ≠ none

/-- A session made keeps its send structure. -/
theorem sendOverlapped_kept {s : Server} (e : Ev) {c : Nat} (hc : c < s.nextClient)
    (h : (s.clients c).sendOverlapped ≠ none) : ((s.step e).clients c).sendOverlapped ≠ none := by
  rcases step_clients s e c with h1 | h1
  · rw [h1]; exact h
  generalize (s.step e).clients c = x at h1 ⊢
  cases h1 with
  | stored | flushed => exact h
  | written hw => obtain ⟨b, rfl⟩ := TcpClient.writeSendBuffer_cases hw; exact h
  | ran ht h1 =>
    cases h1 with
    | made hn => omega
    | boundSend => simp
    | read hw => obtain ⟨b, n, rfl⟩ := TcpClient.readPacket_cases hw; exact h
    | echoed hw | broadcast hw => obtain ⟨b, rfl⟩ := TcpClient.writeSendBuffer_cases hw; exact h
    | sent hw => obtain ⟨b, rfl⟩ := TcpClient.onSend_cases hw; exact h
    | _ => exact h

theorem nodup_step {s : Server} (h : s.registry.Nodup) (e : Ev) : (s.step e).registry.Nodup := by
  rcases registry_step s e with he | ⟨t, wsa, c, st, -, -, he⟩ | ⟨t, wsa, c, o, socket, st, -, -, he⟩ <;> rw [he]
  · exact h
  · exact h.filter _
  · rw [TcpSessionManager.addTcpClient, List.nodup_append]
    exact ⟨h.filter _, List.nodup_singleton c, by simp⟩

/-- What a statement pushes is about the session being made, or about one made just now. -/
theorem pushed_prepares {s : Server} {wsa : Bool} {i x : Stmt} (hm : x ∈ (s.exec wsa i).2) {c : Nat}
    (h : x.prepares = some c) :
    i.prepares = some c ∨ (c = s.nextClient ∧ ∃ socket, i = .newSession socket) := by
  cases i <;> simp only [exec] at hm <;> (repeat' split at hm) <;>
    simp only [List.mem_cons, List.not_mem_nil, or_false] at hm <;>
    (first | subst hm | rcases hm with rfl | rfl) <;>
    first
    | cases h; done
    | exact Or.inl h
    | (cases h; exact Or.inr ⟨rfl, _, rfl⟩)

theorem pushed_equips {s : Server} {wsa : Bool} {i x : Stmt} (hm : x ∈ (s.exec wsa i).2) {c : Nat}
    (h : x.equips = some c) : i.equips = some c ∨ ∃ o o' socket, i = .bindSend c o o' socket := by
  cases i <;> simp only [exec] at hm <;> (repeat' split at hm) <;>
    simp only [List.mem_cons, List.not_mem_nil, or_false] at hm <;>
    (first | subst hm | rcases hm with rfl | rfl) <;>
    first
    | cases h; done
    | exact Or.inl h
    | (cases h; exact Or.inr ⟨_, _, _, rfl⟩)

theorem branch_light_only {op : IoOp} {r : Result} {st : List Stmt} (h : branch op r = some st) {x : Stmt} (hx : x ∈ st) :
    x.prepares = none ∧ x.equips = none := by
  have := branch_light h x hx
  cases x <;> first | exact ⟨rfl, rfl⟩ | cases this

theorem prepares_of_equips {x : Stmt} {c : Nat} (h : x.equips = some c) : x.prepares = some c := by
  cases x <;> first | exact h | cases h

theorem equipped_step {s : Server} (h : Equipped s) (e : Ev) : Equipped (s.step e) := by
  have hn := nextClient_le s e
  refine ⟨nodup_step h.nodup e, ?_, ?_, ?_⟩
  · intro x hx c hc
    rcases has_step hx with hx | ⟨socket, rfl⟩ | ⟨op, _, _, _, r, st, _, _, hbr, hm⟩ |
        ⟨t, wsa, i, st, rfl, ht, hcr, hm⟩
    · exact Nat.lt_of_lt_of_le (h.born x hx c hc) hn
    · cases hc
    · rw [(branch_light_only hbr hm).1] at hc; cases hc
    · rcases pushed_prepares hm hc with hi | ⟨rfl, socket, rfl⟩
      · exact Nat.lt_of_lt_of_le (h.born i (has_top ht) c hi) hn
      · rw [step_eq hcr]
        simp [handle, run, ht, exec, newClient, setThread]
  · intro x hx c hc
    rcases has_step hx with hx | ⟨socket, rfl⟩ | ⟨op, _, _, _, r, st, _, _, hbr, hm⟩ |
        ⟨t, wsa, i, st, rfl, ht, hcr, hm⟩
    · exact sendOverlapped_kept e (h.born x hx c (prepares_of_equips hc)) (h.making x hx c hc)
    · cases hc
    · rw [(branch_light_only hbr hm).2] at hc; cases hc
    · rcases pushed_equips hm hc with hi | ⟨o, o', socket, rfl⟩
      · exact sendOverlapped_kept _ (h.born i (has_top ht) c (prepares_of_equips hi)) (h.making i (has_top ht) c hi)
      · rw [step_eq hcr]
        simp [handle, run, ht, exec, bindSend, setClientObject, withClient, setThread]
  · intro c hc
    have hold : ∀ d ∈ s.registry, d < (s.step e).nextClient ∧ ((s.step e).clients d).sendOverlapped ≠ none := fun d hd =>
      ⟨Nat.lt_of_lt_of_le (h.registered d hd).1 hn, sendOverlapped_kept e (h.registered d hd).1 (h.registered d hd).2⟩
    rcases registry_step s e with
      he | ⟨t, wsa, c', st, -, -, he⟩ | ⟨t, wsa, c', o, socket, st, rfl, ht, he⟩ <;> rw [he] at hc
    · exact hold c hc
    · exact hold c (TcpSessionManager.mem_removeTcpClient.mp hc).1
    · rcases TcpSessionManager.mem_addTcpClient.mp hc with hc | rfl
      · exact hold c hc
      · have hb := h.born _ (has_top ht) c rfl
        exact ⟨Nat.lt_of_lt_of_le hb hn, sendOverlapped_kept _ hb (h.making _ (has_top ht) c rfl)⟩

theorem equipped {ok : Server → Ev → Prop} {s : Server} (h : Reach ok s) : Equipped s := by
  refine h.invariant (P := Equipped) (fun s hs => ?_) fun s e hs _ => equipped_step hs e
  obtain ⟨n, rfl⟩ := hs
  exact ⟨List.nodup_nil, fun x hx => absurd hx (not_has_boot n x), fun x hx => absurd hx (not_has_boot n x),
    fun _ hc => (nomatch hc)⟩

/-! ## A thread inside `OnReceived` -/

def handedPackets (s : Server) (c : Nat) : List Packet := s.log.flatMap (Obs.handedPacket c)

/-- Thread `t` runs its next statement; the outcome of a `WSASend` in it is open. -/
def advance (t : Nat) (s : Server) (wsa : Bool) : Server := s.step (.run t wsa)

/-- Nothing that `ProcessPacket` does with the registered sessions can fault. -/
structure Ready (s : Server) : Prop where
  crashed : s.crashed = none
  sendOk : SendOk s
  nodup : s.registry.Nodup
  equipped : ∀ d ∈ s.registry, (s.clients d).sendOverlapped ≠ none

/-- Every state the server can be in is. -/
theorem Ready.of_reach {ok : Server → Ev → Prop} {s : Server} (h : Reach ok s) (hc : s.crashed = none) : Ready s :=
  ⟨hc, Server.sendOk h, (Server.equipped h).nodup, fun d hd => ((Server.equipped h).registered d hd).2⟩

theorem Ready.of_same {s s' : Server} (h : Ready s) (hc : s'.crashed = s.crashed) (hr : s'.registry = s.registry)
    (hf : ∀ d, (s'.clients d).sendBuffer = (s.clients d).sendBuffer ∧
      (s'.clients d).sendOverlapped = (s.clients d).sendOverlapped) : Ready s' :=
  ⟨hc.trans h.crashed, fun d => (hf d).1 ▸ h.sendOk d, hr ▸ h.nodup, fun d hd => (hf d).2 ▸ h.equipped d (hr ▸ hd)⟩

/-- A change of a session's object that is not about sending. -/
theorem withClient_sending (s : Server) {c : Nat} {x : TcpClient} (hb : x.sendBuffer = (s.clients c).sendBuffer)
    (ho : x.sendOverlapped = (s.clients c).sendOverlapped) (d : Nat) :
    ((s.withClient c x).clients d).sendBuffer = (s.clients d).sendBuffer ∧
      ((s.withClient c x).clients d).sendOverlapped = (s.clients d).sendOverlapped := by
  rcases withClient_clients s c x d with he | ⟨rfl, he⟩ <;> rw [he]
  · exact ⟨rfl, rfl⟩
  · exact ⟨hb, ho⟩

structure Kept (s s' : Server) (c : Nat) : Prop where
  recvBuffer : (s'.clients c).recvBuffer = (s.clients c).recvBuffer
  handed : s'.handedPackets c = s.handedPackets c
  registry : s'.registry = s.registry
  structures : ∀ d, (s'.clients d).sendOverlapped = (s.clients d).sendOverlapped

theorem Kept.refl (s : Server) (c : Nat) : Kept s s c := ⟨rfl, rfl, rfl, fun _ => rfl⟩

theorem Kept.trans {s s' s'' : Server} {c : Nat} (h : Kept s s' c) (h' : Kept s' s'' c) : Kept s s'' c :=
  ⟨h'.recvBuffer.trans h.recvBuffer, h'.handed.trans h.handed, h'.registry.trans h.registry,
    fun d => (h'.structures d).trans (h.structures d)⟩

/-- What `TryProcessPacket` runs besides reading packets and handing them on: a flush is of a
    session with its structures, a broadcast is at a registered one. -/
def Serves (s : Server) : Stmt → Prop
  | .flushSendBuffer d => (s.clients d).sendOverlapped ≠ none
  | .bcastCheck _ _ _ _ d | .bcastWrite _ _ _ _ d | .bcastFlush _ _ _ _ d | .bcastNext _ _ _ _ d => d ∈ s.registry
  | .close _ | .setClosing _ | .verifyFlag _ _ _ _ | .echo _ _ _ _ | .bcastBegin _ _ _ _ | .loopTail _ _
  | .tryProcessPacket _ _ => True
  | _ => False

theorem ready_writeSendBuffer {s : Server} (h : Ready s) (sender : Option (Nat × Nat)) (client : Nat) (packet : Packet)
    (c : Nat) :
    Ready (s.writeSendBuffer sender client packet).2 ∧ Kept s (s.writeSendBuffer sender client packet).2 c := by
  have hf : ∀ d, ((s.writeSendBuffer sender client packet).2.clients d).sendOverlapped = (s.clients d).sendOverlapped ∧
      ((s.writeSendBuffer sender client packet).2.clients d).recvBuffer = (s.clients d).recvBuffer := by
    intro d
    rcases writeSendBuffer_clients s sender client packet d with he | ⟨rfl, n, hw⟩
    · rw [he]; exact ⟨rfl, rfl⟩
    · obtain ⟨b, hb⟩ := TcpClient.writeSendBuffer_cases hw
      rw [hb]; exact ⟨rfl, rfl⟩
  have hreg : (s.writeSendBuffer sender client packet).2.registry = s.registry := by rw [writeSendBuffer_rest]
  refine ⟨⟨?_, sendOk_write h.sendOk sender client packet, by rw [hreg]; exact h.nodup, fun d hd => ?_⟩, (hf c).2, ?_, hreg,
    fun d => (hf d).1⟩
  · by_cases hfit : (s.clients client).Fits packet
    · obtain ⟨b, hw, -⟩ := write_taken (h.sendOk client) hfit sender
      rw [hw]; exact h.crashed
    · rw [write_refused (h.sendOk client) hfit sender]; exact h.crashed
  · rw [(hf d).1]
    exact h.equipped d (hreg ▸ hd)
  · have hn : (s.wroteBy sender client packet).flatMap (Obs.handedPacket c) = [] := by
      rw [List.flatMap_eq_nil_iff]
      intro x hx
      rw [mem_wroteBy hx]
      rfl
    simp only [handedPackets, writeSendBuffer_log, List.flatMap_append, hn, List.append_nil]

theorem ready_flushSendBuffer {s : Server} (h : Ready s) {d : Nat} (hd : (s.clients d).sendOverlapped ≠ none) (wsa : Bool)
    (c : Nat) : Ready (s.flushSendBuffer d wsa) ∧ Kept s (s.flushSendBuffer d wsa) c := by
  have hf : ∀ d', ((s.flushSendBuffer d wsa).clients d').sendOverlapped = (s.clients d').sendOverlapped ∧
      ((s.flushSendBuffer d wsa).clients d').recvBuffer = (s.clients d').recvBuffer := by
    intro d'
    rcases flushSendBuffer_clients s d wsa d' with he | ⟨rfl, -, -, he⟩ <;> rw [he] <;> exact ⟨rfl, rfl⟩
  have hreg : (s.flushSendBuffer d wsa).registry = s.registry := by rw [flushSendBuffer_rest]
  have hlog : (s.flushSendBuffer d wsa).log = s.log := by rw [flushSendBuffer_rest]
  refine ⟨⟨?_, fun d' => ?_, by rw [hreg]; exact h.nodup, fun d' hd' => ?_⟩, (hf c).2,
    by simp only [handedPackets, hlog], hreg, fun d' => (hf d').1⟩
  · obtain ⟨io, hio⟩ := Option.ne_none_iff_exists'.mp hd
    by_cases hl : (s.clients d).sendBuffer.length > 0
    · by_cases hp : (s.clients d).sendIoState = .pending
      · simp [flushSendBuffer, TcpClient.flush_pending hp, withClient, h.crashed]
      · cases wsa <;> simp [flushSendBuffer, TcpClient.flush_posts hl hp hio, withClient, post, h.crashed]
    · simp [flushSendBuffer, TcpClient.flush_empty hl, withClient, h.crashed]
  · rw [flushSendBuffer_sendBuffer]; exact h.sendOk d'
  · rw [(hf d').1]
    exact h.equipped d' (hreg ▸ hd')

theorem ready_exec {s : Server} (h : Ready s) {i : Stmt} (hi : s.Serves i) (wsa : Bool) (c : Nat) :
    Ready (s.exec wsa i).1 ∧ Kept s (s.exec wsa i).1 c := by
  cases i with
  | flushSendBuffer d => exact ready_flushSendBuffer h hi wsa c
  | echo c' j k packet => exact ready_writeSendBuffer h _ _ _ c
  | bcastWrite c' j k packet client =>
    simp only [exec, if_pos (show client ∈ s.registry from hi)]
    exact ready_writeSendBuffer h _ _ _ c
  | bcastCheck c' j k packet client | bcastFlush c' j k packet client =>
    simp only [exec, if_pos (show client ∈ s.registry from hi)]
    exact ⟨h, .refl s c⟩
  | bcastNext c' j k packet client =>
    obtain ⟨n, hn, -⟩ := TcpSessionManager.nextClient_of_mem hi
    cases n <;> simp only [exec, hn] <;> exact ⟨h, .refl s c⟩
  | close d =>
    refine ⟨⟨h.crashed, h.sendOk, h.nodup, h.equipped⟩, rfl, ?_, rfl, fun _ => rfl⟩
    simp [handedPackets, exec, closesocket, Obs.handedPacket]
  | setClosing d =>
    have hf := withClient_sending s (c := d) (x := { s.clients d with isClosing := true }) rfl rfl
    refine ⟨h.of_same rfl rfl hf, ?_, rfl, rfl, fun d' => (hf d').2⟩
    rcases withClient_clients s d { s.clients d with isClosing := true } c with he | ⟨rfl, he⟩ <;>
    · simp only [exec, setClosing, he]
  | verifyFlag | bcastBegin | loopTail | tryProcessPacket => exact ⟨h, .refl s c⟩
  | _ => cases hi

/-- Since `s₀` the thread has come to `st`, and nothing `TryProcessPacket` looks at has changed. -/
structure Served (s₀ : Server) (c t : Nat) (st : List Stmt) (s : Server) : Prop where
  stack : s.threads[t]? = some st
  ready : Ready s
  kept : Kept s₀ s c

/-- One statement. -/
theorem advance_eq {s : Server} {t : Nat} {wsa : Bool} {i : Stmt} {st : List Stmt} (hc : s.crashed = none)
    (ht : s.threads[t]? = some (i :: st)) :
    advance t s wsa = (s.exec wsa i).1.setThread t ((s.exec wsa i).2 ++ st) := by
  simp only [advance, step_eq hc, handle, run, ht]

theorem stack_setThread {s s' : Server} {t : Nat} {st : List Stmt} (ht : s.threads[t]? = some st)
    (hs : s'.threads = s.threads) (new : List Stmt) : (s'.setThread t new).threads[t]? = some new := by
  simp only [setThread, hs]
  exact List.getElem?_set_self (List.getElem?_eq_some_iff.mp ht).1

section Serve

variable {s₀ s : Server} {c t : Nat} {st : List Stmt} {P : Server → Prop}

theorem leads_exec {i : Stmt} (h : Served s₀ c t (i :: st) s) (hi : s.Serves i)
    (k : ∀ wsa s', Served s₀ c t ((s.exec wsa i).2 ++ st) s' → Leads (advance t) P s') : Leads (advance t) P s := by
  refine .next fun wsa => k wsa _ ?_
  obtain ⟨hr, hk⟩ := ready_exec h.ready hi wsa c
  rw [advance_eq h.ready.crashed h.stack]
  exact ⟨stack_setThread h.stack (exec_threads s wsa i) _, ⟨hr.crashed, hr.sendOk, hr.nodup, hr.equipped⟩,
    h.kept.trans ⟨hk.recvBuffer, hk.handed, hk.registry, hk.structures⟩⟩

/-- `Close` returns. -/
theorem leads_close {d : Nat} (h : Served s₀ c t (.close d :: st) s)
    (k : ∀ s', Served s₀ c t st s' → Leads (advance t) P s') :
    Leads (advance t) P s :=
  leads_exec h trivial fun _ _ h => leads_exec h trivial fun _ s' h => k s' h

theorem leads_flush {d : Nat} (h : Served s₀ c t (.flushSendBuffer d :: st) s) (hd : (s.clients d).sendOverlapped ≠ none)
    (k : ∀ s', Served s₀ c t st s' → Leads (advance t) P s') : Leads (advance t) P s :=
  leads_exec h hd fun _ s' h => k s' h

/-- Where `++it` gets from a node of a list without repeats. -/
theorem nextClient_split {pre post : List Nat} {client : Nat} (h : (pre ++ client :: post).Nodup) :
    TcpSessionManager.nextClient (pre ++ client :: post) client = some post.head? := by
  induction pre with
  | nil => simp [TcpSessionManager.nextClient]
  | cons x xs ih =>
    have hne : x ≠ client := by
      intro heq
      subst heq
      simp at h
    have := ih (List.Nodup.of_cons h)
    simpa [TcpSessionManager.nextClient, hne] using this

variable {j : Completion} {n : Nat} {packet : Packet}
  (k : ∀ s', Served s₀ c t (.loopTail c j :: st) s' → Leads (advance t) P s')
include k

/-- One session of a broadcast: it is passed over, refuses the packet, or takes it and is flushed. -/
theorem leads_check {client : Nat} (hmem : client ∈ s₀.registry)
    (hnext : ∀ s, Served s₀ c t (.bcastNext c j n packet client :: st) s → Leads (advance t) P s)
    (h : Served s₀ c t (.bcastCheck c j n packet client :: st) s) : Leads (advance t) P s := by
  have hreg : ∀ {st s}, Served s₀ c t st s → client ∈ s.registry := fun h => h.kept.registry ▸ hmem
  refine leads_exec h (hreg h) fun wsa s' h' => ?_
  simp only [exec, if_pos (hreg h)] at h'
  split at h'
  · refine leads_exec h' (hreg h') fun wsa s'' h'' => ?_
    simp only [exec, if_pos (hreg h')] at h''
    split at h''
    · exact leads_close h'' k
    · refine leads_exec h'' (hreg h'') fun wsa s₃ h₃ => ?_
      simp only [exec, if_pos (hreg h'')] at h₃
      exact leads_flush h₃ (h₃.ready.equipped client (hreg h₃)) hnext
  · exact hnext s' h'

/-- A broadcast goes on to the end of the registry, or ends where a session has no room. -/
theorem leads_bcast (post : List Nat) :
    ∀ (pre : List Nat) (client : Nat) (s : Server), s₀.registry = pre ++ client :: post →
    Served s₀ c t (.bcastCheck c j n packet client :: st) s → Leads (advance t) P s := by
  induction post with
  | nil =>
    intro pre client s hreg h
    have hmem : client ∈ s₀.registry := by rw [hreg]; simp
    refine leads_check k hmem (fun s h => ?_) h
    have hreg' := h.kept.registry.trans hreg
    refine leads_exec h (show client ∈ s.registry by rw [hreg']; simp) fun wsa s' h' => k s' ?_
    have hn := nextClient_split (hreg' ▸ h.ready.nodup)
    rw [← hreg'] at hn
    simpa [exec, hn] using h'
  | cons client' post ih =>
    intro pre client s hreg h
    have hmem : client ∈ s₀.registry := by rw [hreg]; simp
    refine leads_check k hmem (fun s h => ?_) h
    have hreg' := h.kept.registry.trans hreg
    refine leads_exec h (show client ∈ s.registry by rw [hreg']; simp) fun wsa s' h' =>
      ih (pre ++ [client]) client' s' (by simp [hreg]) ?_
    have hn := nextClient_split (hreg' ▸ h.ready.nodup)
    rw [← hreg'] at hn
    simpa [exec, hn] using h'

/-- Whatever its flag asks for, a packet is dealt with and the loop goes on. -/
theorem leads_verifyFlag (h : Served s₀ c t (.verifyFlag c j n packet :: st) s) : Leads (advance t) P s := by
  refine leads_exec h trivial fun wsa s' h' => ?_
  simp only [exec] at h'
  split at h'
  · refine leads_exec h' trivial fun wsa s'' h'' => ?_
    simp only [exec] at h''
    split at h''
    · exact leads_close h'' k
    · exact k s'' h''
  · split at h'
    · refine leads_exec h' trivial fun wsa s'' h'' => ?_
      simp only [exec] at h''
      split at h''
      · exact k s'' h''
      · rename_i client hh
        rw [h'.kept.registry] at hh
        obtain ⟨post, hpost⟩ : ∃ post, s₀.registry = [] ++ client :: post := by
          cases hr : s₀.registry with
          | nil => rw [hr] at hh; cases hh
          | cons x xs => rw [hr] at hh; cases hh; exact ⟨xs, rfl⟩
        exact leads_bcast k post [] client s'' hpost h''
    · exact leads_close h' k

end Serve

/-! ## The loop -/

/-- Since `s₀` the frames `handed` were handed on, and `left` is in the buffer. -/
structure Receiving (s₀ : Server) (c t : Nat) (handed : List (List UInt8)) (left : List UInt8) (st : List Stmt)
    (s : Server) : Prop where
  stack : s.threads[t]? = some st
  ready : Ready s
  equipped : (s.clients c).sendOverlapped ≠ none
  ok : (s.clients c).recvBuffer.Ok
  unread : s.unread c = left
  handed : s.handedPackets c = s₀.handedPackets c ++ handed.map Packet.load

/-- A stream of two bytes has no complete frame. -/
theorem next_short {xs : List UInt8} (h : xs.length ≤ 2) : Base.Framing.next wireSize xs = none := by
  rw [Option.eq_none_iff_forall_ne_some]
  intro n hn
  obtain ⟨h1, h2⟩ := Base.Framing.next_eq_some.mp hn
  have := wireSize_gt h1
  omega

section Loop

variable {s₀ s : Server} {c t : Nat} {st : List Stmt} {handed : List (List UInt8)} {left : List UInt8} {j : Completion}

theorem Receiving.served {st' : List Stmt} {s' : Server} (h : Receiving s₀ c t handed left st s) (h' : Served s c t st' s') :
    Receiving s₀ c t handed left st' s' := by
  refine ⟨h'.stack, h'.ready, h'.kept.structures c ▸ h.equipped, ?_, ?_, h'.kept.handed.trans h.handed⟩
  · rw [h'.kept.recvBuffer]; exact h.ok
  · simp only [Server.unread, h'.kept.recvBuffer]; exact h.unread

theorem Receiving.start (h : Receiving s₀ c t handed left st s) : Served s c t st s := ⟨h.stack, h.ready, .refl s c⟩

/-- The loop has ended: what is buffered has no complete frame, and `OnReceived` returns after
    a flush. -/
theorem leads_return (h : Receiving s₀ c t handed left [.flushSendBuffer c, .recvNext c j] s)
    (hn : Base.Framing.next wireSize left = none) :
    Leads (advance t) (Receiving s₀ c t (handed ++ frames left) (residue left) [.recvNext c j]) s := by
  refine leads_flush h.start h.equipped fun s' h' => .here ?_
  rw [frames, residue, Base.Framing.frames_of_none hn, Base.Framing.rest_of_none hn, List.append_nil]
  exact h.served h'

/-- `ProcessPacket` is called with a frame, and returns to the end of the loop's body. -/
theorem leads_processPacket {f : List UInt8} {P : Server → Prop}
    (h : Receiving s₀ c t handed left [.processPacket c j (.load f)] s)
    (k : ∀ s', Receiving s₀ c t (handed ++ [f]) left [.loopTail c j] s' → Leads (advance t) P s') :
    Leads (advance t) P s := by
  refine .next fun wsa => ?_
  rw [advance_eq h.ready.crashed h.stack]
  have h' : ∀ st', Receiving s₀ c t (handed ++ [f]) left st'
      ((s.observe (.handed c (s.handedTo c) (.load f))).setThread t st') := by
    intro st'
    refine ⟨stack_setThread h.stack rfl _, h.ready.of_same rfl rfl fun _ => ⟨rfl, rfl⟩, h.equipped, h.ok, h.unread, ?_⟩
    have := h.handed
    simp only [handedPackets] at this
    simp [handedPackets, setThread, observe, Obs.handedPacket, this]
  have hdone : ∀ {st s₁ s'}, Receiving s₀ c t (handed ++ [f]) left st s₁ → Served s₁ c t [.loopTail c j] s' →
      Leads (advance t) P s' := fun h₁ hs => k _ (h₁.served hs)
  simp only [exec]
  split
  · exact leads_verifyFlag (fun s' => hdone (h' _)) (h' _).start
  · exact leads_close (h' _).start fun s' hs => leads_verifyFlag (fun s' => hdone (h' _)) hs

/-- `TryProcessPacket`'s loop takes the complete frames off, in order, and ends. -/
theorem leads_processLoop (left : List UInt8) : ∀ (handed : List (List UInt8)) (s : Server),
    Receiving s₀ c t handed left [.processLoop c j] s →
      Leads (advance t) (Receiving s₀ c t (handed ++ frames left) (residue left) [.recvNext c j]) s := by
  induction left using Base.Framing.induction wireSize_settled with
  | stop left hn =>
    intro handed s h
    have hw := TcpClient.readPacket_none h.ok (by rw [← hn, ← h.unread]; rfl)
    refine .next fun wsa => leads_return ?_ hn
    rw [advance_eq h.ready.crashed h.stack]
    simp only [exec, hw]
    exact ⟨stack_setThread h.stack rfl _, ⟨h.ready.crashed, h.ready.sendOk, h.ready.nodup, h.ready.equipped⟩, h.equipped,
      h.ok, h.unread, h.handed⟩
  | frame left n hn ih =>
    intro handed s h
    have hun : (s.clients c).recvBuffer.contents = left := h.unread
    obtain ⟨b, hw, hok, hb, -⟩ := TcpClient.readPacket_some h.ok (n := n) (by rw [hun]; exact hn)
    rw [hun] at hw hb
    have hfr : frames left = left.take n :: frames (left.drop n) := Base.Framing.frames_of_some wireSize_settled hn
    have hre : residue left = residue (left.drop n) := Base.Framing.rest_of_some wireSize_settled hn
    rw [hfr, hre, show handed ++ left.take n :: frames (left.drop n) = (handed ++ [left.take n]) ++ frames (left.drop n) by simp]
    refine .next fun wsa => ?_
    rw [advance_eq h.ready.crashed h.stack]
    have h' : Receiving s₀ c t handed (left.drop n) [.processPacket c j (.load (left.take n))]
        ((s.exec wsa (.processLoop c j)).1.setThread t ((s.exec wsa (.processLoop c j)).2 ++ [])) := by
      simp only [exec, hw]
      refine ⟨stack_setThread h.stack rfl _, h.ready.of_same rfl rfl (withClient_sending s rfl rfl), ?_, ?_, ?_, h.handed⟩
      · simpa [setThread] using h.equipped
      · simpa [setThread] using hok
      · simpa [unread, setThread] using hb
    refine leads_processPacket h' fun s' hs => ?_
    -- the test at the end of the body: what is left may still hold a frame
    refine leads_exec hs.start trivial fun wsa s'' hs'' => ?_
    have hs2 := hs.served hs''
    have hlen : ((left.drop n).length : Int) = (s'.clients c).recvBuffer.getLength := by
      rw [← hs.unread]; exact PulledBuffer.length_contents hs.ok
    simp only [exec] at hs2
    split at hs2
    · exact ih _ s'' hs2
    · exact leads_return hs2 (next_short (by omega))

end Loop

/-! ## Chunks -/

/-- A receive has stored the chunk at `GetEmptyPtr()`, and thread `t` calls `OnReceived`. -/
def receive (s : Server) (t c : Nat) (op : IoOp) (chunk : List UInt8) : Server :=
  let x := s.clients c
  (s.withClient c { x with recvBuffer := x.recvBuffer.store x.recvBuffer.getEmptyPtr chunk }).setThread t
    [.onReceived c ⟨op, chunk.length⟩]

/-- `OnReceived` on the chunks in order, each not empty and within the room there is when it is
    posted: each call returns, and after the last the server meets `Q`. -/
def Feeds (t c : Nat) (op : IoOp) (Q : Server → Prop) : List (List UInt8) → Server → Prop
  | [], s => Q s
  | chunk :: chunks, s =>
    chunk ≠ [] → (chunk.length : Int) ≤ (s.clients c).recvBuffer.getEmptyLength →
      Leads (advance t) (fun s' => s'.threads[t]? = some [.recvNext c ⟨op, chunk.length⟩] ∧ Feeds t c op Q chunks s')
        (s.receive t c op chunk)

theorem leads_onReceived {s₀ s : Server} {c t : Nat} {st : List Stmt} {handed : List (List UInt8)} {left : List UInt8}
    (h : Receiving s₀ c t handed left st s) (op : IoOp) {chunk : List UInt8}
    (hle : (chunk.length : Int) ≤ (s.clients c).recvBuffer.getEmptyLength) :
    Leads (advance t) (Receiving s₀ c t (handed ++ frames (left ++ chunk)) (residue (left ++ chunk))
      [.recvNext c ⟨op, chunk.length⟩]) (s.receive t c op chunk) := by
  obtain ⟨hok, hct⟩ := PulledBuffer.receive_spec h.ok chunk hle
  have hst : (s.receive t c op chunk).threads[t]? = some [.onReceived c ⟨op, chunk.length⟩] := stack_setThread h.stack rfl _
  have hr : Ready (s.receive t c op chunk) := h.ready.of_same rfl rfl (withClient_sending s rfl rfl)
  refine .next fun wsa => ?_
  rw [advance_eq hr.crashed hst]
  have h' : Receiving s₀ c t handed (left ++ chunk) [.tryProcessPacket c ⟨op, chunk.length⟩]
      (((s.receive t c op chunk).exec wsa (.onReceived c ⟨op, chunk.length⟩)).1.setThread t
        (((s.receive t c op chunk).exec wsa (.onReceived c ⟨op, chunk.length⟩)).2 ++ [])) := by
    refine ⟨stack_setThread hst rfl _, hr.of_same rfl rfl (withClient_sending _ rfl rfl), ?_, ?_, ?_, ?_⟩
    · simpa [exec, setThread, TcpClient.addReceived, receive] using h.equipped
    · simpa [exec, setThread, TcpClient.addReceived, receive] using hok
    · rw [← h.unread]
      simpa [unread, exec, setThread, TcpClient.addReceived, receive] using hct
    · simpa [handedPackets, exec, setThread, receive, withClient] using h.handed
  generalize ((s.receive t c op chunk).exec wsa (.onReceived c ⟨op, chunk.length⟩)).1.setThread t _ = s₁ at h'
  refine leads_exec h'.start trivial fun wsa s' hs => ?_
  have hs2 := h'.served hs
  have hlen : ((left ++ chunk).length : Int) = (s₁.clients c).recvBuffer.getLength := by
    rw [← h'.unread]; exact PulledBuffer.length_contents h'.ok
  simp only [exec] at hs2
  split at hs2
  · -- fewer than two bytes: the loop is not entered
    have hn : Base.Framing.next wireSize (left ++ chunk) = none := next_short (by omega)
    refine .here ?_
    rw [frames, residue, Base.Framing.frames_of_none hn, Base.Framing.rest_of_none hn, List.append_nil]
    exact hs2
  · exact leads_processLoop _ _ s' hs2

/-- The chunks behind a part of the stream that is dealt with. -/
theorem feeds {s₀ : Server} {c t : Nat} (op : IoOp) (chunks : List (List UInt8)) : ∀ (stream : List UInt8) (st : List Stmt)
    (s : Server), Receiving s₀ c t (frames stream) (residue stream) st s →
      Feeds t c op (fun s' => ∃ st', Receiving s₀ c t (frames (stream ++ chunks.flatten))
        (residue (stream ++ chunks.flatten)) st' s') chunks s := by
  induction chunks with
  | nil =>
    intro stream st s h
    refine ⟨st, ?_⟩
    rw [List.flatten_nil, List.append_nil]
    exact h
  | cons chunk chunks ih =>
    intro stream st s h _ hle
    refine (leads_onReceived h op hle).mono fun s' hs => ⟨hs.stack, ?_⟩
    rw [← frames_append, ← residue_append] at hs
    have := ih (stream ++ chunk) _ s' hs
    rwa [List.append_assoc, ← List.flatten_cons] at this

theorem Feeds.mono {t c : Nat} {op : IoOp} {Q Q' : Server → Prop} (hq : ∀ s, Q s → Q' s) (chunks : List (List UInt8)) :
    ∀ s, Feeds t c op Q chunks s → Feeds t c op Q' chunks s := by
  induction chunks with
  | nil => exact hq
  | cons chunk chunks ih => exact fun s h h1 h2 => (h h1 h2).mono fun s' hs => ⟨hs.1, ih s' hs.2⟩

/-- What the thread's statements and the arrival of a chunk keep holds after the last call too. -/
theorem Feeds.keeps {t c : Nat} {op : IoOp} {Q I : Server → Prop} (hI : ∀ s wsa, I s → I (advance t s wsa))
    (hreceive : ∀ s chunk, I s → I (s.receive t c op chunk)) (chunks : List (List UInt8)) :
    ∀ s, Feeds t c op Q chunks s → I s → Feeds t c op (fun s => Q s ∧ I s) chunks s := by
  induction chunks with
  | nil => exact fun s h hs => ⟨h, hs⟩
  | cons chunk chunks ih =>
    intro s h hs hne hle
    have hcall := (h hne hle).keeps hI (hreceive s chunk hs)
    exact hcall.mono fun s' hs' => ⟨hs'.1.1, ih s' hs'.1.2 hs'.2⟩

/-- From every state the server can be in, for a session made with an empty receive buffer and
    a thread with nothing to do. -/
theorem feeds_received {s : Server} (h : Reach (fun _ _ => True) s) (hcr : s.crashed = none) {c t : Nat}
    (hs : (s.clients c).sendOverlapped ≠ none) (ht : s.idle t = true) (h0 : (s.clients c).recvBuffer.getLength = 0) (op : IoOp)
    (chunks : List (List UInt8)) :
    Feeds t c op (fun s' => ∃ st, Receiving s c t (frames chunks.flatten) (residue chunks.flatten) st s') chunks s := by
  have hlen : (s.clients c).recvBuffer.length = 0 := h0
  have hstart : Receiving s c t (frames []) (residue []) [] s := by
    refine ⟨idle_iff.mp ht, .of_reach h hcr, hs, ?_, ?_, ?_⟩
    · exact ⟨Int.le_of_eq hlen.symm, by rw [hlen]; decide⟩
    · simp only [unread, PulledBuffer.contents, hlen]; rfl
    · exact (List.append_nil _).symm
  exact feeds op chunks [] [] s hstart

/-- From every state the server can be in, for a session made with an empty receive buffer and
    a thread with nothing to do, every stream and every way to cut it: each `OnReceived`
    returns and nothing has ended the process; `ProcessPacket` was called with exactly the
    reference parser's frames, each copied to the start of a zeroed array; and its rest is in
    the buffer. -/
theorem framing_ignores_segmentation {s : Server} (h : Reach (fun _ _ => True) s) (hcr : s.crashed = none) {c t : Nat}
    (hs : (s.clients c).sendOverlapped ≠ none) (ht : s.idle t = true) (h0 : (s.clients c).recvBuffer.getLength = 0) (op : IoOp)
    (chunks : List (List UInt8)) :
    Feeds t c op (fun s' => s'.crashed = none ∧
      s'.handedPackets c = s.handedPackets c ++ (frames chunks.flatten).map Packet.load ∧
      (s'.clients c).recvBuffer.contents = residue chunks.flatten) chunks s := by
  refine Feeds.mono (fun s' hs => ?_) chunks s (feeds_received h hcr hs ht h0 op chunks)
  obtain ⟨st', hs⟩ := hs
  exact ⟨hs.ready.crashed, hs.handed, hs.unread⟩

def madeRun : List Ev := [.accept 5] ++ List.replicate 9 (.run 0 true)

theorem two_frames_in_three_chunks :
    frames [1, 0, 1, 0x55, 7, 2, 0, 2, 0x55, 8, 9, 1] = [[1, 0, 1, 0x55, 7], [2, 0, 2, 0x55, 8, 9]] ∧
      Feeds 1 0 ⟨.recv, 0, 5, ⟨0, 0, 0, []⟩⟩ (fun s' => s'.crashed = none ∧
        s'.handedPackets 0 = (madeRun.foldl step (boot 1)).handedPackets 0 ++
          (frames [[1, 0, 1], [0x55, 7, 2, 0, 2, 0x55, 8], [9, 1]].flatten).map Packet.load ∧
        (s'.clients 0).recvBuffer.contents = residue [[1, 0, 1], [0x55, 7, 2, 0, 2, 0x55, 8], [9, 1]].flatten)
        [[1, 0, 1], [0x55, 7, 2, 0, 2, 0x55, 8], [9, 1]] (madeRun.foldl step (boot 1)) := by
  refine ⟨by decide +kernel, framing_ignores_segmentation (.any ⟨1, rfl⟩ madeRun) ?_ ?_ ?_ ?_ _ _⟩
  all_goals rw [boot_eq]; decide +kernel

end Server

end SigHolic.Network
