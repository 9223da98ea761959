/-
  SigHolic.Network.Buffers — what the statements do to the sessions' send buffers.

  Only `WriteSendBuffer` adds to one and only `OnSend` takes from it.

  Proved, for every run: every send buffer stays within its array (`sendOk`), so
  `WriteSendBuffer` takes a packet exactly when there is room.
-/

import SigHolic.Network.Steps

namespace SigHolic.Network

open SigHolic.Base.Tally SigHolic.Utility.Buffer SigHolic.Iocp SigHolic.Socket

def Stmt.buffers : Stmt → Bool
  | .newSession _ | .onSend _ _ | .echo _ _ _ _ | .bcastWrite _ _ _ _ _ => true
  | _ => false

namespace Server

theorem flushSendBuffer_sendBuffer (s : Server) (c : Nat) (wsa : Bool) (d : Nat) :
    ((s.flushSendBuffer c wsa).clients d).sendBuffer = (s.clients d).sendBuffer := by
  rcases flushSendBuffer_clients s c wsa d with he | ⟨rfl, -, -, he⟩ <;> rw [he]

theorem land_sendBuffer (s : Server) (op : IoOp) (r : Result) (d : Nat) :
    ((s.land op r).clients d).sendBuffer = (s.clients d).sendBuffer := by
  rcases land_clients s op r d with he | ⟨data, rfl, rfl, he⟩ <;> rw [he]

theorem exec_sendBuffer (s : Server) (wsa : Bool) {i : Stmt} (h : i.buffers = false) (d : Nat) :
    ((s.exec wsa i).1.clients d).sendBuffer = (s.clients d).sendBuffer := by
  refine exec_field TcpClient.sendBuffer s wsa (fun d x hx => ?_) d
  cases hx with
  | made | echoed | broadcast | sent => cases h
  | read hw => obtain ⟨b, n, rfl⟩ := TcpClient.readPacket_cases hw; rfl
  | _ => rfl

/-! ## Writing and acknowledging -/

/-- `WriteSendBuffer` with room: the frame goes behind what is there. -/
theorem write_taken {s : Server} {client : Nat} (h : (s.clients client).sendBuffer.Ok) {packet : Packet}
    (hf : (s.clients client).Fits packet) (sender : Option (Nat × Nat)) :
    ∃ b, s.writeSendBuffer sender client packet = ((packet.size : Int),
        (s.withClient client { s.clients client with sendBuffer := b }).observe (.wrote sender client packet)) ∧
      b.Ok ∧ b.contents = (s.clients client).sendBuffer.contents ++ packet.frame := by
  obtain ⟨b, hw, hok, hb⟩ := TcpClient.write_fits h hf
  refine ⟨b, ?_, hok, hb⟩
  simp only [writeSendBuffer, hw]
  rw [if_neg (by omega)]

/-- `WriteSendBuffer` without room: `-1`, and nothing has changed. -/
theorem write_refused {s : Server} {client : Nat} (h : (s.clients client).sendBuffer.Ok) {packet : Packet}
    (hf : ¬ (s.clients client).Fits packet) (sender : Option (Nat × Nat)) :
    s.writeSendBuffer sender client packet = (-1, s) := by
  simp [writeSendBuffer, TcpClient.write_full h hf, withClient]

/-- `OnSend`: what was transferred is gone from the front. -/
theorem onSend_taken {c x : TcpClient} (h : c.sendBuffer.Ok) {n : Nat} (hw : c.onSend n = .ok x) :
    n ≤ c.sendBuffer.length ∧ ∃ b, x = { c with sendBuffer := b, sendIoState := .connected } ∧ b.Ok ∧
      b.contents = c.sendBuffer.contents.drop n := by
  by_cases hn : (n : Int) ≤ c.sendBuffer.length
  · obtain ⟨b, hx, hok, hb⟩ := TcpClient.onSend_spec h hn
    rw [hx] at hw
    cases hw
    exact ⟨hn, b, rfl, hok, hb⟩
  · unfold TcpClient.onSend at hw
    rw [PulledBuffer.throwAway_throws (by omega)] at hw
    cases hw

/-! ## Every send buffer is within its array -/

def SendOk (s : Server) : Prop := ∀ c, (s.clients c).sendBuffer.Ok

theorem sendOk_write {s : Server} (h : SendOk s) (sender : Option (Nat × Nat)) (client : Nat) (packet : Packet) :
    SendOk (s.writeSendBuffer sender client packet).2 := by
  by_cases hf : (s.clients client).Fits packet
  · obtain ⟨b, hw, hok, -⟩ := write_taken (h client) hf sender
    rw [hw]
    intro d
    by_cases e : d = client
    · subst e; simpa [observe, withClient] using hok
    · simpa [observe, withClient, e] using h d
  · rw [write_refused (h client) hf sender]; exact h

theorem sendOk_exec {s : Server} (h : SendOk s) (wsa : Bool) (i : Stmt) : SendOk (s.exec wsa i).1 := by
  cases hb : i.buffers with
  | false => intro d; rw [exec_sendBuffer s wsa hb d]; exact h d
  | true =>
    cases i with
    | newSession socket =>
      intro d
      by_cases e : d = s.nextClient
      · subst e; simpa [exec, newClient, TcpClient.new] using PulledBuffer.new_ok
      · simpa [exec, newClient, e] using h d
    | echo c j k packet => exact sendOk_write h _ c packet
    | bcastWrite c j k packet client =>
      simp only [exec]
      split
      · exact sendOk_write h _ client packet
      · exact h
    | onSend c j =>
      intro d
      simp only [exec]
      split
      · exact h d
      · rename_i x hw
        obtain ⟨-, b, rfl, hok, -⟩ := onSend_taken (h c) hw
        by_cases e : d = c
        · subst e; simpa [observe, withClient] using hok
        · simpa [observe, withClient, e] using h d
    | _ => cases hb

theorem sendOk_step {s : Server} (h : SendOk s) (e : Ev) : SendOk (s.step e) := by
  by_cases hc : s.crashed = none
  case neg => rw [step_crashed hc]; exact h
  rw [step_eq hc]
  cases e with
  | accept socket =>
    rcases accept_cases s socket with he | ⟨-, -, -, he, -⟩ <;> intro d <;> simp only [handle, he] <;> exact h d
  | dispatch t i r =>
    rcases dispatch_cases s t i r with he | ⟨op, st, -, -, -, -, he⟩ <;> intro d <;> simp only [handle, he]
    · exact h d
    · rw [show ((s.land op r).setThread t st).clients = (s.land op r).clients from rfl, land_sendBuffer]; exact h d
  | run t wsa =>
    rcases ht : s.threads[t]? with _ | _ | ⟨i, st⟩ <;> simp only [handle, run, ht]
    · exact h
    · exact h
    · exact sendOk_exec h wsa i
  | write c packet =>
    simp only [handle, write]
    split
    · exact sendOk_write h none c packet
    · exact h
  | flush c wsa =>
    simp only [handle, flush]
    split
    · intro d; rw [flushSendBuffer_sendBuffer]; exact h d
    · exact h

theorem sendOk {ok : Server → Ev → Prop} {s : Server} (h : Reach ok s) : SendOk s :=
  h.invariant (P := SendOk) (fun _ ⟨_, hn⟩ => hn ▸ fun _ => PulledBuffer.new_ok) fun _ e hs _ => sendOk_step hs e

end Server

end SigHolic.Network
