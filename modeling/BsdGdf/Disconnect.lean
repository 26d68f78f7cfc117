/-
How `SendToClient` and `RecvFromClient` end a session.

A disconnect can be reserved while bytes still wait to be sent.  From then on
nothing more is read from the client, `SendToClient` sends what is left, and the
call after that closes the socket.  The other way out is an error of `recv()` or
`send()`, whichever error it was.

* `Sends.rank` — the number of calls that still send something: a call that sends
  lowers it (`drains_step`), whether it accepts some bytes, resets the buffer, or
  has nothing to hand over because the buffer starts with a NUL byte;
* `reservedDisconnect_drains` — a reserved session is closed within that many
  calls and one more, never with bytes left to send, and reading does not touch it;
* `transient_iff` — along every run, a transient error of `recv()` or `send()` leaves
  the session alone exactly if neither is called when it strikes.
-/
import BsdGdf.SendBuffer

namespace Gdf

open Runs

variable {net : Network} {k : int32} {c : Call} {s : Session} {calls more : List Call}

/-! ### A reserved disconnect -/

/-- `accept()` does not return socket `k` while there is a session for it. -/
def AcceptsNew (k : int32) (net : Network) (c : Call) : Prop :=
  c.isConnect = true → c.on = k → net.mSessions k = none

instance : Decidable (AcceptsNew k net c) :=
  inferInstanceAs (Decidable (_ → _ → _))

/-- The session of socket `k`, if it has one, holds a pipe. -/
def HoldsPipe (k : int32) (net : Network) : Prop := ∃ p : Pipe UInt8, Sends (net.session k) p

theorem SetsUp.holds {conn : Call} (h : SetsUp net conn k) : HoldsPipe k (step net conn).1 :=
  ⟨Pipe.empty, h.sends⟩

/-- Every call keeps the send buffer well formed, a `ConnectNewClient` call that sets
up the socket again included. -/
theorem holds_step (h : HoldsPipe k net) {es : List NetEvent} (hok : KernelOk es net c)
    (hnew : AcceptsNew k net c) : HoldsPipe k (step net c).1 := by
  obtain ⟨p, hp⟩ := h
  by_cases hc : c.isConnect = true ∧ c.on = k
  case neg =>
    obtain ⟨q, hq, -⟩ := sends_step hp hok fun hconn hon => hc ⟨hconn, hon⟩
    exact ⟨q, hq⟩
  obtain ⟨hconn, rfl⟩ := hc
  have hnone := hnew hconn rfl
  cases c with
  | connectNewClient accept fcntl =>
    rcases net.connectNewClient_cases accept fcntl rfl with
      ⟨-, heq⟩ | ⟨-, -, heq⟩ | ⟨-, -, heq⟩ <;> simp only [step, heq]
    · exact ⟨p, hp⟩
    · exact ⟨p, hp⟩
    · refine ⟨Pipe.empty, ?_⟩
      simp only [Call.on] at hnone ⊢
      rw [Network.session_setSession, Network.session_of_none hnone]
      exact Sends.of_empty rfl rfl rfl
  | _ => exact absurd hconn (by simp [Call.isConnect])

/-- Socket `k` has a session that is to be disconnected. -/
structure Reserved (k : int32) (net : Network) : Prop where
  session : net.mSessions k = some (net.session k)
  reserved : (net.session k).isReservedDisconnect = true
  holds : HoldsPipe k net

/-- The `SendToClient` calls that still send something, at most. -/
def Session.rank (s : Session) : ℕ :=
  if s.sendBufferRemain then max (s.sendBuffer.length - s.sendBufferIndex) 1 else 0

/-- It is a `SendToClient` call on socket `k`. -/
def Call.sendsTo (k : int32) : Call → Bool
  | .sendToClient socket _ => decide (socket = k)
  | _ => false

theorem Call.sendsTo_iff : c.sendsTo k = true ↔ ∃ send, c = .sendToClient k send := by
  cases c <;> simp [Call.sendsTo]

/-- The call neither pushes nor clears what is to be sent, nor sets up or disconnects
the client. -/
def Call.keepsSendBuffer : Call → Bool
  | .connectNewClient _ _ => false
  | .disconnectClient _ => false
  | .pushToSendBuffer _ _ => false
  | .clearSendBuffer _ => false
  | _ => true

/-- `send()` accepts something, if it is handed something. -/
def Syscall.Progress (k : int32) : Syscall → Prop
  | .send fd handed (.sent n) => fd = k → handed ≠ [] → 1 ≤ n
  | .send fd _ (.error _) => fd ≠ k
  | _ => True

instance (k : int32) : DecidablePred (Syscall.Progress k)
  | .send _ _ (.sent _) => inferInstanceAs (Decidable (_ → _ → _))
  | .send _ _ (.error _) => inferInstanceAs (Decidable (_ ≠ _))
  | .recv _ _ => isTrue trivial
  | .socket _ => isTrue trivial
  | .accept _ => isTrue trivial
  | .fcntl _ _ => isTrue trivial
  | .close _ => isTrue trivial

/-- The buffer of socket `k` is only sent from, and `send()` makes progress on it. -/
def Drains (k : int32) (net : Network) (c : Call) : Prop :=
  (c.names = some k → c.keepsSendBuffer = true) ∧
    ∀ call ∈ (step net c).2.sys, call.Progress k

instance : Decidable (Drains k net c) :=
  inferInstanceAs (Decidable (_ ∧ _))

theorem recvFromClient_reserved (h : net.mSessions k = some s)
    (hres : s.isReservedDisconnect = true) (recv : RecvRet) :
    step net (.recvFromClient k recv) = (net, ⟨.bool SUCCESS, []⟩) := by
  have hs := Network.session_of_some h
  rcases net.recvFromClient_cases k recv hs with ⟨-, heq⟩ | ⟨hno, -⟩ | ⟨hno, -⟩
  · have hsame : net.setSession k s = net := by
      rw [Network.setSession, ← h, Function.update_eq_self]
    rw [step, heq, hsame]
  · exact absurd (hres.symm.trans hno) (by simp)
  · exact absurd (hres.symm.trans hno) (by simp)

theorem closing_drained {p : Pipe UInt8} (h : Sends (net.session k) p) {send : SendRet}
    (hclose : (step net (.sendToClient k send)).2.sys = [.close k]) :
    (net.session k).sendBufferRemain = false ∧ (net.session k).unsent = [] := by
  rcases net.sendToClient_cases k send rfl with ⟨-, -, heq⟩ | ⟨hr, -, -⟩ | ⟨-, -, heq⟩ |
    ⟨-, -, -, heq⟩ | ⟨-, -, heq⟩
  · simp [step, heq] at hclose
  · exact ⟨hr, by rw [Session.unsent, (h.idle hr).2, List.drop_nil]⟩
  · simp [step, heq] at hclose
  · simp [step, heq] at hclose
  · simp [step, heq] at hclose

/-- `SendToClient` closes the session: the reserved disconnect happens. -/
def Closes (k : int32) (net : Network) (c : Call) : Prop :=
  (∃ send, c = .sendToClient k send) ∧ (step net c).2.sys = [.close k] ∧
    (step net c).1.mSessions k = none

theorem drains_set (h : HoldsPipe k (step net c).1)
    (heq : (step net c).1 = net.setSession k s) (hres : s.isReservedDisconnect = true)
    (hrank : s.rank + (c.sendsTo k).toNat ≤ (net.session k).rank) :
    Reserved k (step net c).1 ∧
      ((step net c).1.session k).rank + (c.sendsTo k).toNat ≤ (net.session k).rank := by
  have hsession : (step net c).1.session k = s := by rw [heq, Network.session_setSession]
  rw [hsession]
  refine ⟨⟨?_, by rw [hsession, hres], h⟩, hrank⟩
  rw [hsession, heq, Network.setSession_self]

theorem drains_other (h : Reserved k net) (hholds : HoldsPipe k (step net c).1)
    (hn : ¬ c.names = some k) :
    Reserved k (step net c).1 ∧
      ((step net c).1.session k).rank + (c.sendsTo k).toNat ≤ (net.session k).rank := by
  obtain ⟨hsame, -⟩ := (other_call hn : (step net c).1.session k = net.session k ∧ _)
  have hno : c.sendsTo k = false := by
    by_contra hyes
    obtain ⟨send, rfl⟩ := Call.sendsTo_iff.mp (by simpa using hyes)
    exact hn rfl
  rw [hsame, hno]
  refine ⟨⟨?_, by rw [hsame]; exact h.reserved, hholds⟩, le_rfl⟩
  rw [hsame, step_frame net c hn]
  exact h.session

/-- A `SendToClient` call closes the session, or keeps it and lowers its rank. -/
theorem drains_send (h : Reserved k net) {send : SendRet} {es : List NetEvent}
    (hok : KernelOk es net (.sendToClient k send))
    (hholds : HoldsPipe k (step net (.sendToClient k send)).1)
    (hprogress : ∀ call ∈ (step net (.sendToClient k send)).2.sys, call.Progress k) :
    Closes k net (.sendToClient k send) ∨ Reserved k (step net (.sendToClient k send)).1 ∧
      ((step net (.sendToClient k send)).1.session k).rank +
        ((Call.sendToClient k send).sendsTo k).toNat ≤ (net.session k).rank := by
  have hcount : (Call.sendToClient k send).sendsTo k = true := decide_eq_true rfl
  rcases sendToClient_ok_cases rfl hok with ⟨-, hno, -⟩ | ⟨-, -, heq⟩ |
    ⟨errno, rfl, -, heq⟩ | ⟨n, rfl, hr, hlt, heq⟩ | ⟨rfl, hr, heq⟩
  · exact absurd (h.reserved.symm.trans hno) (by simp)
  · refine .inl ⟨⟨send, rfl⟩, ?_, ?_⟩
    · simp only [step, heq]
    · simp only [step, heq, Network.eraseSession_self]
  · exact absurd rfl (hprogress (.send k (cstr (net.session k).unsent) (.error errno))
      (by simp [step, heq]))
  · -- a partial send: at least one byte was accepted and at least one is left
    have hprog : 1 ≤ n := by
      refine hprogress (.send k (cstr (net.session k).unsent) (.sent n)) (by simp [step, heq])
        rfl ?_
      rw [Ne, ← List.length_eq_zero_iff, length_cstr]
      omega
    have hle := strlen_le (net.session k).unsent
    rw [Session.unsent, List.length_drop] at hle
    refine .inr (drains_set hholds (congrArg Prod.fst heq) h.reserved ?_)
    simp only [hcount, Session.rank, hr, if_true, Bool.toNat_true]
    rw [Session.unsent] at hlt
    omega
  · -- the buffer is reset
    refine .inr (drains_set hholds (congrArg Prod.fst heq) h.reserved ?_)
    simp only [hcount, Session.rank, hr, if_true, Bool.toNat_true, Bool.false_eq_true, if_false]
    omega

/-- **A call that sends lowers the rank.**  While a reserved session drains, a call
closes it, or keeps it and lowers the rank if it is a `SendToClient` call. -/
theorem drains_step (h : Reserved k net) {es : List NetEvent} (hok : KernelOk es net c)
    (hnew : AcceptsNew k net c) (hd : Drains k net c) :
    Closes k net c ∨ Reserved k (step net c).1 ∧
      ((step net c).1.session k).rank + (c.sendsTo k).toNat ≤ (net.session k).rank := by
  have hholds := holds_step h.holds hok hnew
  by_cases hn : c.names = some k
  case neg => exact .inr (drains_other h hholds hn)
  obtain ⟨hon, -⟩ := Call.names_eq_some_iff.mp hn
  have hkeeps := hd.1 hn
  cases c with
  | connectNewClient accept fcntl => exact absurd hkeeps (by simp [Call.keepsSendBuffer])
  | disconnectClient l => exact absurd hkeeps (by simp [Call.keepsSendBuffer])
  | pushToSendBuffer l buf => exact absurd hkeeps (by simp [Call.keepsSendBuffer])
  | clearSendBuffer l => exact absurd hkeeps (by simp [Call.keepsSendBuffer])
  | sendToClient l send =>
    obtain rfl : l = k := hon
    exact drains_send h hok hholds hd.2
  -- the others leave the send fields alone
  | reserveDisconnectClient l =>
    obtain rfl : l = k := hon
    exact .inr (drains_set hholds rfl rfl le_rfl)
  | clearRecvBuffer l =>
    obtain rfl : l = k := hon
    exact .inr (drains_set hholds rfl h.reserved le_rfl)
  | recvFromClient l recv =>
    obtain rfl : l = k := hon
    have heq := recvFromClient_reserved h.session h.reserved recv
    rw [heq]
    exact .inr ⟨h, le_rfl⟩
  | pullFromRecvBuffer l buf d =>
    obtain rfl : l = k := hon
    rcases net.pullFromRecvBuffer_cases l buf d rfl with ⟨-, -, heq⟩ | ⟨-, -, heq⟩ |
      ⟨-, -, heq⟩ | ⟨p, -, -, heq⟩ <;>
      exact .inr (drains_set hholds (congrArg Prod.fst heq) h.reserved le_rfl)

/-- **A reserved disconnect drains, then closes.**  In every state reached after
socket `k` was set up: a reserved session with `p` unsent bytes is closed and erased
by one of its next `max p 1 + 1` calls of `SendToClient`, and stays until then;
`SendToClient` never closes it with bytes left to send; and `RecvFromClient` changes
nothing once it is reserved. -/
theorem reservedDisconnect_drains {conn : Call} (hset : SetsUp net conn k)
    (hkernel : Along step (step net conn).1
      (fun es net c => KernelOk es net c ∧ AcceptsNew k net c) calls) :
    let reached := final step (step net conn).1 calls
    (∀ s, reached.mSessions k = some s → s.isReservedDisconnect = true →
      ∀ more, Along step reached
          (fun es net c => KernelOk es net c ∧ AcceptsNew k net c ∧ Drains k net c) more →
        max (s.sendBuffer.length - s.sendBufferIndex) 1 + 1 ≤ more.countP (Call.sendsTo k) →
        ∃ pre send, pre ++ [.sendToClient k send] <+: more ∧
          (pre ++ [.sendToClient k send]).countP (Call.sendsTo k) ≤
            max (s.sendBuffer.length - s.sendBufferIndex) 1 + 1 ∧
          Always step reached (fun _ net => ∃ t, net.mSessions k = some t ∧
            t.isReservedDisconnect = true) pre ∧
          (step (final step reached pre) (.sendToClient k send)).2.sys = [.close k] ∧
          (final step reached (pre ++ [.sendToClient k send])).mSessions k = none) ∧
    (∀ s send, reached.mSessions k = some s →
      (step reached (.sendToClient k send)).2.sys = [.close k] →
      s.sendBufferRemain = false ∧ s.sendBuffer.drop s.sendBufferIndex = []) ∧
    (∀ s recv, reached.mSessions k = some s → s.isReservedDisconnect = true →
      step reached (.recvFromClient k recv) = (reached, ⟨.bool SUCCESS, []⟩)) := by
  intro reached
  have hrun := always_of_step (Q := fun _ net => HoldsPipe k net) hset.holds
    (fun _ _ _ hq hp => holds_step hq hp.1 hp.2) hkernel
  have hholds : HoldsPipe k reached := hrun.last
  refine ⟨?_, ?_, fun s recv hs hres => recvFromClient_reserved hs hres recv⟩
  · intro s hs hres more hmore hcount
    have hsession := Network.session_of_some hs
    have hreserved : Reserved k reached := ⟨by rw [hsession, hs], by rw [hsession, hres], hholds⟩
    have hrank : (reached.session k).rank ≤ max (s.sendBuffer.length - s.sendBufferIndex) 1 := by
      rw [hsession, Session.rank]
      split <;> omega
    obtain ⟨pre, c, hpre, hle, halways, ⟨send, rfl⟩, hsys, hnone⟩ :=
      exists_exit (A := fun net c => KernelOk [] net c ∧ AcceptsNew k net c ∧ Drains k net c)
        (Call.sendsTo k) (fun net => (net.session k).rank)
        (fun net c hI hA => drains_step hI hA.1 hA.2.1 hA.2.2) hreserved hmore (by omega)
    refine ⟨pre, send, hpre, ?_, ?_, hsys, by rw [final_concat]; exact hnone⟩
    · rw [List.countP_append, List.countP_singleton, if_pos (Call.sendsTo_iff.mpr ⟨send, rfl⟩)]
      omega
    · exact fun p hp => ⟨_, (halways p hp).session, (halways p hp).reserved⟩
  · intro s send hs hclose
    obtain ⟨p, hp⟩ := hholds
    have hdrained := closing_drained hp hclose
    rwa [Network.session_of_some hs] at hdrained

/-- `a`, `b`, NUL, `c` is pushed, `a` is sent and the disconnect reserved.  The next
`SendToClient` call sends `b`, which resets the buffer at the NUL, and the one after it
closes. -/
theorem reservedDisconnect_drains_client4 :
    ∃ pre send, pre ++ [.sendToClient 4 send] <+:
        [.sendToClient 4 (.sent 1), .recvFromClient 4 (.data [120]),
          .sendToClient 4 (.sent 0), .sendToClient 4 (.sent 0), .sendToClient 4 (.sent 0)] ∧
      (pre ++ [.sendToClient 4 send]).countP (Call.sendsTo 4) ≤ 4 ∧
      Always step (final step (step Network.new client4).1
          [.pushToSendBuffer 4 [97, 98, 0, 99], .sendToClient 4 (.sent 1),
            .reserveDisconnectClient 4])
        (fun _ net => ∃ t, net.mSessions 4 = some t ∧ t.isReservedDisconnect = true) pre ∧
      (step (final step (final step (step Network.new client4).1
          [.pushToSendBuffer 4 [97, 98, 0, 99], .sendToClient 4 (.sent 1),
            .reserveDisconnectClient 4]) pre) (.sendToClient 4 send)).2.sys = [.close 4] ∧
      (final step (final step (step Network.new client4).1
          [.pushToSendBuffer 4 [97, 98, 0, 99], .sendToClient 4 (.sent 1),
            .reserveDisconnectClient 4]) (pre ++ [.sendToClient 4 send])).mSessions 4 = none :=
  (reservedDisconnect_drains (by decide) (by decide)).1
    ⟨⟨2, 0, 0⟩, 4, [], [97, 98, 0, 99], 1, true, true⟩ (by decide) rfl _ (by decide)
    (by decide)

/-! ### Errors of `recv()` and `send()` -/

/-- The socket is only not ready, or the call was interrupted. -/
def Errno.transient : Errno → Bool
  | .EAGAIN => true
  | .EWOULDBLOCK => true
  | .EINTR => true
  | .other _ => false

/-- A client `ConnectNewClient` returns was made non-blocking. -/
def SetsNonBlocking (net : Network) (c : Call) : Prop :=
  ∀ k, c.isConnect = true → (step net c).2.ret = .socket k → k ≠ ERROR →
    ∃ ret, ret ≠ ERROR ∧ Syscall.fcntl k ret ∈ (step net c).2.sys

/-- If `recv()` or `send()` reports a transient error on a socket with a session, the
call leaves every session as it is and closes nothing. -/
def LosesNothing (net : Network) (c : Call) : Prop :=
  ∀ k s errno, net.mSessions k = some s → errno.transient = true →
    (Syscall.recv k (.error errno) ∈ (step net c).2.sys ∨
      ∃ handed, Syscall.send k handed (.error errno) ∈ (step net c).2.sys) →
    (step net c).1.mSessions = net.mSessions ∧ ∀ fd, Syscall.close fd ∉ (step net c).2.sys

/-- `RecvFromClient` and `SendToClient` stop before `recv()` and `send()` when these
have a transient error to report: the session is reserved, or has nothing to send. -/
def StopsShort (net : Network) (c : Call) : Prop :=
  ∀ k s errno, net.mSessions k = some s → errno.transient = true →
    (c = .recvFromClient k (.error errno) → s.isReservedDisconnect = true) ∧
    (c = .sendToClient k (.error errno) → s.sendBufferRemain = false)

theorem setsNonBlocking (net : Network) (c : Call) : SetsNonBlocking net c := by
  intro k hconn hret hk
  obtain ⟨addr, fcntl, rfl, hfcntl, heq⟩ := connect_succeeded hconn hret hk
  refine ⟨fcntl, hfcntl, ?_⟩
  rw [heq]
  exact List.mem_cons_of_mem _ List.mem_cons_self

theorem recvFromClient_error (h : net.mSessions k = some s)
    (hres : s.isReservedDisconnect = false) (errno : Errno) :
    step net (.recvFromClient k (.error errno)) =
      (net.eraseSession k, ⟨.bool FAILURE, [.recv k (.error errno), .close k]⟩) := by
  have hs := Network.session_of_some h
  rcases net.recvFromClient_cases k (.error errno) hs with ⟨hyes, -⟩ | ⟨-, -, heq⟩ | ⟨-, hno, -⟩
  · exact absurd (hres.symm.trans hyes) (by simp)
  · rw [step, heq]
  · exact absurd hno (by simp [RecvRet.isEnd])

theorem sendToClient_error (h : net.mSessions k = some s) (hr : s.sendBufferRemain = true)
    (errno : Errno) :
    step net (.sendToClient k (.error errno)) =
      (net.eraseSession k,
        ⟨.bool FAILURE, [.send k (cstr s.unsent) (.error errno), .close k]⟩) := by
  have hs := Network.session_of_some h
  rcases net.sendToClient_cases k (.error errno) hs with ⟨hno, -⟩ | ⟨hno, -⟩ | ⟨-, -, heq⟩ |
    ⟨-, hne, -⟩ | ⟨-, heq, -⟩
  · exact absurd (hr.symm.trans hno) (by simp)
  · exact absurd (hr.symm.trans hno) (by simp)
  · rw [step, heq]
  · exact absurd rfl hne
  · simp [SendRet.value, toInt] at heq

/-- **A transient error loses the session exactly if it is reported**: the error
branches do not look at `errno`. -/
theorem losesNothing_iff : LosesNothing net c ↔ StopsShort net c := by
  constructor
  · intro h k s errno hs htr
    constructor
    · rintro rfl
      by_contra hres
      have heq := recvFromClient_error hs (by simpa using hres) errno
      have hno := (h k s errno hs htr (.inl (by simp [heq]))).2 k
      exact hno (by simp [heq])
    · rintro rfl
      by_contra hr
      have heq := sendToClient_error hs (by simpa using hr) errno
      have hno := (h k s errno hs htr (.inr ⟨_, by rw [heq]; exact List.mem_cons_self⟩)).2 k
      exact hno (by simp [heq])
  · rintro h k s errno hs htr (hrecv | ⟨handed, hsend⟩)
    · -- a reserved session is not read from
      obtain rfl := (step_sys net c).1 k _ hrecv
      have hres := (h k s errno hs htr).1 rfl
      rw [recvFromClient_reserved hs hres] at hrecv
      exact absurd hrecv (by simp)
    · -- without anything to send, `send()` is not called
      obtain rfl := (step_sys net c).2 k handed _ hsend
      have hr := (h k s errno hs htr).2 rfl
      rcases net.sendToClient_cases k (.error errno) (Network.session_of_some hs) with
        ⟨-, -, heq⟩ | ⟨-, -, heq⟩ | ⟨hyes, -⟩ | ⟨hyes, -⟩ | ⟨hyes, -⟩
      · simp [step, heq] at hsend
      · simp [step, heq] at hsend
      all_goals exact absurd (hr.symm.trans hyes) (by simp)

/-- **When a transient socket condition loses nothing.**  Every client is made
non-blocking; and along a run, a transient error of `recv()` or `send()` leaves the
sessions alone exactly if every call of `RecvFromClient` and `SendToClient` that
would meet one stops before it calls `recv()` or `send()`. -/
theorem transient_iff (net : Network) (calls : List Call) :
    Along step net (fun _ net c => SetsNonBlocking net c ∧ LosesNothing net c) calls ↔
      Along step net (fun _ net c => StopsShort net c) calls := by
  constructor
  · intro h pre c hc
    exact losesNothing_iff.mp (h pre c hc).2
  · intro h pre c hc
    exact ⟨setsNonBlocking _ c, losesNothing_iff.mpr (h pre c hc)⟩

/-- Two bytes to send, and a peer that is slow to read them: they are lost. -/
theorem transient_client4 :
    ¬ Along step (step Network.new client4).1
      (fun _ net c => SetsNonBlocking net c ∧ LosesNothing net c)
      [.pushToSendBuffer 4 [97, 98], .sendToClient 4 (.error .EAGAIN)] := by
  intro h
  have hlose := (h [.pushToSendBuffer 4 [97, 98]] (.sendToClient 4 (.error .EAGAIN))
    (List.prefix_refl _)).2 4 ⟨⟨2, 0, 0⟩, 4, [], [97, 98], 0, true, false⟩ .EAGAIN
    (by decide) rfl (.inr ⟨[97, 98], by decide⟩)
  exact hlose.2 4 (by decide)

end Gdf
