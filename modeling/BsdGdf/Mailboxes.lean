/-
What a `Network` object is for: a mailbox for each client.

A `Mailbox` has what came in and was not pulled, what is to go out, and whether the client
is about to leave.  It knows no index and no flag: what is sent is taken off the front, and
what stands behind a NUL is dropped once all before it was accepted.  `Mailboxes.step`
answers every call on mailboxes.

* `step_refines` — one call of the object is the same call on its mailboxes;
* `mailboxes_agree` — over every run, the values the calls return and the system calls
  they make are those of the mailboxes.
-/
import BsdGdf.Disconnect

namespace Gdf

open Runs

/-! ### Mailboxes -/

/-- What there is to know about a client. -/
structure Mailbox where
  inbox : Bytes
  /-- `none` when there is nothing to send. -/
  outbox : Option Bytes
  leaving : Bool
  deriving DecidableEq, Repr

/-- A mailbox that nothing has come to. -/
def Mailbox.empty : Mailbox := ⟨[], none, false⟩

/-- The clients with a mailbox. -/
abbrev Mailboxes := int32 → Option Mailbox

namespace Mailboxes

/-- The mailbox of a client, an empty one if it has none. -/
def box (mb : Mailboxes) (k : int32) : Mailbox := (mb k).getD .empty

/-- A client's mailbox changes. -/
def put (mb : Mailboxes) (k : int32) (b : Mailbox) : Mailboxes := Function.update mb k (some b)

/-- A client goes. -/
def drop (mb : Mailboxes) (k : int32) : Mailboxes := Function.update mb k none

/-- What `recv()` answered goes to the inbox, unless the client is leaving. -/
def receive (mb : Mailboxes) (k : int32) (recv : RecvRet) : Mailboxes × Reply :=
  if (mb.box k).leaving then
    (mb.put k (mb.box k), ⟨.bool SUCCESS, []⟩)
  else if recv.isEnd then
    (mb.drop k, ⟨.bool FAILURE, [.recv k recv, .close k]⟩)
  else
    (mb.put k { mb.box k with inbox := (mb.box k).inbox ++ recv.text },
      ⟨.bool SUCCESS, [.recv k recv]⟩)

/-- What `send()` accepts is taken off the outbox, and the rest is dropped when nothing is
left before its first NUL; a client that is leaving goes when there is nothing to send. -/
def deliver (mb : Mailboxes) (k : int32) (send : SendRet) : Mailboxes × Reply :=
  match (mb.box k).outbox with
  | none =>
    if (mb.box k).leaving then (mb.drop k, ⟨.bool SUCCESS, [.close k]⟩)
    else (mb.put k (mb.box k), ⟨.bool SUCCESS, []⟩)
  | some out =>
    -- a message is handed over up to its first NUL
    let call := Syscall.send k (cstr out) send
    match send with
    | .error _ => (mb.drop k, ⟨.bool FAILURE, [call, .close k]⟩)
    | .sent n =>
      let rest := if n < strlen out then some (out.drop n) else none
      (mb.put k { mb.box k with outbox := rest }, ⟨.bool SUCCESS, [call]⟩)

/-- A message comes out of the inbox, if there is a whole one. -/
def pull (mb : Mailboxes) (k : int32) (buf endString : Bytes) : Mailboxes × Reply :=
  let inbox := (mb.box k).inbox
  if endString = [] then
    if inbox = [] then (mb.put k (mb.box k), ⟨.pulled false buf, []⟩)
    else (mb.put k { mb.box k with inbox := [] }, ⟨.pulled true inbox, []⟩)
  else
    match Framing.find endString inbox with
    | none => (mb.put k (mb.box k), ⟨.pulled false buf, []⟩)
    | some p =>
      (mb.put k { mb.box k with inbox := inbox.drop (p + endString.length) },
        ⟨.pulled true (inbox.take p), []⟩)

/-- Answer a call. -/
def step (mb : Mailboxes) : Call → Mailboxes × Reply
  | .connectNewClient ⟨fd, _⟩ fcntl =>
    if fd = ERROR then (mb, ⟨.socket ERROR, [.accept fd]⟩)
    else if fcntl = ERROR then
      (mb, ⟨.socket ERROR, [.accept fd, .fcntl fd fcntl, .close fd]⟩)
    else (mb.put fd .empty, ⟨.socket fd, [.accept fd, .fcntl fd fcntl]⟩)
  | .disconnectClient k => (mb.drop k, ⟨.void, [.close k]⟩)
  | .recvFromClient k recv => mb.receive k recv
  | .sendToClient k send => mb.deliver k send
  | .pushToSendBuffer k buf =>
    (mb.put k { mb.box k with outbox := some ((mb.box k).outbox.getD [] ++ buf) }, ⟨.void, []⟩)
  | .pullFromRecvBuffer k buf endString => mb.pull k buf endString
  | .reserveDisconnectClient k => (mb.put k { mb.box k with leaving := true }, ⟨.void, []⟩)
  | .clearRecvBuffer k => (mb.put k { mb.box k with inbox := [] }, ⟨.void, []⟩)
  | .clearSendBuffer k => (mb.put k { mb.box k with outbox := none }, ⟨.void, []⟩)

end Mailboxes

/-! ### The mailboxes of an object -/

/-- What a session is for. -/
def Session.mailbox (s : Session) : Mailbox where
  inbox := s.recvBuffer
  outbox := if s.sendBufferRemain then some s.unsent else none
  leaving := s.isReservedDisconnect

/-- The mailboxes of the clients with a session. -/
def Network.mailboxes (net : Network) : Mailboxes := fun k => (net.mSessions k).map Session.mailbox

variable {net : Network} {k : int32} {c : Call} {s : Session}

theorem mailboxes_setSession :
    (net.setSession k s).mailboxes = net.mailboxes.put k s.mailbox := by
  funext l
  by_cases hl : l = k
  · rw [hl, Network.mailboxes, Network.setSession_self, Mailboxes.put, Function.update_self]
    rfl
  · rw [Network.mailboxes, Network.setSession_of_ne hl, Mailboxes.put, Function.update_of_ne hl]
    rfl

theorem mailboxes_eraseSession : (net.eraseSession k).mailboxes = net.mailboxes.drop k := by
  funext l
  by_cases hl : l = k
  · rw [hl, Network.mailboxes, Network.eraseSession_self, Mailboxes.drop, Function.update_self]
    rfl
  · rw [Network.mailboxes, Network.eraseSession_of_ne hl, Mailboxes.drop,
      Function.update_of_ne hl]
    rfl

theorem box_mailboxes : net.mailboxes.box k = (net.session k).mailbox := by
  rw [Mailboxes.box, Network.mailboxes, Network.session]
  cases net.mSessions k <;> rfl

/-- What a session would send when the flag is up is its outbox; when it is down there is
nothing. -/
theorem outbox_getD {p : Pipe UInt8} (h : Sends s p) : s.mailbox.outbox.getD [] = s.unsent := by
  cases hr : s.sendBufferRemain with
  | true => simp [Session.mailbox, hr]
  | false => simp [Session.mailbox, hr, Session.unsent, (h.idle hr).2]

/-- `accept()` returns no socket that has a session. -/
def AcceptsUnused (net : Network) (c : Call) : Prop :=
  c.isConnect = true → c.on ≠ ERROR → net.mSessions c.on = none

instance : Decidable (AcceptsUnused net c) :=
  inferInstanceAs (Decidable (_ → _ → _))

/-- Every session holds a pipe. -/
def HoldsPipes (net : Network) : Prop := ∀ k, HoldsPipe k net

theorem holdsPipes_step (h : HoldsPipes net) {es : List NetEvent} (hok : KernelOk es net c)
    (hnew : AcceptsUnused net c) : HoldsPipes (step net c).1 := by
  intro k
  by_cases hfail : c.isConnect = true ∧ c.on = ERROR
  · -- `accept()` failed, and nothing changes
    have heff := step_effect net c
    generalize (step net c).1 = net', entries (step net c).2.sys = ents at heff
    cases heff with
    | refused => exact h k
    | dropped => exact h k
    | accepted s _ hfd => exact absurd hfail.2 hfd
    | updated s hconn => exact absurd (hfail.1.symm.trans hconn) (by simp)
    | erased hconn => exact absurd (hfail.1.symm.trans hconn) (by simp)
  · refine holds_step (h k) hok fun hconn hon => ?_
    rw [← hon]
    exact hnew hconn fun he => hfail ⟨hconn, he⟩

/-! ### One call -/

theorem connect_refines (accept : AcceptRet) (fcntl : int32)
    (hnew : AcceptsUnused net (.connectNewClient accept fcntl)) :
    net.mailboxes.step (.connectNewClient accept fcntl) =
      ((step net (.connectNewClient accept fcntl)).1.mailboxes,
        (step net (.connectNewClient accept fcntl)).2) := by
  obtain ⟨fd, addr⟩ := accept
  rcases net.connectNewClient_cases ⟨fd, addr⟩ fcntl rfl with
    ⟨hfd, heq⟩ | ⟨hfd, hf, heq⟩ | ⟨hfd, hf, heq⟩ <;> simp only [step, heq, Mailboxes.step]
  · rw [if_pos hfd]
  · rw [if_neg hfd, if_pos hf]
  · have hnone : net.mSessions fd = none := hnew rfl hfd
    rw [if_neg hfd, if_neg hf, mailboxes_setSession, Network.session_of_none hnone]
    rfl

theorem receive_refines (k : int32) (recv : RecvRet) :
    net.mailboxes.receive k recv =
      ((step net (.recvFromClient k recv)).1.mailboxes,
        (step net (.recvFromClient k recv)).2) := by
  have hleaving : (net.session k).mailbox.leaving = (net.session k).isReservedDisconnect := rfl
  rw [Mailboxes.receive, box_mailboxes, hleaving]
  rcases net.recvFromClient_cases k recv rfl with ⟨hres, heq⟩ | ⟨hres, hend, heq⟩ |
    ⟨hres, hend, heq⟩ <;> simp only [step, heq]
  · rw [if_pos hres, mailboxes_setSession]
  · rw [if_neg (by simp [hres]), if_pos hend, mailboxes_eraseSession]
  · rw [if_neg (by simp [hres]), if_neg (by simp [hend]), mailboxes_setSession]
    rfl

theorem deliver_refines {send : SendRet} {es : List NetEvent}
    (hok : KernelOk es net (.sendToClient k send)) :
    net.mailboxes.deliver k send =
      ((step net (.sendToClient k send)).1.mailboxes,
        (step net (.sendToClient k send)).2) := by
  have hdown : (net.session k).sendBufferRemain = false →
      (net.session k).mailbox.outbox = none := fun hr => by simp [Session.mailbox, hr]
  have hup : (net.session k).sendBufferRemain = true →
      (net.session k).mailbox.outbox = some (net.session k).unsent :=
    fun hr => by simp [Session.mailbox, hr]
  rw [Mailboxes.deliver, box_mailboxes]
  rcases sendToClient_ok_cases rfl hok with ⟨hr, hres, heq⟩ | ⟨hr, hres, heq⟩ |
    ⟨errno, rfl, hr, heq⟩ | ⟨n, rfl, hr, hlt, heq⟩ | ⟨rfl, hr, heq⟩ <;> simp only [step, heq]
  · rw [hdown hr]
    simp only
    rw [if_neg (by simp [Session.mailbox, hres]), mailboxes_setSession]
  · rw [hdown hr]
    simp only
    rw [if_pos (by simp [Session.mailbox, hres]), mailboxes_eraseSession]
  · rw [hup hr]
    simp only
    rw [mailboxes_eraseSession]
  · -- a partial send: the index moves on, and the front of the outbox goes
    rw [hup hr]
    simp only
    rw [if_pos hlt, mailboxes_setSession]
    simp [Session.mailbox, hr, Session.unsent, List.drop_drop]
  · -- the buffer is reset
    rw [hup hr]
    simp only
    rw [if_neg (lt_irrefl _), mailboxes_setSession]
    simp [Session.mailbox]

theorem pull_refines (k : int32) (buf d : Bytes) :
    net.mailboxes.pull k buf d =
      ((step net (.pullFromRecvBuffer k buf d)).1.mailboxes,
        (step net (.pullFromRecvBuffer k buf d)).2) := by
  have hinbox : (net.session k).mailbox.inbox = (net.session k).recvBuffer := rfl
  rw [Mailboxes.pull, box_mailboxes]
  rcases net.pullFromRecvBuffer_cases k buf d rfl with ⟨hd, hb, heq⟩ | ⟨hd, hb, heq⟩ |
    ⟨hd, hf, heq⟩ | ⟨p, hd, hf, heq⟩ <;> simp only [step, heq, hinbox]
  · rw [if_pos hd, if_pos hb, mailboxes_setSession]
  · rw [if_pos hd, if_neg hb, mailboxes_setSession]
    rfl
  · rw [if_neg hd, hf, mailboxes_setSession]
  · rw [if_neg hd, hf, mailboxes_setSession]
    rfl

/-- **One call** of the object is the same call on its mailboxes. -/
theorem step_refines (h : HoldsPipes net) {es : List NetEvent} (hok : KernelOk es net c)
    (hnew : AcceptsUnused net c) :
    net.mailboxes.step c = ((step net c).1.mailboxes, (step net c).2) := by
  cases c with
  | connectNewClient accept fcntl => exact connect_refines accept fcntl hnew
  | disconnectClient k =>
    show (net.mailboxes.drop k, _) = ((net.eraseSession k).mailboxes, _)
    rw [mailboxes_eraseSession]
    rfl
  | recvFromClient k recv => exact receive_refines k recv
  | sendToClient k send => exact deliver_refines hok
  | pushToSendBuffer k buf =>
    obtain ⟨p, hp⟩ := h k
    rw [Mailboxes.step, box_mailboxes, outbox_getD hp, step, Network.pushToSendBuffer,
      mailboxes_setSession]
    rfl
  | pullFromRecvBuffer k buf d => exact pull_refines k buf d
  | reserveDisconnectClient k =>
    rw [Mailboxes.step, box_mailboxes, step, Network.reserveDisconnectClient,
      mailboxes_setSession]
    rfl
  | clearRecvBuffer k =>
    rw [Mailboxes.step, box_mailboxes, step, Network.clearRecvBuffer, mailboxes_setSession]
    rfl
  | clearSendBuffer k =>
    rw [Mailboxes.step, box_mailboxes, step, Network.clearSendBuffer, mailboxes_setSession]
    rfl

/-! ### Every run -/

/-- **A `Network` object is a family of mailboxes**: over every run of its client methods,
what the calls return and which system calls they make, with which bytes, is what the
mailboxes say.  The kernel keeps its contracts, and `accept()` returns no socket that has a
session. -/
theorem mailboxes_agree (hnone : ∀ k, net.mSessions k = none) {calls : List Call}
    (hkernel : Along step net KernelOk calls)
    (hnew : Along step net (fun _ net c => AcceptsUnused net c) calls) :
    io (trace step net calls) = io (trace Mailboxes.step (fun _ => none) calls) ∧
      (final step net calls).mailboxes = final Mailboxes.step (fun _ => none) calls := by
  have hstart : net.mailboxes = fun _ => none := by
    funext k
    rw [Network.mailboxes, hnone]
    rfl
  have hholds : HoldsPipes net := by
    intro k
    refine ⟨Pipe.empty, ?_⟩
    rw [Network.session_of_none (hnone k)]
    exact Sends.of_empty rfl rfl rfl
  have hrun := refines_run (I := HoldsPipes)
    (fun es t c h hc => holdsPipes_step h hc.1 hc.2)
    (fun es t c h hc => step_refines h hc.1 hc.2) hholds (hkernel.and hnew)
  rw [hstart] at hrun
  exact ⟨hrun.1.symm, hrun.2.symm⟩

/-- A client to whom two messages go in three pieces. -/
theorem mailboxes_agree_pieces :
    io (trace step .new [client4, .pushToSendBuffer 4 [72, 73], .sendToClient 4 (.sent 1),
        .pushToSendBuffer 4 [74], .sendToClient 4 (.sent 2), .reserveDisconnectClient 4,
        .sendToClient 4 (.sent 0)]) =
      io (trace Mailboxes.step (fun _ => none) [client4, .pushToSendBuffer 4 [72, 73],
        .sendToClient 4 (.sent 1), .pushToSendBuffer 4 [74], .sendToClient 4 (.sent 2),
        .reserveDisconnectClient 4, .sendToClient 4 (.sent 0)]) ∧
    (final step .new [client4, .pushToSendBuffer 4 [72, 73], .sendToClient 4 (.sent 1),
        .pushToSendBuffer 4 [74], .sendToClient 4 (.sent 2), .reserveDisconnectClient 4,
        .sendToClient 4 (.sent 0)]).mailboxes =
      final Mailboxes.step (fun _ => none) [client4, .pushToSendBuffer 4 [72, 73],
        .sendToClient 4 (.sent 1), .pushToSendBuffer 4 [74], .sendToClient 4 (.sent 2),
        .reserveDisconnectClient 4, .sendToClient 4 (.sent 0)] :=
  mailboxes_agree (fun _ => rfl) (by decide) (by decide)

end Gdf
