/-
Runs of a `Network` object: calls of its nine client methods, in any order, on
any sockets, with any answers of the kernel.

* `Call` is a call together with what the kernel answers during it, `Reply` what
  it returns and the system calls it made; `step` performs it.
* The `…_cases` lemmas say once what each method can do; later proofs use them
  and never unfold a method.
* `Effect` says what a call does to the table and to the descriptors together, and
  `step_sys` which calls receive and send.
* `step_local` — a call reads and writes the session of the socket it names and
  no other.  `Client.step` is the machine of one client that comes out of it.
* `KernelOk` — the kernel keeps the documented contracts of `recv()` and `send()`.
-/
import BsdGdf.Network
import BsdGdf.Runs
import BsdGdf.Ledger
import Mathlib.Tactic.SplitIfs

namespace Gdf

/-- A call of a client method, with the answers of the kernel. -/
inductive Call
  | connectNewClient (accept : AcceptRet) (fcntl : int32)
  | disconnectClient (socket : int32)
  | recvFromClient (socket : int32) (recv : RecvRet)
  | sendToClient (socket : int32) (send : SendRet)
  | pushToSendBuffer (socket : int32) (buf : Bytes)
  | pullFromRecvBuffer (socket : int32) (buf endString : Bytes)
  | reserveDisconnectClient (socket : int32)
  | clearRecvBuffer (socket : int32)
  | clearSendBuffer (socket : int32)
  deriving DecidableEq, Repr

/-- What a call returns; `pulled` has the string `buf` afterwards. -/
inductive Ret
  | void
  | bool (b : Bool)
  | socket (fd : int32)
  | pulled (b : Bool) (buf : Bytes)
  deriving DecidableEq, Repr

/-- What a call returns, and the system calls it made. -/
structure Reply where
  ret : Ret
  sys : List Syscall
  deriving DecidableEq, Repr

/-- The socket a call is on; a `ConnectNewClient` call is on the one `accept()`
returned. -/
def Call.on : Call → int32
  | .connectNewClient accept _ => accept.fd
  | .disconnectClient socket => socket
  | .recvFromClient socket _ => socket
  | .sendToClient socket _ => socket
  | .pushToSendBuffer socket _ => socket
  | .pullFromRecvBuffer socket _ _ => socket
  | .reserveDisconnectClient socket => socket
  | .clearRecvBuffer socket => socket
  | .clearSendBuffer socket => socket

/-- A call sets up a client, if `accept()` succeeds. -/
def Call.isConnect : Call → Bool
  | .connectNewClient _ _ => true
  | _ => false

/-- The socket a call names; a `ConnectNewClient` call whose `accept()` failed names
none. -/
def Call.names (c : Call) : Option int32 :=
  if c.isConnect ∧ c.on = ERROR then none else some c.on

/-- Perform a call. -/
def step (net : Network) : Call → Network × Reply
  | .connectNewClient accept fcntl =>
    let r := net.connectNewClient accept fcntl
    (r.1, ⟨.socket r.2.1, r.2.2⟩)
  | .disconnectClient socket =>
    let r := net.disconnectClient socket
    (r.1, ⟨.void, r.2⟩)
  | .recvFromClient socket recv =>
    let r := net.recvFromClient socket recv
    (r.1, ⟨.bool r.2.1, r.2.2⟩)
  | .sendToClient socket send =>
    let r := net.sendToClient socket send
    (r.1, ⟨.bool r.2.1, r.2.2⟩)
  | .pushToSendBuffer socket buf => (net.pushToSendBuffer socket buf, ⟨.void, []⟩)
  | .pullFromRecvBuffer socket buf endString =>
    let r := net.pullFromRecvBuffer socket buf endString
    (r.1, ⟨.pulled r.2.1 r.2.2, []⟩)
  | .reserveDisconnectClient socket => (net.reserveDisconnectClient socket, ⟨.void, []⟩)
  | .clearRecvBuffer socket => (net.clearRecvBuffer socket, ⟨.void, []⟩)
  | .clearSendBuffer socket => (net.clearSendBuffer socket, ⟨.void, []⟩)

/-- A step of a run of the client methods. -/
abbrev NetEvent := Runs.Event Network Call Reply

/-- `recv()` failed or reported the end of the stream. -/
def RecvRet.isEnd : RecvRet → Bool
  | .error _ => true
  | .data bytes => bytes.isEmpty

/-- The bytes of an answer of `recv()` that `RecvFromClient` appends. -/
def RecvRet.text : RecvRet → Bytes
  | .error _ => []
  | .data bytes => cstr bytes

/-! ### The session table -/

namespace Network

variable {net : Network} {k l : int32} {s t : Session}

@[simp] theorem setSession_self : (net.setSession k s).mSessions k = some s :=
  Function.update_self _ _ _

@[simp] theorem setSession_of_ne (h : l ≠ k) :
    (net.setSession k s).mSessions l = net.mSessions l :=
  Function.update_of_ne h _ _

@[simp] theorem eraseSession_self : (net.eraseSession k).mSessions k = none :=
  Function.update_self _ _ _

@[simp] theorem eraseSession_of_ne (h : l ≠ k) :
    (net.eraseSession k).mSessions l = net.mSessions l :=
  Function.update_of_ne h _ _

@[simp] theorem setSession_setSession :
    (net.setSession k s).setSession k t = net.setSession k t := by
  simp [setSession]

@[simp] theorem eraseSession_setSession :
    (net.setSession k s).eraseSession k = net.eraseSession k := by
  simp [setSession, eraseSession]

theorem session_of_some (h : net.mSessions k = some s) : net.session k = s := by
  rw [session, h]
  rfl

theorem session_of_none (h : net.mSessions k = none) : net.session k = Session.zero := by
  rw [session, h]
  rfl

@[simp] theorem session_setSession : (net.setSession k s).session k = s :=
  session_of_some setSession_self

@[simp] theorem session_eraseSession : (net.eraseSession k).session k = Session.zero :=
  session_of_none eraseSession_self

/-! ### What each method can do -/

theorem connectNewClient_cases (net : Network) (accept : AcceptRet) (fcntl : int32)
    (hs : net.session accept.fd = s) :
    (accept.fd = ERROR ∧
      net.connectNewClient accept fcntl = (net, ERROR, [.accept accept.fd])) ∨
    (accept.fd ≠ ERROR ∧ fcntl = ERROR ∧
      net.connectNewClient accept fcntl =
        (net, ERROR, [.accept accept.fd, .fcntl accept.fd fcntl, .close accept.fd])) ∨
    (accept.fd ≠ ERROR ∧ fcntl ≠ ERROR ∧
      net.connectNewClient accept fcntl =
        (net.setSession accept.fd { s with
            addr := accept.addr, socket := accept.fd, sendBufferRemain := false,
            sendBufferIndex := 0, isReservedDisconnect := false },
          accept.fd, [.accept accept.fd, .fcntl accept.fd fcntl])) := by
  subst hs
  simp only [connectNewClient]
  by_cases hfd : accept.fd = ERROR
  · exact .inl ⟨hfd, by simp [hfd]⟩
  · by_cases hf : fcntl = ERROR
    · exact .inr (.inl ⟨hfd, hf, by simp [hfd, hf]⟩)
    · exact .inr (.inr ⟨hfd, hf, by simp [hfd, hf]⟩)

theorem recvFromClient_cases (net : Network) (k : int32) (recv : RecvRet)
    (hs : net.session k = s) :
    (s.isReservedDisconnect = true ∧
      net.recvFromClient k recv = (net.setSession k s, SUCCESS, [])) ∨
    (s.isReservedDisconnect = false ∧ recv.isEnd = true ∧
      net.recvFromClient k recv = (net.eraseSession k, FAILURE, [.recv k recv, .close k])) ∨
    (s.isReservedDisconnect = false ∧ recv.isEnd = false ∧
      net.recvFromClient k recv =
        (net.setSession k { s with
            recvBuffer := s.recvBuffer ++ recv.text },
          SUCCESS, [.recv k recv])) := by
  subst hs
  simp only [recvFromClient]
  cases hr : (net.session k).isReservedDisconnect with
  | true => exact .inl ⟨rfl, rfl⟩
  | false =>
    rcases recv with errno | bytes
    · exact .inr (.inl ⟨rfl, rfl, by simp⟩)
    · by_cases hb : bytes = []
      · exact .inr (.inl ⟨rfl, by simp [RecvRet.isEnd, hb], by simp [hb]⟩)
      · exact .inr (.inr ⟨rfl, by simp [RecvRet.isEnd, hb], by simp [RecvRet.text, hb]⟩)

theorem sendToClient_cases (net : Network) (k : int32) (send : SendRet)
    (hs : net.session k = s) :
    (s.sendBufferRemain = false ∧
      s.isReservedDisconnect = false ∧
      net.sendToClient k send = (net.setSession k s, SUCCESS, [])) ∨
    (s.sendBufferRemain = false ∧
      s.isReservedDisconnect = true ∧
      net.sendToClient k send = (net.eraseSession k, SUCCESS, [.close k])) ∨
    (s.sendBufferRemain = true ∧ toInt send.value = -1 ∧
      net.sendToClient k send =
        (net.eraseSession k, FAILURE,
          [.send k (cstr s.unsent) send, .close k])) ∨
    (s.sendBufferRemain = true ∧ toInt send.value ≠ -1 ∧
      toInt send.value ≠ strlen s.unsent ∧
      net.sendToClient k send =
        (net.setSession k { s with
            sendBufferIndex :=
              addUInt64 s.sendBufferIndex (toInt send.value) },
          SUCCESS, [.send k (cstr s.unsent) send])) ∨
    (s.sendBufferRemain = true ∧
      toInt send.value = strlen s.unsent ∧
      net.sendToClient k send =
        (net.setSession k { s with
            sendBufferRemain := false, sendBufferIndex := 0, sendBuffer := [] },
          SUCCESS, [.send k (cstr s.unsent) send])) := by
  subst hs
  simp only [sendToClient, take_strlen]
  cases hr : (net.session k).sendBufferRemain with
  | false =>
    cases hd : (net.session k).isReservedDisconnect with
    | false => exact .inl ⟨rfl, rfl, by simp⟩
    | true => exact .inr (.inl ⟨rfl, rfl, by simp [disconnectClient]⟩)
  | true =>
    by_cases h1 : toInt send.value = -1
    · exact .inr (.inr (.inl ⟨rfl, h1, by simp [h1]⟩))
    · by_cases h2 : toInt send.value = strlen (net.session k).unsent
      · exact .inr (.inr (.inr (.inr ⟨rfl, h2, by simp [h2]⟩)))
      · exact .inr (.inr (.inr (.inl ⟨rfl, h1, h2, by simp [h1, h2]⟩)))

theorem pullFromRecvBuffer_cases (net : Network) (k : int32) (buf d : Bytes)
    (hs : net.session k = s) :
    (d = [] ∧ s.recvBuffer = [] ∧
      net.pullFromRecvBuffer k buf d = (net.setSession k s, false, buf)) ∨
    (d = [] ∧ s.recvBuffer ≠ [] ∧
      net.pullFromRecvBuffer k buf d =
        (net.setSession k { s with recvBuffer := [] }, true,
          s.recvBuffer)) ∨
    (d ≠ [] ∧ Framing.find d s.recvBuffer = none ∧
      net.pullFromRecvBuffer k buf d = (net.setSession k s, false, buf)) ∨
    (∃ p, d ≠ [] ∧ Framing.find d s.recvBuffer = some p ∧
      net.pullFromRecvBuffer k buf d =
        (net.setSession k { s with
            recvBuffer := s.recvBuffer.drop (p + d.length) },
          true, s.recvBuffer.take p)) := by
  subst hs
  simp only [pullFromRecvBuffer, List.length_eq_zero_iff]
  by_cases hd : d = []
  · by_cases hb : (net.session k).recvBuffer = []
    · exact .inl ⟨hd, hb, by simp [hd, hb]⟩
    · exact .inr (.inl ⟨hd, hb, by simp [hd, hb]⟩)
  · cases hf : Framing.find d (net.session k).recvBuffer with
    | none => exact .inr (.inr (.inl ⟨hd, rfl, by simp [hd]⟩))
    | some p => exact .inr (.inr (.inr ⟨p, hd, rfl, by simp [hd]⟩))

end Network

/-! ### What a call does to the table and to the descriptors -/

/-- The opening or closing of a descriptor in a system call, if it is one.  -1 is
no descriptor. -/
def Syscall.entry : Syscall → Option (Ledger.Entry int32)
  | .socket ret => if ret = ERROR then none else some (.opened ret)
  | .accept ret => if ret = ERROR then none else some (.opened ret)
  | .close fd => if fd = ERROR then none else some (.closed fd)
  | _ => none

/-- The descriptors opened and closed by a list of system calls. -/
def entries (sys : List Syscall) : List (Ledger.Entry int32) := sys.filterMap Syscall.entry

/-- The descriptors opened and closed so far. -/
def ledger {ι : Type} (es : List (Runs.Event Network ι Reply)) : List (Ledger.Entry int32) :=
  es.flatMap fun e => entries e.output.sys

theorem ledger_concat {ι : Type} (es : List (Runs.Event Network ι Reply))
    (e : Runs.Event Network ι Reply) :
    ledger (es ++ [e]) = ledger es ++ entries e.output.sys := by
  simp [ledger]

section Effect

variable {net : Network} {c : Call} {k : int32}

/-- A call that inserts a session where there is none: every method but
`ConnectNewClient` and `DisconnectClient`, and `RecvFromClient` only if it received
something. -/
def Call.inserts : Call → Bool
  | .connectNewClient _ _ => false
  | .disconnectClient _ => false
  | .recvFromClient _ recv => !recv.isEnd
  | _ => true

/-- The table and the ledger entries after a call. -/
inductive Effect (net : Network) (c : Call) : Network → List (Ledger.Entry int32) → Prop
  /-- `accept()` failed. -/
  | refused (hconn : c.isConnect = true) (hfd : c.on = ERROR) : Effect net c net []
  /-- `accept()` succeeded, `fcntl()` failed. -/
  | dropped (hconn : c.isConnect = true) (hfd : c.on ≠ ERROR) :
    Effect net c net [.opened c.on, .closed c.on]
  | accepted (s : Session) (hconn : c.isConnect = true) (hfd : c.on ≠ ERROR)
      (hsocket : s.socket = c.on) : Effect net c (net.setSession c.on s) [.opened c.on]
  | updated (s : Session) (hconn : c.isConnect = false)
      (hsocket : s.socket = (net.session c.on).socket)
      (hin : (∃ s, net.mSessions c.on = some s) ∨ c.inserts = true) :
    Effect net c (net.setSession c.on s) []
  | erased (hconn : c.isConnect = false)
      (hin : (∃ s, net.mSessions c.on = some s) ∨ c.inserts = false) :
    Effect net c (net.eraseSession c.on) (if c.on = ERROR then [] else [.closed c.on])

/-- A session that is reserved or has something to send was there: a value-initialised
one is neither. -/
theorem exists_of_flag (h : (net.session k).isReservedDisconnect = true ∨
    (net.session k).sendBufferRemain = true) : ∃ s, net.mSessions k = some s := by
  refine Option.ne_none_iff_exists'.mp fun hnone => ?_
  rw [Network.session_of_none hnone] at h
  exact absurd h (by decide)

theorem entries_close (k : int32) :
    entries [.close k] = if k = ERROR then [] else [.closed k] := by
  by_cases hk : k = ERROR <;> simp [entries, Syscall.entry, hk]

/-- Every call has one of the five effects. -/
theorem step_effect (net : Network) (c : Call) :
    Effect net c (step net c).1 (entries (step net c).2.sys) := by
  cases c with
  | connectNewClient accept fcntl =>
    rcases net.connectNewClient_cases accept fcntl rfl with
      ⟨hfd, heq⟩ | ⟨hfd, -, heq⟩ | ⟨hfd, -, heq⟩ <;> simp only [step, heq]
    · have hent : entries [.accept accept.fd] = [] := by simp [entries, Syscall.entry, hfd]
      rw [hent]
      exact .refused rfl hfd
    · have hent : entries [.accept accept.fd, .fcntl accept.fd fcntl, .close accept.fd] =
          [.opened accept.fd, .closed accept.fd] := by
        simp [entries, Syscall.entry, List.filterMap_cons, hfd]
      rw [hent]
      exact .dropped rfl hfd
    · have hent : entries [.accept accept.fd, .fcntl accept.fd fcntl] = [.opened accept.fd] := by
        simp [entries, Syscall.entry, List.filterMap_cons, hfd]
      rw [hent]
      exact .accepted _ rfl hfd rfl
  | disconnectClient k =>
    show Effect net _ (net.eraseSession k) (entries [.close k])
    rw [entries_close]
    exact .erased rfl (.inr rfl)
  | recvFromClient k recv =>
    rcases net.recvFromClient_cases k recv rfl with ⟨hres, heq⟩ | ⟨-, hend, heq⟩ |
      ⟨-, hend, heq⟩ <;> simp only [step, heq]
    · exact .updated _ rfl rfl (.inl (exists_of_flag (.inl hres)))
    · show Effect net _ _ (entries [.close k])
      rw [entries_close]
      exact .erased rfl (.inr (by simp [Call.inserts, hend]))
    · exact .updated _ rfl rfl (.inr (by simp [Call.inserts, hend]))
  | sendToClient k send =>
    rcases net.sendToClient_cases k send rfl with ⟨-, -, heq⟩ | ⟨-, hres, heq⟩ | ⟨hr, -, heq⟩ |
      ⟨-, -, -, heq⟩ | ⟨-, -, heq⟩ <;> simp only [step, heq]
    · exact .updated _ rfl rfl (.inr rfl)
    · rw [entries_close]
      exact .erased rfl (.inl (exists_of_flag (.inl hres)))
    · show Effect net _ _ (entries [.close k])
      rw [entries_close]
      exact .erased rfl (.inl (exists_of_flag (.inr hr)))
    · exact .updated _ rfl rfl (.inr rfl)
    · exact .updated _ rfl rfl (.inr rfl)
  | pullFromRecvBuffer k buf d =>
    rcases net.pullFromRecvBuffer_cases k buf d rfl with ⟨-, -, heq⟩ | ⟨-, -, heq⟩ |
      ⟨-, -, heq⟩ | ⟨p, -, -, heq⟩ <;> simp only [step, heq] <;>
      exact .updated _ rfl rfl (.inr rfl)
  | pushToSendBuffer k buf => exact .updated _ rfl rfl (.inr rfl)
  | reserveDisconnectClient k => exact .updated _ rfl rfl (.inr rfl)
  | clearRecvBuffer k => exact .updated _ rfl rfl (.inr rfl)
  | clearSendBuffer k => exact .updated _ rfl rfl (.inr rfl)

end Effect

/-- Only `RecvFromClient` calls `recv()` and only `SendToClient` calls `send()`, each on
its own socket. -/
theorem step_sys (net : Network) (c : Call) :
    (∀ fd ret, Syscall.recv fd ret ∈ (step net c).2.sys → c = .recvFromClient fd ret) ∧
    ∀ fd handed ret, Syscall.send fd handed ret ∈ (step net c).2.sys →
      c = .sendToClient fd ret := by
  cases c with
  | connectNewClient accept fcntl =>
    rcases net.connectNewClient_cases accept fcntl rfl with
      ⟨-, heq⟩ | ⟨-, -, heq⟩ | ⟨-, -, heq⟩ <;> simp [step, heq]
  | disconnectClient k => simp [step, Network.disconnectClient]
  | recvFromClient k recv =>
    rcases net.recvFromClient_cases k recv rfl with ⟨-, heq⟩ | ⟨-, -, heq⟩ | ⟨-, -, heq⟩ <;>
      simp +contextual [step, heq]
  | sendToClient k send =>
    rcases net.sendToClient_cases k send rfl with ⟨-, -, heq⟩ | ⟨-, -, heq⟩ | ⟨-, -, heq⟩ |
      ⟨-, -, -, heq⟩ | ⟨-, -, heq⟩ <;> simp +contextual [step, heq]
  | _ => simp [step]

/-! ### One socket at a time -/

theorem Call.names_eq_some_iff {c : Call} {k : int32} :
    c.names = some k ↔ c.on = k ∧ (c.isConnect = true → k ≠ ERROR) := by
  rw [names]
  by_cases h : c.isConnect = true ∧ c.on = ERROR
  · rw [if_pos h]
    constructor
    · intro hk
      exact absurd hk (by simp)
    · rintro ⟨rfl, hk⟩
      exact absurd h.2 (hk h.1)
  · rw [if_neg h, Option.some_inj]
    constructor
    · rintro rfl
      exact ⟨rfl, fun hc he => h ⟨hc, he⟩⟩
    · exact fun hk => hk.1

/-- A call leaves the table as it is, or sets or erases the entry of its socket; a
call that names no socket leaves it as it is. -/
theorem step_touches (net : Network) (c : Call) :
    (step net c).1 = net ∨
    (c.names = some c.on ∧ ((∃ s, (step net c).1 = net.setSession c.on s) ∨
      (step net c).1 = net.eraseSession c.on)) := by
  -- all calls but a `ConnectNewClient` that fails name their socket
  have hclient : c.isConnect = false → c.names = some c.on := by
    intro hconn
    refine Call.names_eq_some_iff.mpr ⟨rfl, fun hyes => ?_⟩
    exact absurd (hyes.symm.trans hconn) (by simp)
  have heff := step_effect net c
  generalize (step net c).1 = net', entries (step net c).2.sys = ents at heff
  cases heff with
  | refused => exact .inl rfl
  | dropped => exact .inl rfl
  | accepted s hconn hfd =>
    exact .inr ⟨Call.names_eq_some_iff.mpr ⟨rfl, fun _ => hfd⟩, .inl ⟨s, rfl⟩⟩
  | updated s hconn => exact .inr ⟨hclient hconn, .inl ⟨s, rfl⟩⟩
  | erased hconn => exact .inr ⟨hclient hconn, .inr rfl⟩

/-- **Frame.**  A call leaves the session of every socket it does not name alone. -/
theorem step_frame (net : Network) (c : Call) {k : int32} (h : c.names ≠ some k) :
    (step net c).1.mSessions k = net.mSessions k := by
  rcases step_touches net c with heq | ⟨hn, hset⟩
  · rw [heq]
  · have hne : k ≠ c.on := by
      rintro rfl
      exact h hn
    rcases hset with ⟨s, heq⟩ | heq <;> rw [heq]
    · exact Network.setSession_of_ne hne
    · exact Network.eraseSession_of_ne hne

/-- A call reads the session of the socket it names and nothing else. -/
theorem step_congr {net net' : Network} {c : Call} {k : int32} (h : c.names = some k)
    (hk : net.mSessions k = net'.mSessions k) :
    (step net c).1.mSessions k = (step net' c).1.mSessions k ∧
      (step net c).2 = (step net' c).2 := by
  -- every method starts from the reference `mSessions[socket]`, which is the same in both
  have hs : net.session k = net'.session k := by rw [Network.session, Network.session, hk]
  obtain ⟨rfl, -⟩ := Call.names_eq_some_iff.mp h
  cases c with
  | connectNewClient accept fcntl =>
    simp only [Call.on] at hs hk ⊢
    simp only [step, Network.connectNewClient, hs]
    split_ifs <;> simp [hk]
  | disconnectClient k => simp [step, Network.disconnectClient, Call.on]
  | recvFromClient k recv =>
    simp only [Call.on] at hs ⊢
    simp only [step, Network.recvFromClient, hs]
    rcases recv with errno | bytes
    · split_ifs <;> simp
    · by_cases hb : bytes = [] <;> split_ifs <;> simp [hb]
  | sendToClient k send =>
    simp only [Call.on] at hs ⊢
    simp only [step, Network.sendToClient, Network.disconnectClient, hs]
    split_ifs <;> simp
  | pushToSendBuffer k buf =>
    simp only [Call.on] at hs ⊢
    simp [step, Network.pushToSendBuffer, hs]
  | pullFromRecvBuffer k buf d =>
    simp only [Call.on] at hs ⊢
    simp only [step, Network.pullFromRecvBuffer, hs]
    cases Framing.find d (net'.session k).recvBuffer <;> split_ifs <;> simp
  | reserveDisconnectClient k =>
    simp only [Call.on] at hs ⊢
    simp [step, Network.reserveDisconnectClient, hs]
  | clearRecvBuffer k =>
    simp only [Call.on] at hs ⊢
    simp [step, Network.clearRecvBuffer, hs]
  | clearSendBuffer k =>
    simp only [Call.on] at hs ⊢
    simp [step, Network.clearSendBuffer, hs]

/-- One client on its own: the same code, on a table that has nothing but the
session `o` of the socket the call is on. -/
def Client.step (o : Option Session) (c : Call) : Option Session × Reply :=
  let r := Gdf.step ⟨ERROR, [], fun _ => o⟩ c
  (r.1.mSessions c.on, r.2)

/-- **The session table is a family of independent clients.** -/
theorem step_local : Runs.Local step Network.mSessions Call.names Client.step where
  own net c k h := by
    obtain ⟨rfl, -⟩ := Call.names_eq_some_iff.mp h
    have halone : net.mSessions c.on =
        (⟨ERROR, [], fun _ => net.mSessions c.on⟩ : Network).mSessions c.on := rfl
    exact (step_congr h halone).1
  out net c k h := by
    have halone : net.mSessions k =
        (⟨ERROR, [], fun _ => net.mSessions k⟩ : Network).mSessions k := rfl
    exact (step_congr h halone).2
  frame net c k h := step_frame net c h

/-! ### The kernel's side -/

/-- The documented contracts: `recv()` stores at most what it was asked for, `send()`
accepts at most what it was handed, and less than `2 ^ 31` bytes of it. -/
def Syscall.Ok : Syscall → Prop
  | .recv _ (.data bytes) => bytes.length ≤ kRecvBufferSize - 1
  | .send _ handed (.sent n) => n ≤ handed.length ∧ n < 2 ^ 31
  | _ => True

instance : DecidablePred Syscall.Ok
  | .recv _ (.data _) => inferInstanceAs (Decidable (_ ≤ _))
  | .send _ _ (.sent _) => inferInstanceAs (Decidable (_ ∧ _))
  | .recv _ (.error _) => isTrue trivial
  | .send _ _ (.error _) => isTrue trivial
  | .socket _ => isTrue trivial
  | .accept _ => isTrue trivial
  | .fcntl _ _ => isTrue trivial
  | .close _ => isTrue trivial

/-- The kernel keeps its contracts during a call. -/
def KernelOk (_ : List NetEvent) (net : Network) (c : Call) : Prop :=
  ∀ call ∈ (step net c).2.sys, call.Ok

instance (es : List NetEvent) (net : Network) (c : Call) : Decidable (KernelOk es net c) :=
  inferInstanceAs (Decidable (∀ call ∈ (step net c).2.sys, call.Ok))

/-- `ConnectNewClient` succeeds and sets up a session for socket `k`, which had
none. -/
def SetsUp (net : Network) (c : Call) (k : int32) : Prop :=
  c.isConnect = true ∧ (step net c).2.ret = .socket k ∧ k ≠ ERROR ∧ net.mSessions k = none

instance (net : Network) (c : Call) (k : int32) : Decidable (SetsUp net c k) :=
  inferInstanceAs (Decidable (_ ∧ _ ∧ _ ∧ _))

/-- The session `ConnectNewClient` sets up where there was none. -/
def Session.fresh (addr : SockaddrIn) (k : int32) : Session :=
  { Session.zero with addr := addr, socket := k }

/-- A `ConnectNewClient` call that succeeds: `accept()` returned the socket, and it was
made non-blocking. -/
theorem connect_succeeded {net : Network} {c : Call} {k : int32} (hc : c.isConnect = true)
    (hret : (step net c).2.ret = .socket k) (hk : k ≠ ERROR) :
    ∃ addr fcntl, c = .connectNewClient ⟨k, addr⟩ fcntl ∧ fcntl ≠ ERROR ∧
      step net c = (net.setSession k { net.session k with
          addr := addr, socket := k, sendBufferRemain := false,
          sendBufferIndex := 0, isReservedDisconnect := false },
        ⟨.socket k, [.accept k, .fcntl k fcntl]⟩) := by
  cases c with
  | connectNewClient accept fcntl =>
    obtain ⟨fd, addr⟩ := accept
    rcases net.connectNewClient_cases ⟨fd, addr⟩ fcntl rfl with
      ⟨-, heq⟩ | ⟨-, -, heq⟩ | ⟨-, hfcntl, heq⟩ <;>
      simp only [step, heq, Ret.socket.injEq] at hret ⊢
    · exact absurd hret.symm hk
    · exact absurd hret.symm hk
    · subst hret
      exact ⟨addr, fcntl, rfl, hfcntl, rfl⟩
  | _ => simp [Call.isConnect] at hc

theorem SetsUp.session {net : Network} {c : Call} {k : int32} (h : SetsUp net c k) :
    ∃ addr, (step net c).1.mSessions k = some (Session.fresh addr k) := by
  obtain ⟨hc, hret, hk, hnone⟩ := h
  obtain ⟨addr, fcntl, rfl, -, heq⟩ := connect_succeeded hc hret hk
  refine ⟨addr, ?_⟩
  rw [heq, Network.setSession_self, Network.session_of_none hnone]
  rfl

/-- A client on socket 4 of a new object. -/
def client4 : Call := .connectNewClient ⟨4, ⟨2, 0, 0⟩⟩ 0

/-! ### The answers of `send()` -/

theorem addUInt64_natCast (i n : ℕ) : addUInt64 i n = i + n := by
  rw [addUInt64, if_pos (by omega)]
  omega

/-- What `SendToClient` can do while the kernel keeps its contract. -/
theorem sendToClient_ok_cases {net : Network} {k : int32} {send : SendRet}
    {es : List NetEvent} {s : Session} (hs : net.session k = s)
    (hok : KernelOk es net (.sendToClient k send)) :
    (s.sendBufferRemain = false ∧
      s.isReservedDisconnect = false ∧
      net.sendToClient k send = (net.setSession k s, SUCCESS, [])) ∨
    (s.sendBufferRemain = false ∧
      s.isReservedDisconnect = true ∧
      net.sendToClient k send = (net.eraseSession k, SUCCESS, [.close k])) ∨
    (∃ errno, send = .error errno ∧ s.sendBufferRemain = true ∧
      net.sendToClient k send =
        (net.eraseSession k, FAILURE,
          [.send k (cstr s.unsent) (.error errno), .close k])) ∨
    (∃ n, send = .sent n ∧ s.sendBufferRemain = true ∧
      n < strlen s.unsent ∧
      net.sendToClient k send =
        (net.setSession k { s with
            sendBufferIndex := s.sendBufferIndex + n },
          SUCCESS, [.send k (cstr s.unsent) (.sent n)])) ∨
    (send = .sent (strlen s.unsent) ∧
      s.sendBufferRemain = true ∧
      net.sendToClient k send =
        (net.setSession k { s with
            sendBufferRemain := false, sendBufferIndex := 0, sendBuffer := [] },
          SUCCESS, [.send k (cstr s.unsent) send])) := by
  subst hs
  rcases net.sendToClient_cases k send rfl with h | h | ⟨hr, hv, heq⟩ | ⟨hr, hv, hne, heq⟩ |
    ⟨hr, hv, heq⟩
  · exact .inl h
  · exact .inr (.inl h)
  all_goals
    have hcall : Syscall.Ok (.send k (cstr (net.session k).unsent) send) :=
      hok _ (by simp [step, heq])
    rcases send with errno | n
  · exact .inr (.inr (.inl ⟨errno, rfl, hr, heq⟩))
  · rw [SendRet.value, toInt_natCast hcall.2] at hv
    omega
  · simp [SendRet.value, toInt] at hv
  · rw [SendRet.value, toInt_natCast hcall.2] at hne heq
    rw [addUInt64_natCast] at heq
    have hle := hcall.1
    rw [length_cstr] at hle
    exact .inr (.inr (.inr (.inl ⟨n, rfl, hr, by omega, heq⟩)))
  · simp [SendRet.value, toInt] at hv
  · rw [SendRet.value, toInt_natCast hcall.2] at hv
    obtain rfl : n = strlen (net.session k).unsent := by omega
    exact .inr (.inr (.inr (.inr ⟨rfl, hr, heq⟩)))

end Gdf
