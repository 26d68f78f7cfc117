/-
The `LOG` statements of `Network`.

A `Statement` is what one of them streams; `Network.logs` gives those a call carries out,
in order.  They read the object and change nothing in it, so they are a function of the
object before the call.

* `departures_logged` — up to the destructor, which ends the sessions that are left without
  a statement, a session that ends is logged once, by a statement with the address that its
  client had when it was accepted, and nothing else is logged as a departure;
* `logged_eq_sent_iff` — the bytes that are logged as sent are those that were sent exactly
  if every `send()` took all it was handed, since a statement shows what is still to go out.
-/
import BsdGdf.Lifetime
import BsdGdf.SendBuffer
import BsdGdf.GlobalLogger

namespace Gdf

open Runs Ledger

/-! ### Statements -/

/-- A system call that fails and is logged, the transfers apart. -/
inductive Failure
  | accept
  | clientFcntl
  | socket
  | setsockopt
  | serverFcntl
  | bind
  | listen
  deriving DecidableEq, Repr

/-- What a statement says before the error. -/
def Failure.before : Failure → Bytes
  | .accept => chars "Failed to connect client on server socket(errno: ".toList
  | .clientFcntl => chars "Failed to set non-blocking fd on client socket(errno: ".toList
  | .socket => chars "Failed to create server socket(errno:".toList
  | .setsockopt => chars "Failed to set socket option on server socket(errno:".toList
  | .serverFcntl => chars "Failed to set non-blocking fd on server socket(errno:".toList
  | .bind => chars "Failed to bind server socket (errno:".toList
  | .listen => chars "Failed to listen on server socket(errno:".toList

/-- What it says behind the error. -/
def Failure.after : Failure → Bytes
  | .accept => chars ") on accept()".toList
  | .clientFcntl => chars ") on fcntl()".toList
  | .socket => chars ") on socket()".toList
  | .setsockopt => chars ") on setsockopt()".toList
  | .serverFcntl => chars ") on fcntl()".toList
  | .bind => chars ") on bind()".toList
  | .listen => chars ") on listen()".toList

/-- A `LOG` statement of `Network`, with what it shows. -/
inductive Statement
  | failed (what : Failure) (errno : ℤ)
  | disconnected (ip : Bytes)
  | recvFailed (ip : Bytes) (errno : ℤ)
  | received (ip text : Bytes)
  | sendFailed (ip : Bytes) (errno : ℤ)
  | sent (ip : Bytes) (sendLen : ℤ) (text : Bytes)
  | sentDebug (ip : Bytes) (sendLen : ℤ)
  deriving DecidableEq, Repr

/-- The functions of the C library that make the texts. -/
structure Names where
  inet_ntoa : UInt32 → Bytes
  strerror : ℤ → Bytes

namespace Statement

/-- The level of a statement. -/
def level : Statement → eSeverityLevel
  | .failed _ _ => .Error
  | .disconnected _ => .Notice
  | .recvFailed _ _ => .Error
  | .received _ _ => .Notice
  | .sendFailed _ _ => .Error
  | .sent _ _ _ => .Notice
  | .sentDebug _ _ => .Debug

/-- The message that is streamed. -/
def text (names : Names) : Statement → Bytes
  | .failed what errno =>
    what.before ++ decimal errno ++ chars " - ".toList ++ names.strerror errno ++ what.after
  | .disconnected ip => chars "Client(IP: ".toList ++ ip ++ chars ") disconnected".toList
  | .recvFailed ip errno =>
    chars "Failed to receive message from client(".toList ++ ip ++ chars ")(errno:".toList
      ++ decimal errno ++ chars " - ".toList ++ names.strerror errno
      ++ chars ") on recv()".toList
  | .received ip text =>
    chars "Received message from client(".toList ++ ip ++ chars ") ".toList
      ++ decimal text.length ++ chars "bytes\n".toList ++ text
  | .sendFailed ip errno =>
    chars "Failed to send message to client(".toList ++ ip ++ chars ")(errno:".toList
      ++ decimal errno ++ chars " - ".toList ++ names.strerror errno
      ++ chars ") on send()".toList
  | .sent ip sendLen text =>
    chars "Sent message to client(".toList ++ ip ++ chars ") ".toList
      ++ decimal sendLen ++ chars "bytes\n".toList ++ text
  | .sentDebug ip sendLen =>
    chars "Sent message to client(".toList ++ ip ++ chars ") ".toList
      ++ decimal sendLen ++ chars "bytes".toList

/-- The address in a statement that says that a client is gone. -/
def departed : Statement → Option Bytes
  | .disconnected ip => some ip
  | .recvFailed ip _ => some ip
  | .sendFailed ip _ => some ip
  | _ => none

/-- The bytes that a statement shows as sent. -/
def sentText : Statement → Bytes
  | .sent _ _ text => text
  | _ => []

end Statement

namespace Network

/-- `GetServerSocket()`. -/
def getServerSocket (net : Network) : int32 := net.mServerSocket

/-- `GetIPString(socket)`. -/
def getIPString (names : Names) (net : Network) (socket : int32) : Bytes :=
  if socket = net.getServerSocket then net.mServerIPString
  else
    match net.mSessions socket with
    | some session => names.inet_ntoa session.addr.sin_addr
    | none => chars "Unknown client(doesn't have session))".toList

/-! The statements of each method; `errno` is its value when they read it. -/

/-- Those of `setServerSocket(port)`; what goes wrong with the host's name is not logged. -/
def setServerSocketLogs (ret : SetupRet) (errno : ℤ) : List Statement :=
  if ret.reuseaddr = ERROR ∨ ret.keepalive = ERROR ∨ ret.nodelay = ERROR then
    [.failed .setsockopt errno]
  else if ret.nonblock = ERROR then
    [.failed .serverFcntl errno]
  else if ret.hostname = -1 then
    []
  else
    match ret.hostEntry with
    | none => []
    | some _ =>
      if ret.bind = ERROR then
        [.failed .bind errno]
      else if ret.listen = ERROR then
        [.failed .listen errno]
      else
        []

/-- Those of `Init(port)`. -/
def initLogs (ret : int32) (setup : SetupRet) (errno : ℤ) : List Statement :=
  if ret = ERROR then [.failed .socket errno] else setServerSocketLogs setup errno

/-- Those of `ConnectNewClient()`. -/
def connectNewClientLogs (accept : AcceptRet) (fcntl : int32) (errno : ℤ) : List Statement :=
  if accept.fd = ERROR then
    [.failed .accept errno]
  else if fcntl = ERROR then
    [.failed .clientFcntl errno]
  else
    []

/-- Those of `DisconnectClient(socket)`. -/
def disconnectClientLogs (names : Names) (net : Network) (socket : int32) : List Statement :=
  [.disconnected (net.getIPString names socket)]

/-- Those of `RecvFromClient(socket)`. -/
def recvFromClientLogs (names : Names) (net : Network) (socket : int32) (recv : RecvRet)
    (errno : ℤ) : List Statement :=
  let session := net.session socket
  let net := net.setSession socket session
  if session.isReservedDisconnect then
    []
  else
    match recv with
    | .error _ => [.recvFailed (net.getIPString names socket) errno]
    | .data bytes =>
      if bytes.length = 0 then
        [.disconnected (net.getIPString names socket)]
      else
        [.received (net.getIPString names socket) (cstr (bytes ++ [0]))]

/-- Those of `SendToClient(socket)`. -/
def sendToClientLogs (names : Names) (net : Network) (socket : int32) (send : SendRet)
    (errno : ℤ) : List Statement :=
  let session := net.session socket
  let net := net.setSession socket session
  if session.sendBufferRemain = false then
    if session.isReservedDisconnect then
      net.disconnectClientLogs names socket
    else
      []
  else
    let sendLen := toInt send.value
    if sendLen = -1 then
      [.sendFailed (net.getIPString names socket) errno]
    else
      -- the whole C string from the old index on, not only what was sent of it
      [.sent (net.getIPString names socket) sendLen (cstr session.unsent),
        .sentDebug (net.getIPString names socket) sendLen]

/-- The statements of a client call. -/
def callLogs (names : Names) (net : Network) (c : Call) (errno : ℤ) : List Statement :=
  match c with
  | .connectNewClient accept fcntl => connectNewClientLogs accept fcntl errno
  | .disconnectClient socket => net.disconnectClientLogs names socket
  | .recvFromClient socket recv => net.recvFromClientLogs names socket recv errno
  | .sendToClient socket send => net.sendToClientLogs names socket send errno
  | _ => []

/-- The statements of any call. -/
def logs (names : Names) (net : Network) (a : Act) (errno : ℤ) : List Statement :=
  match a with
  | .init ret setup => initLogs ret setup errno
  | .call c => net.callLogs names c errno

end Network

variable {names : Names} {net : Network} {k : int32} {c : Call} {a : Act} {s : Session}
  {errno : ℤ}

theorem getIPString_of_some (names : Names) (hs : net.mSessions k = some s)
    (hserver : k ≠ net.mServerSocket) :
    net.getIPString names k = names.inet_ntoa s.addr.sin_addr := by
  have hne : ¬ k = net.getServerSocket := hserver
  rw [Network.getIPString, if_neg hne, hs]

theorem getIPString_setSession (names : Names) (hserver : k ≠ net.mServerSocket) :
    (net.setSession k s).getIPString names k = names.inet_ntoa s.addr.sin_addr :=
  getIPString_of_some names Network.setSession_self hserver

/-! ### Departures -/

/-- The address a client has when a call accepts it on socket `k`. -/
def Act.accepts (k : int32) (a : Act) (r : Reply) : Option SockaddrIn :=
  match a, r.ret with
  | .call (.connectNewClient accept _), .socket fd =>
    if fd = k ∧ fd ≠ ERROR then some accept.addr else none
  | _, _ => none

/-- The address of the client that was last accepted on socket `k`. -/
def accepted (k : int32) (es : List (Event Network Act Reply)) : Option SockaddrIn :=
  es.foldl (fun addr e => (e.input.accepts k e.output).or addr) none

theorem accepted_concat (k : int32) (es : List (Event Network Act Reply))
    (e : Event Network Act Reply) :
    accepted k (es ++ [e]) = (e.input.accepts k e.output).or (accepted k es) := by
  simp only [accepted, List.foldl_append, List.foldl_cons, List.foldl_nil]

/-- The session of socket `k` ends in a call. -/
def Leaves (k : int32) (net : Network) (a : Act) : Prop :=
  (∃ s, net.mSessions k = some s) ∧ (live net a).1.mSessions k = none

/-- The server socket has no session, and every session has the address its client was
accepted with. -/
structure Guests (es : List (Event Network Act Reply)) (net : Network) : Prop where
  server : net.mSessions net.mServerSocket = none
  addr : ∀ k s, net.mSessions k = some s → accepted k es = some s.addr

theorem step_server (net : Network) (c : Call) :
    (step net c).1.mServerSocket = net.mServerSocket := by
  rcases step_touches net c with heq | ⟨-, ⟨s, heq⟩ | heq⟩ <;> rw [heq] <;> rfl

/-- A client keeps its address. -/
theorem step_addr (hconn : c.isConnect = false) (hs : net.mSessions c.on = some s) {t : Session}
    (ht : (step net c).1.mSessions c.on = some t) : t.addr = s.addr := by
  have hsess := Network.session_of_some hs
  have haddr : (net.session c.on).addr = s.addr := congrArg Session.addr hsess
  have hset : ∀ {u : Session}, (net.setSession c.on u).mSessions c.on = some t →
      u.addr = s.addr → t.addr = s.addr := by
    intro u hu hsame
    rw [Network.setSession_self] at hu
    obtain rfl := Option.some_inj.mp hu
    exact hsame
  have herase : ¬ (net.eraseSession c.on).mSessions c.on = some t := by
    rw [Network.eraseSession_self]
    simp
  cases c with
  | connectNewClient accept fcntl => exact absurd hconn (by simp [Call.isConnect])
  | disconnectClient k => exact absurd ht herase
  | recvFromClient k recv =>
    rcases net.recvFromClient_cases k recv hsess with ⟨-, heq⟩ | ⟨-, -, heq⟩ | ⟨-, -, heq⟩ <;>
      simp only [step, heq] at ht
    · exact hset ht rfl
    · exact absurd ht herase
    · exact hset ht rfl
  | sendToClient k send =>
    rcases net.sendToClient_cases k send hsess with ⟨-, -, heq⟩ | ⟨-, -, heq⟩ | ⟨-, -, heq⟩ |
      ⟨-, -, -, heq⟩ | ⟨-, -, heq⟩ <;> simp only [step, heq] at ht
    · exact hset ht rfl
    · exact absurd ht herase
    · exact absurd ht herase
    · exact hset ht rfl
    · exact hset ht rfl
  | pullFromRecvBuffer k buf d =>
    rcases net.pullFromRecvBuffer_cases k buf d hsess with ⟨-, -, heq⟩ | ⟨-, -, heq⟩ |
      ⟨-, -, heq⟩ | ⟨p, -, -, heq⟩ <;> simp only [step, heq] at ht <;> exact hset ht rfl
  | pushToSendBuffer k buf => exact hset ht haddr
  | reserveDisconnectClient k => exact hset ht haddr
  | clearRecvBuffer k => exact hset ht haddr
  | clearSendBuffer k => exact hset ht haddr

section Guests

variable {es : List (Event Network Act Reply)} {srv : int32 → Bool}

theorem Guests.ne_server (h : Guests es net) (hs : net.mSessions k = some s) :
    k ≠ net.mServerSocket := by
  rintro rfl
  exact absurd (hs.symm.trans h.server) (Option.some_ne_none s)

theorem Guests.keep (h : Guests es net) (hsock : (live net a).1.mServerSocket = net.mServerSocket)
    (hnone : ∀ k, a.accepts k (live net a).2 = none)
    (hserver : (live net a).1.mSessions net.mServerSocket = none)
    (haddr : ∀ k s, (live net a).1.mSessions k = some s →
      ∃ t, net.mSessions k = some t ∧ s.addr = t.addr) :
    Guests (es ++ [event live net a]) (live net a).1 := by
  refine ⟨by rw [hsock]; exact hserver, fun k s hs => ?_⟩
  obtain ⟨t, ht, heq⟩ := haddr k s hs
  rw [accepted_concat, event, hnone, heq]
  exact h.addr k t ht

/-- The number of a new server socket is one that no session is on. -/
theorem Guests.init {ret : int32} {setup : SetupRet} (h : Guests es net)
    (ht : Tracks srv (held (ledger es)) net)
    (hfresh : Fresh (held (ledger es)) (entries (net.init ret setup).2.2)) :
    Guests (es ++ [event live net (.init ret setup)]) (net.init ret setup).1 := by
  obtain ⟨hsess, hsock, hcases⟩ := init_cases net ret setup
  have hnone : net.mSessions ret = none := by
    by_cases hret : ret = ERROR
    · rw [hret]
      exact ht.error
    · have hclosed : held (ledger es) ret = false := by
        rcases hcases with ⟨hret', -⟩ | ⟨-, -, hent⟩ | ⟨-, -, hent⟩
        · exact absurd hret' hret
        · rw [hent] at hfresh
          exact hfresh.1
        · rw [hent] at hfresh
          exact hfresh.1
      have hor := (ht.held ret).symm.trans hclosed
      rw [Bool.or_eq_false_iff] at hor
      exact Option.isNone_iff_eq_none.mp (Option.isSome_eq_false_iff.mp hor.1)
  refine ⟨?_, fun k s hs => ?_⟩
  · rw [hsess, hsock]
    exact hnone
  · rw [hsess] at hs
    rw [accepted_concat]
    exact h.addr k s hs

/-- A client that is accepted is not on the server socket, which is open. -/
theorem Guests.connect {accept : AcceptRet} {fcntl : int32} (h : Guests es net)
    (hfresh : Fresh (held (ledger es))
      (entries (step net (.connectNewClient accept fcntl)).2.sys))
    (hlisten : Listening es net (.call (.connectNewClient accept fcntl))) :
    Guests (es ++ [event live net (.call (.connectNewClient accept fcntl))])
      (step net (.connectNewClient accept fcntl)).1 := by
  have hsock := step_server net (.connectNewClient accept fcntl)
  -- nobody is accepted unless both calls succeed
  have hfailed : ∀ sys, step net (.connectNewClient accept fcntl) = (net, ⟨.socket ERROR, sys⟩) →
      Guests (es ++ [event live net (.call (.connectNewClient accept fcntl))])
        (step net (.connectNewClient accept fcntl)).1 := by
    intro sys heq
    refine h.keep hsock (fun k => ?_) ?_ fun k s hs => ?_
    · show Act.accepts k _ (step net _).2 = none
      rw [heq]
      exact if_neg fun hk => hk.2 rfl
    · show (step net _).1.mSessions _ = none
      rw [heq]
      exact h.server
    · have hs' : (step net (.connectNewClient accept fcntl)).1.mSessions k = some s := hs
      rw [heq] at hs'
      exact ⟨s, hs', rfl⟩
  rcases net.connectNewClient_cases accept fcntl rfl with
    ⟨-, heq⟩ | ⟨-, -, heq⟩ | ⟨hfd, -, heq⟩
  · exact hfailed [.accept accept.fd] (by simp only [step, heq])
  · exact hfailed [.accept accept.fd, .fcntl accept.fd fcntl, .close accept.fd]
      (by simp only [step, heq])
  · have hstep : step net (.connectNewClient accept fcntl) =
        (net.setSession accept.fd { net.session accept.fd with
            addr := accept.addr, socket := accept.fd, sendBufferRemain := false,
            sendBufferIndex := 0, isReservedDisconnect := false },
          ⟨.socket accept.fd, [.accept accept.fd, .fcntl accept.fd fcntl]⟩) := by
      simp only [step, heq]
    have hentries : entries [.accept accept.fd, .fcntl accept.fd fcntl] =
        [.opened accept.fd] := by
      simp [entries, Syscall.entry, List.filterMap_cons, hfd]
    rw [hstep] at hfresh hsock ⊢
    simp only [hentries] at hfresh
    have hne : net.mServerSocket ≠ accept.fd := by
      intro hsame
      have hopen := hlisten _ rfl rfl hfd
      rw [hsame, hfresh.1] at hopen
      exact absurd hopen (by simp)
    have haccepts : ∀ k, (Act.call (.connectNewClient accept fcntl)).accepts k
        (live net (.call (.connectNewClient accept fcntl))).2 =
        if accept.fd = k ∧ accept.fd ≠ ERROR then some accept.addr else none := by
      intro k
      show Act.accepts k _ (step net _).2 = _
      rw [hstep]
      rfl
    refine ⟨?_, fun k s hs => ?_⟩
    · rw [hsock, Network.setSession_of_ne hne]
      exact h.server
    · rw [accepted_concat, event, haccepts]
      by_cases hk : k = accept.fd
      · rw [hk, Network.setSession_self] at hs
        rw [if_pos ⟨hk.symm, hfd⟩, ← Option.some_inj.mp hs]
        rfl
      · rw [Network.setSession_of_ne hk] at hs
        rw [if_neg fun hsame => hk hsame.1.symm]
        exact h.addr k s hs

/-- A call on a client's session leaves the others, and its address. -/
theorem Guests.client (h : Guests es net) (hconn : c.isConnect = false)
    (hon : ∃ s, net.mSessions c.on = some s) :
    Guests (es ++ [event live net (.call c)]) (step net c).1 := by
  obtain ⟨s, hs⟩ := hon
  have hother : ∀ {k : int32}, k ≠ c.on → (step net c).1.mSessions k = net.mSessions k := by
    intro k hk
    refine step_frame net c fun hnames => hk ?_
    exact (Call.names_eq_some_iff.mp hnames).1.symm
  refine h.keep (step_server net c) (fun k => ?_) ?_ fun k t ht => ?_
  · cases c with
    | connectNewClient accept fcntl => exact absurd hconn (by simp [Call.isConnect])
    | _ => rfl
  · exact (hother (h.ne_server hs).symm).trans h.server
  · have ht' : (step net c).1.mSessions k = some t := ht
    by_cases hk : k = c.on
    · rw [hk] at ht' ⊢
      exact ⟨s, hs, step_addr hconn hs ht'⟩
    · rw [hother hk] at ht'
      exact ⟨t, ht', rfl⟩

/-- **One call** keeps the server socket without a session, and the addresses. -/
theorem guests_step (h : Guests es net) (ht : Tracks srv (held (ledger es)) net)
    (hon : OnSession net a) (hfresh : Fresh (held (ledger es)) (entries (live net a).2.sys))
    (hlisten : Listening es net a) : Guests (es ++ [event live net a]) (live net a).1 := by
  cases a with
  | init ret setup => exact h.init ht hfresh
  | call c =>
    by_cases hconn : c.isConnect = true
    · cases c with
      | connectNewClient accept fcntl => exact h.connect hfresh hlisten
      | _ => exact absurd hconn (by simp [Call.isConnect])
    · rw [Bool.not_eq_true] at hconn
      exact h.client hconn (hon c rfl hconn)

end Guests

/-- The addresses in the statements that say that a client is gone. -/
def departures (sts : List Statement) : List Bytes := sts.filterMap Statement.departed

/-- `Init` and `ConnectNewClient` log no departure. -/
theorem departures_initLogs (ret : int32) (setup : SetupRet) :
    departures (Network.initLogs ret setup errno) = [] := by
  rw [Network.initLogs, Network.setServerSocketLogs]
  split_ifs <;> cases setup.hostEntry <;> rfl

theorem departures_connectNewClientLogs (accept : AcceptRet) (fcntl : int32) :
    departures (Network.connectNewClientLogs accept fcntl errno) = [] := by
  rw [Network.connectNewClientLogs]
  split_ifs <;> rfl

/-- A call on a session logs its departure, if the session ends. -/
theorem departures_callLogs (hconn : c.isConnect = false) (hs : net.mSessions c.on = some s)
    (hserver : c.on ≠ net.mServerSocket) :
    departures (net.callLogs names c errno) =
      if (step net c).1.mSessions c.on = none then [names.inet_ntoa s.addr.sin_addr] else [] := by
  have hip := getIPString_of_some names hs hserver
  have hip' := getIPString_setSession names (s := s) hserver
  have hsess := Network.session_of_some hs
  have hstays : ∀ {t : Session}, ¬ (net.setSession c.on t).mSessions c.on = none := by
    intro t
    rw [Network.setSession_self]
    simp
  have hgone : (net.eraseSession c.on).mSessions c.on = none := Network.eraseSession_self
  cases c with
  | connectNewClient accept fcntl => exact absurd hconn (by simp [Call.isConnect])
  | disconnectClient k =>
    show departures (net.disconnectClientLogs names k) = _
    simp only [Call.on] at hip hgone
    rw [Network.disconnectClientLogs, hip]
    exact (if_pos hgone).symm
  | recvFromClient k recv =>
    show departures (net.recvFromClientLogs names k recv errno) = _
    simp only [Call.on] at hip' hsess hgone hstays ⊢
    rw [Network.recvFromClientLogs.eq_def, hsess]
    rcases net.recvFromClient_cases k recv hsess with ⟨hres, heq⟩ | ⟨hres, hend, heq⟩ |
      ⟨hres, hend, heq⟩ <;> simp only [step, heq, hres, hip']
    · exact (if_neg hstays).symm
    · rw [if_pos hgone]
      rcases recv with err | bytes
      · rfl
      · have hnil : bytes = [] := by simpa [RecvRet.isEnd] using hend
        rw [hnil]
        rfl
    · rw [if_neg hstays]
      rcases recv with err | bytes
      · exact absurd hend (by simp [RecvRet.isEnd])
      · have hne : ¬ bytes.length = 0 := by simpa [RecvRet.isEnd] using hend
        simp only
        rw [if_neg hne]
        rfl
  | sendToClient k send =>
    show departures (net.sendToClientLogs names k send errno) = _
    simp only [Call.on] at hip' hsess hgone hstays ⊢
    rw [Network.sendToClientLogs, hsess]
    rcases net.sendToClient_cases k send hsess with ⟨hr, hres, heq⟩ | ⟨hr, hres, heq⟩ |
      ⟨hr, hlen, heq⟩ | ⟨hr, hlen, -, heq⟩ | ⟨hr, hlen, heq⟩ <;>
      simp only [step, heq, hr, hip', Network.disconnectClientLogs]
    · rw [if_neg hstays, hres]
      rfl
    · rw [if_pos hgone, hres]
      rfl
    · rw [if_pos hgone, hlen]
      rfl
    · rw [if_neg hstays, if_neg hlen]
      rfl
    · have hne : ¬ toInt send.value = -1 := by omega
      rw [if_neg hstays, if_neg hne]
      rfl
  | pullFromRecvBuffer k buf d =>
    rcases net.pullFromRecvBuffer_cases k buf d hsess with ⟨-, -, heq⟩ | ⟨-, -, heq⟩ |
      ⟨-, -, heq⟩ | ⟨p, -, -, heq⟩ <;> simp only [step, heq] <;> exact (if_neg hstays).symm
  | pushToSendBuffer k buf => exact (if_neg hstays).symm
  | reserveDisconnectClient k => exact (if_neg hstays).symm
  | clearRecvBuffer k => exact (if_neg hstays).symm
  | clearSendBuffer k => exact (if_neg hstays).symm

/-- A session ends in a client call on it only. -/
theorem Leaves.call (h : Leaves k net a) :
    ∃ c, a = .call c ∧ c.isConnect = false ∧ c.on = k := by
  obtain ⟨⟨s, hs⟩, hgone⟩ := h
  cases a with
  | init ret setup =>
    have hsess : (net.init ret setup).1.mSessions k = none := hgone
    rw [(init_cases net ret setup).1, hs] at hsess
    exact absurd hsess (by simp)
  | call c =>
    have hgone' : (step net c).1.mSessions k = none := hgone
    have hon : c.on = k := by
      by_contra hne
      rw [step_frame net c fun hnames => hne (Call.names_eq_some_iff.mp hnames).1, hs] at hgone'
      exact absurd hgone' (by simp)
    refine ⟨c, rfl, ?_, hon⟩
    have heff := step_effect net c
    generalize (step net c).1 = net', entries (step net c).2.sys = ents at heff hgone'
    cases heff with
    | refused => exact absurd (hs.symm.trans hgone') (by simp)
    | dropped => exact absurd (hs.symm.trans hgone') (by simp)
    | accepted t =>
      rw [← hon, Network.setSession_self] at hgone'
      exact absurd hgone' (by simp)
    | updated t hconn => exact hconn
    | erased hconn => exact hconn

/-- A departure is logged exactly if a session ends, with the address its client was
accepted with, and at a level that is delivered unless it was lowered. -/
def Farewell (names : Names) (es : List (Event Network Act Reply)) (net : Network) (a : Act)
    (errno : ℤ) : Prop :=
  (∀ k, Leaves k net a → ∃ addr, accepted k es = some addr ∧
    departures (net.logs names a errno) = [names.inet_ntoa addr.sin_addr]) ∧
  ((∀ k, ¬ Leaves k net a) → departures (net.logs names a errno) = []) ∧
  ∀ st ∈ net.logs names a errno, st.departed ≠ none →
    st.level.number ≤ eSeverityLevel.Informational.number

theorem level_of_departed {st : Statement} (h : st.departed ≠ none) :
    st.level.number ≤ eSeverityLevel.Informational.number := by
  cases st with
  | disconnected => exact Nat.le_of_ble_eq_true rfl
  | recvFailed => exact Nat.le_of_ble_eq_true rfl
  | sendFailed => exact Nat.le_of_ble_eq_true rfl
  | _ => exact absurd rfl h

theorem Guests.farewell {es : List (Event Network Act Reply)} (h : Guests es net)
    (hon : OnSession net a) (errno : ℤ) : Farewell names es net a errno := by
  refine ⟨fun k hleaves => ?_, fun hstay => ?_, fun st _ hst => level_of_departed hst⟩
  · obtain ⟨c, rfl, hconn, rfl⟩ := hleaves.call
    obtain ⟨⟨s, hs⟩, hgone⟩ := hleaves
    refine ⟨s.addr, h.addr c.on s hs, ?_⟩
    show departures (net.callLogs names c errno) = _
    rw [departures_callLogs hconn hs (h.ne_server hs)]
    exact if_pos hgone
  · cases a with
    | init ret setup => exact departures_initLogs ret setup
    | call c =>
      by_cases hconn : c.isConnect = true
      · cases c with
        | connectNewClient accept fcntl => exact departures_connectNewClientLogs accept fcntl
        | _ => exact absurd hconn (by simp [Call.isConnect])
      · rw [Bool.not_eq_true] at hconn
        obtain ⟨s, hs⟩ := hon c rfl hconn
        show departures (net.callLogs names c errno) = _
        rw [departures_callLogs hconn hs (h.ne_server hs)]
        exact if_neg fun hgone => hstay c.on ⟨⟨s, hs⟩, hgone⟩

theorem guests_run {acts : List Act} :
    Along live Network.new (fun _ net a => OnSession net a) acts →
    Fresh (fun _ => false) (ledger (trace live Network.new acts)) →
    Along live Network.new Listening acts → Always live Network.new Guests acts := by
  induction acts using List.reverseRecOn with
  | nil =>
    intro _ _ _
    exact always_nil.mpr ⟨rfl, fun k s hs => absurd hs (by simp [Network.new])⟩
  | append_singleton acts a ih =>
    intro hon hfresh hlisten
    obtain ⟨hon, hlast⟩ := (along_concat acts a).mp hon
    obtain ⟨hlisten, hopen⟩ := (along_concat acts a).mp hlisten
    rw [trace_concat, ledger_concat, fresh_append] at hfresh
    have hrun := ih hon hfresh.1 hlisten
    obtain ⟨ht, -⟩ := alive acts hon hfresh.1
    refine (always_concat acts a).mpr ⟨hrun, ?_⟩
    rw [trace_concat, final_concat]
    exact guests_step hrun.last ht hlast hfresh.2 hopen

/-- **Every departure is logged**: in every run up to the destructor, a call in which a
session ends logs this once, with the address that `accept()` gave for its client, and no
other call logs a departure.  The kernel hands out descriptors that are not open,
`accept()` needs an open server socket, and the client methods are called on sockets that
have a session. -/
theorem departures_logged (names : Names) {acts : List Act}
    (hon : Along live Network.new (fun _ net a => OnSession net a) acts)
    (hfresh : Fresh (fun _ => false) (ledger (trace live Network.new acts)))
    (hlisten : Along live Network.new Listening acts) :
    Along live Network.new (fun es net a => ∀ errno, Farewell names es net a errno) acts := by
  intro pre a hpre errno
  have hguests := guests_run hon hfresh hlisten pre ((List.prefix_append _ _).trans hpre)
  exact hguests.farewell (hon pre a hpre) errno

/-- A client that goes. -/
theorem departures_logged_gone :
    Along live Network.new
      (fun es net a => ∀ errno, Farewell ⟨fun _ => [49], fun _ => [63]⟩ es net a errno)
      [.init 3 ⟨0, 0, 0, 0, 0, some [49], 0, 0⟩, .call (.connectNewClient ⟨4, ⟨2, 0, 0⟩⟩ 0),
        .call (.recvFromClient 4 (.data []))] := by
  refine departures_logged _ ?_ ?_ ?_
  · refine (along_concat [_, _] _).mpr ⟨(along_concat [_] _).mpr ⟨(along_concat [] _).mpr
      ⟨along_nil, ?_⟩, ?_⟩, ?_⟩
    · intro c hc
      exact absurd hc (by simp)
    · intro c hc hconn
      obtain rfl := Act.call.inj hc
      exact absurd hconn (by simp [Call.isConnect])
    · intro c hc _
      obtain rfl := Act.call.inj hc
      exact ⟨_, rfl⟩
  · show Fresh (fun _ => false) [.opened 3, .opened 4, .closed 4]
    simp [Fresh]
  · refine (along_concat [_, _] _).mpr ⟨(along_concat [_] _).mpr ⟨(along_concat [] _).mpr
      ⟨along_nil, ?_⟩, ?_⟩, ?_⟩
    · intro c hc
      exact absurd hc (by simp)
    · intro c _ _ _
      show held [.opened (3 : int32)] 3 = true
      simp [held]
    · intro c hc hconn
      obtain rfl := Act.call.inj hc
      exact absurd hconn (by simp [Call.isConnect])

/-! ### What is logged as sent -/

/-- The bytes that a call on socket `k` logs as sent. -/
def loggedBy (names : Names) (errno : ℤ) (k : int32) (net : Network) (c : Call) : Bytes :=
  if c.on = k then (net.callLogs names c errno).flatMap Statement.sentText else []

/-- The bytes that the calls on socket `k` have logged as sent. -/
def loggedTo (names : Names) (errno : ℤ) (k : int32) (es : List NetEvent) : Bytes :=
  es.flatMap fun e => loggedBy names errno k e.before e.input

/-- A `send()` to socket `k` that succeeds takes all it was handed. -/
def Syscall.Whole (k : int32) : Syscall → Prop
  | .send fd handed (.sent n) => fd = k → n = handed.length
  | _ => True

/-- Every `send()` of the call takes all. -/
def SendsWhole (k : int32) (net : Network) (c : Call) : Prop :=
  ∀ call ∈ (step net c).2.sys, call.Whole k

theorem loggedTo_concat (k : int32) (es : List NetEvent) (e : NetEvent) :
    loggedTo names errno k (es ++ [e]) =
      loggedTo names errno k es ++ loggedBy names errno k e.before e.input := by
  simp [loggedTo]

/-- Calls that send nothing log nothing as sent. -/
theorem loggedBy_eq_nil (h : ∀ send, c ≠ .sendToClient k send) :
    loggedBy names errno k net c = [] := by
  rw [loggedBy]
  split_ifs with hon
  · cases c with
    | connectNewClient accept fcntl =>
      show (Network.connectNewClientLogs accept fcntl errno).flatMap _ = []
      rw [Network.connectNewClientLogs]
      split_ifs <;> rfl
    | sendToClient l send => exact absurd (congrArg (Call.sendToClient · send) hon) (h send)
    | recvFromClient l recv =>
      show (net.recvFromClientLogs names l recv errno).flatMap _ = []
      rw [Network.recvFromClientLogs.eq_def]
      rcases recv with err | bytes <;> simp only <;> split_ifs <;> rfl
    | _ => rfl
  · rfl

/-- **One call** logs as sent what it sends, exactly if `send()` takes all. -/
theorem loggedBy_eq_iff {es : List NetEvent} (hok : KernelOk es net c) :
    loggedBy names errno k net c = sentBy k (step net c).2 ↔ SendsWhole k net c := by
  by_cases hc : ∀ send, c ≠ .sendToClient k send
  · rw [loggedBy_eq_nil hc, sentBy_eq_nil hc]
    refine iff_of_true rfl fun call hcall => ?_
    cases call with
    | send fd handed ret =>
      have hsend := (step_sys net c).2 fd handed ret hcall
      cases ret with
      | error err => exact trivial
      | sent n =>
        rintro rfl
        exact absurd hsend (hc _)
    | _ => exact trivial
  · simp only [ne_eq, not_forall, not_not] at hc
    obtain ⟨send, rfl⟩ := hc
    have hlogs : loggedBy names errno k net (.sendToClient k send) =
        (net.sendToClientLogs names k send errno).flatMap Statement.sentText := if_pos rfl
    have hvalue : ∀ n, Syscall.send k (cstr (net.session k).unsent) (.sent n) ∈
        (step net (.sendToClient k (.sent n))).2.sys → send = .sent n →
        ¬ toInt send.value = -1 := by
      rintro n hmem rfl
      have hbound : Syscall.Ok (.send k (cstr (net.session k).unsent) (.sent n)) := hok _ hmem
      rw [SendRet.value, toInt_natCast hbound.2]
      omega
    rw [hlogs, Network.sendToClientLogs]
    rcases sendToClient_ok_cases rfl hok with ⟨hr, hres, heq⟩ | ⟨hr, hres, heq⟩ |
      ⟨err, rfl, hr, heq⟩ | ⟨n, rfl, hr, hlt, heq⟩ | ⟨rfl, hr, heq⟩
    · have hsys : (step net (.sendToClient k send)).2.sys = [] := by simp only [step, heq]
      rw [SendsWhole, sentBy, hsys, hr, hres]
      simp
    · have hsys : (step net (.sendToClient k send)).2.sys = [.close k] := by
        simp only [step, heq]
      rw [SendsWhole, sentBy, hsys, hr, hres]
      simp [Network.disconnectClientLogs, Statement.sentText, Syscall.accepted, Syscall.Whole]
    · have hsys : (step net (.sendToClient k (.error err))).2.sys =
          [.send k (cstr (net.session k).unsent) (.error err), .close k] := by
        simp only [step, heq]
      have hlen : toInt (SendRet.error err).value = -1 := by
        show toInt (-1) = -1
        decide
      rw [SendsWhole, sentBy, hsys, hr, hlen]
      simp [Statement.sentText, Syscall.accepted, Syscall.Whole]
    · -- a partial send: the statement shows more than was sent
      have hsys : (step net (.sendToClient k (.sent n))).2.sys =
          [.send k (cstr (net.session k).unsent) (.sent n)] := by simp only [step, heq]
      have hlen := hvalue n (by rw [hsys]; exact List.mem_singleton_self _) rfl
      rw [SendsWhole, sentBy, hsys, hr]
      rw [← length_cstr] at hlt
      simp only [Bool.true_eq_false, if_false, if_neg hlen]
      constructor
      · intro hsame
        have hlength := congrArg List.length hsame
        simp [Statement.sentText, Syscall.accepted] at hlength
        omega
      · intro hwhole
        have hn : n = (cstr (net.session k).unsent).length :=
          hwhole _ (List.mem_singleton_self _) rfl
        omega
    · have hsys : (step net (.sendToClient k (.sent (strlen (net.session k).unsent)))).2.sys =
          [.send k (cstr (net.session k).unsent) (.sent (strlen (net.session k).unsent))] := by
        simp only [step, heq]
      have hlen := hvalue _ (by rw [hsys]; exact List.mem_singleton_self _) rfl
      rw [SendsWhole, sentBy, hsys, hr]
      simp only [Bool.true_eq_false, if_false, if_neg hlen]
      refine iff_of_true ?_ fun call hcall => ?_
      · have hle : (cstr (net.session k).unsent).length ≤ strlen (net.session k).unsent :=
          (length_cstr _).le
        simp [Statement.sentText, Syscall.accepted, List.take_of_length_le hle]
      · rw [List.mem_singleton.mp hcall]
        exact fun _ => (length_cstr _).symm

/-- **What is logged as sent**: over every run, the bytes that the statements show as sent
to a socket are those that `send()` has accepted for it exactly if no `send()` to it took
only a part. -/
theorem logged_eq_sent_iff (names : Names) (errno : ℤ) {calls : List Call}
    (hkernel : Along step net KernelOk calls) :
    Always step net (fun es _ => loggedTo names errno k es = sentTo k es) calls ↔
      Along step net (fun _ net c => SendsWhole k net c) calls := by
  refine always_iff_along (I := fun es _ => loggedTo names errno k es = sentTo k es) rfl rfl
    ?_ ?_ hkernel
  · intro es t c h hok hwhole
    have hsame : loggedTo names errno k (es ++ [event step t c]) =
        sentTo k (es ++ [event step t c]) := by
      rw [loggedTo_concat, sentTo_concat, h]
      exact congrArg _ ((loggedBy_eq_iff hok).mpr hwhole)
    exact ⟨hsame, hsame⟩
  · intro es t c h hok hpart hsame
    rw [loggedTo_concat, sentTo_concat, h] at hsame
    exact hpart ((loggedBy_eq_iff hok).mp (List.append_cancel_left hsame))

/-- Three bytes that go out in two pieces. -/
theorem logged_eq_sent_iff_pieces :
    Always step .new (fun es _ => loggedTo ⟨fun _ => [49], fun _ => [63]⟩ 0 4 es = sentTo 4 es)
      [client4, .pushToSendBuffer 4 [65, 66, 67], .sendToClient 4 (.sent 1),
        .sendToClient 4 (.sent 2)] ↔
    Along step .new (fun _ net c => SendsWhole 4 net c)
      [client4, .pushToSendBuffer 4 [65, 66, 67], .sendToClient 4 (.sent 1),
        .sendToClient 4 (.sent 2)] :=
  logged_eq_sent_iff _ 0 (by decide)

end Gdf
