/-
The class `Network`: a listening server socket and a table of client sessions.

Every method is a function of the object and of what the kernel answers
(`accept()`, `fcntl()`, `recv()`, `send()`, ...); it gives the object back, the
return value, and the system calls it made on descriptors, in order.

* `mSessions` is a `std::map` that is only read, written and erased by key, so it
  is the function from a socket to its session, if there is one.
* `mSessions[socket]` inserts a value-initialised `Session` when the key is
  absent (`Network.session`, `Network.setSession`).
* A `std::string` is its list of bytes; `reserve` has no visible effect.
* The `LOG` statements read the object and change nothing in it; they are left
  out here.
-/
import BsdGdf.Config
import BsdGdf.CString
import BsdGdf.Streams
import Mathlib.Logic.Function.Basic

namespace Gdf

/-- `index += static_cast<uint64>(d)` for an `int d`: a negative `d` is its two's
complement, so the sum wraps.  An index into a string plus a length that fits in
it never reaches `2 ^ 64`. -/
def addUInt64 (index : ℕ) (d : ℤ) : ℕ :=
  if 0 ≤ index + d then (index + d).toNat else (index + d + 2 ^ 64).toNat

/-! ### What the kernel answers -/

/-- The values of `errno` the callers of a non-blocking socket tell apart. -/
inductive Errno
  | EAGAIN
  | EWOULDBLOCK
  | EINTR
  | other (code : ℕ)
  deriving DecidableEq, Repr

/-- `struct sockaddr_in`. -/
structure SockaddrIn where
  sin_family : UInt8
  sin_port : UInt16
  sin_addr : UInt32
  deriving DecidableEq, Repr

/-- The result of `accept()`: a descriptor or -1, and the peer's address. -/
structure AcceptRet where
  fd : int32
  addr : SockaddrIn
  deriving DecidableEq, Repr

/-- The result of `recv()`: -1, or the bytes it stored (none at the end of the
stream). -/
inductive RecvRet
  | error (errno : Errno)
  | data (bytes : Bytes)
  deriving DecidableEq, Repr

/-- The result of `send()`: -1, or the number of bytes it accepted. -/
inductive SendRet
  | error (errno : Errno)
  | sent (n : ℕ)
  deriving DecidableEq, Repr

/-- The `ssize_t` that `send()` returns. -/
def SendRet.value : SendRet → ℤ
  | .error _ => -1
  | .sent n => n

/-- The results of the calls `setServerSocket` makes, one after the other, up to
the first that fails. -/
structure SetupRet where
  reuseaddr : int32
  keepalive : int32
  nodelay : int32
  nonblock : int32
  hostname : int32
  hostEntry : Option Bytes
  bind : int32
  listen : int32
  deriving DecidableEq, Repr

/-- A system call on a descriptor, as the object made it. -/
inductive Syscall
  | socket (ret : int32)
  | accept (ret : int32)
  /-- `fcntl(fd, F_SETFL, O_NONBLOCK)` -/
  | fcntl (fd : int32) (ret : int32)
  | recv (fd : int32) (ret : RecvRet)
  | send (fd : int32) (handed : Bytes) (ret : SendRet)
  | close (fd : int32)
  deriving DecidableEq, Repr

/-! ### The object -/

/-- `kRecvBufferSize`. -/
def kRecvBufferSize : ℕ := 1024

/-- `struct Session`. -/
structure Session where
  addr : SockaddrIn
  socket : int32
  recvBuffer : Bytes
  sendBuffer : Bytes
  sendBufferIndex : ℕ
  sendBufferRemain : Bool
  isReservedDisconnect : Bool
  deriving DecidableEq, Repr

/-- The value-initialised `Session()` that `mSessions[socket]` inserts. -/
def Session.zero : Session where
  addr := ⟨0, 0, 0⟩
  socket := 0
  recvBuffer := []
  sendBuffer := []
  sendBufferIndex := 0
  sendBufferRemain := false
  isReservedDisconnect := false

/-- `c_sendBuffer + sendBufferIndex`, up to the end of the string. -/
def Session.unsent (s : Session) : Bytes := s.sendBuffer.drop s.sendBufferIndex

/-- `class Network`. -/
structure Network where
  mServerSocket : int32
  mServerIPString : Bytes
  mSessions : int32 → Option Session

namespace Network

/-- `Network::Network()`. -/
def new : Network := ⟨ERROR, [], fun _ => none⟩

/-- What the reference `mSessions[socket]` refers to. -/
def session (net : Network) (socket : int32) : Session :=
  (net.mSessions socket).getD Session.zero

/-- The object after `mSessions[socket]` was bound and left with the value `s`. -/
def setSession (net : Network) (socket : int32) (s : Session) : Network :=
  { net with mSessions := Function.update net.mSessions socket (some s) }

/-- `mSessions.erase(socket)`. -/
def eraseSession (net : Network) (socket : int32) : Network :=
  { net with mSessions := Function.update net.mSessions socket none }

/-! ### The server socket -/

/-- `createServerSocket()`; `ret` is what `socket()` returns. -/
def createServerSocket (net : Network) (ret : int32) : Network × Bool × List Syscall :=
  let net := { net with mServerSocket := ret }
  if net.mServerSocket = ERROR then
    (net, FAILURE, [.socket ret])
  else
    (net, SUCCESS, [.socket ret])

/-- `setServerSocket(port)`.  Of its calls on the server socket only `fcntl()` is listed:
`setsockopt()`, `bind()` and `listen()` are nothing but their results. -/
def setServerSocket (net : Network) (ret : SetupRet) : Network × Bool × List Syscall :=
  -- the first call that fails ends the function; the socket stays as it is
  if ret.reuseaddr = ERROR ∨ ret.keepalive = ERROR ∨ ret.nodelay = ERROR then
    (net, FAILURE, [])
  else
    let sys := [Syscall.fcntl net.mServerSocket ret.nonblock]
    if ret.nonblock = ERROR then
      (net, FAILURE, sys)
    else if ret.hostname = -1 then
      (net, FAILURE, sys)
    else
      match ret.hostEntry with
      | none => (net, FAILURE, sys)
      | some ip =>
        let net := { net with mServerIPString := ip }
        if ret.bind = ERROR then
          (net, FAILURE, sys)
        else if ret.listen = ERROR then
          (net, FAILURE, sys)
        else
          (net, SUCCESS, sys)

/-- `Init(port)`. -/
def init (net : Network) (ret : int32) (setup : SetupRet) : Network × Bool × List Syscall :=
  let (net, created, sys) := net.createServerSocket ret
  if created = FAILURE then
    (net, FAILURE, sys)
  else
    let (net, set, sys') := net.setServerSocket setup
    if set = FAILURE then
      -- closed, but its number stays in the object
      (net, FAILURE, sys ++ sys' ++ [.close net.mServerSocket])
    else
      (net, SUCCESS, sys ++ sys')

/-- `~Network()`. -/
def destroy (net : Network) : Network × List Syscall :=
  ({ net with mSessions := fun _ => none }, [.close net.mServerSocket])

/-! ### Clients -/

/-- `ConnectNewClient()`. -/
def connectNewClient (net : Network) (accept : AcceptRet) (fcntl : int32) :
    Network × int32 × List Syscall :=
  let clientSocket := accept.fd
  if clientSocket = ERROR then
    (net, ERROR, [.accept clientSocket])
  else if fcntl = ERROR then
    (net, ERROR, [.accept clientSocket, .fcntl clientSocket fcntl, .close clientSocket])
  else
    let session := net.session clientSocket
    -- the two buffers are only reserved: what they hold stays
    (net.setSession clientSocket { session with
        addr := accept.addr
        socket := clientSocket
        sendBufferRemain := false
        sendBufferIndex := 0
        isReservedDisconnect := false },
      clientSocket, [.accept clientSocket, .fcntl clientSocket fcntl])

/-- `DisconnectClient(socket)`. -/
def disconnectClient (net : Network) (socket : int32) : Network × List Syscall :=
  (net.eraseSession socket, [.close socket])

/-- `RecvFromClient(socket)`. -/
def recvFromClient (net : Network) (socket : int32) (recv : RecvRet) :
    Network × Bool × List Syscall :=
  let session := net.session socket
  let net := net.setSession socket session
  -- a client that is about to be disconnected is not read any more
  if session.isReservedDisconnect then
    (net, SUCCESS, [])
  else
    match recv with
    | .error _ => (net.eraseSession socket, FAILURE, [.recv socket recv, .close socket])
    | .data bytes =>
      let recvLen := bytes.length
      if recvLen = 0 then
        (net.eraseSession socket, FAILURE, [.recv socket recv, .close socket])
      else
        -- `buffer[recvLen] = '\0'; session.recvBuffer += buffer;`
        let session := { session with recvBuffer := session.recvBuffer ++ cstr (bytes ++ [0]) }
        (net.setSession socket session, SUCCESS, [.recv socket recv])

/-- `SendToClient(socket)`. -/
def sendToClient (net : Network) (socket : int32) (send : SendRet) :
    Network × Bool × List Syscall :=
  let session := net.session socket
  let net := net.setSession socket session
  if session.sendBufferRemain = false then
    if session.isReservedDisconnect then
      let (net, sys) := net.disconnectClient socket
      (net, SUCCESS, sys)
    else
      (net, SUCCESS, [])
  else
    -- the length of a C string: the unsent bytes up to the first NUL
    let remainLen := strlen session.unsent
    let call := Syscall.send socket (session.unsent.take remainLen) send
    let sendLen := toInt send.value
    if sendLen = -1 then
      (net.eraseSession socket, FAILURE, [call, .close socket])
    else
      let session :=
        { session with sendBufferIndex := addUInt64 session.sendBufferIndex sendLen }
      let session :=
        if sendLen = remainLen then
          { session with sendBufferRemain := false, sendBufferIndex := 0, sendBuffer := [] }
        else session
      (net.setSession socket session, SUCCESS, [call])

/-- `PushToSendBuffer(socket, buf)`. -/
def pushToSendBuffer (net : Network) (socket : int32) (buf : Bytes) : Network :=
  let session := net.session socket
  net.setSession socket { session with
    sendBuffer := session.unsent ++ buf
    sendBufferIndex := 0
    sendBufferRemain := true }

/-- `PullFromRecvBuffer(socket, buf, endString)`; the last component is `buf`
afterwards.  `endString == "\0"` compares with the empty C string. -/
def pullFromRecvBuffer (net : Network) (socket : int32) (buf endString : Bytes) :
    Network × Bool × Bytes :=
  let session := net.session socket
  let net := net.setSession socket session
  if endString = [] then
    if session.recvBuffer.length = 0 then
      (net, false, buf)
    else
      (net.setSession socket { session with recvBuffer := [] }, true, session.recvBuffer)
  else
    match Framing.find endString session.recvBuffer with
    | none => (net, false, buf)
    | some subStrLen =>
      (net.setSession socket { session with
          recvBuffer := session.recvBuffer.drop (subStrLen + endString.length) },
        true, session.recvBuffer.take subStrLen)

/-- `ReserveDisconnectClient(socket)`. -/
def reserveDisconnectClient (net : Network) (socket : int32) : Network :=
  net.setSession socket { net.session socket with isReservedDisconnect := true }

/-- `ClearRecvBuffer(socket)`. -/
def clearRecvBuffer (net : Network) (socket : int32) : Network :=
  net.setSession socket { net.session socket with recvBuffer := [] }

/-- `ClearSendBuffer(socket)`. -/
def clearSendBuffer (net : Network) (socket : int32) : Network :=
  net.setSession socket { net.session socket with
    sendBuffer := []
    sendBufferIndex := 0
    sendBufferRemain := false }

end Network

end Gdf
