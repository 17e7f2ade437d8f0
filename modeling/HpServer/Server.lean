import HpServer.HttpConn
import HpServer.MessageBuilder
import HpServer.Timer

/-!
# The reactor's handlers (`src/hpserver.cpp`)

The tables the reactor keeps for its clients, what the kernel knows of their descriptors (which are open, and the
events each was last registered for), and the functions the event loop calls. The tables have `MAX_FD` places;
`connections_[fd]->` is `deref`, which faults outside the table and on an empty place. What the system calls of a
handler answer is its argument `io`.
-/

namespace HpServer

open EpollMask Errno

/-- `MAX_FD`. -/
def maxFd : Int := 65536

/-- `kClientEvents`. -/
def kClientEvents : EpollMask := epollIn ||| epollEt ||| epollRdhup

/-- `kClientIdleTimeoutMs`. -/
def kClientIdleTimeoutMs : Int := 15000

/-- `is_expected_connect_shutdown_errno`. -/
def isExpectedConnectShutdownErrno (e : Nat) : Bool := e = econnreset || e = epipe || e = enotconn || e = econnaborted

/-- What the code takes from outside: the request parser and `strerror`. -/
structure Env (π : Type) where
  parser : RequestParser π
  strerror : Nat → Bytes

/-- An access to `connections_` that has no defined result. -/
inductive Fault where
  | outOfRange (fd : Int)
  | null (fd : Int)
  deriving DecidableEq

/-- The answers to the system calls of one handler: its sends and reads, whether `epoll_ctl` succeeds, and whether the
pool admits a task. -/
structure Io where
  sends : List SendOutcome := []
  recvs : List RecvOutcome := []
  ctlOk : Bool := true
  admitted : Bool := true

/-- The reactor's tables and the kernel's view of the descriptors. -/
structure Server (π : Type) where
  connections : Int → Option (HttpConn π)
  proxyInflight : Int → Bool
  closeAfterFlush : Int → Bool
  connectionTimer : Timer Int
  interest : Int → Option EpollMask
  isOpen : Int → Bool

/-- Why `flush_client_output` answers -1. -/
inductive FlushError where
  | noEntry
  | send (errno : Nat)
  | epollCtl
  deriving DecidableEq

/-- How the loop of `flush_client_output` ends. -/
inductive FlushEnd where
  | done
  | blocked
  | failed (errno : Nat)
  | outOfFuel
  deriving DecidableEq

/-- `proxy_done_event`. `job` and `established` are ghost data: the job the event is of, and whether its tunnel was
opened. -/
structure DoneEvent where
  clientFd : Int
  ok : Bool
  response : Bytes := []
  closeAfterDone : Bool
  isConnect : Bool
  err : Nat
  job : Nat
  established : Bool := false

/-- What became of the connection a done event was used on. -/
inductive Closing where
  | closed
  | afterFlush
  | kept
  deriving DecidableEq

/-- Ghost record of a done event used on a live connection: `conn` is the connection found in the table. -/
structure Consumed where
  event : DoneEvent
  conn : Nat
  queued : Bytes
  closing : Closing

/-- Ghost record of a connection closed by the `EPOLLOUT` branch: whether output was pending, and the failure of the
flush. -/
structure OutClose where
  conn : Nat
  pending : Bool
  error : Option FlushError

/-- What `handle_client` comes to: the answer 0 with nothing to do, the answer -1, or a request to submit. -/
inductive Handled where
  | nothing
  | failed
  | submit (req : RequestInfo)

/-- The descriptor is a place of the tables. -/
def InTable (fd : Int) : Prop := 0 ≤ fd ∧ fd < maxFd

instance (fd : Int) : Decidable (InTable fd) := inferInstanceAs (Decidable (_ ∧ _))

namespace Server

variable {π : Type}

/-- `connections_[fd]->`. -/
def deref (s : Server π) (fd : Int) : Except Fault (HttpConn π) :=
  if InTable fd then
    match s.connections fd with
    | some conn => .ok conn
    | none => .error (.null fd)
  else .error (.outOfRange fd)

/-- The check at the begin of the handlers: the descriptor is in the table and its place is taken. -/
def present (s : Server π) (fd : Int) : Bool := decide (InTable fd) && (s.connections fd).isSome

/-- Store a connection's new state. -/
def setConn (s : Server π) (fd : Int) (conn : HttpConn π) : Server π :=
  { s with connections := Function.update s.connections fd (some conn) }

/-- `close_client`; destroying the connection closes its descriptor. -/
def closeClient (s : Server π) (fd : Int) : Server π :=
  { connectionTimer := s.connectionTimer.remove fd
    proxyInflight := if InTable fd then Function.update s.proxyInflight fd false else s.proxyInflight
    closeAfterFlush := if InTable fd then Function.update s.closeAfterFlush fd false else s.closeAfterFlush
    interest := Function.update s.interest fd none
    connections := if InTable fd then Function.update s.connections fd none else s.connections
    isOpen := if InTable fd then (s.connections fd).elim s.isOpen fun conn => Function.update s.isOpen conn.io.fd false
      else s.isOpen }

/-- `refresh_client_timeout`; the callback of an entry is `close_client` of the descriptor it holds. -/
def refreshClientTimeout (s : Server π) (now : Int) (fd : Int) : Server π :=
  if s.present fd = false then s
  else if s.connectionTimer.contains fd then
    { s with connectionTimer := s.connectionTimer.adjust now fd kClientIdleTimeoutMs }
  else { s with connectionTimer := s.connectionTimer.add now fd kClientIdleTimeoutMs fd }

/-- The callback of a timer entry. -/
def onTimeout (s : Server π) (fd : Int) : Server π := if s.present fd = false then s else s.closeClient fd

/-- The loop of `flush_client_output`. Every turn that goes on has used up an answer, so one more turn than there are
answers is enough (`flushLoop_fuel`). -/
def flushLoop : Nat → ConnectionIo → List SendOutcome → ConnectionIo × FlushEnd
  | 0, c, _ => (c, .outOfFuel)
  | fuel + 1, c, sends =>
    if c.hasPendingWrite then
      match c.flushToSocket sends with
      | (c', .ok total, rest) =>
        if 0 < total then flushLoop fuel c' rest
        else if c'.hasPendingWrite then (c', .blocked)
        else (c', .failed 0)
      | (c', .error e, _) => if e = eagain then (c', .blocked) else (c', .failed e)
    else (c, .done)

/-- `poller_.modify`, then the answer 0. -/
def modify (s : Server π) (fd : Int) (events : EpollMask) (ctlOk : Bool) : Server π × Option FlushError :=
  if ctlOk then ({ s with interest := Function.update s.interest fd (some events) }, none) else (s, some .epollCtl)

/-- `flush_client_output`; an error is the answer -1. -/
def flushClientOutput (s : Server π) (fd : Int) (io : Io) : Except Fault (Server π × Option FlushError) :=
  if s.present fd = false then .ok (s, some .noEntry)
  else do
    let conn ← s.deref fd
    match flushLoop (io.sends.length + 1) conn.io io.sends with
    | (c, .done) => return (s.setConn fd { conn with io := c }).modify fd kClientEvents io.ctlOk
    | (c, .blocked) => return (s.setConn fd { conn with io := c }).modify fd (kClientEvents ||| epollOut) io.ctlOk
    | (c, .failed e) => return (s.setConn fd { conn with io := c }, some (.send e))
    | (c, .outOfFuel) => return (s.setConn fd { conn with io := c }, some (.send 0))

/-- `handle_client` up to the submission of the job. -/
def handleClient (env : Env π) (s : Server π) (fd : Int) (io : Io) : Except Fault (Server π × Handled) :=
  if s.present fd = false then .ok (s, .failed)
  else if s.proxyInflight fd then .ok (s, .nothing)
  else do
    let conn ← s.deref fd
    match conn.io.readFromSocket io.recvs with
    | (c, .error e) =>
      return (s.setConn fd { conn with io := c }, if e = eagain then .nothing else .failed)
    | (c, .ok _) =>
      match HttpConn.parseAvailableData env.parser { conn with io := c } with
      | (conn', false) => return (s.setConn fd conn', .failed)
      | (conn', true) =>
        if env.parser.isMessageComplete conn'.parser then
          let s' := s.setConn fd (conn'.resetForNextMessage env.parser)
          return ({ s' with proxyInflight := Function.update s'.proxyInflight fd true },
            .submit (env.parser.request conn'.parser))
        else return (s.setConn fd conn', .nothing)

/-- The end of a drained event once its output is queued: flush, and close now or after the flush. -/
def flushAndClose (s : Server π) (now : Int) (fd : Int) (closeAfterDone : Bool) (io : Io) :
    Except Fault (Server π × Closing) := do
  let (s', err) ← s.flushClientOutput fd io
  if err ≠ none then return (s'.closeClient fd, .closed)
  else if closeAfterDone then
    let conn ← s'.deref fd
    if conn.hasPendingWrite then
      return ({ s' with closeAfterFlush := Function.update s'.closeAfterFlush fd true }, .afterFlush)
    else return (s'.closeClient fd, .closed)
  else return (s'.refreshClientTimeout now fd, .kept)

/-- One event of the loop of `drain_proxy_done_events`, and the record of its use. -/
def drainEvent (env : Env π) (s : Server π) (now : Int) (ev : DoneEvent) (io : Io) :
    Except Fault (Server π × Option Consumed) :=
  let fd := ev.clientFd
  if s.present fd = false then .ok (s, none)
  else do
    let s := { s with proxyInflight := Function.update s.proxyInflight fd false }
    let conn ← s.deref fd
    if ev.ok = false then
      if ev.isConnect && isExpectedConnectShutdownErrno ev.err then
        return (s.closeClient fd, some ⟨ev, conn.id, [], .closed⟩)
      else
        let response := MessageBuilder.buildServiceUnavailableResponse (env.strerror ev.err)
        let (s', closing) ← (s.setConn fd (conn.queueWrite response)).flushAndClose now fd true io
        return (s', some ⟨ev, conn.id, response, closing⟩)
    else
      let (s', closing) ← (s.setConn fd (conn.queueWrite ev.response)).flushAndClose now fd ev.closeAfterDone io
      return (s', some ⟨ev, conn.id, ev.response, closing⟩)

/-- The `EPOLLOUT` part of the client branch: the record is there when it closed the connection, and then the event is
done. -/
def outEvent (s : Server π) (fd : Int) (io : Io) : Except Fault (Server π × Bool × Option OutClose) := do
  let (s', err) ← s.flushClientOutput fd io
  match err with
  | some e =>
    let record := (s'.connections fd).map fun conn => ⟨conn.id, conn.hasPendingWrite, some e⟩
    return (s'.closeClient fd, true, record)
  | none =>
    if InTable fd ∧ s'.closeAfterFlush fd = true then
      let conn ← s'.deref fd
      if conn.hasPendingWrite then return (s', false, none)
      else return (s'.closeClient fd, true, some ⟨conn.id, false, none⟩)
    else return (s', false, none)

/-- The `EPOLLIN` part of the client branch. -/
def inEvent (env : Env π) (s : Server π) (fd : Int) (io : Io) : Except Fault (Server π × Handled) := do
  let (s', handled) ← s.handleClient env fd io
  match handled with
  | .failed => return (s'.closeClient fd, .nothing)
  | h => return (s', h)

/-- The client branch of the event loop. -/
def clientEvent (env : Env π) (s : Server π) (now : Int) (fd : Int) (ev : EpollMask) (io : Io) :
    Except Fault (Server π × Handled × Option OutClose) :=
  if ev &&& (epollErr ||| epollHup ||| epollRdhup) ≠ 0 then .ok (s.closeClient fd, .nothing, none)
  else do
    let s := if ev &&& (epollIn ||| epollOut) ≠ 0 then s.refreshClientTimeout now fd else s
    let (s, ended, record) ← (if ev &&& epollOut ≠ 0 then s.outEvent fd io else .ok (s, false, none))
    if ended = false ∧ ev &&& epollIn ≠ 0 then
      let (s, handled) ← s.inEvent env fd io
      return (s, handled, record)
    else return (s, .nothing, record)

/-- What becomes of an accepted descriptor: refused by the filter, not set up, or taken. -/
inductive Admission where
  | blocked
  | setupFailed
  | admitted
  deriving DecidableEq

/-- The accept branch for descriptor `fd`, which the kernel has just opened. A blocked client gets a 403 and is closed. -/
def acceptClient (env : Env π) (s : Server π) (now : Int) (fd : Int) (id : Nat) : Admission → Server π
  | .blocked | .setupFailed => s
  | .admitted =>
    if InTable fd then
      let s' : Server π :=
        { s with
          interest := Function.update s.interest fd (some kClientEvents)
          isOpen := Function.update s.isOpen fd ((s.connections fd).isNone) }
      (s'.setConn fd { io := { fd := fd }, parser := env.parser.init, id := id }).refreshClientTimeout now fd
    else s

end Server
end HpServer
