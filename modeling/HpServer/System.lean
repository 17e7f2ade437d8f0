import HpServer.Lib.Lts
import HpServer.Server
import HpServer.Tunnel

/-!
# The server (`hpserver::listen` and the jobs of the pools)

The reactor's event loop, the jobs it submits, the queue of done events and the eventfd, as one transition system. The
reactor takes one step for each event of a batch, each accepted client, each `read` of the eventfd, each done event
and each turn of `tick`; between two of these a worker can take a step. A pool is abstract here: a submitted job is
admitted or not, an admitted job is started once, and it comes to its end by a step of its own (`ThreadPool` has the
pool itself).

Ghost data: connections and jobs are numbered in the order they are made, a job keeps its number in its done event,
and `consumed`, `outCloses` and `pushed` record the done events used on a connection, the connections the `EPOLLOUT`
branch closed, and the jobs whose done event was pushed.
-/

namespace HpServer

open EpollMask Errno

/-- `MAX_EVENTS`. -/
def maxEvents : Nat := 1024

/-- How far a job has come: in its pool's queue, in `forward_request`, in `forward_connect_tunnel`, with its done
event pushed but the eventfd not yet written, and finished. -/
inductive Stage where
  | queued
  | forwarding
  | tunnelling (t : Tunnel.State)
  | pushed
  | finished

/-- The tunnel of a job whose worker is in `forward_connect_tunnel`. -/
def Stage.tunnel : Stage → Option Tunnel.State
  | .tunnelling t => some t
  | _ => none

/-- A submitted job: the connection that submitted it, its descriptor, its request, and how far it has come. -/
structure Job where
  owner : Nat
  fd : Int
  req : RequestInfo
  stage : Stage

/-- Where the reactor is: in `tick` (the one at the end of the loop or the one of `get_next_timeout_ms`), in
`epoll_wait`, in a batch, in the loop of `accept`, in the loop that reads the eventfd, and in the loop of done events.
-/
inductive ReactorPc where
  | tick (atEnd : Bool)
  | wait (timeoutMs : Int)
  | batch (rest : List (Int × EpollMask))
  | accepting (rest : List (Int × EpollMask))
  | drainRead (rest : List (Int × EpollMask))
  | drainPop (rest : List (Int × EpollMask))
  deriving DecidableEq

/-- The constants of a run: the environment, and the descriptors of the listening socket and of the eventfd, two open
ones. -/
structure Config (π : Type) extends Env π where
  serverFd : Int
  eventFd : Int
  fds_ne : serverFd ≠ eventFd

/-- A state of the server. -/
structure Sys (π : Type) where
  server : Server π
  pc : ReactorPc
  now : Int
  jobs : Nat → Option Job
  doneQueue : List DoneEvent
  eventCounter : Nat
  edge : Bool
  nextConn : Nat
  nextJob : Nat
  consumed : List Consumed
  outCloses : List OutClose
  pushed : List Nat

/-- What `accept` answered: an open descriptor, with what becomes of it; an interruption; or the end of the loop. -/
inductive Accepted where
  | client (fd : Int) (admission : Server.Admission)
  | interrupted
  | none

/-- What `forward_request` answered. -/
structure Forwarded where
  ok : Bool
  response : Bytes
  err : Nat

/-- The steps of the server, with what the system answers in them. -/
inductive Label where
  -- time passes
  | advance (d : Nat)
  -- the reactor
  | tickTop (top : Option Timer.Node)
  | waited (events : Option (List (Int × EpollMask)))
  | event (io : Io)
  | accept (a : Accepted)
  | readEventFd
  | popDone (io : Io)
  -- the workers
  | start (j : Nat) (errno : Nat)
  | tunnel (j : Nat) (ans : Tunnel.Answer)
  | push (j : Nat) (r : Forwarded)
  | notify (j : Nat)

namespace Sys

variable {π : Type}

/-- Write the eventfd: the counter grows and a new edge is there. -/
def writeEventFd (s : Sys π) : Sys π := { s with eventCounter := s.eventCounter + 1, edge := true }

/-- Put a done event into `proxy_done_queue_`. -/
def pushDone (s : Sys π) (ev : DoneEvent) : Sys π :=
  { s with doneQueue := s.doneQueue ++ [ev], pushed := s.pushed ++ [ev.job] }

/-- Change how far a job has come. -/
def setStage (s : Sys π) (j : Nat) (job : Job) (stage : Stage) : Sys π :=
  { s with jobs := Function.update s.jobs j (some { job with stage := stage }) }

/-- `submit_proxy_job`: the task is pushed to its pool, or the reactor makes the done event of a refused job itself. -/
def submitProxyJob (s : Sys π) (fd : Int) (owner : Nat) (req : RequestInfo) (admitted : Bool) : Sys π :=
  let job : Job := { owner := owner, fd := fd, req := req, stage := if admitted then .queued else .finished }
  let s' := { s with jobs := Function.update s.jobs s.nextJob (some job), nextJob := s.nextJob + 1 }
  if admitted then s'
  else
    (s'.pushDone { clientFd := fd, ok := false, closeAfterDone := true, isConnect := req.isConnect, err := eagain,
                   job := s.nextJob }).writeEventFd

/-- The done event of a job whose work has answered `ok` and `err`; a failure without an error number is given `EIO`. -/
def doneEvent (j : Nat) (job : Job) (ok : Bool) (response : Bytes) (err : Nat) (established : Bool) : DoneEvent where
  clientFd := job.fd
  ok := ok
  response := response
  closeAfterDone := true
  isConnect := job.req.isConnect
  err := if ok = false ∧ err = 0 then eio else err
  job := j
  established := established

/-- A worker begins a job. -/
def stepStart (s : Sys π) (j : Nat) (errno : Nat) : Option (Sys π) :=
  match s.jobs j with
  | some job =>
    match job.stage with
    | .queued => some (s.setStage j job (if job.req.isConnect then .tunnelling (Tunnel.initState errno) else .forwarding))
    | _ => none
  | none => none

/-- A step of the tunnel of a job. -/
def stepTunnel (s : Sys π) (j : Nat) (ans : Tunnel.Answer) : Option (Sys π) :=
  match s.jobs j with
  | some job =>
    match job.stage with
    | .tunnelling t => (t.step ⟨job.fd, job.req.host⟩ ans).map fun t' => s.setStage j job (.tunnelling t')
    | _ => none
  | none => none

/-- The work of a job has answered: its done event is pushed. -/
def stepPush (s : Sys π) (j : Nat) (r : Forwarded) : Option (Sys π) :=
  match s.jobs j with
  | some job =>
    match job.stage with
    | .forwarding => some ((s.setStage j job .pushed).pushDone (doneEvent j job r.ok r.response r.err false))
    | .tunnelling t =>
      match t.pc with
      | .returned ok => some ((s.setStage j job .pushed).pushDone (doneEvent j job ok [] t.outErrno t.established))
      | _ => none
    | _ => none
  | none => none

/-- The worker of a job writes the eventfd. -/
def stepNotify (s : Sys π) (j : Nat) : Option (Sys π) :=
  match s.jobs j with
  | some job =>
    match job.stage with
    | .pushed => some (s.setStage j job .finished).writeEventFd
    | _ => none
  | none => none

/-- A turn of `tick`: the loop ends on an empty heap and on a deadline in the future. -/
def stepTick (s : Sys π) (atEnd : Bool) (top : Option Timer.Node) : Option (Sys π) :=
  let ended := { s with pc := if atEnd then .tick false else .wait (Timer.nextTimeoutMs s.now top) }
  match top with
  | none => if s.server.connectionTimer.heap = [] then some ended else none
  | some n =>
    if s.server.connectionTimer.IsTop n then
      match s.server.connectionTimer.tickTop s.now n with
      | .dropped t => some { s with server := { s.server with connectionTimer := t } }
      | .stopped => some ended
      | .fired t fd => some { s with server := { s.server with connectionTimer := t }.onTimeout fd }
    else none

/-- `epoll_wait` returns. The eventfd is reported only with a new edge and a counter that is not zero. -/
def stepWait (c : Config π) (s : Sys π) : Option (List (Int × EpollMask)) → Option (Sys π)
  | none => some { s with pc := .tick false }
  | some events =>
    if events.length ≤ maxEvents then
      if events.any fun e => e.1 = c.eventFd then
        if s.edge = true ∧ 0 < s.eventCounter then some { s with pc := .batch events, edge := false } else none
      else some { s with pc := .batch events }
    else none

/-- One event of the batch: the listening socket, the eventfd or a client. A fault has no state after it. -/
def stepEvent (c : Config π) (s : Sys π) (rest : List (Int × EpollMask)) (io : Io) : Except Fault (Sys π) :=
  match rest with
  | [] => .ok { s with pc := .tick true }
  | (fd, ev) :: rest =>
    if fd = c.serverFd then .ok { s with pc := .accepting rest }
    else if fd = c.eventFd then .ok { s with pc := .drainRead rest }
    else do
      let owner := (s.server.connections fd).elim 0 HttpConn.id
      let (server, handled, record) ← s.server.clientEvent c.toEnv s.now fd ev io
      let s' := { s with server := server, pc := .batch rest, outCloses := s.outCloses ++ record.toList }
      match handled with
      | .submit req => return s'.submitProxyJob fd owner req io.admitted
      | _ => return s'

/-- One turn of the loop of `accept`; the kernel gives a descriptor that is not open. -/
def stepAccept (c : Config π) (s : Sys π) (rest : List (Int × EpollMask)) : Accepted → Option (Sys π)
  | .client fd admission =>
    if 0 ≤ fd ∧ s.server.isOpen fd = false then
      some { s with server := s.server.acceptClient c.toEnv s.now fd s.nextConn admission, nextConn := s.nextConn + 1 }
    else none
  | .interrupted => some s
  | .none => some { s with pc := .batch rest }

/-- The loop that reads the eventfd: a read takes the counter, and the loop ends when there is nothing to read. -/
def stepReadEventFd (s : Sys π) (rest : List (Int × EpollMask)) : Sys π :=
  if 0 < s.eventCounter then { s with eventCounter := 0 } else { s with pc := .drainPop rest }

/-- The loop of done events: it ends when the queue is empty. -/
def stepPopDone (c : Config π) (s : Sys π) (rest : List (Int × EpollMask)) (io : Io) : Except Fault (Sys π) :=
  match s.doneQueue with
  | [] => .ok { s with pc := .batch rest }
  | ev :: queue => do
    let (server, record) ← s.server.drainEvent c.toEnv s.now ev io
    return { s with server := server, doneQueue := queue, consumed := s.consumed ++ record.toList }

/-- One step of the server. -/
def step (c : Config π) (s : Sys π) : Label → Option (Except Fault (Sys π))
  | .advance d => some (.ok { s with now := s.now + d })
  | .tickTop top =>
    match s.pc with
    | .tick atEnd => (s.stepTick atEnd top).map .ok
    | _ => none
  | .waited events =>
    match s.pc with
    | .wait _ => (s.stepWait c events).map .ok
    | _ => none
  | .event io =>
    match s.pc with
    | .batch rest => some (s.stepEvent c rest io)
    | _ => none
  | .accept a =>
    match s.pc with
    | .accepting rest => (s.stepAccept c rest a).map .ok
    | _ => none
  | .readEventFd =>
    match s.pc with
    | .drainRead rest => some (.ok (s.stepReadEventFd rest))
    | _ => none
  | .popDone io =>
    match s.pc with
    | .drainPop rest => some (s.stepPopDone c rest io)
    | _ => none
  | .start j errno => (s.stepStart j errno).map .ok
  | .tunnel j ans => (s.stepTunnel j ans).map .ok
  | .push j r => (s.stepPush j r).map .ok
  | .notify j => (s.stepNotify j).map .ok

end Sys

/-- The state in which the event loop begins: no client, the listening socket and the eventfd open. -/
def Config.initSys {π : Type} (c : Config π) (now : Int) : Sys π where
  server :=
    { connections := fun _ => none
      proxyInflight := fun _ => false
      closeAfterFlush := fun _ => false
      connectionTimer := Timer.empty
      interest := fun _ => none
      isOpen := fun fd => fd = c.serverFd || fd = c.eventFd }
  pc := .tick false
  now := now
  jobs := fun _ => none
  doneQueue := []
  eventCounter := 0
  edge := false
  nextConn := 0
  nextJob := 0
  consumed := []
  outCloses := []
  pushed := []

/-- The server as a transition system; a fault is a state without steps. -/
def Config.system {π : Type} (c : Config π) : Lts (Except Fault (Sys π)) Label where
  init := fun x => ∃ now, x = .ok (c.initSys now)
  step := fun x l =>
    match x with
    | .ok s => s.step c l
    | .error _ => none

end HpServer
