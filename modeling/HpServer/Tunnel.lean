import HpServer.Lib.Lts
import HpServer.MessageBuilder

/-!
# The CONNECT tunnel (`http_proxy::forward_connect_tunnel`)

`forward_connect_tunnel` as a machine that makes one system call, or one computation between two calls, at each step;
the label of a step is what the call answered. A direction of the relay reads one socket (`append_nonblocking_read`)
and writes the other (`flush_nonblocking`); both directions run the same code, so `Way` is a parameter.

The client's socket is a plain descriptor, the upstream one a `socket_ops`, whose calls print their errors with
`perror`. What `errno` is when the function looks at it is therefore not always what the failed call left: a failure
has both numbers, the one of the call and the one that a `perror` leaves behind it, which may be any.

`connect_upstream` is one step that succeeds or leaves an error number. A log line is taken to leave `errno` as it is.
Ghost data: each direction's `log` of what happened on its two sockets, the number of iterations of the loop begun,
and the events each `poll` was called with.
-/

namespace HpServer
namespace Tunnel

open PollMask Errno

/-- The two directions: from the client to upstream, and from upstream to the client. -/
inductive Way where
  | c2u
  | u2c
  deriving DecidableEq, Repr

/-- What happens on the sockets of a direction: bytes or the end of the stream are read from the source, bytes are
taken by the destination, and the destination's sending side is shut down. -/
inductive Io where
  | recv (data : Bytes)
  | eof
  | send (data : Bytes)
  | shutdown
  deriving DecidableEq, Repr

/-- The variables of a direction: `c2u_buf`, `c2u_offset`, `client_eof` and `upstream_write_shutdown`, or their
counterparts. -/
structure Dir where
  buf : Bytes := []
  offset : Nat := 0
  eof : Bool := false
  shut : Bool := false
  log : List Io := []
  deriving DecidableEq, Repr

/-- Where the function is. `flush .c2u` is the head of the loop; `poll` holds the events asked for and `read` those
found. -/
inductive Pc where
  | start
  | connect
  | sendEstablished (offset : Nat)
  | waitWritable (offset : Nat)
  | flush (w : Way)
  | shutdown (w : Way)
  | finish
  | interests
  | poll (client upstream : PollMask)
  | read (w : Way) (client upstream : PollMask)
  | returned (ok : Bool)
  deriving DecidableEq, Repr

/-- The function's local state, `errno`, and `*out_errno`. -/
structure State where
  pc : Pc
  dir : Way → Dir
  errno : Nat
  outErrno : Nat
  iterations : Nat
  polls : List (PollMask × PollMask)

/-- The arguments: the client's descriptor and the host asked for. -/
structure Args where
  clientFd : Int
  host : Bytes

/-- What a call answered; `compute` is a step that makes no call. A call that `failed` has answered -1 with `errno`,
and `left` is what `errno` is after a `perror`, if one follows. -/
inductive Answer where
  | compute
  | connected
  | failed (errno left : Nat)
  | sent (n : Nat)
  | zero
  | data (bytes : Bytes)
  | writable
  | polled (client upstream : PollMask)
  | timedOut
  deriving DecidableEq, Repr

namespace Answer

/-- The answer with the error number that the caller finds. -/
def mapErrno (f : Nat → Nat → Nat) : Answer → Answer
  | .failed e left => .failed (f e left) left
  | ans => ans

/-- A `send` of a direction as `flush_nonblocking` finds it: upstream is written to by `socket_ops::send`. -/
def ofSend (ans : Answer) : Way → Answer
  | .c2u => ans.mapErrno afterSocketOps
  | .u2c => ans

/-- A `recv` of a direction as `append_nonblocking_read` finds it: upstream is read from by `socket_ops::recv`. -/
def ofRecv (ans : Answer) : Way → Answer
  | .c2u => ans
  | .u2c => ans.mapErrno afterSocketOps

/-- A half-close of a direction: `socket_ops::shutdown` prints every error. -/
def ofShutdown (ans : Answer) : Way → Answer
  | .c2u => ans.mapErrno fun _ left => left
  | .u2c => ans

end Answer

/-- `kIoBufferSize`. -/
def kIoBufferSize : Nat := 8192

/-- The message that opens the tunnel. -/
def connectEstablishedResponse : Bytes := MessageBuilder.buildConnectEstablishedResponse (ascii "hpserver")

namespace Dir

/-- The bytes read and not yet sent. -/
def unsent (d : Dir) : Bytes := d.buf.drop d.offset

/-- The destination took `n` more bytes. -/
def sent (d : Dir) (n : Nat) : Dir :=
  { d with offset := d.offset + n, log := d.log ++ [.send (d.unsent.take n)] }

/-- The end of `flush_nonblocking`: everything is sent. -/
def cleared (d : Dir) : Dir := { d with buf := [], offset := 0 }

/-- Bytes were read. -/
def received (d : Dir) (bytes : Bytes) : Dir := { d with buf := d.buf ++ bytes, log := d.log ++ [.recv bytes] }

/-- The end of the source was read. -/
def ended (d : Dir) : Dir := { d with eof := true, log := d.log ++ [.eof] }

/-- The destination's sending side was shut down. -/
def shutDown (d : Dir) : Dir := { d with shut := true, log := d.log ++ [.shutdown] }

/-- The half-close is due. -/
def shutDue (d : Dir) : Bool := d.eof && d.buf.isEmpty && !d.shut

/-- The source is at its end and all its bytes are sent. -/
def complete (d : Dir) : Bool := d.eof && d.buf.isEmpty

/-- `POLLIN` for a direction's source. -/
def readInterest (d : Dir) : PollMask := if !d.eof && d.buf.isEmpty then pollIn else 0

/-- `POLLOUT` for a direction's destination. -/
def writeInterest (d : Dir) : PollMask := if !d.buf.isEmpty then pollOut else 0

end Dir

namespace State

/-- Change one direction. -/
def setDir (s : State) (w : Way) (d : Dir) : State := { s with dir := Function.update s.dir w d }

/-- Go on at `pc`. -/
def goto (s : State) (pc : Pc) : State := { s with pc := pc }

/-- A call left its error number. -/
def error (s : State) (e : Nat) : State := { s with errno := e }

/-- Begin an iteration of the loop. -/
def loop (s : State) : State := { s with pc := .flush .c2u, iterations := s.iterations + 1 }

/-- `break`, or one of the early exits: report `errno` and return false. -/
def fail (s : State) : State := { s with pc := .returned false, outErrno := s.errno }

/-- The events asked for on the client's socket. -/
def clientEvents (s : State) : PollMask := (s.dir .c2u).readInterest ||| (s.dir .u2c).writeInterest

/-- The events asked for on the upstream socket. -/
def upstreamEvents (s : State) : PollMask := (s.dir .u2c).readInterest ||| (s.dir .c2u).writeInterest

end State

namespace Pc

/-- What follows the flush of a direction. -/
def afterFlush : Way → Pc
  | .c2u => .flush .u2c
  | .u2c => .shutdown .c2u

/-- What follows the half-close of a direction. -/
def afterShutdown : Way → Pc
  | .c2u => .shutdown .u2c
  | .u2c => .finish

end Pc

/-- What follows the read of a direction: the other one's, and after it the next iteration. -/
def State.afterRead (s : State) (w : Way) (client upstream : PollMask) : State :=
  match w with
  | .c2u => s.goto (.read .u2c client upstream)
  | .u2c => s.loop

/-- The events found on the source of a direction. -/
def sourceEvents (w : Way) (client upstream : PollMask) : PollMask :=
  match w with
  | .c2u => client
  | .u2c => upstream

/-- `r` answers a poll for `ev`: it has events that were asked for, and those that are always reported. -/
def Answers (ev r : PollMask) : Prop := r &&& ~~~(ev ||| always) = 0

instance (ev r : PollMask) : Decidable (Answers ev r) := inferInstanceAs (Decidable (_ = _))

namespace State

/-- The checks before anything is done. -/
def stepStart (a : Args) (s : State) : Answer → Option State
  | .compute => if a.clientFd < 0 ∨ a.host = [] then some (s.error einval).fail else some (s.goto .connect)
  | _ => none

/-- `connect_upstream`. -/
def stepConnect (s : State) : Answer → Option State
  | .connected => some (s.goto (.sendEstablished 0))
  | .failed e _ => some (s.error e).fail
  | _ => none

/-- `send_all_nonblocking` of the message that opens the tunnel. -/
def stepSendEstablished (s : State) (offset : Nat) (ans : Answer) : Option State :=
  if offset < connectEstablishedResponse.length then
    match ans with
    | .sent n =>
      if 0 < n ∧ offset + n ≤ connectEstablishedResponse.length then some (s.goto (.sendEstablished (offset + n)))
      else none
    | .failed e _ =>
      if e = eintr then some (s.error e)
      else if e = eagain then some ((s.error e).goto (.waitWritable offset))
      else some (s.error e).fail
    | .zero => some s.fail
    | _ => none
  else
    match ans with
    | .compute => some s.loop
    | _ => none

/-- `wait_fd` on the client's descriptor, between two sends of that message. -/
def stepWaitWritable (s : State) (offset : Nat) : Answer → Option State
  | .writable => some (s.goto (.sendEstablished offset))
  | .failed e _ => some (s.error e).fail
  | _ => none

/-- `flush_nonblocking` of a direction, with the answer it finds. -/
def stepFlush (s : State) (w : Way) (ans : Answer) : Option State :=
  if (s.dir w).offset < (s.dir w).buf.length then
    match ans with
    | .sent n => if 0 < n ∧ n ≤ (s.dir w).unsent.length then some (s.setDir w ((s.dir w).sent n)) else none
    | .failed e _ =>
      if e = eintr then some (s.error e)
      else if e = eagain then some ((s.error e).goto (Pc.afterFlush w))
      else some (s.error e).fail
    | .zero => some s.fail
    | _ => none
  else
    match ans with
    | .compute => some ((s.setDir w (s.dir w).cleared).goto (Pc.afterFlush w))
    | _ => none

/-- `shutdown(SHUT_WR)` of a direction's destination, when it is due; whether the call succeeds is not looked at. -/
def stepShutdown (s : State) (w : Way) (ans : Answer) : Option State :=
  if (s.dir w).shutDue then
    match ans with
    | .compute => some ((s.setDir w (s.dir w).shutDown).goto (Pc.afterShutdown w))
    | .failed e _ => some (((s.setDir w (s.dir w).shutDown).error e).goto (Pc.afterShutdown w))
    | _ => none
  else
    match ans with
    | .compute => some (s.goto (Pc.afterShutdown w))
    | _ => none

/-- The return of the loop. -/
def stepFinish (s : State) : Answer → Option State
  | .compute =>
    if (s.dir .c2u).complete && (s.dir .u2c).complete then some (s.goto (.returned true)) else some (s.goto .interests)
  | _ => none

/-- The events to poll for; with none the loop goes on at its head. -/
def stepInterests (s : State) : Answer → Option State
  | .compute =>
    if s.clientEvents = 0 ∧ s.upstreamEvents = 0 then some s.loop
    else some { s with pc := .poll s.clientEvents s.upstreamEvents,
                       polls := s.polls ++ [(s.clientEvents, s.upstreamEvents)] }
  | _ => none

/-- `poll`: errors and hang-ups are looked at before anything is read. -/
def stepPoll (s : State) (client upstream : PollMask) : Answer → Option State
  | .timedOut => some (s.error etimedout).fail
  | .failed e _ => if e = eintr then some (s.error e).loop else some (s.error e).fail
  | .polled r0 r1 =>
    if Answers client r0 ∧ Answers upstream r1 ∧ (r0 ≠ 0 ∨ r1 ≠ 0) then
      if r0 &&& always ≠ 0 ∨ r1 &&& always ≠ 0 then some (s.error econnreset).fail else some (s.goto (.read .c2u r0 r1))
    else none
  | _ => none

/-- `append_nonblocking_read` of a direction, when its source was found readable, with the answer it finds. -/
def stepRead (s : State) (w : Way) (client upstream : PollMask) (ans : Answer) : Option State :=
  if sourceEvents w client upstream &&& pollIn ≠ 0 then
    match ans with
    | .data bytes =>
      if bytes ≠ [] ∧ bytes.length ≤ kIoBufferSize then some (s.setDir w ((s.dir w).received bytes)) else none
    | .zero => some ((s.setDir w (s.dir w).ended).afterRead w client upstream)
    | .failed e _ =>
      if e = eintr then some (s.error e)
      else if e = eagain then some ((s.error e).afterRead w client upstream)
      else some (s.error e).fail
    | _ => none
  else
    match ans with
    | .compute => some (s.afterRead w client upstream)
    | _ => none

/-- One step of the function. -/
def step (a : Args) (s : State) (ans : Answer) : Option State :=
  match s.pc with
  | .start => s.stepStart a ans
  | .connect => s.stepConnect ans
  | .sendEstablished offset => s.stepSendEstablished offset ans
  | .waitWritable offset => s.stepWaitWritable offset ans
  | .flush w => s.stepFlush w (ans.ofSend w)
  | .shutdown w => s.stepShutdown w (ans.ofShutdown w)
  | .finish => s.stepFinish ans
  | .interests => s.stepInterests ans
  | .poll client upstream => s.stepPoll client upstream ans
  | .read w client upstream => s.stepRead w client upstream (ans.ofRecv w)
  | .returned _ => none

/-- The message that opens the tunnel has been sent whole. -/
def established (s : State) : Bool :=
  0 < s.iterations || (match s.pc with
    | .sendEstablished offset => connectEstablishedResponse.length ≤ offset
    | _ => false)

end State

/-- The state a call begins in; `errno` is whatever the calling thread left there. -/
def initState (errno : Nat) : State where
  pc := .start
  dir := fun _ => {}
  errno := errno
  outErrno := 0
  iterations := 0
  polls := []

/-- The function as a transition system. -/
def system (a : Args) : Lts State Answer where
  init := fun s => ∃ errno, s = initState errno
  step := State.step a

end Tunnel
end HpServer
