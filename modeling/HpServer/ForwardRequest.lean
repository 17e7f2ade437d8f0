import HpServer.HttpResponseParser
import HpServer.MessageBuilder
import HpServer.Tunnel

/-!
# Forwarding a request (`http_proxy::forward_request`)

`forward_request` as a machine that makes one system call, or one computation between two calls, at each step; the
label of a step is what the call answered. There are two attempts at most, each with a connection and a parser of its
own. As for the tunnel, `connect_upstream` is one step that succeeds or leaves an error number, a log line leaves
`errno` as it is, and the `perror` of `socket_ops` may change it. Ghost data: what was sent on each connection, and
what was received on the last one.
-/

namespace HpServer
namespace Forward

open Errno
open Tunnel (kIoBufferSize)

/-- `kMaxPartialReadTimeoutRetries`. -/
def kMaxPartialReadTimeoutRetries : Nat := 5

/-- Where the function is. -/
inductive Pc where
  | start
  | connect
  | send (offset : Nat)
  | waitWritable (offset : Nat)
  | recv
  | waitReadable
  | returned (ok : Bool)
  deriving DecidableEq

/-- The local variables of the function, `errno` and `*out_errno`. -/
structure State (τ : Type) where
  pc : Pc := .start
  attempt : Nat := 0
  outResponse : Bytes := []
  responseParser : HttpResponseParser τ := {}
  partialReadTimeoutRetries : Nat := 0
  finalErrno : Nat := 0
  errno : Nat := 0
  outErrno : Nat := 0
  -- what was sent on each connection, the last one first, and what was received on the last one
  sent : List Bytes := []
  received : Bytes := []

/-- What a call answered; `compute` is a step that makes no call, and `zero` the answer 0. A call that `failed` has
answered -1 with `errno`, and `left` is what `errno` is after a `perror`, if one follows. -/
inductive Answer where
  | compute
  | connected
  | failed (errno left : Nat)
  | sent (n : Nat)
  | zero
  | data (bytes : Bytes)
  | ready
  deriving DecidableEq

/-- An answer as the function finds it: upstream is a `socket_ops`. -/
def Answer.ofSocketOps : Answer → Answer
  | .failed e left => .failed (afterSocketOps e left) left
  | ans => ans

namespace State

variable {τ : Type}

/-- Go on at `pc`. -/
def goto (s : State τ) (pc : Pc) : State τ := { s with pc := pc }

/-- A call left its error number. -/
def error (s : State τ) (e : Nat) : State τ := { s with errno := e }

/-- The end of an attempt that failed with `final_errno`: the next one, or the return. -/
def fail (s : State τ) (finalErrno : Nat) : State τ :=
  if s.attempt = 0 ∧ (finalErrno = etimedout ∨ finalErrno = econnreset) then
    { s with attempt := 1, finalErrno := finalErrno, outResponse := [], pc := .connect }
  else { s with finalErrno := finalErrno, outErrno := finalErrno, errno := finalErrno, pc := .returned false }

/-- The request is built; an empty one is refused. -/
def stepStart (forward : Bytes) (s : State τ) : Answer → Option (State τ)
  | .compute =>
    if forward = [] then some { s with outErrno := einval, errno := einval, pc := .returned false }
    else some (s.goto .connect)
  | _ => none

/-- `connect_upstream`. -/
def stepConnect (s : State τ) : Answer → Option (State τ)
  | .connected => some { s with pc := .send 0, sent := [] :: s.sent, received := [] }
  | .failed e _ => some ((s.error e).fail e)
  | _ => none

/-- The last connection took more bytes. -/
def tookBytes (s : State τ) (bytes : Bytes) : State τ :=
  match s.sent with
  | [] => s
  | last :: others => { s with sent := (last ++ bytes) :: others }

/-- `send_all_nonblocking_socket`, with the answer it finds, and what follows it when all is sent. -/
def stepSend (forward : Bytes) (s : State τ) (offset : Nat) (ans : Answer) : Option (State τ) :=
  if offset < forward.length then
    match ans with
    | .sent n =>
      if 0 < n ∧ offset + n ≤ forward.length then
        some ((s.tookBytes ((forward.drop offset).take n)).goto (.send (offset + n)))
      else none
    | .failed e _ =>
      if e = eintr then some (s.error e)
      else if e = eagain then some ((s.error e).goto (.waitWritable offset))
      else some ((s.error e).fail e)
    | .zero => some (s.fail s.errno)
    | _ => none
  else
    match ans with
    | .compute => some { s with pc := .recv, responseParser := {}, partialReadTimeoutRetries := 0 }
    | _ => none

/-- `wait_fd` between two sends. -/
def stepWaitWritable (s : State τ) (offset : Nat) : Answer → Option (State τ)
  | .ready => some (s.goto (.send offset))
  | .failed e _ => some ((s.error e).fail e)
  | _ => none

/-- A turn of the loop that reads the response, with the answer it finds. -/
def stepRecv (lexer : Llhttp.Lexer τ) (s : State τ) : Answer → Option (State τ)
  | .data bytes =>
    if bytes ≠ [] ∧ bytes.length ≤ kIoBufferSize then
      let (parser, ok) := s.responseParser.parse lexer bytes
      let s' := { s with
        outResponse := s.outResponse ++ bytes
        received := s.received ++ bytes
        partialReadTimeoutRetries := 0
        responseParser := parser }
      if ok = false then some (s'.fail eproto)
      else if parser.isMessageComplete then some (s'.goto (.returned true))
      else some s'
    else none
  | .zero =>
    if s.responseParser.isMessageComplete then some (s.goto (.returned true))
    else
      let (parser, ok) := s.responseParser.finish
      let s' := { s with responseParser := parser }
      if ok then some (s'.goto (.returned true)) else some (s'.fail econnreset)
  | .failed e _ =>
    if e = eintr then some (s.error e)
    else if e = eagain then some ((s.error e).goto .waitReadable)
    else some ((s.error e).fail e)
  | _ => none

/-- `wait_fd` between two reads; a timeout in the middle of a response is borne with a few times. -/
def stepWaitReadable (s : State τ) : Answer → Option (State τ)
  | .ready => some (s.goto .recv)
  | .failed e _ =>
    if e = etimedout ∧ s.outResponse ≠ [] ∧ s.responseParser.isMessageComplete = false ∧
        s.partialReadTimeoutRetries < kMaxPartialReadTimeoutRetries then
      some { s.error e with partialReadTimeoutRetries := s.partialReadTimeoutRetries + 1, pc := .recv }
    else some ((s.error e).fail e)
  | _ => none

/-- One step of the function. -/
def step (lexer : Llhttp.Lexer τ) (forward : Bytes) (s : State τ) (ans : Answer) : Option (State τ) :=
  match s.pc with
  | .start => s.stepStart forward ans
  | .connect => s.stepConnect ans
  | .send offset => s.stepSend forward offset ans.ofSocketOps
  | .waitWritable offset => s.stepWaitWritable offset ans
  | .recv => s.stepRecv lexer ans.ofSocketOps
  | .waitReadable => s.stepWaitReadable ans
  | .returned _ => none

end State

/-- The calls of `forward_request` for a request. -/
def lts {τ : Type} (lexer : Llhttp.Lexer τ) (req : RequestInfo) : Lts (State τ) Answer where
  init s := s = {}
  step := State.step lexer (MessageBuilder.buildForwardProxyRequest req)

end Forward
end HpServer
