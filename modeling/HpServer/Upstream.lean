import HpServer.ForwardRequest
import HpServer.Lib.Owners

/-!
# Connections to upstream (`http_proxy::connect_upstream`, `http_proxy::wait_fd`, `socket_ops`, `poller`)

In the models of `forward_request` and `forward_connect_tunnel` the calls of `connect_upstream` and `wait_fd` are one
step each. Here these functions are run through, system call by system call, with the descriptors that their objects
own: the two `socket_ops` `upstream` and `candidate`, and the epoll instance of the `poller` in `wait_fd`. An object
closes its descriptor when it goes out of scope, is reset or gets another one. The label of a step is what the call
answered; any answer is possible, except that a descriptor that is opened is not one that is open. The error number of
a failed call is the one that is there after the `perror` of its wrapper. `close` of an open descriptor is taken to
succeed, and log lines to leave `errno` as it is.

Both callers are treated alike: `Caller` says of a machine where it calls the two functions, how their result goes on
there, and where it has `upstream` in scope and connected.
-/

namespace HpServer

/-- The port that `connect_upstream` is called with: `forward_connect_tunnel` has 443 in place of a port 0
(`upstream_port`), `forward_request` takes the port as it is. -/
def RequestInfo.upstreamPort (req : RequestInfo) : UInt16 := if req.isConnect ∧ req.port = 0 then 443 else req.port

namespace Upstream

open Errno

/-- `EINPROGRESS`. -/
def einprogress : Nat := 115

/-- The objects that own a descriptor. -/
inductive Var where
  | upstream
  | candidate
  | epoll
  deriving DecidableEq

/-- The objects and what is open, the addresses that are left of the list that `getaddrinfo` made, while it is not
freed, and `errno`. -/
structure Local where
  fds : Owners Var Nat := .empty
  addresses : Option Nat := none
  errno : Nat := 0

/-- What a system call answered: 0 or nothing of interest, a number, or -1 with `errno`. -/
inductive Result where
  | ok
  | value (n : Nat)
  | failed (errno : Nat)
  deriving DecidableEq

/-- Where `wait_fd` is. -/
inductive WaitPc where
  | create
  | add
  | wait
  | remove (ready : Bool)
  | close (ready : Bool)
  deriving DecidableEq

/-- Where `connect_upstream` is; at `drop` the candidate goes out of scope. -/
inductive ConnectPc where
  | reset
  | resolve
  | address
  | connect
  | waiting (w : WaitPc)
  | soError
  | drop
  | free (connected : Bool)
  deriving DecidableEq

namespace Local

/-- An object gets the descriptor that was just opened. -/
def acquire (l : Local) (v : Var) (fd : Nat) : Option Local :=
  if fd ∈ l.fds.opened then none else some { l with fds := l.fds.acquire v fd }

/-- An object closes its descriptor. -/
def release (l : Local) (v : Var) : Local := { l with fds := l.fds.release v }

/-- `upstream = std::move(candidate)`. -/
def takeCandidate (l : Local) : Local := { l with fds := l.fds.move .upstream .candidate }

/-- A call left its error number. -/
def error (l : Local) (e : Nat) : Local := { l with errno := e }

/-- `wait_fd`: where it goes on, or what it returns. -/
def stepWait (l : Local) : WaitPc → Result → Option ((WaitPc ⊕ Bool) × Local)
  | .create, .value fd => (l.acquire .epoll fd).map fun l' => (.inl .add, l')
  | .create, .failed e => some (.inr false, l.error e)
  | .add, .ok => some (.inl .wait, l)
  | .add, .failed e => some (.inl (.close false), l.error e)
  -- the events that are found
  | .wait, .value events => some (.inl (.remove (events != 0)), l)
  | .wait, .ok => some (.inl (.remove false), l.error etimedout)
  | .wait, .failed e => if e = eintr then some (.inl .wait, l.error e) else some (.inl (.remove false), l.error e)
  -- `errno` is put back
  | .remove ready, .ok => some (.inl (.close ready), l)
  | .remove ready, .failed _ => some (.inl (.close ready), l)
  | .close ready, .ok => some (.inr ready, l.release .epoll)
  | _, _ => none

/-- `connect_upstream`: where it goes on, or what it returns. -/
def stepConnect (l : Local) : ConnectPc → Result → Option ((ConnectPc ⊕ Bool) × Local)
  | .reset, .ok => some (.inl .resolve, l.release .upstream)
  | .resolve, .value n => if n = 0 then none else some (.inl .address, { l with addresses := some n })
  | .resolve, .failed e => some (.inr false, l.error e)
  | .address, r =>
    match l.addresses, r with
    | some (n + 1), .value fd => ({ l with addresses := some n }.acquire .candidate fd).map fun l' => (.inl .connect, l')
    | some (n + 1), .failed e => some (.inl .address, { l.error e with addresses := some n })
    | some 0, .ok => some (.inl (.free false), l)
    | _, _ => none
  | .connect, .ok => some (.inl (.free true), l.takeCandidate)
  | .connect, .failed e => some (.inl (if e = einprogress then .waiting .create else .drop), l.error e)
  | .waiting w, r =>
    (l.stepWait w r).map fun next =>
      (.inl (next.1.elim .waiting fun ready => if ready then .soError else .drop), next.2)
  | .soError, .value soError =>
    if soError = 0 then some (.inl (.free true), l.takeCandidate) else some (.inl .drop, l.error soError)
  | .soError, .failed e => some (.inl .drop, l.error e)
  | .drop, .ok => some (.inl .address, l.release .candidate)
  | .free connected, .ok => some (.inr connected, { l with addresses := none })
  | _, _ => none

end Local

/-- Whom the caller waits for in `wait_fd`. -/
inductive Peer where
  | upstream
  | client
  deriving DecidableEq

/-- A machine that calls the two functions. -/
structure Caller (σ ι : Type) extends Lts σ ι where
  -- the next call is `connect_upstream`
  connects : σ → Bool
  -- the next call is `wait_fd`
  waits : σ → Option Peer
  -- `upstream` is in scope and connected
  linked : σ → Bool
  -- how the results of the two go on
  connected : ι
  ready : ι
  failed : Nat → ι
  not_linked_init : ∀ {c}, init c → linked c = false
  linked_of_step : ∀ {c c' a}, connects c = false → step c a = some c' → linked c' = true → linked c = true
  not_linked_of_connects : ∀ {c}, connects c = true → linked c = false
  linked_of_waits : ∀ {c}, (waits c).isSome = true → linked c = true
  not_linked_of_failed : ∀ {c c' e}, connects c = true → step c (failed e) = some c' → linked c' = false

/-- Where the whole is: at a call of the caller's own, in one of the two functions, or where `upstream` goes out of
scope. -/
inductive Pc where
  | own
  | connecting (c : ConnectPc)
  | waiting (w : WaitPc)
  | closing
  deriving DecidableEq

structure State (σ : Type) where
  caller : σ
  pc : Pc
  vars : Local

/-- A call of the caller's own answered, or one of the two functions'. -/
inductive Answer (ι : Type) where
  | own (a : ι)
  | call (r : Result)

variable {σ ι : Type} (C : Caller σ ι)

/-- The caller has made a step. -/
def State.arrive (l : Local) (c : σ) : State σ where
  caller := c
  pc := if (l.fds.var .upstream).isSome ∧ C.linked c = false then .closing else .own
  vars := l

/-- One step of the whole. -/
def State.step (s : State σ) (ans : Answer ι) : Option (State σ) :=
  match s.pc, ans with
  | .own, .own a =>
    if C.connects s.caller = true ∨ (C.waits s.caller).isSome = true then none
    else (C.step s.caller a).map (arrive C s.vars)
  | .own, .call .ok =>
    if C.connects s.caller then some { s with pc := .connecting .reset }
    else if (C.waits s.caller).isSome then some { s with pc := .waiting .create }
    else none
  | .connecting c, .call r =>
    (s.vars.stepConnect c r).bind fun next =>
      match next.1 with
      | .inl c' => some { s with pc := .connecting c', vars := next.2 }
      | .inr ok => (C.step s.caller (if ok then C.connected else C.failed next.2.errno)).map (arrive C next.2)
  | .waiting w, .call r =>
    (s.vars.stepWait w r).bind fun next =>
      match next.1 with
      | .inl w' => some { s with pc := .waiting w', vars := next.2 }
      | .inr ok => (C.step s.caller (if ok then C.ready else C.failed next.2.errno)).map (arrive C next.2)
  | .closing, .call .ok => some { s with pc := .own, vars := s.vars.release .upstream }
  | _, _ => none

/-- The caller with the calls of the two functions. -/
def system : Lts (State σ) (Answer ι) where
  init s := C.init s.caller ∧ s.pc = .own ∧ s.vars.fds = .empty ∧ s.vars.addresses = none
  step := State.step C

/-! ## The two callers -/

/-- `forward_request`: `upstream` is a local of the attempt. -/
def forwardCaller {τ : Type} (lexer : Llhttp.Lexer τ) (req : RequestInfo) : Caller (Forward.State τ) Forward.Answer where
  toLts := Forward.lts lexer req
  connects s := s.pc = .connect
  waits s :=
    match s.pc with
    | .waitWritable _ | .waitReadable => some .upstream
    | _ => none
  linked s :=
    match s.pc with
    | .send _ | .waitWritable _ | .recv | .waitReadable => true
    | .start | .connect | .returned _ => false
  connected := .connected
  ready := .ready
  failed e := .failed e e
  not_linked_init := by
    rintro s rfl
    rfl
  linked_of_step := by
    intro s s' a hconnects hstep hlinked
    change s.step lexer _ a = some s' at hstep
    unfold Forward.State.step at hstep
    cases hpc : s.pc with
    | send _ | waitWritable _ | recv | waitReadable => rfl
    | connect => simp [hpc] at hconnects
    | returned _ =>
      rw [hpc] at hstep
      cases hstep
    | start =>
      rw [hpc] at hstep
      cases a with
      | compute =>
        simp only [Forward.State.stepStart] at hstep
        split at hstep <;> cases hstep <;> cases hlinked
      | _ => cases hstep
  not_linked_of_connects := by
    intro s hconnects
    rw [of_decide_eq_true hconnects]
  linked_of_waits := by
    intro s hwaits
    cases hpc : s.pc <;> simp [hpc] at hwaits <;> rfl
  not_linked_of_failed := by
    intro s s' e hconnects hstep
    change s.step lexer _ (.failed e e) = some s' at hstep
    rw [Forward.State.step, of_decide_eq_true hconnects] at hstep
    simp only [Forward.State.stepConnect, Forward.State.fail] at hstep
    split at hstep <;> cases hstep <;> rfl

/-- `forward_connect_tunnel`: `upstream` is a local of the function, and the message that opens the tunnel waits for
the client. -/
def tunnelCaller (args : Tunnel.Args) : Caller Tunnel.State Tunnel.Answer where
  toLts := Tunnel.system args
  connects s := s.pc = .connect
  waits s :=
    match s.pc with
    | .waitWritable _ => some .client
    | _ => none
  linked s :=
    match s.pc with
    | .start | .connect | .returned _ => false
    | _ => true
  connected := .connected
  ready := .writable
  failed e := .failed e e
  not_linked_init := by
    rintro s ⟨errno, rfl⟩
    rfl
  linked_of_step := by
    intro s s' a hconnects hstep hlinked
    change s.step args a = some s' at hstep
    unfold Tunnel.State.step at hstep
    cases hpc : s.pc with
    | connect => simp [hpc] at hconnects
    | returned _ =>
      rw [hpc] at hstep
      cases hstep
    | start =>
      rw [hpc] at hstep
      cases a with
      | compute =>
        simp only [Tunnel.State.stepStart] at hstep
        split at hstep <;> cases hstep <;> cases hlinked
      | _ => cases hstep
    | _ => rfl
  not_linked_of_connects := by
    intro s hconnects
    rw [of_decide_eq_true hconnects]
  linked_of_waits := by
    intro s hwaits
    cases hpc : s.pc <;> simp [hpc] at hwaits
    rfl
  not_linked_of_failed := by
    intro s s' e hconnects hstep
    change s.step args (.failed e e) = some s' at hstep
    rw [Tunnel.State.step, of_decide_eq_true hconnects] at hstep
    cases hstep
    rfl

end Upstream
end HpServer
