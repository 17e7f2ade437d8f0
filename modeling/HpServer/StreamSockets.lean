import HpServer.Tunnel

/-!
# A tunnel between two orderly peers

The relay loop of `Tunnel` with a model of its two stream sockets in place of arbitrary answers. A peer sends a given
byte string, in pieces and at any time, and closes its sending side after it; it reads what it is sent, in pieces and
at any time. `poll` reports `POLLIN` while unread bytes or an unread end of stream are there, `POLLOUT` while the send
buffer has room, and `POLLHUP` exactly when both directions of the socket are shut. Nothing is reset and no call
fails, except that a call can be interrupted by one of finitely many signals.
-/

namespace HpServer
namespace Tunnel

open PollMask Errno

/-- The direction that runs the other way. -/
def Way.other : Way → Way
  | .c2u => .u2c
  | .u2c => .c2u

/-- A connected stream socket, with its peer: what the peer will still send, what has arrived and is unread, whether
the peer's end of stream has arrived and was read, whether our sending side is shut, what we sent that the peer has
not read, and what it has read. -/
structure Sock where
  toCome : Bytes
  unread : Bytes
  fin : Bool
  finRead : Bool
  shutWr : Bool
  queued : Bytes
  delivered : Bytes
  deriving DecidableEq

namespace Sock

/-- There is something to read, be it the end of the stream. -/
def readable (k : Sock) : Bool := !k.unread.isEmpty || (k.fin && !k.finRead)

/-- Both directions are shut. -/
def hungUp (k : Sock) : Bool := k.fin && k.shutWr

/-- A send buffer of `cap` bytes has room. -/
def writable (cap : Nat) (k : Sock) : Bool := k.queued.length < cap

/-- What `poll` reports for the events asked for. -/
def revents (cap : Nat) (k : Sock) (events : PollMask) : PollMask :=
  (if k.readable then events &&& pollIn else 0) ||| (if k.writable cap then events &&& pollOut else 0) |||
    (if k.hungUp then pollHup else 0)

/-- Everything the socket has taken for the peer. -/
def taken (k : Sock) : Bytes := k.delivered ++ k.queued

end Sock

/-- The relay with its sockets; `sock w` is the source of direction `w`, so `sock .c2u` is the client's. -/
structure Net where
  tunnel : State
  sock : Way → Sock
  signals : Nat

/-- What can happen: bytes of a peer arrive, its end of stream arrives, a peer reads, or the relay takes a step. -/
inductive NetAct where
  | arrive (w : Way) (n : Nat)
  | finish (w : Way)
  | drain (w : Way) (n : Nat)
  | call (ans : Answer)
  deriving DecidableEq

namespace Net

/-- The socket direction `w` writes to. -/
def dest (s : Net) (w : Way) : Sock := s.sock w.other

/-- Change one socket. -/
def setSock (s : Net) (w : Way) (k : Sock) : Net := { s with sock := Function.update s.sock w k }

/-- A call is interrupted. -/
def interrupt (s : Net) : Option Net := if 0 < s.signals then some { s with signals := s.signals - 1 } else none

/-- The sockets' side of a `send` of direction `w`. -/
def kernelSend (cap : Nat) (s : Net) (w : Way) : Answer → Option Net
  | .sent n =>
    if (s.dest w).queued.length + n ≤ cap then
      some (s.setSock w.other { s.dest w with queued := (s.dest w).queued ++ (s.tunnel.dir w).unsent.take n })
    else none
  | .failed e _ =>
    if e = eintr then s.interrupt
    else if e = eagain ∧ (s.dest w).writable cap = false then some s
    else none
  | .compute => some s
  | _ => none

/-- The sockets' side of a half-close of direction `w`. -/
def kernelShutdown (s : Net) (w : Way) : Answer → Option Net
  | .compute => if (s.tunnel.dir w).shutDue then some (s.setSock w.other { s.dest w with shutWr := true }) else some s
  | _ => none

/-- The sockets' side of `poll`. -/
def kernelPoll (cap : Nat) (s : Net) (client upstream : PollMask) : Answer → Option Net
  | .polled r0 r1 =>
    if r0 = (s.sock .c2u).revents cap client ∧ r1 = (s.sock .u2c).revents cap upstream then some s else none
  | .failed e _ => if e = eintr then s.interrupt else none
  | _ => none

/-- The sockets' side of a `recv` of direction `w`. -/
def kernelRecv (s : Net) (w : Way) : Answer → Option Net
  | .data bytes =>
    if (s.sock w).unread.take bytes.length = bytes then
      some (s.setSock w { s.sock w with unread := (s.sock w).unread.drop bytes.length })
    else none
  | .zero =>
    if (s.sock w).unread = [] ∧ (s.sock w).fin = true then some (s.setSock w { s.sock w with finRead := true }) else none
  | .failed e _ =>
    if e = eintr then s.interrupt
    else if e = eagain ∧ (s.sock w).unread = [] ∧ (s.sock w).fin = false then some s
    else none
  | .compute => some s
  | _ => none

/-- The sockets' side of the relay's next step. -/
def kernel (cap : Nat) (s : Net) (ans : Answer) : Option Net :=
  match s.tunnel.pc with
  | .flush w => s.kernelSend cap w ans
  | .shutdown w => s.kernelShutdown w ans
  | .finish | .interests => if ans = .compute then some s else none
  | .poll client upstream => s.kernelPoll cap client upstream ans
  | .read w _ _ => s.kernelRecv w ans
  | _ => none

/-- One step of the relay, its sockets or its peers. -/
def step (a : Args) (cap : Nat) (s : Net) : NetAct → Option Net
  | .arrive w n =>
    if 0 < n ∧ n ≤ (s.sock w).toCome.length then
      some (s.setSock w { s.sock w with
        toCome := (s.sock w).toCome.drop n, unread := (s.sock w).unread ++ (s.sock w).toCome.take n })
    else none
  | .finish w =>
    if (s.sock w).toCome = [] ∧ (s.sock w).fin = false then some (s.setSock w { s.sock w with fin := true }) else none
  | .drain w n =>
    if 0 < n ∧ n ≤ (s.sock w).queued.length then
      some (s.setSock w { s.sock w with
        queued := (s.sock w).queued.drop n, delivered := (s.sock w).delivered ++ (s.sock w).queued.take n })
    else none
  | .call ans => (s.kernel cap ans).bind fun t => (s.tunnel.step a ans).map fun u => { t with tunnel := u }

/-- The state in which the relay loop begins: nothing is buffered, and the peers have their bytes still to send. -/
def start (errno : Nat) (script : Way → Bytes) (signals : Nat) : Net where
  tunnel := (initState errno).loop
  sock := fun w =>
    { toCome := script w, unread := [], fin := false, finRead := false, shutWr := false, queued := [], delivered := [] }
  signals := signals

/-- A poll that reports is not one of a socket with both directions shut. -/
def NoHangup (s : Net) : NetAct → Prop
  | .call (.polled _ _) => ∀ w, (s.sock w).hungUp = false
  | _ => True

end Net

/-- The relay between two peers that send `script`, through send buffers of `cap` bytes. -/
def net (a : Args) (cap : Nat) (script : Way → Bytes) : Lts Net NetAct where
  init := fun s => ∃ errno signals, s = Net.start errno script signals
  step := Net.step a cap

end Tunnel
end HpServer
