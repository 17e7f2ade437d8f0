import Mathlib.Data.List.Basic

/-!
# Bytes, error numbers and event masks

The values the code takes from the system headers. Error numbers and event bits are those of Linux, where `EWOULDBLOCK` is
`EAGAIN`.
-/

namespace HpServer

/-- A byte string (`std::string`, `std::string_view`). -/
abbrev Bytes := List UInt8

/-- The bytes of an ASCII text. -/
def ascii (s : String) : Bytes := s.toList.map fun c => c.toNat.toUInt8

/-- `std::to_string` of a number that is not negative. -/
def decimal (n : Nat) : Bytes := (Nat.toDigits 10 n).map fun c => c.toNat.toUInt8

/-- `std::to_string` of an `int`. -/
def signedDecimal (n : Int) : Bytes := if n < 0 then 45 :: decimal n.natAbs else decimal n.natAbs

namespace Errno

def eintr : Nat := 4
def eio : Nat := 5
def ebadf : Nat := 9
def eagain : Nat := 11
def einval : Nat := 22
def epipe : Nat := 32
def eproto : Nat := 71
def econnaborted : Nat := 103
def econnreset : Nat := 104
def enotconn : Nat := 107
def etimedout : Nat := 110

/-- `errno` after `socket_ops::send` or `socket_ops::recv` has answered -1 with the error number `e`. These functions
print every error but `EAGAIN` and `EINTR` with `perror`, which may leave another number: `left`. -/
def afterSocketOps (e left : Nat) : Nat := if e = eagain ∨ e = eintr then e else left

/-- A call that would block is not printed. -/
@[simp] theorem afterSocketOps_eagain (left : Nat) : afterSocketOps eagain left = eagain := if_pos (.inl rfl)

/-- Nor is one that was interrupted. -/
@[simp] theorem afterSocketOps_eintr (left : Nat) : afterSocketOps eintr left = eintr := if_pos (.inr rfl)

end Errno

/-- The bits of `pollfd.events` and `pollfd.revents`. -/
abbrev PollMask := BitVec 16

namespace PollMask

def pollIn : PollMask := 0x001
def pollOut : PollMask := 0x004
def pollErr : PollMask := 0x008
def pollHup : PollMask := 0x010
def pollNval : PollMask := 0x020

/-- The conditions `poll` reports whether or not they were asked for. -/
def always : PollMask := pollErr ||| pollHup ||| pollNval

end PollMask

/-- The bits of `epoll_event.events`. -/
abbrev EpollMask := BitVec 32

namespace EpollMask

def epollIn : EpollMask := 0x001
def epollOut : EpollMask := 0x004
def epollErr : EpollMask := 0x008
def epollHup : EpollMask := 0x010
def epollRdhup : EpollMask := 0x2000
def epollEt : EpollMask := 0x80000000

/-- The event says that there is something to read, and nothing of an error or a hang-up. -/
def Readable (ev : EpollMask) : Prop := ev &&& epollIn ≠ 0 ∧ ev &&& (epollErr ||| epollHup ||| epollRdhup) = 0

instance (ev : EpollMask) : Decidable ev.Readable := inferInstanceAs (Decidable (_ ∧ _))

end EpollMask

end HpServer
