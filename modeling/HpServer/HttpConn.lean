import HpServer.Basic

/-!
# A client connection (`http_connection_io.cpp`, `http_conn.cpp`)

The buffers of a connection and its parser. What a system call answers is given from outside: `SendOutcome` and
`RecvOutcome` are the answers of one `send` or `recv`, and a handler is given the list of answers its calls get; once
the list is used up, the socket would block. The request parser is a parameter (`RequestParser`), with its state as a
type variable.
-/

namespace HpServer

open Errno

/-- `http_request_parser::request_info`. -/
structure RequestInfo where
  method : Bytes
  url : Bytes
  version : Bytes
  host : Bytes
  port : UInt16
  contentLength : UInt64
  chunked : Bool
  keepAlive : Bool
  isConnect : Bool
  headers : List (Bytes × Bytes)
  body : Bytes

/-- The interface of `http_request_parser`: `parse` takes more bytes and says whether it accepts them. -/
structure RequestParser (π : Type) where
  init : π
  parse : π → Bytes → π × Bool
  hasParseError : π → Bool
  isMessageComplete : π → Bool
  request : π → RequestInfo
  resetForNextMessage : π → π

/-- One `send`: some bytes are taken (`n + 1`, or all there are), or it fails, or it answers zero and leaves `errno`
as it was. -/
inductive SendOutcome where
  | accepted (n : Nat)
  | refused (errno : Nat)
  | zero (errno : Nat)
  deriving DecidableEq

/-- One `recv`: bytes, the end of the stream, or an error. -/
inductive RecvOutcome where
  | data (bytes : Bytes)
  | eof
  | refused (errno : Nat)
  deriving DecidableEq

/-- `http_connection_io`. -/
structure ConnectionIo where
  fd : Int
  readBuffer : Bytes := []
  writeBuffer : Bytes := []
  writeOffset : Nat := 0
  deriving DecidableEq

namespace ConnectionIo

/-- `has_pending_write`. -/
def hasPendingWrite (c : ConnectionIo) : Bool := c.writeOffset < c.writeBuffer.length

/-- `queue_write`. -/
def queueWrite (c : ConnectionIo) (data : Bytes) : ConnectionIo :=
  if data = [] then c else { c with writeBuffer := c.writeBuffer ++ data }

/-- `read_from_socket` after its check of the descriptor: everything there is to read is appended; `.error` is the
answer -1. -/
def recvLoop (c : ConnectionIo) (total : Nat) : List RecvOutcome → ConnectionIo × Except Nat Nat
  | [] => (c, .ok total)
  | .data bytes :: rest =>
    if bytes = [] then (c, .ok total)
    else recvLoop { c with readBuffer := c.readBuffer ++ bytes } (total + bytes.length) rest
  | .eof :: _ => (c, .ok total)
  | .refused e :: _ => if e = eagain then (c, .ok total) else (c, .error e)

/-- `read_from_socket`. -/
def readFromSocket (c : ConnectionIo) (recvs : List RecvOutcome) : ConnectionIo × Except Nat Nat :=
  if c.fd < 0 then (c, .error ebadf) else c.recvLoop 0 recvs

/-- The loop of `flush_to_socket`, and the answers it leaves unused. -/
def sendLoop (c : ConnectionIo) (total : Nat) : List SendOutcome → ConnectionIo × Except Nat Nat × List SendOutcome
  | [] => (c, .ok total, [])
  | o :: rest =>
    if c.writeOffset < c.writeBuffer.length then
      match o with
      | .accepted n =>
        let taken := min (n + 1) (c.writeBuffer.length - c.writeOffset)
        sendLoop { c with writeOffset := c.writeOffset + taken } (total + taken) rest
      | .refused e => if e = eagain then (c, .ok total, rest) else (c, .error e, rest)
      | .zero e => (c, .error e, rest)
    else (c, .ok total, o :: rest)

/-- The write buffer is emptied once it is sent whole. -/
def compact (c : ConnectionIo) : ConnectionIo :=
  if c.writeOffset = c.writeBuffer.length then { c with writeBuffer := [], writeOffset := 0 } else c

/-- `flush_to_socket`: how much was sent, or the error it leaves with the answer -1. -/
def flushToSocket (c : ConnectionIo) (sends : List SendOutcome) : ConnectionIo × Except Nat Nat × List SendOutcome :=
  if c.fd < 0 then (c, .error ebadf, sends)
  else
    match c.sendLoop 0 sends with
    | (c', .ok total, rest) => (c'.compact, .ok total, rest)
    | (c', .error e, rest) => (c', .error e, rest)

/-- `take_write_buffer`: what was not sent, which the connection then forgets. -/
def takeWriteBuffer (c : ConnectionIo) : ConnectionIo × Bytes :=
  let out := if c.writeOffset = 0 then c.writeBuffer else c.writeBuffer.drop c.writeOffset
  ({ c with writeBuffer := [], writeOffset := 0 }, out)

/-- `consume_read_bytes`. -/
def consumeReadBytes (c : ConnectionIo) (bytes : Nat) : ConnectionIo := { c with readBuffer := c.readBuffer.drop bytes }

end ConnectionIo

/-- `http_conn`. `id` is ghost data: the number of the connection among all that were ever accepted. -/
structure HttpConn (π : Type) where
  io : ConnectionIo
  parser : π
  parseOffset : Nat := 0
  id : Nat

namespace HttpConn

variable {π : Type}

/-- `has_pending_write`. -/
def hasPendingWrite (c : HttpConn π) : Bool := c.io.hasPendingWrite

/-- `queue_write`. -/
def queueWrite (c : HttpConn π) (data : Bytes) : HttpConn π := { c with io := c.io.queueWrite data }

/-- `parse_available_data`. -/
def parseAvailableData (p : RequestParser π) (c : HttpConn π) : HttpConn π × Bool :=
  if p.hasParseError c.parser || c.io.readBuffer.length ≤ c.parseOffset then (c, !p.hasParseError c.parser)
  else
    match p.parse c.parser (c.io.readBuffer.drop c.parseOffset) with
    | (parser, false) => ({ c with parser := parser }, false)
    | (parser, true) => ({ c with parser := parser, parseOffset := c.io.readBuffer.length }, true)

/-- `reset_for_next_message`. -/
def resetForNextMessage (p : RequestParser π) (c : HttpConn π) : HttpConn π :=
  { c with
    io := if 0 < c.parseOffset then c.io.consumeReadBytes c.parseOffset else c.io
    parseOffset := 0
    parser := p.resetForNextMessage c.parser }

end HttpConn
end HpServer
