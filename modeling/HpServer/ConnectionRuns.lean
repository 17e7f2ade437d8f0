import HpServer.HttpConn
import HpServer.Lib.Lts

/-!
# Runs of a connection's buffers

Any sequence of the calls that use the buffers of a connection. The run keeps, beside the connection, what was given
to it and what it gave away: the data that was queued, the bytes the socket accepted and the strings that were taken,
the bytes the socket delivered, and the bytes the parser was given.
-/

namespace HpServer

open Errno

/-- The bytes that are queued and have not left. -/
def ConnectionIo.pending (c : ConnectionIo) : Bytes := c.writeBuffer.drop c.writeOffset

/-- The bytes `flush_to_socket` gets rid of: each `send` is given all that is left and accepts a part of it. -/
def ConnectionIo.sentBytes (c : ConnectionIo) : List SendOutcome → Bytes
  | [] => []
  | o :: rest =>
    if c.writeOffset < c.writeBuffer.length then
      match o with
      | .accepted n =>
        let taken := min (n + 1) (c.writeBuffer.length - c.writeOffset)
        (c.writeBuffer.drop c.writeOffset).take taken ++ sentBytes { c with writeOffset := c.writeOffset + taken } rest
      | _ => []
    else []

/-- The bytes `read_from_socket` gets: those that come before the end of the stream or an error. -/
def receivedBytes : List RecvOutcome → Bytes
  | .data bytes :: rest => if bytes = [] then [] else bytes ++ receivedBytes rest
  | _ => []

/-- What leaves the write buffer. -/
inductive Output where
  | accepted (bytes : Bytes)
  | taken (bytes : Bytes)

/-- The bytes that went out. -/
def Output.bytes : Output → Bytes
  | accepted bytes => bytes
  | taken bytes => bytes

/-- A connection with what went in and out of it. -/
structure ConnectionRun (π : Type) where
  conn : HttpConn π
  queued : List Bytes := []
  output : List Output := []
  received : Bytes := []
  handed : List Bytes := []

/-- The calls that use the buffers. -/
inductive ConnectionAction where
  | queueWrite (data : Bytes)
  | flushToSocket (sends : List SendOutcome)
  | takeWriteBuffer
  | readFromSocket (recvs : List RecvOutcome)
  | parseAvailableData
  | resetForNextMessage

namespace ConnectionRun

variable {π : Type}

/-- What is still to be sent. -/
def pending (s : ConnectionRun π) : Bytes := s.conn.io.pending

/-- The bytes in the read buffer that the parser was not given. -/
def unparsed (s : ConnectionRun π) : Bytes := s.conn.io.readBuffer.drop s.conn.parseOffset

/-- The bytes a call of `parse_available_data` gives to the parser. -/
def handedNow (p : RequestParser π) (s : ConnectionRun π) : Bytes :=
  if p.hasParseError s.conn.parser || s.conn.io.readBuffer.length ≤ s.conn.parseOffset then [] else s.unparsed

/-- One call. -/
def step (p : RequestParser π) (s : ConnectionRun π) : ConnectionAction → ConnectionRun π
  | .queueWrite data => { s with conn := s.conn.queueWrite data, queued := s.queued ++ [data] }
  | .flushToSocket sends =>
    { s with
      conn := { s.conn with io := (s.conn.io.flushToSocket sends).1 }
      output := s.output ++ [.accepted (if s.conn.io.fd < 0 then [] else s.conn.io.sentBytes sends)] }
  | .takeWriteBuffer =>
    { s with conn := { s.conn with io := s.conn.io.takeWriteBuffer.1 },
             output := s.output ++ [.taken s.conn.io.takeWriteBuffer.2] }
  | .readFromSocket recvs =>
    { s with
      conn := { s.conn with io := (s.conn.io.readFromSocket recvs).1 }
      received := s.received ++ (if s.conn.io.fd < 0 then [] else receivedBytes recvs) }
  | .parseAvailableData => { s with conn := (s.conn.parseAvailableData p).1, handed := s.handed ++ [s.handedNow p] }
  | .resetForNextMessage => { s with conn := s.conn.resetForNextMessage p }

/-- The parser accepts what it is given. -/
def NoParseError (p : RequestParser π) (s : ConnectionRun π) : ConnectionAction → Prop
  | .parseAvailableData => (s.conn.parseAvailableData p).2 = true
  | _ => True

end ConnectionRun

/-- The runs of a connection from its construction on. -/
def connectionRuns {π : Type} (p : RequestParser π) : Lts (ConnectionRun π) ConnectionAction where
  init s := ∃ fd id, s = { conn := { io := { fd := fd }, parser := p.init, id := id } }
  step s a := some (s.step p a)

end HpServer
