import HpServer.HttpConn
import HpServer.HttpHeaders
import HpServer.Llhttp
import Mathlib.Data.List.Infix

/-!
# The request parser (`src/net/http/http_request_parser.cpp`)

The callbacks that collect a request from what llhttp finds, and the calls of the parser. `parse_error_`, a text that
nothing here reads, is left out.
-/

namespace HpServer

open Llhttp

/-- A `request_info` with nothing in it. -/
def RequestInfo.empty : RequestInfo where
  method := []
  url := []
  version := []
  host := []
  port := 0
  contentLength := 0
  chunked := false
  keepAlive := false
  isConnect := false
  headers := []
  body := []

/-- `std::isspace` in the C locale. -/
def isSpace (c : UInt8) : Bool := c = 32 || (9 ≤ c && c ≤ 13)

/-- `std::isdigit`. -/
def isDigit (c : UInt8) : Bool := 48 ≤ c && c ≤ 57

/-- `std::strtoul` in base ten: blanks, a sign and digits; what does not fit is the largest number, and a minus sign
negates modulo 2^64. -/
def strtoul (text : Bytes) : Nat :=
  let text := text.dropWhile isSpace
  let (negative, digits) :=
    match text with
    | 45 :: rest => (true, rest)
    | 43 :: rest => (false, rest)
    | rest => (false, rest)
  let value := (digits.takeWhile isDigit).foldl (fun n c => 10 * n + (c.toNat - 48)) 0
  if UInt64.size ≤ value then UInt64.size - 1
  else if negative then (UInt64.size - value) % UInt64.size
  else value

/-- `parse_host_port`: a host in brackets, or a host with one colon; anything else is a host without a port. -/
def parseHostPort (hostPort : Bytes) : Bytes × UInt16 :=
  let s := ((hostPort.dropWhile isSpace).reverse.dropWhile isSpace).reverse
  match s with
  | [] => ([], 0)
  | 91 :: rest =>
    match rest.dropWhile (· ≠ 93) with
    | [] => (s, 0)
    | 93 :: 58 :: port => (rest.takeWhile (· ≠ 93), (strtoul port).toUInt16)
    | _ => (rest.takeWhile (· ≠ 93), 0)
  | _ =>
    if s.count 58 = 1 then (s.takeWhile (· ≠ 58), (strtoul ((s.dropWhile (· ≠ 58)).drop 1)).toUInt16) else (s, 0)

/-- `http_request_parser`. -/
structure HttpRequestParser (τ : Type) where
  parser : Point τ := .start
  parseState : ParseState := .reading
  request : RequestInfo := RequestInfo.empty
  buffer : HeaderBuffer := {}

/-- `post_process_headers`. -/
def RequestInfo.postProcessHeaders (r : RequestInfo) : RequestInfo :=
  let r :=
    match r.headers.lookup (ascii "transfer-encoding") with
    | some te => { r with chunked := decide (ascii "chunked" <:+: toLowerAscii te) }
    | none => r
  if r.isConnect then
    let (host, port) := parseHostPort r.url
    { r with host := host, port := port }
  else
    match r.headers.lookup (ascii "host") with
    | some value =>
      let (host, port) := parseHostPort value
      { r with host := host, port := if port = 0 then 80 else port }
    | none => r

namespace HttpRequestParser

variable {τ : Type}

/-- `has_parse_error`. -/
def hasParseError (p : HttpRequestParser τ) : Bool := p.parseState = .parseError

/-- `is_message_complete`. -/
def isMessageComplete (p : HttpRequestParser τ) : Bool :=
  p.parseState = .messageComplete || p.parseState = .upgradedTunnel

/-- The callbacks. -/
def callback (p : HttpRequestParser τ) : Callback → HttpRequestParser τ
  | .messageBegin => { p with request := RequestInfo.empty, buffer := {}, parseState := .reading }
  | .text .url bytes => { p with request := { p.request with url := p.request.url ++ bytes } }
  | .text .status _ => p
  | .text .version bytes => { p with request := { p.request with version := p.request.version ++ bytes } }
  | .text .headerField bytes =>
    let (buffer, headers) := p.buffer.onHeaderField p.request.headers bytes
    { p with request := { p.request with headers := headers }, buffer := buffer }
  | .text .headerValue bytes => { p with buffer := p.buffer.onHeaderValue bytes }
  | .headersComplete h =>
    let request : RequestInfo :=
      { p.request with
        headers := p.buffer.finishPendingHeader p.request.headers
        method := h.method
        keepAlive := h.shouldKeepAlive .request
        contentLength := h.contentLength
        isConnect := h.method = ascii "CONNECT" }
    { p with request := request.postProcessHeaders }
  | .body bytes => { p with request := { p.request with body := p.request.body ++ bytes } }
  | .messageComplete => { p with parseState := .messageComplete }

/-- `parse`. A pause at an upgrade is taken back at once, so the next call goes on behind it. -/
def parse (lexer : Lexer τ) (p : HttpRequestParser τ) (data : Bytes) : HttpRequestParser τ × Bool :=
  if p.hasParseError || data = [] then (p, !p.hasParseError)
  else
    let (point, callbacks) := run lexer .request (resumeAfterUpgrade .request p.parser) data
    let p' := callbacks.foldl callback { p with parser := point }
    match point with
    | .failed => ({ p' with parseState := .parseError }, false)
    | .paused _ => ({ p' with parseState := .upgradedTunnel }, true)
    | _ => (p', true)

/-- `reset_for_next_message`. -/
def resetForNextMessage (_ : HttpRequestParser τ) : HttpRequestParser τ := {}

/-- The parser, as a connection uses it. -/
def interface (lexer : Lexer τ) : RequestParser (HttpRequestParser τ) where
  init := {}
  parse := parse lexer
  hasParseError := hasParseError
  isMessageComplete := isMessageComplete
  request := request
  resetForNextMessage := resetForNextMessage

end HttpRequestParser
end HpServer
