import HpServer.HttpHeaders
import HpServer.Llhttp
import Mathlib.Data.List.Infix

/-!
# The response parser (`src/net/http/http_response_parser.cpp`)

As the request parser, but it stops at the first complete message it comes to at the end of a buffer, and has `finish`
for the end of the stream. `parse_error_` is left out.
-/

namespace HpServer

open Llhttp

/-- `http_response_parser::response_info`. -/
structure ResponseInfo where
  statusCode : Nat := 0
  reasonPhrase : Bytes := []
  version : Bytes := []
  contentLength : UInt64 := 0
  chunked : Bool := false
  keepAlive : Bool := false
  headers : Headers := []
  body : Bytes := []

/-- `post_process_headers`. -/
def ResponseInfo.postProcessHeaders (r : ResponseInfo) : ResponseInfo :=
  match r.headers.lookup (ascii "transfer-encoding") with
  | some te => { r with chunked := decide (ascii "chunked" <:+: toLowerAscii te) }
  | none => r

/-- `http_response_parser`. -/
structure HttpResponseParser (τ : Type) where
  parser : Point τ := .start
  parseState : ParseState := .reading
  response : ResponseInfo := {}
  buffer : HeaderBuffer := {}

namespace HttpResponseParser

variable {τ : Type}

/-- `has_parse_error`. -/
def hasParseError (p : HttpResponseParser τ) : Bool := p.parseState = .parseError

/-- `is_message_complete`. -/
def isMessageComplete (p : HttpResponseParser τ) : Bool :=
  p.parseState = .messageComplete || p.parseState = .upgradedTunnel

/-- The callbacks. -/
def callback (p : HttpResponseParser τ) : Callback → HttpResponseParser τ
  | .messageBegin => { p with response := {}, buffer := {}, parseState := .reading }
  | .text .url _ => p
  | .text .status bytes => { p with response := { p.response with reasonPhrase := p.response.reasonPhrase ++ bytes } }
  | .text .version bytes => { p with response := { p.response with version := p.response.version ++ bytes } }
  | .text .headerField bytes =>
    let (buffer, headers) := p.buffer.onHeaderField p.response.headers bytes
    { p with response := { p.response with headers := headers }, buffer := buffer }
  | .text .headerValue bytes => { p with buffer := p.buffer.onHeaderValue bytes }
  | .headersComplete h =>
    let response : ResponseInfo :=
      { p.response with
        headers := p.buffer.finishPendingHeader p.response.headers
        statusCode := h.statusCode
        keepAlive := h.shouldKeepAlive .response
        contentLength := h.contentLength }
    { p with response := response.postProcessHeaders }
  | .body bytes => { p with response := { p.response with body := p.response.body ++ bytes } }
  | .messageComplete => { p with parseState := .messageComplete }

/-- `parse`. -/
def parse (lexer : Lexer τ) (p : HttpResponseParser τ) (data : Bytes) : HttpResponseParser τ × Bool :=
  if p.hasParseError || p.isMessageComplete || data = [] then (p, !p.hasParseError)
  else
    let (point, callbacks) := run lexer .response (resumeAfterUpgrade .response p.parser) data
    let p' := callbacks.foldl callback { p with parser := point }
    match point with
    | .failed => ({ p' with parseState := .parseError }, false)
    | .paused _ => ({ p' with parseState := .upgradedTunnel }, true)
    | _ => (p', true)

/-- `finish`. -/
def finish (p : HttpResponseParser τ) : HttpResponseParser τ × Bool :=
  if p.hasParseError || p.isMessageComplete then (p, !p.hasParseError)
  else
    let (ok, callbacks) := Llhttp.finish p.parser
    let p' := callbacks.foldl callback p
    if ok then
      ({ p' with parseState := if p'.parseState = .upgradedTunnel then .upgradedTunnel else .messageComplete }, true)
    else ({ p' with parseState := .parseError }, false)

end HttpResponseParser
end HpServer
