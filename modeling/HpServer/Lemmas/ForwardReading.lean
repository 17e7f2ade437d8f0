import HpServer.ForwardRequest
import HpServer.Lemmas.ResponseReading

/-!
# What `forward_request` has read

While it waits for more, the parser of `forward_request` has read exactly what was received, and has no complete
message (`Awaits`).
-/

namespace HpServer

open Llhttp

namespace Forward

variable {τ : Type} {lexer : Lexer τ}

/-- The parser has read what was received, and has no complete message. -/
structure Awaits (lexer : Lexer τ) (s : State τ) : Prop where
  response : s.outResponse = s.received
  parser : s.responseParser = (HttpResponseParser.afterReading lexer s.received).settle.1
  going : HttpResponseParser.Going lexer s.received

/-- The state when more bytes were received. -/
def State.gained (lexer : Lexer τ) (s : State τ) (bytes : Bytes) : State τ :=
  { s with
    outResponse := s.outResponse ++ bytes
    received := s.received ++ bytes
    partialReadTimeoutRetries := 0
    responseParser := (HttpResponseParser.afterReading lexer (s.received ++ bytes)).settle.1 }

/-- The state when the connection was closed. -/
def State.closed (s : State τ) : State τ := { s with responseParser := s.responseParser.finish.1 }

/-- What the bytes that were received come to, with those before them. -/
theorem Awaits.stepRecv_data {s : State τ} (h : Awaits lexer s) {bytes : Bytes}
    (hbytes : bytes ≠ [] ∧ bytes.length ≤ Tunnel.kIoBufferSize) :
    s.stepRecv lexer (.data bytes) = some (
      if (HttpResponseParser.afterReading lexer (s.received ++ bytes)).settle.2 = false then
        (s.gained lexer bytes).fail Errno.eproto
      else if (HttpResponseParser.afterReading lexer (s.received ++ bytes)).settle.1.isMessageComplete then
        (s.gained lexer bytes).goto (.returned true)
      else s.gained lexer bytes) := by
  have hparse : s.responseParser.parse lexer bytes =
      (HttpResponseParser.afterReading lexer (s.received ++ bytes)).settle := by
    rw [h.parser]
    exact HttpResponseParser.parse_afterReading lexer h.going.ok h.going.incomplete hbytes.1
  rw [State.stepRecv, if_pos hbytes]
  simp only [hparse, apply_ite some]
  rfl

/-- At the end of the stream `finish` decides. -/
theorem Awaits.stepRecv_zero {s : State τ} (h : Awaits lexer s) :
    s.stepRecv lexer .zero = some (
      if (HttpResponseParser.afterReading lexer s.received).settle.1.finish.2 then s.closed.goto (.returned true)
      else s.closed.fail Errno.econnreset) := by
  rw [State.stepRecv, h.parser, if_neg (by simp [h.going.incomplete])]
  simp only [apply_ite some, State.closed, h.parser]

theorem Awaits.gained {s : State τ} (h : Awaits lexer s) {bytes : Bytes}
    (hgoing : HttpResponseParser.Going lexer (s.received ++ bytes)) :
    Awaits lexer (s.gained lexer bytes) where
  response := by rw [State.gained, h.response]
  parser := rfl
  going := hgoing

/-- Only the error number, the place and the count of timeouts change. -/
theorem Awaits.same {s t : State τ} (h : Awaits lexer s) (hresponse : t.outResponse = s.outResponse)
    (hparser : t.responseParser = s.responseParser) (hreceived : t.received = s.received) : Awaits lexer t where
  response := by rw [hresponse, hreceived, h.response]
  parser := by rw [hparser, hreceived, h.parser]
  going := by rw [hreceived]; exact h.going

end Forward

end HpServer
