import HpServer.Basic

/-!
# The framing of messages (`third_party/llhttp`)

llhttp reads a stream of bytes and calls back with what it finds: messages one after another, with their heads and
their bodies. The rules that say where a message ends are those of `http.c`; they are applied here as the state
machine of `llhttp.c` and the calls of `api.c` apply them, byte by byte. How the text of a head or of a chunk is read
is left to a `Lexer`, a parameter: it has a state of its own, takes one byte at a time, and says what the byte
completes. A span of text that ends in a later buffer is called back in parts, so a lexer may call back a text in as
many parts as it likes.

The callbacks of this code never ask for a pause or for the body to be skipped, no lenient flag is set, and errors
have no names here.
-/

namespace HpServer
namespace Llhttp

/-- `llhttp_type_t`. -/
inductive Kind where
  | request
  | response
  deriving DecidableEq

/-- What llhttp knows of a message when its headers are complete. A parser of responses leaves `method` at zero, which is
`DELETE`. -/
structure Head where
  method : Bytes := ascii "DELETE"
  statusCode : Nat := 0
  httpMajor : Nat := 1
  httpMinor : Nat := 1
  contentLength : UInt64 := 0
  -- the flags, without `F_SKIPBODY` and `F_TRAILING`
  connectionKeepAlive : Bool := false
  connectionClose : Bool := false
  connectionUpgrade : Bool := false
  chunked : Bool := false
  upgradeField : Bool := false
  contentLengthField : Bool := false
  transferEncoding : Bool := false

/-- What `llhttp__after_headers_complete` answers: 0 to 5. -/
inductive AfterHeaders where
  | restart
  | pause
  | chunked
  | identity
  | untilEof
  | invalid
  deriving DecidableEq

namespace Head

/-- `llhttp__before_headers_complete`. -/
def upgrade (kind : Kind) (h : Head) : Bool :=
  if h.upgradeField && h.connectionUpgrade then kind = .request || h.statusCode = 101 else h.method = ascii "CONNECT"

/-- `llhttp_message_needs_eof`. -/
def messageNeedsEof (kind : Kind) (h : Head) : Bool :=
  if kind = .request then false
  else if h.statusCode / 100 = 1 || h.statusCode = 204 || h.statusCode = 304 then false
  else if h.transferEncoding && !h.chunked then true
  else if h.chunked || h.contentLengthField then false
  else true

/-- `llhttp_should_keep_alive`. -/
def shouldKeepAlive (kind : Kind) (h : Head) : Bool :=
  if 0 < h.httpMajor ∧ 0 < h.httpMinor then !h.connectionClose && !h.messageNeedsEof kind
  else h.connectionKeepAlive && !h.messageNeedsEof kind

/-- `llhttp__after_headers_complete`. -/
def afterHeadersComplete (kind : Kind) (h : Head) : AfterHeaders :=
  let hasBody := h.chunked || 0 < h.contentLength
  if (h.upgrade kind && (h.method = ascii "CONNECT" || !hasBody)) || (kind = .response && h.statusCode = 101) then .pause
  else if kind = .response && h.statusCode = 100 then .restart
  else if kind = .response && (h.statusCode = 102 || h.statusCode = 103 || h.statusCode = 204 ||
    h.statusCode = 304) then .restart
  else if h.chunked then .chunked
  else if h.transferEncoding then if kind = .request then .invalid else .untilEof
  else if !h.contentLengthField then if h.messageNeedsEof kind then .untilEof else .restart
  else if h.contentLength = 0 then .restart
  else .identity

end Head

/-- The texts of a head or of a trailer. -/
inductive Text where
  | url
  | status
  | version
  | headerField
  | headerValue
  deriving DecidableEq

/-- A callback. -/
inductive Callback where
  | messageBegin
  | text (field : Text) (bytes : Bytes)
  | headersComplete (h : Head)
  | body (bytes : Bytes)
  | messageComplete

/-- What a byte of a head or of a chunked body comes to: more is to be read, all of it is read, or it is malformed. -/
inductive Lexed (τ κ α : Type) where
  | more (state : τ) (out : List κ)
  | done (result : α) (out : List κ)
  | error

/-- What the text of a chunked body gives: parts of the body, and of the trailer. -/
inductive Piece where
  | body (bytes : Bytes)
  | trailer (field : Text) (bytes : Bytes)

/-- How heads and chunked bodies are read. The fields of a trailer are read as those of a head are and set flags as
they do, so a chunked body gives back what llhttp then knows of the message. -/
structure Lexer (τ : Type) where
  headStart : τ
  head : Kind → τ → UInt8 → Lexed τ (Text × Bytes) Head
  chunkStart : τ
  chunk : Kind → Head → τ → UInt8 → Lexed τ Piece Head

/-- Where llhttp is: before a message, behind the last message of a connection, in a head, in a body, behind an
upgrade it pauses at, or at an error. -/
inductive Point (τ : Type) where
  | start
  | closed
  | head (state : τ)
  | chunked (h : Head) (state : τ)
  | identity (h : Head) (need : Nat)
  | untilEof (h : Head)
  | paused (h : Head)
  | failed

/-- The bytes that are skipped before a message. -/
def isLineEnd (b : UInt8) : Bool := b = 10 || b = 13

/-- The callback for a part of the body or of the trailer. -/
def Piece.callback : Piece → Callback
  | .body bytes => .body bytes
  | .trailer field bytes => .text field bytes

section

variable {τ : Type} (lexer : Lexer τ) (kind : Kind)

/-- `llhttp__after_message_complete`: the next message, or none. -/
def afterMessageComplete (h : Head) : Point τ := if h.shouldKeepAlive kind then .start else .closed

/-- What follows a message with a body: a pause if its head `h` is that of an upgrade. What is known of the message
behind its body is `last`. -/
def afterBody (h last : Head) : Point τ := if h.upgrade kind then .paused last else afterMessageComplete kind last

/-- What follows a head, and the callback when there is no body. -/
def afterHead (h : Head) : Point τ × List Callback :=
  match h.afterHeadersComplete kind with
  | .restart => (afterMessageComplete kind h, [.messageComplete])
  | .pause => (.paused h, [.messageComplete])
  | .chunked => (.chunked h lexer.chunkStart, [])
  | .identity => (.identity h h.contentLength.toNat, [])
  | .untilEof => (.untilEof h, [])
  | .invalid => (.failed, [])

/-- A byte of a head. -/
def headByte (state : τ) (b : UInt8) : Point τ × List Callback :=
  match lexer.head kind state b with
  | .more state' out => (.head state', out.map fun t => .text t.1 t.2)
  | .done h out =>
    let (p, callbacks) := afterHead lexer kind h
    (p, out.map (fun t => .text t.1 t.2) ++ .headersComplete h :: callbacks)
  | .error => (.failed, [])

/-- One byte. The machine does not go on from a pause or an error. -/
def step (b : UInt8) : Point τ → Point τ × List Callback
  | .start =>
    if isLineEnd b then (.start, [])
    else
      let (p, callbacks) := headByte lexer kind lexer.headStart b
      (p, .messageBegin :: callbacks)
  | .closed => if isLineEnd b then (.closed, []) else (.failed, [])
  | .head state => headByte lexer kind state b
  | .chunked h state =>
    match lexer.chunk kind h state b with
    | .more state' out => (.chunked h state', out.map Piece.callback)
    | .done last out => (afterBody kind h last, out.map Piece.callback ++ [.messageComplete])
    | .error => (.failed, [])
  | .identity h need =>
    if need ≤ 1 then (afterBody kind h h, [.body [b], .messageComplete]) else (.identity h (need - 1), [.body [b]])
  | .untilEof h => (.untilEof h, [.body [b]])
  | .paused h => (.paused h, [])
  | .failed => (.failed, [])

/-- The bytes of a buffer, up to a pause or an error. -/
def run (p : Point τ) : Bytes → Point τ × List Callback
  | [] => (p, [])
  | b :: rest =>
    let (p', callbacks) := step lexer kind b p
    let (p'', callbacks') := run p' rest
    (p'', callbacks ++ callbacks')

/-- `llhttp_resume_after_upgrade`: the pause stands before `llhttp__after_message_complete`. -/
def resumeAfterUpgrade : Point τ → Point τ
  | .paused h => afterMessageComplete kind h
  | p => p

/-- `llhttp_finish`: whether it answers `HPE_OK`, and its callbacks. -/
def finish : Point τ → Bool × List Callback
  | .start | .closed | .failed => (true, [])
  | .untilEof _ => (true, [.messageComplete])
  | .head _ | .chunked _ _ | .identity _ _ | .paused _ => (false, [])

end

/-! ## A lexer that knows some texts -/

/-- Texts that may still be read, each with what it gives. -/
abbrev Table (κ α : Type) := List (Bytes × List κ × α)

/-- Reading one of the texts of a table: those that go on with another byte are dropped. -/
def Table.read {κ α σ : Type} (state : Table κ α → σ) (table : Table κ α) (b : UInt8) : Lexed σ κ α :=
  let rest := table.filterMap fun e =>
    match e.1 with
    | [] => none
    | c :: text => if c = b then some (text, e.2) else none
  match rest.lookup [] with
  | some (out, result) => .done result out
  | none => if rest.isEmpty then .error else .more (state rest) []

/-- The heads and chunked bodies that may still be read. -/
abbrev Tables := Table (Text × Bytes) Head × Table Piece Head

/-- The lexer for some heads and chunked bodies; whatever is none of them is malformed. -/
def tableLexer (heads : Table (Text × Bytes) Head) (chunks : Table Piece Head) : Lexer Tables where
  headStart := (heads, [])
  head _ state := Table.read (fun table => (table, [])) state.1
  chunkStart := ([], chunks)
  chunk _ _ state := Table.read (fun table => ([], table)) state.2

end Llhttp
end HpServer
