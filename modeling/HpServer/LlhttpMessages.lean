import HpServer.Llhttp

/-!
# Messages

What a message is, apart from the machine that reads it: a text that the lexer reads whole as a head, and a body that
is delimited as the head says. A stream is messages one after another, with line ends before each of them.
-/

namespace HpServer
namespace Llhttp

section

variable {τ κ α : Type} (read : τ → UInt8 → Lexed τ κ α)

/-- Some bytes as one text: the last byte completes it. -/
def readAll (state : τ) : Bytes → Option (List κ × α)
  | [] => none
  | b :: rest =>
    match read state b with
    | .more state' out => (readAll state' rest).map fun r => (out ++ r.1, r.2)
    | .done result out => if rest = [] then some (out, result) else none
    | .error => none

/-- Some bytes as the beginning of a text. -/
def readPart (state : τ) : Bytes → Option (τ × List κ)
  | [] => some (state, [])
  | b :: rest =>
    match read state b with
    | .more state' out => (readPart state' rest).map fun r => (r.1, out ++ r.2)
    | .done _ _ => none
    | .error => none

end

variable {τ : Type} (lexer : Lexer τ) (kind : Kind)

/-- The text begins with no line end: those are skipped before a message. -/
def Begins (text : Bytes) : Prop := ∃ b rest, text = b :: rest ∧ isLineEnd b = false

/-- Nothing but line ends. -/
def Blank (text : Bytes) : Prop := ∀ b ∈ text, isLineEnd b = true

/-- The callbacks for the texts of a head. -/
def textCallbacks (texts : List (Text × Bytes)) : List Callback := texts.map fun t => .text t.1 t.2

/-- The callbacks for the bytes of a body. -/
def bodyCallbacks (bytes : Bytes) : List Callback := bytes.map fun b => .body [b]

/-- The body is one that the head announces, and gives these callbacks; `last` is what is known of the message behind
it, which a trailer may have changed. A body that lasts until the end of the stream is not complete before that end.
-/
def IsBody (h : Head) (body : Bytes) (out : List Callback) (last : Head) : Prop :=
  match h.afterHeadersComplete kind with
  | .restart | .pause => body = [] ∧ out = [] ∧ last = h
  | .chunked => ∃ pieces, readAll (lexer.chunk kind h) lexer.chunkStart body = some (pieces, last) ∧
    out = pieces.map Piece.callback
  | .identity => body.length = h.contentLength.toNat ∧ out = bodyCallbacks body ∧ last = h
  | .untilEof | .invalid => False

/-- A head: its text, and what is found in it. -/
structure HeadText where
  text : Bytes
  texts : List (Text × Bytes)
  info : Head
  begins : Begins text
  isHead : readAll (lexer.head kind) lexer.headStart text = some (texts, info)

/-- A complete message. -/
structure Message extends HeadText lexer kind where
  body : Bytes
  bodyOut : List Callback
  last : Head
  isBody : IsBody lexer kind info body bodyOut last

variable {lexer kind}

/-- The callbacks for a head. -/
def HeadText.callbacks (hd : HeadText lexer kind) : List Callback :=
  .messageBegin :: textCallbacks hd.texts ++ [.headersComplete hd.info]

namespace Message

/-- The bytes of a message. -/
def bytes (m : Message lexer kind) : Bytes := m.text ++ m.body

/-- The callbacks for a message. -/
def callbacks (m : Message lexer kind) : List Callback := m.toHeadText.callbacks ++ m.bodyOut ++ [.messageComplete]

/-- Where llhttp is behind the message. -/
def after (m : Message lexer kind) : Point τ :=
  match m.info.afterHeadersComplete kind with
  | .restart => afterMessageComplete kind m.last
  | .pause => .paused m.last
  | _ => afterBody kind m.info m.last

end Message

variable (lexer kind)

/-- A part of a body, where llhttp is behind it, and its callbacks. -/
inductive BodyPart (h : Head) : Bytes → Point τ → List Callback → Prop where
  | chunked {part : Bytes} {state : τ} {pieces : List Piece} : h.afterHeadersComplete kind = .chunked →
      readPart (lexer.chunk kind h) lexer.chunkStart part = some (state, pieces) →
      BodyPart h part (.chunked h state) (pieces.map Piece.callback)
  | identity {part : Bytes} : h.afterHeadersComplete kind = .identity → part.length < h.contentLength.toNat →
      BodyPart h part (.identity h (h.contentLength.toNat - part.length)) (bodyCallbacks part)
  | untilEof {part : Bytes} : h.afterHeadersComplete kind = .untilEof → BodyPart h part (.untilEof h) (bodyCallbacks part)

/-- The beginning of a message, where llhttp is behind it, and its callbacks. -/
inductive Partial : Bytes → Point τ → List Callback → Prop where
  | head {part : Bytes} {state : τ} {texts : List (Text × Bytes)} : Begins part →
      readPart (lexer.head kind) lexer.headStart part = some (state, texts) →
      Partial part (.head state) (.messageBegin :: textCallbacks texts)
  | body {part : Bytes} {p : Point τ} {out : List Callback}
    (hd : HeadText lexer kind) : BodyPart lexer kind hd.info part p out →
      Partial (hd.text ++ part) p (hd.callbacks ++ out)

/-- Messages after each of which another may follow, with line ends between them, and their callbacks. -/
inductive Between : Bytes → List Callback → Prop where
  | nil : Between [] []
  | lineEnd {pre : Bytes} {out : List Callback} {b : UInt8} : Between pre out → isLineEnd b = true →
    Between (pre ++ [b]) out
  | message {pre : Bytes} {out : List Callback} (m : Message lexer kind) : Between pre out → m.after = .start →
      Between (pre ++ m.bytes) (out ++ m.callbacks)

/-- Whole messages with line ends between them and behind the last one, which is `m`; behind an upgrade there may be
anything. -/
def EndsWith {kind : Kind} (m : Message lexer kind) (bytes : Bytes) : Prop :=
  ∃ (pre w : Bytes) (out : List Callback), bytes = pre ++ m.bytes ++ w ∧ Between lexer kind pre out ∧
    (Blank w ∨ m.after = .paused m.last)

/-- What llhttp has read when it is at a point: whole messages; whole messages and a last one, behind which only line
ends are read, or nothing is; whole messages and the beginning of one; or something malformed. -/
inductive Reads : Bytes → Point τ → List Callback → Prop where
  | between {pre : Bytes} {out : List Callback} : Between lexer kind pre out → Reads pre .start out
  | closed {pre w : Bytes} {out : List Callback} (m : Message lexer kind) : Between lexer kind pre out →
    m.after = .closed → Blank w →
      Reads (pre ++ m.bytes ++ w) .closed (out ++ m.callbacks)
  | paused {pre w : Bytes} {out : List Callback} (m : Message lexer kind) : Between lexer kind pre out →
    m.after = .paused m.last →
      Reads (pre ++ m.bytes ++ w) (.paused m.last) (out ++ m.callbacks)
  | inside {pre part : Bytes} {p : Point τ} {out out' : List Callback} : Between lexer kind pre out →
    Partial lexer kind part p out' →
      Reads (pre ++ part) p (out ++ out')
  | failed {bytes : Bytes} {out : List Callback} : Reads bytes .failed out

end Llhttp
end HpServer
