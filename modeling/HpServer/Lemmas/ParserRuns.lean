import HpServer.HttpRequestParser
import HpServer.HttpResponseParser
import HpServer.Lemmas.LlhttpRuns

/-!
# The parsers over a stream

The two parsers are their callbacks, applied to what llhttp finds. A message that begins makes them forget the one
before it (`foldl_begin`), and how far they are with a message depends on the last callback that begins or completes
one (`foldl_parseState`). Fed with a stream in parts, a parser is as if it had been fed with all of it at once
(`afterReading`), as long as it has no complete message.
-/

namespace HpServer

open Llhttp

/-! ## How far a parser is -/

/-- How far a parser is after a callback. -/
def ParseState.after (s : ParseState) : Callback → ParseState
  | .messageBegin => .reading
  | .messageComplete => .messageComplete
  | _ => s

/-- Nothing begins or completes a message. -/
def Quiet (out : List Callback) : Prop := ∀ c ∈ out, ∀ s, ParseState.after s c = s

/-- Two quiet runs make a quiet one. -/
theorem Quiet.append {a b : List Callback} (ha : Quiet a) (hb : Quiet b) : Quiet (a ++ b) := by
  intro c hc
  rcases List.mem_append.mp hc with hc | hc
  · exact ha c hc
  · exact hb c hc

/-- They leave the parser as far with a message as it was. -/
theorem Quiet.foldl {out : List Callback} (h : Quiet out) (s : ParseState) : out.foldl ParseState.after s = s := by
  induction out with
  | nil => rfl
  | cons c out ih =>
    rw [List.foldl_cons, h c (by simp)]
    exact ih fun d hd => h d (by simp [hd])

/-- The texts of a head are called back in between. -/
theorem quiet_textCallbacks (texts : List (Text × Bytes)) : Quiet (textCallbacks texts) := by
  intro c hc s
  obtain ⟨t, -, rfl⟩ := List.mem_map.mp hc
  rfl

/-- So is a body of known length. -/
theorem quiet_bodyCallbacks (bytes : Bytes) : Quiet (bodyCallbacks bytes) := by
  intro c hc s
  obtain ⟨b, -, rfl⟩ := List.mem_map.mp hc
  rfl

/-- So are the pieces of a chunked body. -/
theorem quiet_pieces (pieces : List Piece) : Quiet (pieces.map Piece.callback) := by
  intro c hc s
  obtain ⟨piece, -, rfl⟩ := List.mem_map.mp hc
  cases piece <;> rfl

namespace Llhttp

variable {τ : Type} {lexer : Lexer τ} {kind : Kind}

/-- Within a body no message begins and none ends. -/
theorem IsBody.quiet {h last : Head} {body : Bytes} {out : List Callback}
    (hbody : IsBody lexer kind h body out last) : Quiet out := by
  unfold IsBody at hbody
  split at hbody
  · rw [hbody.2.1]
    intro c hc
    cases hc
  · rw [hbody.2.1]
    intro c hc
    cases hc
  · obtain ⟨pieces, -, rfl⟩ := hbody
    exact quiet_pieces pieces
  · rw [hbody.2.1]
    exact quiet_bodyCallbacks body
  · cases hbody
  · cases hbody

/-- Nor within a part of a body. -/
theorem BodyPart.quiet {h : Head} {part : Bytes} {p : Point τ} {out : List Callback}
    (hpart : BodyPart lexer kind h part p out) :
    Quiet out := by
  cases hpart with
  | chunked => exact quiet_pieces _
  | identity => exact quiet_bodyCallbacks _
  | untilEof => exact quiet_bodyCallbacks _

/-- The callbacks of a head are those behind its first one, which begins the message. -/
theorem HeadText.callbacks_eq (hd : HeadText lexer kind) :
    ∃ out, hd.callbacks = .messageBegin :: out ∧ Quiet out := by
  refine ⟨_, rfl, (quiet_textCallbacks _).append ?_⟩
  intro c hc s
  rw [List.mem_singleton.mp hc]
  rfl

/-- The beginning of a message is called back as one `messageBegin` and what follows it. -/
theorem Partial.callbacks_eq {part : Bytes} {p : Point τ} {out : List Callback} (hpart : Partial lexer kind part p out) :
    ∃ out', out = .messageBegin :: out' ∧ Quiet out' := by
  cases hpart with
  | head => exact ⟨_, rfl, quiet_textCallbacks _⟩
  | body hd hbody =>
    obtain ⟨out', heq, hquiet⟩ := hd.callbacks_eq
    exact ⟨_, by rw [heq, List.cons_append], hquiet.append hbody.quiet⟩

/-- A whole message is called back from its `messageBegin` to its `messageComplete`. -/
theorem Message.callbacks_eq (m : Message lexer kind) :
    ∃ out, m.callbacks = .messageBegin :: out ++ [.messageComplete] ∧ Quiet out := by
  obtain ⟨out, heq, hquiet⟩ := m.toHeadText.callbacks_eq
  exact ⟨out ++ m.bodyOut, by rw [Message.callbacks, heq, List.cons_append], hquiet.append m.isBody.quiet⟩

/-- In the middle of a message. -/
theorem Partial.foldl_after {part : Bytes} {p : Point τ} {out : List Callback} (hpart : Partial lexer kind part p out)
    (s : ParseState) : out.foldl ParseState.after s = .reading := by
  obtain ⟨out', rfl, hquiet⟩ := hpart.callbacks_eq
  exact hquiet.foldl _

/-- Behind a message. -/
theorem Message.foldl_after (m : Message lexer kind) (s : ParseState) :
    m.callbacks.foldl ParseState.after s = .messageComplete := by
  obtain ⟨out, heq, -⟩ := m.callbacks_eq
  rw [heq, List.foldl_append]
  rfl

end Llhttp

/-- No callback reports an error; `parse` does. -/
theorem foldl_after_ne_parseError (out : List Callback) {s : ParseState} (hs : s ≠ .parseError) :
    out.foldl ParseState.after s ≠ .parseError := by
  induction out generalizing s with
  | nil => exact hs
  | cons c out ih =>
    rw [List.foldl_cons]
    apply ih
    cases c with
    | messageBegin | messageComplete => exact nofun
    | _ => exact hs

/-- The first index, when it is zero. -/
theorem exists_first_zero {A B : Nat → Prop} (hzero : B 0) : (∃ k, A k ∧ ∀ j < k, ¬B j) ↔ A 0 := by
  constructor
  · rintro ⟨k, hA, hB⟩
    cases k with
    | zero => exact hA
    | succ k => exact absurd hzero (hB 0 (Nat.succ_pos k))
  · intro hA
    exact ⟨0, hA, fun j hj => absurd hj (Nat.not_lt_zero j)⟩

/-- The first index, when it is not zero. -/
theorem exists_first_succ {A B : Nat → Prop} (hzero : ¬B 0) (hAB : A 0 → B 0) :
    (∃ k, A k ∧ ∀ j < k, ¬B j) ↔ ∃ k, A (k + 1) ∧ ∀ j < k, ¬B (j + 1) := by
  constructor
  · rintro ⟨k, hA, hB⟩
    cases k with
    | zero => exact absurd (hAB hA) hzero
    | succ k => exact ⟨k, hA, fun j hj => hB (j + 1) (by omega)⟩
  · rintro ⟨k, hA, hB⟩
    refine ⟨k + 1, hA, fun j hj => ?_⟩
    cases j with
    | zero => exact hzero
    | succ j => exact hB j (by omega)

/-! ## The request parser -/

namespace HttpRequestParser

variable {τ : Type}

/-- How far the parser is depends on the callbacks and on nothing else of it. -/
theorem foldl_parseState (p : HttpRequestParser τ) (out : List Callback) :
    (out.foldl callback p).parseState = out.foldl ParseState.after p.parseState := by
  refine (List.foldl_hom HttpRequestParser.parseState fun p c => ?_).symm
  cases c with
  | text field bytes => cases field <;> rfl
  | _ => rfl

/-- The callbacks neither read nor change the point llhttp is at. -/
theorem foldl_point (p : HttpRequestParser τ) (point : Point τ) (out : List Callback) :
    out.foldl callback { p with parser := point } = { out.foldl callback p with parser := point } := by
  refine List.foldl_hom (fun p : HttpRequestParser τ => { p with parser := point }) fun p c => ?_
  cases c with
  | text field bytes => cases field <;> rfl
  | _ => rfl

/-- A message that begins makes the parser forget what it had. -/
theorem foldl_begin (p : HttpRequestParser τ) (out : List Callback) :
    (Callback.messageBegin :: out).foldl callback p =
      (Callback.messageBegin :: out).foldl callback { parser := p.parser } := rfl

/-- What some callbacks leave in a new parser. -/
def collect (out : List Callback) : HttpRequestParser τ := out.foldl callback {}

/-- From any point, a new parser collects what it collects from the start. -/
theorem foldl_at (point : Point τ) (out : List Callback) :
    out.foldl callback { parser := point } = { (collect out : HttpRequestParser τ) with parser := point } :=
  foldl_point {} point out

/-- The parser when it has read some bytes, apart from what `parse` makes of an error or of an upgrade. -/
def afterReading (lexer : Lexer τ) (bytes : Bytes) : HttpRequestParser τ :=
  (run lexer .request .start bytes).2.foldl callback { parser := (run lexer .request .start bytes).1 }

/-- What `parse` makes of the point llhttp has come to. -/
def settle (p : HttpRequestParser τ) : HttpRequestParser τ × Bool :=
  match p.parser with
  | .failed => ({ p with parseState := .parseError }, false)
  | .paused _ => ({ p with parseState := .upgradedTunnel }, true)
  | _ => (p, true)

/-- The point the parser is at is llhttp's. -/
theorem parser_afterReading (lexer : Lexer τ) (bytes : Bytes) :
    (afterReading lexer bytes).parser = (run lexer .request .start bytes).1 := by
  rw [afterReading, foldl_at]

/-- Reading alone does not set `parse_error`. -/
theorem hasParseError_afterReading (lexer : Lexer τ) (bytes : Bytes) :
    (afterReading lexer bytes).hasParseError = false := by
  rw [hasParseError, decide_eq_false_iff_not, afterReading, foldl_parseState]
  exact foldl_after_ne_parseError _ nofun

/-- A parser that goes on reading has come to no error and no upgrade. -/
theorem settle_eq_self {p : HttpRequestParser τ} (hok : p.settle.2 = true)
    (hcomplete : p.settle.1.isMessageComplete = false) :
    p.settle = (p, true) ∧ p.parser ≠ .failed ∧ resumeAfterUpgrade .request p.parser = p.parser := by
  unfold settle at hok hcomplete ⊢
  cases hp : p.parser with
  | failed => simp [hp] at hok
  | paused h => simp [hp, isMessageComplete] at hcomplete
  | _ => simp [resumeAfterUpgrade]

/-- A call of `parse` is a run of llhttp over the data, its callbacks, and what `parse` makes of where it ends. -/
theorem parse_eq (lexer : Lexer τ) {p : HttpRequestParser τ} {data : Bytes} (herror : p.hasParseError = false)
    (hdata : data ≠ []) :
    parse lexer p data =
      ((run lexer .request (resumeAfterUpgrade .request p.parser) data).2.foldl callback
        { p with parser := (run lexer .request (resumeAfterUpgrade .request p.parser) data).1 }).settle := by
  rw [parse, if_neg (by simp [herror, hdata])]
  generalize run lexer .request (resumeAfterUpgrade .request p.parser) data = r
  obtain ⟨point, out⟩ := r
  cases point <;> simp only [settle, foldl_point]

/-- Fed with more bytes, a parser that has no complete message is as if it had been fed with all of them. -/
theorem parse_afterReading (lexer : Lexer τ) {a b : Bytes} (hok : (afterReading lexer a).settle.2 = true)
    (hcomplete : (afterReading lexer a).settle.1.isMessageComplete = false) (hb : b ≠ []) :
    parse lexer (afterReading lexer a).settle.1 b = (afterReading lexer (a ++ b)).settle := by
  obtain ⟨hself, -, hresume⟩ := settle_eq_self hok hcomplete
  rw [hself, parse_eq lexer (hasParseError_afterReading lexer a) hb, hresume, parser_afterReading]
  rw [afterReading, foldl_at, afterReading, run_append, List.foldl_append, foldl_at]

end HttpRequestParser

/-! ## The response parser -/

namespace HttpResponseParser

variable {τ : Type}

/-- As for requests. -/
theorem foldl_parseState (p : HttpResponseParser τ) (out : List Callback) :
    (out.foldl callback p).parseState = out.foldl ParseState.after p.parseState := by
  refine (List.foldl_hom HttpResponseParser.parseState fun p c => ?_).symm
  cases c with
  | text field bytes => cases field <;> rfl
  | _ => rfl

/-- As for requests. -/
theorem foldl_point (p : HttpResponseParser τ) (point : Point τ) (out : List Callback) :
    out.foldl callback { p with parser := point } = { out.foldl callback p with parser := point } := by
  refine List.foldl_hom (fun p : HttpResponseParser τ => { p with parser := point }) fun p c => ?_
  cases c with
  | text field bytes => cases field <;> rfl
  | _ => rfl

/-- A message that begins makes the parser forget what it had. -/
theorem foldl_begin (p : HttpResponseParser τ) (out : List Callback) :
    (Callback.messageBegin :: out).foldl callback p =
      (Callback.messageBegin :: out).foldl callback { parser := p.parser } := rfl

/-- A body of known length is appended. -/
theorem foldl_body (p : HttpResponseParser τ) (bytes : Bytes) :
    (bodyCallbacks bytes).foldl callback p =
      { p with response := { p.response with body := p.response.body ++ bytes } } := by
  induction bytes generalizing p with
  | nil => simp [bodyCallbacks]
  | cons b bytes ih =>
    rw [bodyCallbacks, List.map_cons, List.foldl_cons]
    refine (ih _).trans ?_
    simp only [callback, List.append_assoc, List.singleton_append]

/-- What some callbacks leave in a new parser. -/
def collect (out : List Callback) : HttpResponseParser τ := out.foldl callback {}

/-- As for requests. -/
theorem foldl_at (point : Point τ) (out : List Callback) :
    out.foldl callback { parser := point } = { (collect out : HttpResponseParser τ) with parser := point } :=
  foldl_point {} point out

/-- The parser when it has read some bytes, apart from what `parse` makes of an error or of an upgrade. -/
def afterReading (lexer : Lexer τ) (bytes : Bytes) : HttpResponseParser τ :=
  (run lexer .response .start bytes).2.foldl callback { parser := (run lexer .response .start bytes).1 }

/-- What `parse` makes of the point llhttp has come to. -/
def settle (p : HttpResponseParser τ) : HttpResponseParser τ × Bool :=
  match p.parser with
  | .failed => ({ p with parseState := .parseError }, false)
  | .paused _ => ({ p with parseState := .upgradedTunnel }, true)
  | _ => (p, true)

/-- The point the parser is at is llhttp's. -/
theorem parser_afterReading (lexer : Lexer τ) (bytes : Bytes) :
    (afterReading lexer bytes).parser = (run lexer .response .start bytes).1 := by
  rw [afterReading, foldl_at]

/-- Reading alone does not set `parse_error`. -/
theorem hasParseError_afterReading (lexer : Lexer τ) (bytes : Bytes) :
    (afterReading lexer bytes).hasParseError = false := by
  rw [hasParseError, decide_eq_false_iff_not, afterReading, foldl_parseState]
  exact foldl_after_ne_parseError _ nofun

/-- A parser that goes on reading has come to no error and no upgrade. -/
theorem settle_eq_self {p : HttpResponseParser τ} (hok : p.settle.2 = true)
    (hcomplete : p.settle.1.isMessageComplete = false) :
    p.settle = (p, true) ∧ p.parser ≠ .failed ∧ resumeAfterUpgrade .response p.parser = p.parser := by
  unfold settle at hok hcomplete ⊢
  cases hp : p.parser with
  | failed => simp [hp] at hok
  | paused h => simp [hp, isMessageComplete] at hcomplete
  | _ => simp [resumeAfterUpgrade]

/-- A call of `parse` is a run of llhttp over the data, unless there is a complete message already. -/
theorem parse_eq (lexer : Lexer τ) {p : HttpResponseParser τ} {data : Bytes} (herror : p.hasParseError = false)
    (hcomplete : p.isMessageComplete = false) (hdata : data ≠ []) :
    parse lexer p data =
      ((run lexer .response (resumeAfterUpgrade .response p.parser) data).2.foldl callback
        { p with parser := (run lexer .response (resumeAfterUpgrade .response p.parser) data).1 }).settle := by
  rw [parse, if_neg (by simp [herror, hcomplete, hdata])]
  generalize run lexer .response (resumeAfterUpgrade .response p.parser) data = r
  obtain ⟨point, out⟩ := r
  cases point <;> simp only [settle, foldl_point]

/-- Fed with more bytes, a parser that has no complete message is as if it had been fed with all of them. -/
theorem parse_afterReading (lexer : Lexer τ) {a b : Bytes} (hok : (afterReading lexer a).settle.2 = true)
    (hcomplete : (afterReading lexer a).settle.1.isMessageComplete = false) (hb : b ≠ []) :
    parse lexer (afterReading lexer a).settle.1 b = (afterReading lexer (a ++ b)).settle := by
  obtain ⟨hself, -, hresume⟩ := settle_eq_self hok hcomplete
  rw [hself] at hcomplete ⊢
  rw [parse_eq lexer (hasParseError_afterReading lexer a) hcomplete hb, hresume, parser_afterReading]
  rw [afterReading, foldl_at, afterReading, run_append, List.foldl_append, foldl_at]

end HttpResponseParser

end HpServer
