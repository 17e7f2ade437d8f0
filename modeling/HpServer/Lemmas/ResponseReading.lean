import HpServer.Lemmas.ParserRuns

/-!
# Reading responses

What the response parser makes of the bytes it was fed with: there is a complete message (`Finished`), there is none
yet (`Going`), or they are malformed. When the connection is closed, what was read is a complete response or nothing
but line ends.
-/

namespace HpServer

open Llhttp

namespace Llhttp

variable {τ : Type} {lexer : Lexer τ} {kind : Kind}

/-- What llhttp makes of the head of a final response. -/
theorem Head.afterHeadersComplete_final {h : Head} (hfinal : h.statusCode / 100 ≠ 1)
    (hmethod : h.method ≠ ascii "CONNECT") :
    h.afterHeadersComplete .response =
      if h.statusCode = 204 ∨ h.statusCode = 304 then .restart
      else if h.chunked then .chunked
      else if h.transferEncoding then .untilEof
      else if h.contentLengthField then if h.contentLength = 0 then .restart else .identity
      else .untilEof := by
  have h100 : h.statusCode ≠ 100 := fun heq => hfinal (by rw [heq])
  have h101 : h.statusCode ≠ 101 := fun heq => hfinal (by rw [heq])
  have h102 : h.statusCode ≠ 102 := fun heq => hfinal (by rw [heq])
  have h103 : h.statusCode ≠ 103 := fun heq => hfinal (by rw [heq])
  have hupgrade : h.upgrade .response = false := by simp [Head.upgrade, h101, hmethod]
  by_cases hempty : h.statusCode = 204 ∨ h.statusCode = 304
  · rw [if_pos hempty]
    rcases hempty with hempty | hempty <;> simp [Head.afterHeadersComplete, hupgrade, hempty]
  · rw [if_neg hempty]
    rw [not_or] at hempty
    have heof : h.chunked = false → h.contentLengthField = false → h.messageNeedsEof .response = true := by
      intro hchunked hlength
      simp [Head.messageNeedsEof, hfinal, hempty.1, hempty.2, hchunked, hlength]
    cases hchunked : h.chunked <;> cases hencoding : h.transferEncoding <;> cases hlength : h.contentLengthField <;>
      simp_all [Head.afterHeadersComplete]

end Llhttp

/-- Some bytes that end with a complete response: the last message that is delimited, behind which there are only line
ends, or anything after an upgrade; or one that the end of the stream delimits. -/
inductive CompleteResponse {τ : Type} (lexer : Lexer τ) : Bytes → Prop where
  | delimited {pre w : Bytes} {out : List Callback} (m : Message lexer .response) : Between lexer .response pre out →
      Blank w ∨ m.after = .paused m.last → CompleteResponse lexer (pre ++ m.bytes ++ w)
  | closed {pre body : Bytes} {out : List Callback} (hd : HeadText lexer .response) : Between lexer .response pre out →
      hd.info.afterHeadersComplete .response = .untilEof → CompleteResponse lexer (pre ++ (hd.text ++ body))

/-- A complete response is not empty. -/
theorem CompleteResponse.ne_nil {τ : Type} {lexer : Lexer τ} {bytes : Bytes} (h : CompleteResponse lexer bytes) :
    bytes ≠ [] := by
  cases h with
  | delimited m => simp [m.bytes_ne_nil]
  | closed hd => simp [hd.text_ne_nil]

namespace HttpResponseParser

variable {τ : Type} {lexer : Lexer τ}

/-- How far the parser is, from the callbacks so far. -/
theorem parseState_afterReading (lexer : Lexer τ) (bytes : Bytes) :
    (afterReading lexer bytes).parseState = (run lexer .response .start bytes).2.foldl ParseState.after .reading := by
  rw [afterReading, foldl_parseState]

/-- `finish` asks llhttp. -/
theorem finish_eq {p : HttpResponseParser τ} (herror : p.hasParseError = false)
    (hcomplete : p.isMessageComplete = false) :
    p.finish.2 = (Llhttp.finish p.parser).1 := by
  rw [finish, if_neg (by simp [herror, hcomplete])]
  cases hok : Llhttp.finish p.parser with
  | mk ok callbacks => cases ok <;> rfl

/-- The bytes are read without an error, and there is no complete message yet. -/
structure Going (lexer : Lexer τ) (bytes : Bytes) : Prop where
  ok : (afterReading lexer bytes).settle.2 = true
  incomplete : (afterReading lexer bytes).settle.1.isMessageComplete = false

/-- The bytes are read without an error, and a message is complete. -/
structure Finished (lexer : Lexer τ) (bytes : Bytes) : Prop where
  ok : (afterReading lexer bytes).settle.2 = true
  complete : (afterReading lexer bytes).settle.1.isMessageComplete = true

/-- What is finished is not going on. -/
theorem Finished.not_going {bytes : Bytes} (h : Finished lexer bytes) : ¬Going lexer bytes := by
  intro hgoing
  have hcomplete := hgoing.incomplete
  rw [h.complete] at hcomplete
  cases hcomplete

/-- What is well formed is one or the other. -/
theorem going_or_finished {bytes : Bytes} (hok : (afterReading lexer bytes).settle.2 = true) :
    Going lexer bytes ∨ Finished lexer bytes := by
  cases hcomplete : (afterReading lexer bytes).settle.1.isMessageComplete with
  | false => exact .inl ⟨hok, hcomplete⟩
  | true => exact .inr ⟨hok, hcomplete⟩

/-- At the beginning all is to come. -/
theorem going_nil (lexer : Lexer τ) : Going lexer [] := ⟨rfl, rfl⟩

/-- A message that is complete counts, unless the parser has come to an error behind it. -/
theorem settle_of_messageComplete {p : HttpResponseParser τ} (hstate : p.parseState = .messageComplete)
    (hparser : p.parser ≠ .failed) :
    p.settle.2 = true ∧ p.settle.1.isMessageComplete = true := by
  rw [settle]
  split
  · exact absurd ‹_› hparser
  · exact ⟨rfl, rfl⟩
  · exact ⟨rfl, by simp [isMessageComplete, hstate]⟩

/-- At the end of the stream the point llhttp is at decides. -/
theorem Going.finish {bytes : Bytes} (h : Going lexer bytes) :
    (afterReading lexer bytes).settle.1.finish.2 = (Llhttp.finish (run lexer .response .start bytes).1).1 := by
  obtain ⟨hself, -, -⟩ := settle_eq_self h.ok h.incomplete
  have hcomplete := h.incomplete
  rw [hself] at hcomplete ⊢
  rw [finish_eq (hasParseError_afterReading lexer bytes) hcomplete, parser_afterReading]

/-- Whole messages and the beginning of one. -/
theorem going_of_part {pre part : Bytes} {out out' : List Callback} {p : Point τ} (hpre : Between lexer .response pre out)
    (hpart : Partial lexer .response part p out') : Going lexer (pre ++ part) := by
  have hrun := run_append_of lexer .response hpre.run hpart.run
  have hparser := parser_afterReading lexer (pre ++ part)
  have hstate := parseState_afterReading lexer (pre ++ part)
  rw [hrun] at hparser hstate
  rw [List.foldl_append, hpart.foldl_after] at hstate
  have hself : (afterReading lexer (pre ++ part)).settle = (afterReading lexer (pre ++ part), true) := by
    rw [settle, hparser]
    cases hpart with
    | head => rfl
    | body hd hbody => cases hbody <;> rfl
  exact ⟨by rw [hself], by rw [hself]; simp [isMessageComplete, hstate]⟩

/-- Behind such a message there is a complete one. -/
theorem finished_of_message {pre w : Bytes} {out : List Callback} (hpre : Between lexer .response pre out)
    (m : Message lexer .response) (hw : Blank w ∨ m.after = .paused m.last) : Finished lexer (pre ++ m.bytes ++ w) := by
  have hrun := hpre.run_message m hw
  have hparser := parser_afterReading lexer (pre ++ m.bytes ++ w)
  have hstate := parseState_afterReading lexer (pre ++ m.bytes ++ w)
  rw [hrun] at hparser hstate
  rw [List.foldl_append, m.foldl_after] at hstate
  have hsettle := settle_of_messageComplete hstate
  rcases m.after_cases with h | h | h <;> rw [h] at hparser <;>
    exact ⟨(hsettle (by rw [hparser]; nofun)).1, (hsettle (by rw [hparser]; nofun)).2⟩

/-- Nothing may follow a message that ends the connection. -/
theorem malformed_of_closed {pre rest : Bytes} {out : List Callback} (hpre : Between lexer .response pre out)
    (m : Message lexer .response) (hafter : m.after = .closed) (hrest : Begins rest) :
    (afterReading lexer (pre ++ m.bytes ++ rest)).settle.2 = false := by
  have hmessage := run_append_of lexer .response hpre.run m.run
  rw [hafter] at hmessage
  have hrun := run_append_of lexer .response hmessage (run_closed lexer .response hrest)
  have hparser := parser_afterReading lexer (pre ++ m.bytes ++ rest)
  rw [hrun] at hparser
  rw [settle, hparser]

/-- A parser that has a complete message has read one. -/
theorem Finished.complete_response {bytes : Bytes} (h : Finished lexer bytes) : CompleteResponse lexer bytes := by
  obtain ⟨hok, hcomplete⟩ := h
  have hparser := parser_afterReading lexer bytes
  have hstate := parseState_afterReading lexer bytes
  have hreads := run_reads lexer .response bytes
  generalize (run lexer .response .start bytes).1 = p at hparser hreads
  generalize (run lexer .response .start bytes).2 = out at hstate hreads
  cases hreads with
  | between hpre =>
    rcases hpre.last with ⟨-, rfl⟩ | ⟨pre', w, out', m, rfl, hpre', hw, -⟩
    · simp [settle, hparser, isMessageComplete, hstate] at hcomplete
    · exact .delimited m hpre' (.inl hw)
  | closed m hpre _ hw => exact .delimited m hpre (.inl hw)
  | paused m hpre hafter => exact .delimited m hpre (.inr hafter)
  | inside hpre hpart =>
    have hgoing := (going_of_part hpre hpart).incomplete
    rw [hcomplete] at hgoing
    cases hgoing
  | failed => simp [settle, hparser] at hok

/-- When the end of the stream completes a message, or there is none. -/
theorem Going.complete_response {bytes : Bytes} (h : Going lexer bytes)
    (hfinish : (afterReading lexer bytes).settle.1.finish.2 = true) :
    Blank bytes ∨ CompleteResponse lexer bytes := by
  rw [h.finish] at hfinish
  have hparser := parser_afterReading lexer bytes
  have hok := h.ok
  have hreads := run_reads lexer .response bytes
  generalize (run lexer .response .start bytes).1 = p at hfinish hreads hparser
  generalize (run lexer .response .start bytes).2 = out at hreads
  cases hreads with
  | between hpre =>
    rcases hpre.last with ⟨hblank, -⟩ | ⟨pre', w, out', m, rfl, hpre', hw, -⟩
    · exact .inl hblank
    · exact absurd h (finished_of_message hpre' m (.inl hw)).not_going
  | closed m hpre _ hw => exact absurd h (finished_of_message hpre m (.inl hw)).not_going
  | paused m _ _ => cases hfinish
  | inside hpre hpart =>
    cases hpart with
    | head => cases hfinish
    | body hd hbody =>
      cases hbody with
      | chunked => cases hfinish
      | identity => cases hfinish
      | untilEof hafter => exact .inr (.closed hd hpre hafter)
  | failed => simp [settle, hparser] at hok

end HttpResponseParser

end HpServer
