import HpServer.Lemmas.ResponseReading
import HpServer.PersistentCache

/-!
# Parsed responses

What `store` takes from the parser. The header map of a parser has each name once, in lower case, and no line ends,
because every callback keeps it so; the response is that of the last message of the stream; and where the map has a
`content-length`, that is the length of the body. The rest is up to llhttp (`Promises`).
-/

namespace HpServer

open Llhttp

/-! ## Header maps -/

/-- No line end. -/
def PlainText (text : Bytes) : Prop := 13 ∉ text ∧ 10 ∉ text

theorem PlainText.append {a b : Bytes} (ha : PlainText a) (hb : PlainText b) : PlainText (a ++ b) := by
  simp only [PlainText, List.mem_append, not_or]
  exact ⟨⟨ha.1, hb.1⟩, ha.2, hb.2⟩

theorem plainText_nil : PlainText [] := ⟨by simp, by simp⟩

/-- What a capital letter becomes is none, and no control character. -/
theorem lower_capital {c : UInt8} (h : 65 ≤ c ∧ c ≤ 90) : 97 ≤ c + 32 := by
  have h65 : 65 ≤ c.toNat := UInt8.le_iff_toNat_le.mp h.1
  have h90 : c.toNat ≤ 90 := UInt8.le_iff_toNat_le.mp h.2
  rw [UInt8.le_iff_toNat_le, UInt8.toNat_add]
  show 97 ≤ (c.toNat + 32) % 256
  omega

/-- Lower case is lower case. -/
theorem toLowerAscii_idem (value : Bytes) : toLowerAscii (toLowerAscii value) = toLowerAscii value := by
  rw [toLowerAscii, toLowerAscii, List.map_map]
  refine List.map_congr_left fun c _ => ?_
  simp only [Function.comp_apply]
  by_cases h : 65 ≤ c ∧ c ≤ 90
  · rw [if_pos h, if_neg]
    rintro ⟨-, h90⟩
    exact absurd (UInt8.le_trans (lower_capital h) h90) (by decide)
  · rw [if_neg h, if_neg h]

/-- A control character of a text in lower case was there before. -/
theorem mem_of_mem_toLowerAscii {value : Bytes} {d : UInt8} (hd : d < 65) (h : d ∈ toLowerAscii value) : d ∈ value := by
  obtain ⟨c, hc, rfl⟩ := List.mem_map.mp h
  split at hd
  · rename_i hcapital
    exact absurd (UInt8.lt_of_le_of_lt (lower_capital hcapital) hd) (by decide)
  · rename_i hcapital
    rwa [if_neg hcapital]

/-- Lower case adds no line end. -/
theorem PlainText.toLowerAscii {value : Bytes} (h : PlainText value) : PlainText (toLowerAscii value) :=
  ⟨fun hmem => h.1 (mem_of_mem_toLowerAscii (by decide) hmem), fun hmem => h.2 (mem_of_mem_toLowerAscii (by decide) hmem)⟩

namespace Headers

/-- A map as the parsers make it. -/
structure Normal (headers : Headers) : Prop where
  distinct : headers.Distinct
  lower : ∀ f ∈ headers, toLowerAscii f.1 = f.1
  plain : headers.Plain

/-- The empty map is normal. -/
theorem normal_nil : Normal [] := ⟨List.nodup_nil, nofun, nofun⟩

/-- `set` replaces the value of a key that is there, and appends one that is not. -/
theorem map_fst_set {headers : Headers} {key value : Bytes} :
    (headers.set key value).map Prod.fst =
      if key ∈ headers.map Prod.fst then headers.map Prod.fst else headers.map Prod.fst ++ [key] := by
  have hany : (headers.any fun f => f.1 = key) = true ↔ key ∈ headers.map Prod.fst := by
    simp only [List.any_eq_true, List.mem_map, decide_eq_true_eq]
  rw [set]
  by_cases h : key ∈ headers.map Prod.fst
  · rw [if_pos (hany.mpr h), if_pos h, List.map_map]
    refine List.map_congr_left fun f _ => ?_
    simp only [Function.comp_apply]
    split
    · rename_i heq
      exact heq.symm
    · rfl
  · rw [if_neg (fun hcond => h (hany.mp hcond)), if_neg h, List.map_append]
    rfl

/-- What is in the map after `headers[key] = value`. -/
theorem mem_set {headers : Headers} {key value : Bytes} {f : Bytes × Bytes} (hf : f ∈ headers.set key value) :
    f ∈ headers ∨ f = (key, value) := by
  rw [set] at hf
  split at hf
  · obtain ⟨g, hg, rfl⟩ := List.mem_map.mp hf
    split
    · exact .inr rfl
    · exact .inl hg
  · simpa using hf

/-- `set` keeps a map normal. -/
theorem Normal.set {headers : Headers} (h : headers.Normal) {key value : Bytes} (hlower : HpServer.toLowerAscii key = key)
    (hkey : PlainText key) (hvalue : PlainText value) : (headers.set key value).Normal where
  distinct := by
    rw [Distinct, map_fst_set]
    split
    · exact h.distinct
    · rename_i hnew
      refine List.nodup_append.mpr ⟨h.distinct, by simp, ?_⟩
      intro a ha b hb heq
      rw [List.mem_singleton.mp hb] at heq
      exact hnew (heq ▸ ha)
  lower := by
    intro f hf
    rcases mem_set hf with hf | rfl
    · exact h.lower f hf
    · exact hlower
  plain := by
    intro f hf
    rcases mem_set hf with hf | rfl
    · exact h.plain f hf
    · exact ⟨hkey, hvalue⟩

end Headers

/-! ## The parser -/

/-- The text of the callback has no line end. -/
def Llhttp.Callback.Plain : Callback → Prop
  | .text _ bytes => PlainText bytes
  | _ => True

/-- `post_process_headers` leaves the map as it is, and the fields below. -/
@[simp] theorem ResponseInfo.headers_postProcessHeaders (r : ResponseInfo) :
    r.postProcessHeaders.headers = r.headers := by
  rw [postProcessHeaders]
  split <;> rfl

@[simp] theorem ResponseInfo.reasonPhrase_postProcessHeaders (r : ResponseInfo) :
    r.postProcessHeaders.reasonPhrase = r.reasonPhrase := by
  rw [postProcessHeaders]
  split <;> rfl

@[simp] theorem ResponseInfo.statusCode_postProcessHeaders (r : ResponseInfo) :
    r.postProcessHeaders.statusCode = r.statusCode := by
  rw [postProcessHeaders]
  split <;> rfl

@[simp] theorem ResponseInfo.body_postProcessHeaders (r : ResponseInfo) : r.postProcessHeaders.body = r.body := by
  rw [postProcessHeaders]
  split <;> rfl

namespace HttpResponseParser

variable {τ : Type}

/-- What the callbacks keep. -/
structure Normal (p : HttpResponseParser τ) : Prop where
  reason : PlainText p.response.reasonPhrase
  headers : p.response.headers.Normal
  field : PlainText p.buffer.field
  value : PlainText p.buffer.value

/-- A new parser has nothing. -/
theorem normal_new : Normal ({} : HttpResponseParser τ) :=
  ⟨plainText_nil, Headers.normal_nil, plainText_nil, plainText_nil⟩

/-- The header that was being read goes into the map. -/
theorem Normal.finishPendingHeader {p : HttpResponseParser τ} (h : p.Normal) :
    (p.buffer.finishPendingHeader p.response.headers).Normal := by
  rw [HeaderBuffer.finishPendingHeader]
  split
  · exact h.headers
  · exact h.headers.set (toLowerAscii_idem _) h.field.toLowerAscii h.value

/-- Every callback keeps it so. -/
theorem Normal.callback {p : HttpResponseParser τ} (h : p.Normal) {c : Callback} (hc : c.Plain) :
    (p.callback c).Normal := by
  cases c with
  | messageBegin => exact ⟨plainText_nil, Headers.normal_nil, plainText_nil, plainText_nil⟩
  | text field bytes =>
    cases field with
    | url => exact h
    | status => exact ⟨h.reason.append hc, h.headers, h.field, h.value⟩
    | version => exact ⟨h.reason, h.headers, h.field, h.value⟩
    | headerField =>
      simp only [HttpResponseParser.callback, HeaderBuffer.onHeaderField]
      split
      · exact ⟨h.reason, h.finishPendingHeader, hc, plainText_nil⟩
      · exact ⟨h.reason, h.headers, h.field.append hc, h.value⟩
    | headerValue => exact ⟨h.reason, h.headers, h.field, h.value.append hc⟩
  | headersComplete head =>
    refine ⟨?_, ?_, h.field, h.value⟩
    · simpa only [HttpResponseParser.callback, ResponseInfo.reasonPhrase_postProcessHeaders] using h.reason
    · simpa only [HttpResponseParser.callback, ResponseInfo.headers_postProcessHeaders] using h.finishPendingHeader
  | body bytes => exact ⟨h.reason, h.headers, h.field, h.value⟩
  | messageComplete => exact ⟨h.reason, h.headers, h.field, h.value⟩

/-- So does any run of callbacks. -/
theorem Normal.foldl {p : HttpResponseParser τ} (h : p.Normal) {out : List Callback} (hout : ∀ c ∈ out, c.Plain) :
    (out.foldl HttpResponseParser.callback p).Normal := by
  induction out generalizing p with
  | nil => exact h
  | cons c out ih =>
    rw [List.forall_mem_cons] at hout
    exact ih (h.callback hout.1) hout.2

theorem normal_collect {out : List Callback} (hout : ∀ c ∈ out, c.Plain) : (collect out : HttpResponseParser τ).Normal :=
  normal_new.foldl hout

/-- The trailer and the pieces of a chunked body leave the status. -/
theorem statusCode_foldl_pieces (p : HttpResponseParser τ) (pieces : List Piece) :
    ((pieces.map Piece.callback).foldl HttpResponseParser.callback p).response.statusCode = p.response.statusCode := by
  induction pieces generalizing p with
  | nil => rfl
  | cons piece pieces ih =>
    rw [List.map_cons, List.foldl_cons, ih]
    cases piece with
    | body bytes => rfl
    | trailer field bytes => cases field <;> rfl

/-- The texts of a head leave the body. -/
theorem body_foldl_texts (p : HttpResponseParser τ) (texts : List (Text × Bytes)) :
    ((textCallbacks texts).foldl HttpResponseParser.callback p).response.body = p.response.body := by
  induction texts generalizing p with
  | nil => rfl
  | cons t texts ih =>
    obtain ⟨field, bytes⟩ := t
    rw [textCallbacks, List.map_cons, List.foldl_cons]
    refine (ih _).trans ?_
    cases field <;> rfl

/-- A message that begins makes the response a new one. -/
theorem response_collect_begin (out out' : List Callback) :
    (collect (out ++ .messageBegin :: out') : HttpResponseParser τ).response =
      (collect (.messageBegin :: out') : HttpResponseParser τ).response := by
  rw [collect, List.foldl_append, foldl_begin, foldl_at]

/-- The response is what the callbacks made. -/
theorem response_afterReading (lexer : Lexer τ) (bytes : Bytes) :
    (afterReading lexer bytes).response =
      (collect (run lexer .response .start bytes).2 : HttpResponseParser τ).response := by
  rw [afterReading, foldl_at]

/-- Settling changes no field of the response. -/
theorem response_settle (p : HttpResponseParser τ) : p.settle.1.response = p.response := by
  rw [settle]
  split <;> rfl

/-- Nor does `finish`. -/
theorem response_finish (p : HttpResponseParser τ) : p.finish.1.response = p.response := by
  rw [finish]
  split
  · rfl
  · cases p.parser <;> rfl

/-- A new parser that is fed with some bytes. -/
theorem parse_new (lexer : Lexer τ) {data : Bytes} (hdata : data ≠ []) :
    parse lexer {} data = (afterReading lexer data).settle := parse_eq lexer rfl rfl hdata

/-- An end of the stream that is out of place is an error. -/
theorem finish_ok {p : HttpResponseParser τ} (hp : p.hasParseError = false) (h : p.finish.1.hasParseError = false) :
    p.finish.2 = true := by
  rw [finish] at h ⊢
  split
  · simp [hp]
  · rename_i hgoing
    rw [if_neg hgoing] at h
    cases hok : (Llhttp.finish p.parser).1 with
    | false => simp [hok, hasParseError] at h
    | true => simp [hok]

end HttpResponseParser

namespace Llhttp

variable {τ : Type} {lexer : Lexer τ}

/-- The body of a response, whether it has an end of its own or lasts until the connection is closed. -/
def WholeBody (lexer : Lexer τ) (h : Head) (body : Bytes) (out : List Callback) : Prop :=
  (∃ last, IsBody lexer .response h body out last) ∨ h.afterHeadersComplete .response = .untilEof ∧
    out = bodyCallbacks body

/-- The response of a head and a body. -/
def HeadText.response (hd : HeadText lexer .response) (out : List Callback) : ResponseInfo :=
  (HttpResponseParser.collect (hd.callbacks ++ out) : HttpResponseParser τ).response

end Llhttp

/-- The response that the parser has is that of the last message. -/
theorem CompleteResponse.response {τ : Type} {lexer : Lexer τ} {bytes : Bytes} (h : CompleteResponse lexer bytes) :
    ∃ (hd : HeadText lexer .response) (body : Bytes) (out : List Callback), WholeBody lexer hd.info body out ∧
      (HttpResponseParser.afterReading lexer bytes).response = hd.response out := by
  rw [HttpResponseParser.response_afterReading]
  cases h with
  | @delimited pre w out m hpre hw =>
    refine ⟨m.toHeadText, m.body, m.bodyOut, .inl ⟨m.last, m.isBody⟩, ?_⟩
    rw [hpre.run_message m hw, HeadText.response, Message.callbacks, HeadText.callbacks]
    simp only [List.cons_append]
    rw [HttpResponseParser.response_collect_begin, ← List.cons_append, HttpResponseParser.collect, List.foldl_append]
    rfl
  | @closed pre body out hd hpre hafter =>
    refine ⟨hd, body, bodyCallbacks body, .inr ⟨hafter, rfl⟩, ?_⟩
    have hpart : Partial lexer .response (hd.text ++ body) _ _ := .body hd (.untilEof hafter)
    rw [run_append_of lexer .response hpre.run hpart.run, HeadText.response, HeadText.callbacks]
    simp only [List.cons_append]
    rw [HttpResponseParser.response_collect_begin]

/-! ## What `store` accepts -/

/-- What llhttp promises of the responses it accepts: it knows no method of a response; the texts it calls back with
have no line end; a head with a `content-length` field has no `transfer-encoding`, and the length it announces is the
value of the field; and behind a chunked body there is no `content-length` either, not even in the trailer. -/
structure Promises {τ : Type} (lexer : Lexer τ) : Prop where
  noMethod : ∀ hd : HeadText lexer .response, hd.info.method ≠ ascii "CONNECT"
  plainHead : ∀ hd : HeadText lexer .response, ∀ t ∈ hd.texts, PlainText t.2
  plainTrailer : ∀ (hd : HeadText lexer .response) (body : Bytes) (pieces : List Piece) (last : Head),
    readAll (lexer.chunk .response hd.info) lexer.chunkStart body = some (pieces, last) →
      ∀ field bytes, .trailer field bytes ∈ pieces → PlainText bytes
  length : ∀ (hd : HeadText lexer .response) (v : Bytes), (ascii "content-length", v) ∈ (hd.response []).headers →
    hd.info.contentLengthField = true ∧ hd.info.transferEncoding = false ∧ hd.info.chunked = false ∧
      lengthValue v = some hd.info.contentLength.toNat
  noLength : ∀ (hd : HeadText lexer .response) (body : Bytes) (pieces : List Piece) (last : Head),
    hd.info.chunked = true → readAll (lexer.chunk .response hd.info) lexer.chunkStart body = some (pieces, last) →
      ∀ v, (ascii "content-length", v) ∉ (hd.response (pieces.map Piece.callback)).headers

/-- A response as the parser gives it: no text has a line end in it; names are in lower case and none is there twice;
and a `content-length` is the length of the body. -/
structure ResponseInfo.Parsed (r : ResponseInfo) : Prop where
  reason : PlainText r.reasonPhrase
  headers : r.headers.Normal
  length : ∀ v, (ascii "content-length", v) ∈ r.headers → lengthValue v = some r.body.length

namespace Llhttp

variable {τ : Type} {lexer : Lexer τ}

/-- What a body can be, and what is called back with it. -/
theorem WholeBody.cases {h : Head} {body : Bytes} {out : List Callback} (hbody : WholeBody lexer h body out) :
    ((h.afterHeadersComplete .response = .restart ∨ h.afterHeadersComplete .response = .pause) ∧ out = []) ∨
    (h.afterHeadersComplete .response = .chunked ∧
      ∃ pieces last, readAll (lexer.chunk .response h) lexer.chunkStart body = some (pieces, last) ∧
        out = pieces.map Piece.callback) ∨
    (h.afterHeadersComplete .response = .identity ∧ body.length = h.contentLength.toNat ∧ out = bodyCallbacks body) ∨
    (h.afterHeadersComplete .response = .untilEof ∧ out = bodyCallbacks body) := by
  rcases hbody with ⟨last, hbody⟩ | heof
  · rw [IsBody] at hbody
    cases hafter : h.afterHeadersComplete .response with
    | restart =>
      rw [hafter] at hbody
      exact .inl ⟨.inl rfl, hbody.2.1⟩
    | pause =>
      rw [hafter] at hbody
      exact .inl ⟨.inr rfl, hbody.2.1⟩
    | chunked =>
      rw [hafter] at hbody
      obtain ⟨pieces, hpieces, hout⟩ := hbody
      exact .inr (.inl ⟨rfl, pieces, last, hpieces, hout⟩)
    | identity =>
      rw [hafter] at hbody
      exact .inr (.inr (.inl ⟨rfl, hbody.1, hbody.2.1⟩))
    | untilEof | invalid => simp only [hafter] at hbody
  · exact .inr (.inr (.inr heof))

namespace HeadText

/-- A body that is called back byte by byte is the body of the response. -/
theorem response_bodyCallbacks (hd : HeadText lexer .response) (body : Bytes) :
    hd.response (bodyCallbacks body) = { hd.response [] with body := (hd.response []).body ++ body } := by
  rw [response, HttpResponseParser.collect, List.foldl_append, HttpResponseParser.foldl_body, response, List.append_nil]
  rfl

/-- The head leaves no body. -/
theorem body_response (hd : HeadText lexer .response) : (hd.response []).body = [] := by
  rw [response, List.append_nil, callbacks, HttpResponseParser.collect, List.foldl_append]
  exact (ResponseInfo.body_postProcessHeaders _).trans (HttpResponseParser.body_foldl_texts _ hd.texts)

/-- The status of a response is that of its head. -/
theorem statusCode_response (hd : HeadText lexer .response) {body : Bytes} {out : List Callback}
    (hbody : WholeBody lexer hd.info body out) : (hd.response out).statusCode = hd.info.statusCode := by
  have hhead : (hd.response []).statusCode = hd.info.statusCode := by
    rw [response, List.append_nil, callbacks, HttpResponseParser.collect, List.foldl_append]
    exact ResponseInfo.statusCode_postProcessHeaders _
  rcases hbody.cases with ⟨-, rfl⟩ | ⟨-, pieces, -, -, rfl⟩ | ⟨-, -, rfl⟩ | ⟨-, rfl⟩
  · exact hhead
  · rw [response, HttpResponseParser.collect, List.foldl_append, HttpResponseParser.statusCode_foldl_pieces]
    rwa [response, List.append_nil] at hhead
  · rwa [response_bodyCallbacks]
  · rwa [response_bodyCallbacks]

/-- The callbacks of a response have no line ends in their texts. -/
theorem plain_callbacks (hlexer : Promises lexer) (hd : HeadText lexer .response) {body : Bytes} {out : List Callback}
    (hbody : WholeBody lexer hd.info body out) : ∀ c ∈ hd.callbacks ++ out, c.Plain := by
  intro c hc
  have hbytes : c ∈ bodyCallbacks body → c.Plain := by
    intro hc
    obtain ⟨b, -, rfl⟩ := List.mem_map.mp hc
    exact trivial
  rcases List.mem_append.mp hc with hc | hc
  · simp only [callbacks, List.cons_append, List.mem_cons, List.mem_append, List.not_mem_nil, or_false] at hc
    rcases hc with rfl | hc | rfl
    · exact trivial
    · obtain ⟨t, ht, rfl⟩ := List.mem_map.mp hc
      exact hlexer.plainHead hd t ht
    · exact trivial
  · rcases hbody.cases with ⟨-, rfl⟩ | ⟨-, pieces, last, hpieces, rfl⟩ | ⟨-, -, rfl⟩ | ⟨-, rfl⟩
    · cases hc
    · obtain ⟨piece, hpiece, rfl⟩ := List.mem_map.mp hc
      cases piece with
      | body bytes => exact trivial
      | trailer field bytes => exact hlexer.plainTrailer hd body pieces last hpieces field bytes hpiece
    · exact hbytes hc
    · exact hbytes hc

/-- A response of 2xx, other than 204, that has a `content-length` has a body of that length. -/
theorem length_response (hlexer : Promises lexer) (hd : HeadText lexer .response) {body : Bytes} {out : List Callback}
    (hbody : WholeBody lexer hd.info body out) (hsuccess : hd.info.statusCode / 100 = 2)
    (hstatus : hd.info.statusCode ≠ 204) {v : Bytes}
    (hv : (ascii "content-length", v) ∈ (hd.response out).headers) :
    lengthValue v = some (hd.response out).body.length := by
  have hafter := Head.afterHeadersComplete_final (h := hd.info) (by omega) (hlexer.noMethod hd)
  rw [if_neg (by omega)] at hafter
  rcases hbody.cases with ⟨hcase, rfl⟩ | ⟨hcase, pieces, last, hpieces, rfl⟩ | ⟨hcase, hlen, rfl⟩ | ⟨hcase, rfl⟩
  · -- no body: the announced length is zero
    obtain ⟨hfield, hencoding, hchunked, hvalue⟩ := hlexer.length hd v hv
    simp only [hfield, hencoding, hchunked, Bool.false_eq_true, if_false, if_true] at hafter
    split at hafter
    · rename_i hzero
      rw [hvalue, hzero, body_response]
      rfl
    · rw [hafter] at hcase
      rcases hcase with hcase | hcase <;> cases hcase
  · -- chunked: there is no `content-length`
    cases hchunked : hd.info.chunked with
    | true => exact absurd hv (hlexer.noLength hd body pieces last hchunked hpieces v)
    | false =>
      rw [hcase, hchunked] at hafter
      simp only [Bool.false_eq_true, if_false] at hafter
      repeat' split at hafter
      all_goals cases hafter
  · rw [response_bodyCallbacks] at hv ⊢
    obtain ⟨-, -, -, hvalue⟩ := hlexer.length hd v hv
    rw [hvalue, body_response, List.nil_append, hlen]
  · -- until the end of the stream: there is no `content-length`
    rw [response_bodyCallbacks] at hv
    obtain ⟨hfield, hencoding, hchunked, -⟩ := hlexer.length hd v hv
    simp only [hcase, hfield, hencoding, hchunked, Bool.false_eq_true, if_false, if_true] at hafter
    split at hafter <;> cases hafter

end HeadText

end Llhttp

namespace PersistentCache

variable {τ ρ : Type} {env : CacheEnv τ ρ}

/-- The checks `store` makes when all is read. -/
theorem checks_eq_some {p : HttpResponseParser τ} {info : ResponseInfo}
    (h : (if p.isMessageComplete = false || p.hasParseError then none
      else if p.response.statusCode < 200 || 300 ≤ p.response.statusCode then none else some p.response) = some info) :
    p.hasParseError = false ∧ info.statusCode / 100 = 2 ∧ info = p.response := by
  split at h
  · cases h
  · rename_i hcomplete
    split at h
    · cases h
    · rename_i hrange
      obtain rfl := Option.some.inj h
      simp only [Bool.or_eq_true, decide_eq_true_eq, not_or, Bool.not_eq_true] at hcomplete hrange
      exact ⟨hcomplete.2, by omega, rfl⟩

/-- What `store` accepts ends with a complete response, which has a status of 2xx. -/
theorem parseUpstream_complete {upstream : Bytes} {info : ResponseInfo} (h : parseUpstream env upstream = some info) :
    info.statusCode / 100 = 2 ∧ CompleteResponse env.lexer upstream ∧
      (HttpResponseParser.afterReading env.lexer upstream).response = info := by
  have hne : upstream ≠ [] := by
    rintro rfl
    cases h
  rw [parseUpstream, HttpResponseParser.parse_new env.lexer hne] at h
  simp only at h
  split at h
  · cases h
  rename_i hread
  simp only [Bool.or_eq_true, decide_eq_true_eq, not_or, Bool.not_eq_false, Bool.not_eq_true] at hread
  obtain ⟨herror, hsuccess, rfl⟩ := checks_eq_some h
  refine ⟨hsuccess, ?_⟩
  rcases HttpResponseParser.going_or_finished hread.1 with hgoing | hfinished
  · -- the end of the stream completes the message
    rw [if_neg (by simp [hgoing.incomplete])] at herror hsuccess ⊢
    have hfinish := HttpResponseParser.finish_ok hread.2 herror
    rw [HttpResponseParser.response_finish, HttpResponseParser.response_settle] at hsuccess ⊢
    rcases hgoing.complete_response hfinish with hblank | hcomplete
    · rw [HttpResponseParser.response_afterReading, run_blank_start env.lexer .response hblank] at hsuccess
      exact absurd hsuccess (show ¬0 / 100 = 2 by decide)
    · exact ⟨hcomplete, rfl⟩
  · rw [if_pos hfinished.complete, HttpResponseParser.response_settle]
    exact ⟨hfinished.complete_response, rfl⟩

/-- What `store` accepts: the response of a head of 2xx and a whole body. -/
theorem parseUpstream_eq_some {upstream : Bytes} {info : ResponseInfo} (h : parseUpstream env upstream = some info) :
    info.statusCode / 100 = 2 ∧ ∃ (hd : HeadText env.lexer .response) (body : Bytes) (out : List Callback),
      WholeBody env.lexer hd.info body out ∧ info = hd.response out := by
  obtain ⟨hsuccess, hcomplete, hinfo⟩ := parseUpstream_complete h
  exact ⟨hsuccess, hinfo ▸ hcomplete.response⟩

/-- What `store` accepts, but for 204, is a response as the parser gives it. -/
theorem parseUpstream_parsed (hlexer : Promises env.lexer) {upstream : Bytes} {info : ResponseInfo}
    (h : parseUpstream env upstream = some info) (hstatus : info.statusCode ≠ 204) : info.Parsed := by
  obtain ⟨hsuccess, hd, body, out, hbody, rfl⟩ := parseUpstream_eq_some h
  have hnormal : (HttpResponseParser.collect (hd.callbacks ++ out) : HttpResponseParser τ).Normal :=
    HttpResponseParser.normal_collect (hd.plain_callbacks hlexer hbody)
  have hcode := hd.statusCode_response hbody
  refine ⟨hnormal.reason, hnormal.headers, ?_⟩
  intro v hv
  exact hd.length_response hlexer hbody (hcode ▸ hsuccess) (hcode ▸ hstatus) hv

end PersistentCache

end HpServer
