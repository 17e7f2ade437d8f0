import HpServer.Lemmas.HeaderSection

/-!
# Fragments and trailers

llhttp calls back with each text in as many parts as it comes in. The parsers put the parts together again: what they
have in the end depends on the message alone (`fragments_put_together`). The trailer goes through the same callbacks
as the headers, and all of its fields but the last end up in the header map (`trailer_keeps_headers`).
-/

namespace HpServer

open Llhttp

variable {τ : Type}

/-- A name or a value of a header. -/
def Llhttp.Callback.IsHeader : Callback → Prop
  | .text .headerField _ | .text .headerValue _ => True
  | _ => False

/-- The callbacks of fields are header callbacks. -/
theorem Llhttp.FieldSpans.isHeader {fields : List FieldSpans} :
    ∀ c ∈ fields.flatMap FieldSpans.callbacks, c.IsHeader := by
  intro c hc
  obtain ⟨f, -, hc⟩ := List.mem_flatMap.mp hc
  rcases List.mem_append.mp hc with hc | hc
  · obtain ⟨bytes, -, rfl⟩ := List.mem_map.mp hc
    exact trivial
  · obtain ⟨bytes, -, rfl⟩ := List.mem_map.mp hc
    exact trivial

/-- The text of one kind, span by span. -/
theorem Llhttp.lineText_cons (t : LineText × Bytes) (line : List (LineText × Bytes)) (kind : LineText) :
    lineText (t :: line) kind = (if t.1 = kind then t.2 else []) ++ lineText line kind := by
  rw [lineText, List.filter_cons]
  by_cases h : t.1 = kind <;> simp [h, lineText]

/-- Names and values go through a state that changes with them only in the part `r`. -/
theorem Llhttp.foldl_header {σ ρ : Type} {f : σ → Callback → σ} {g : ρ → Callback → ρ} (w : ρ → σ)
    (hcall : ∀ r c, c.IsHeader → f (w r) c = w (g r c)) {out : List Callback} (hout : ∀ c ∈ out, c.IsHeader) (r : ρ) :
    out.foldl f (w r) = w (out.foldl g r) := by
  induction out generalizing r with
  | nil => rfl
  | cons c out ih =>
    obtain ⟨hc, hout⟩ := List.forall_mem_cons.mp hout
    rw [List.foldl_cons, List.foldl_cons, hcall r c hc, ih hout]

section Parts

variable {σ : Type} {f : σ → Callback → σ} (mk : Bytes → Callback) (add : σ → Bytes → σ)
  (hcall : ∀ s part, f s (mk part) = add s part) (hnil : ∀ s, add s [] = s)
    (happend : ∀ s a b, add (add s a) b = add s (a ++ b))

include hcall hnil happend

/-- A text whose parts are added one by one is added as a whole. -/
theorem Llhttp.foldl_parts (parts : List Bytes) (s : σ) : (parts.map mk).foldl f s = add s parts.flatten := by
  induction parts generalizing s with
  | nil => exact (hnil s).symm
  | cons part parts ih => rw [List.map_cons, List.foldl_cons, hcall, ih, happend, List.flatten_cons]

/-- Spans in any parts add up to their texts. -/
theorem Llhttp.foldl_spans (spans : List Span) (s : σ) :
    (spans.flatMap (Span.callbacks mk)).foldl f s = add s (spans.map Span.text).flatten := by
  induction spans generalizing s with
  | nil => exact (hnil s).symm
  | cons span spans ih =>
    rw [List.flatMap_cons, List.foldl_append, Span.callbacks, foldl_parts mk add hcall hnil happend, ih, happend,
      List.map_cons, List.flatten_cons, Span.text]

end Parts

/-- Putting the buffered header into the map once more changes nothing. -/
theorem HeaderBuffer.finishPendingHeader_twice (b : HeaderBuffer) (headers : Headers) :
    b.finishPendingHeader (b.finishPendingHeader headers) = b.finishPendingHeader headers := by
  by_cases hfield : b.field = []
  · simp only [finishPendingHeader, if_pos hfield]
  · simp only [finishPendingHeader, if_neg hfield, Headers.set_set_self]

/-- The trailer behind the headers: the map has all of its fields but the last. -/
theorem HeaderBuffer.Ready.readTrailer {b : HeaderBuffer} (h : b.Ready) {headers : Headers}
    (hdone : b.finishPendingHeader headers = headers) (trailer : List FieldSpans) :
    ((trailer.flatMap FieldSpans.callbacks).foldl HeaderBuffer.read (b, headers)).2 =
      (trailer.dropLast.map FieldSpans.field).foldl Headers.add headers := by
  obtain ⟨b', headers', hread, -, -, hbehind⟩ := h.readFields headers trailer
  rw [hread]
  cases trailer with
  | nil =>
    obtain ⟨-, rfl⟩ := Prod.mk.inj hread
    rfl
  | cons t trailer =>
    rw [hdone] at hbehind
    exact hbehind nofun

/-! ## The request parser -/

@[simp] theorem RequestInfo.headers_postProcessHeaders (r : RequestInfo) : r.postProcessHeaders.headers = r.headers := by
  unfold postProcessHeaders
  dsimp only
  repeat' split
  all_goals rfl

@[simp] theorem RequestInfo.body_postProcessHeaders (r : RequestInfo) : r.postProcessHeaders.body = r.body := by
  unfold postProcessHeaders
  dsimp only
  repeat' split
  all_goals rfl

namespace HttpRequestParser

/-- The parser with a header that is being read and a header map. -/
def withHeaders (p : HttpRequestParser τ) (s : HeaderBuffer × Headers) : HttpRequestParser τ :=
  { p with request := { p.request with headers := s.2 }, buffer := s.1 }

/-- A header callback changes the buffer and the map. -/
theorem callback_header (p : HttpRequestParser τ) (r : HeaderBuffer × Headers) (c : Callback) (hc : c.IsHeader) :
    callback (p.withHeaders r) c = p.withHeaders (HeaderBuffer.read r c) := by
  cases c with
  | text field bytes =>
    cases field with
    | headerField => rfl
    | headerValue => rfl
    | url | status | version => cases hc
  | messageBegin | headersComplete | body | messageComplete => cases hc

/-- So do several. -/
theorem foldl_headers (p : HttpRequestParser τ) {out : List Callback} (hout : ∀ c ∈ out, c.IsHeader) :
    out.foldl callback p = p.withHeaders (out.foldl HeaderBuffer.read (p.buffer, p.request.headers)) :=
  foldl_header p.withHeaders p.callback_header hout (p.buffer, p.request.headers)

/-- The parts of a text of the first line are appended. -/
theorem foldl_lineParts (p : HttpRequestParser τ) (t : LineText) (parts : List Bytes) :
    (parts.map (Callback.text t.text)).foldl callback p =
      { p with request := { p.request with
        url := p.request.url ++ (if t = .url then parts.flatten else [])
        version := p.request.version ++ (if t = .version then parts.flatten else []) } } := by
  refine foldl_parts _ (fun p text => { p with request := { p.request with
    url := p.request.url ++ (if t = .url then text else [])
    version := p.request.version ++ (if t = .version then text else []) } }) ?_ ?_ ?_ parts p
  · intro p part
    cases t <;> simp [callback, LineText.text]
  · intro p
    cases t <;> simp
  · intro p a b
    cases t <;> simp

/-- The texts of the first line, in whatever parts. -/
theorem foldl_line (p : HttpRequestParser τ) (line : List (LineText × Span)) :
    (line.flatMap fun t => t.2.callbacks (.text t.1.text)).foldl callback p =
      { p with request := { p.request with
        url := p.request.url ++ lineText (line.map fun t => (t.1, t.2.text)) .url
        version := p.request.version ++ lineText (line.map fun t => (t.1, t.2.text)) .version } } := by
  induction line generalizing p with
  | nil => simp [lineText]
  | cons t line ih =>
    rw [List.flatMap_cons, List.foldl_append, Span.callbacks, foldl_lineParts, ih]
    simp only [List.map_cons, lineText_cons, List.append_assoc, Span.text]

/-- The parts of a body are appended. -/
theorem foldl_bodySpans (p : HttpRequestParser τ) (body : List Span) :
    (body.flatMap (Span.callbacks .body)).foldl callback p =
      { p with request := { p.request with body := p.request.body ++ (body.map Span.text).flatten } } := by
  refine foldl_spans _
    (fun p text => { p with request := { p.request with body := p.request.body ++ text } }) ?_ ?_ ?_ body p
  · intro p part
    rfl
  · intro p
    simp only [List.append_nil]
  · intro p a b
    simp only [List.append_assoc]

/-- The parser when the headers are complete. The header that it read last is in the map, and still in the buffer. -/
theorem foldl_head (p : HttpRequestParser τ) (m : SpannedMessage) :
    ∃ b : HeaderBuffer, m.headCallbacks.foldl callback p = ⟨p.parser, .reading, m.whole.requestAtHeaders, b⟩ ∧ b.Ready ∧
      b.finishPendingHeader (Headers.ofFields m.whole.fields) = Headers.ofFields m.whole.fields := by
  have hnew : HeaderBuffer.Ready {} := .inr rfl
  obtain ⟨b, headers, hread, hready, hall, -⟩ := hnew.readFields [] m.fields
  have hmap : b.finishPendingHeader headers = Headers.ofFields m.whole.fields := hall
  refine ⟨b, ?_, hready, ?_⟩
  · rw [SpannedMessage.headCallbacks, List.foldl_append, List.foldl_append, foldl_headers _ FieldSpans.isHeader]
    simp only [List.foldl_cons, List.foldl_nil, foldl_line, callback, RequestInfo.empty, List.nil_append, hread,
      withHeaders, hmap]
    rfl
  · rw [← hmap, b.finishPendingHeader_twice]

/-- What a parser has of a message in the end. -/
theorem request_foldl (p : HttpRequestParser τ) (m : SpannedMessage) (trailer : List FieldSpans) :
    ((m.callbacks trailer).foldl callback p).request =
      { m.whole.request with
        headers := (trailer.dropLast.map FieldSpans.field).foldl Headers.add (Headers.ofFields m.whole.fields) } := by
  obtain ⟨b, hhead, hready, hdone⟩ := foldl_head p m
  have hmap : m.whole.requestAtHeaders.headers = Headers.ofFields m.whole.fields :=
    RequestInfo.headers_postProcessHeaders _
  have hbody : m.whole.requestAtHeaders.body = [] := RequestInfo.body_postProcessHeaders _
  rw [SpannedMessage.callbacks, List.foldl_append, List.foldl_append, List.foldl_append, hhead, foldl_bodySpans,
    foldl_headers _ FieldSpans.isHeader]
  simp only [List.foldl_cons, List.foldl_nil, callback, withHeaders, hmap, hbody, hready.readTrailer hdone,
    List.nil_append]
  rfl

end HttpRequestParser

/-! ## The response parser -/

namespace HttpResponseParser

/-- The parser with a header that is being read and a header map. -/
def withHeaders (p : HttpResponseParser τ) (s : HeaderBuffer × Headers) : HttpResponseParser τ :=
  { p with response := { p.response with headers := s.2 }, buffer := s.1 }

/-- As for requests. -/
theorem callback_header (p : HttpResponseParser τ) (r : HeaderBuffer × Headers) (c : Callback) (hc : c.IsHeader) :
    callback (p.withHeaders r) c = p.withHeaders (HeaderBuffer.read r c) := by
  cases c with
  | text field bytes =>
    cases field with
    | headerField => rfl
    | headerValue => rfl
    | url | status | version => cases hc
  | messageBegin | headersComplete | body | messageComplete => cases hc

/-- As for requests. -/
theorem foldl_headers (p : HttpResponseParser τ) {out : List Callback} (hout : ∀ c ∈ out, c.IsHeader) :
    out.foldl callback p = p.withHeaders (out.foldl HeaderBuffer.read (p.buffer, p.response.headers)) :=
  foldl_header p.withHeaders p.callback_header hout (p.buffer, p.response.headers)

/-- As for requests. -/
theorem foldl_lineParts (p : HttpResponseParser τ) (t : LineText) (parts : List Bytes) :
    (parts.map (Callback.text t.text)).foldl callback p =
      { p with response := { p.response with
        reasonPhrase := p.response.reasonPhrase ++ (if t = .status then parts.flatten else [])
        version := p.response.version ++ (if t = .version then parts.flatten else []) } } := by
  refine foldl_parts _ (fun p text => { p with response := { p.response with
    reasonPhrase := p.response.reasonPhrase ++ (if t = .status then text else [])
    version := p.response.version ++ (if t = .version then text else []) } }) ?_ ?_ ?_ parts p
  · intro p part
    cases t <;> simp [callback, LineText.text]
  · intro p
    cases t <;> simp
  · intro p a b
    cases t <;> simp

/-- The texts of the first line, in whatever parts. -/
theorem foldl_line (p : HttpResponseParser τ) (line : List (LineText × Span)) :
    (line.flatMap fun t => t.2.callbacks (.text t.1.text)).foldl callback p =
      { p with response := { p.response with
        reasonPhrase := p.response.reasonPhrase ++ lineText (line.map fun t => (t.1, t.2.text)) .status
        version := p.response.version ++ lineText (line.map fun t => (t.1, t.2.text)) .version } } := by
  induction line generalizing p with
  | nil => simp [lineText]
  | cons t line ih =>
    rw [List.flatMap_cons, List.foldl_append, Span.callbacks, foldl_lineParts, ih]
    simp only [List.map_cons, lineText_cons, List.append_assoc, Span.text]

/-- As for requests. -/
theorem foldl_bodySpans (p : HttpResponseParser τ) (body : List Span) :
    (body.flatMap (Span.callbacks .body)).foldl callback p =
      { p with response := { p.response with body := p.response.body ++ (body.map Span.text).flatten } } := by
  refine foldl_spans _
    (fun p text => { p with response := { p.response with body := p.response.body ++ text } }) ?_ ?_ ?_ body p
  · intro p part
    rfl
  · intro p
    simp only [List.append_nil]
  · intro p a b
    simp only [List.append_assoc]

/-- The parser when the headers are complete. The header that it read last is in the map, and still in the buffer. -/
theorem foldl_head (p : HttpResponseParser τ) (m : SpannedMessage) :
    ∃ b : HeaderBuffer, m.headCallbacks.foldl callback p = ⟨p.parser, .reading, m.whole.responseAtHeaders, b⟩ ∧ b.Ready ∧
      b.finishPendingHeader (Headers.ofFields m.whole.fields) = Headers.ofFields m.whole.fields := by
  have hnew : HeaderBuffer.Ready {} := .inr rfl
  obtain ⟨b, headers, hread, hready, hall, -⟩ := hnew.readFields [] m.fields
  have hmap : b.finishPendingHeader headers = Headers.ofFields m.whole.fields := hall
  refine ⟨b, ?_, hready, ?_⟩
  · rw [SpannedMessage.headCallbacks, List.foldl_append, List.foldl_append, foldl_headers _ FieldSpans.isHeader]
    simp only [List.foldl_cons, List.foldl_nil, foldl_line, callback, List.nil_append, hread, withHeaders, hmap]
    rfl
  · rw [← hmap, b.finishPendingHeader_twice]

/-- What a parser has of a message in the end. -/
theorem response_foldl (p : HttpResponseParser τ) (m : SpannedMessage) (trailer : List FieldSpans) :
    ((m.callbacks trailer).foldl callback p).response =
      { m.whole.response with
        headers := (trailer.dropLast.map FieldSpans.field).foldl Headers.add (Headers.ofFields m.whole.fields) } := by
  obtain ⟨b, hhead, hready, hdone⟩ := foldl_head p m
  have hmap : m.whole.responseAtHeaders.headers = Headers.ofFields m.whole.fields :=
    ResponseInfo.headers_postProcessHeaders _
  have hbody : m.whole.responseAtHeaders.body = [] := ResponseInfo.body_postProcessHeaders _
  rw [SpannedMessage.callbacks, List.foldl_append, List.foldl_append, List.foldl_append, hhead, foldl_bodySpans,
    foldl_headers _ FieldSpans.isHeader]
  simp only [List.foldl_cons, List.foldl_nil, callback, withHeaders, hmap, hbody, hready.readTrailer hdone,
    List.nil_append]
  rfl

end HttpResponseParser

/-! ## What the cuts and the trailer do -/

/-- Without a trailer, each parser has in the end what the message says, however its texts were cut: the header map is
that of the headers one after another, and every other text is the parts put together. -/
theorem fragments_put_together (m : SpannedMessage) (p : HttpRequestParser τ) (q : HttpResponseParser τ) :
    ((m.callbacks []).foldl HttpRequestParser.callback p).request = m.whole.request ∧
      ((m.callbacks []).foldl HttpResponseParser.callback q).response = m.whole.response := by
  constructor
  · have hmap : m.whole.request.headers = Headers.ofFields m.whole.fields := RequestInfo.headers_postProcessHeaders _
    rw [HttpRequestParser.request_foldl, List.dropLast_nil, List.map_nil, List.foldl_nil, ← hmap]
  · have hmap : m.whole.response.headers = Headers.ofFields m.whole.fields := ResponseInfo.headers_postProcessHeaders _
    rw [HttpResponseParser.response_foldl, List.dropLast_nil, List.map_nil, List.foldl_nil, ← hmap]

/-- A stream that llhttp reads as such a message. -/
theorem afterReading_spans {lexer : Lexer τ} {m : SpannedMessage} :
    (∀ r : Message lexer .request, r.callbacks = m.callbacks [] →
      (HttpRequestParser.afterReading lexer r.bytes).request = m.whole.request) ∧
      ∀ r : Message lexer .response, r.callbacks = m.callbacks [] →
        (HttpResponseParser.afterReading lexer r.bytes).response = m.whole.response := by
  constructor
  · intro r hr
    have hmap : m.whole.request.headers = Headers.ofFields m.whole.fields := RequestInfo.headers_postProcessHeaders _
    rw [HttpRequestParser.afterReading, r.run, hr, HttpRequestParser.request_foldl]
    simp only [List.dropLast_nil, List.map_nil, List.foldl_nil, ← hmap]
  · intro r hr
    have hmap : m.whole.response.headers = Headers.ofFields m.whole.fields := ResponseInfo.headers_postProcessHeaders _
    rw [HttpResponseParser.afterReading, r.run, hr, HttpResponseParser.response_foldl]
    simp only [List.dropLast_nil, List.map_nil, List.foldl_nil, ← hmap]

/-- Each name in the trailer, the last field apart, is the name of a header, and the header that counts has the value
of the field that counts. -/
def Llhttp.SpannedMessage.Repeated (m : SpannedMessage) (trailer : List FieldSpans) : Prop :=
  ∀ t ∈ trailer.dropLast, Headers.lastValue (m.fields.map FieldSpans.field) (toLowerAscii t.name.text) =
    Headers.lastValue (trailer.dropLast.map FieldSpans.field) (toLowerAscii t.name.text)

/-- Exactly then the trailer, its last field apart, leaves the map of the headers as it is. -/
theorem Llhttp.SpannedMessage.repeated_iff (m : SpannedMessage) (trailer : List FieldSpans) :
    (trailer.dropLast.map FieldSpans.field).foldl Headers.add (Headers.ofFields m.whole.fields) =
      Headers.ofFields m.whole.fields ↔ m.Repeated trailer := by
  have hdistinct : (Headers.ofFields m.whole.fields).Distinct := by
    have hnil : Headers.Distinct [] := List.nodup_nil
    exact hnil.foldl_add _
  rw [Headers.foldl_add_eq_self hdistinct]
  simp only [List.forall_mem_map, Headers.lookup_ofFields]
  rfl

/-- The header map is at the end of the message what it was at the end of the headers exactly when the trailer, but
for its last field, only repeats headers. -/
theorem trailer_keeps_headers (m : SpannedMessage) (trailer : List FieldSpans) (p : HttpRequestParser τ)
    (q : HttpResponseParser τ) :
    (((m.callbacks trailer).foldl HttpRequestParser.callback p).request.headers =
        (m.headCallbacks.foldl HttpRequestParser.callback p).request.headers ↔ m.Repeated trailer) ∧
      (((m.callbacks trailer).foldl HttpResponseParser.callback q).response.headers =
        (m.headCallbacks.foldl HttpResponseParser.callback q).response.headers ↔ m.Repeated trailer) := by
  constructor
  · obtain ⟨b, hhead, -⟩ := HttpRequestParser.foldl_head p m
    have hmap : m.whole.requestAtHeaders.headers = Headers.ofFields m.whole.fields :=
      RequestInfo.headers_postProcessHeaders _
    rw [HttpRequestParser.request_foldl, hhead, hmap]
    exact m.repeated_iff trailer
  · obtain ⟨b, hhead, -⟩ := HttpResponseParser.foldl_head q m
    have hmap : m.whole.responseAtHeaders.headers = Headers.ofFields m.whole.fields :=
      ResponseInfo.headers_postProcessHeaders _
    rw [HttpResponseParser.response_foldl, hhead, hmap]
    exact m.repeated_iff trailer

/-- A text in one part. -/
def Llhttp.Span.ofText (text : Bytes) : Span := ⟨[text], nofun⟩

/-- A field whose name and value come in one part each. -/
def Llhttp.FieldSpans.ofText (name value : Bytes) (hname : name ≠ []) : FieldSpans :=
  ⟨.ofText name, .ofText value, by simpa [Span.ofText, Span.text] using hname⟩

namespace TrailerHost

/-- A chunked request for one host. -/
def message : SpannedMessage where
  line := [(.url, .ofText (ascii "/")), (.version, .ofText (ascii "1.1"))]
  fields := [.ofText (ascii "Host") (ascii "a") (by decide),
    .ofText (ascii "Transfer-Encoding") (ascii "chunked") (by decide)]
  head := { method := ascii "POST", chunked := true, transferEncoding := true }
  body := [.ofText (ascii "x")]

/-- A trailer that names another host. -/
def trailer : List FieldSpans := [.ofText (ascii "Host") (ascii "b") (by decide),
      .ofText (ascii "Sum") (ascii "1") (by decide)]

end TrailerHost

/-- The host of the trailer takes the place of the one the request is for; the last field of the trailer gets lost. -/
theorem trailer_replaces_host :
    (((TrailerHost.message.callbacks TrailerHost.trailer).foldl HttpRequestParser.callback
      ({} : HttpRequestParser Unit)).request.headers =
        [(ascii "host", ascii "b"), (ascii "transfer-encoding", ascii "chunked")] ∧
      (TrailerHost.message.headCallbacks.foldl HttpRequestParser.callback ({} : HttpRequestParser Unit)).request.headers =
        [(ascii "host", ascii "a"), (ascii "transfer-encoding", ascii "chunked")]) ∧
    ((TrailerHost.message.callbacks TrailerHost.trailer).foldl HttpResponseParser.callback
      ({} : HttpResponseParser Unit)).response.headers ≠
      (TrailerHost.message.headCallbacks.foldl HttpResponseParser.callback
        ({} : HttpResponseParser Unit)).response.headers := by
  decide +kernel

end HpServer
