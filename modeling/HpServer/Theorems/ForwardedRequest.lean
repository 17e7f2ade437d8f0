import HpServer.Lemmas.MessageText

/-!
# The request sent upstream

The bytes `build_forward_proxy_request` makes are a request line, header lines, an empty line and the body: whatever
the order in which the header map is gone through, the first empty line is the one before the body, and the lines
before it say how long the body is.
-/

namespace HpServer

open MessageBuilder

/-- A request as the parser gives it: it is not a `CONNECT`, and has a method and a host; names are in lower case and
none is there twice; no field has a line end in it; and a `content-length` is the length of the body. -/
structure RequestInfo.Parsed (req : RequestInfo) : Prop where
  notConnect : req.isConnect = false
  method : req.method ≠ [] ∧ 13 ∉ req.method ∧ 10 ∉ req.method
  url : 13 ∉ req.url ∧ 10 ∉ req.url
  version : 13 ∉ req.version ∧ 10 ∉ req.version
  host : req.host ≠ [] ∧ 13 ∉ req.host ∧ 10 ∉ req.host
  lower : ∀ f ∈ req.headers, toLowerAscii f.1 = f.1
  distinct : Headers.Distinct req.headers
  plain : Headers.Plain req.headers
  length : ∀ v, (ascii "content-length", v) ∈ req.headers → lengthValue v = some req.body.length

namespace RequestInfo

/-- The request line that is sent. -/
def sentRequestLine (req : RequestInfo) : Bytes :=
  req.method ++ ascii " " ++ buildOriginForm req.url ++ ascii " HTTP/" ++ (if req.version = [] then ascii "1.1"
    else req.version)

/-- The `host` field that is added when the map has none. -/
def addedHost (req : RequestInfo) : Headers :=
  if (Headers.endToEnd req.headers).any fun f => f.1 = ascii "host" then []
  else [(ascii "host", req.host ++ (if req.port ≠ 0 ∧ req.port ≠ 80 then ascii ":" ++ decimal req.port.toNat else []))]

/-- The `content-length` field that is added for a body when the map has none. -/
def addedLength (req : RequestInfo) : Headers :=
  if !((Headers.endToEnd req.headers).any fun f => f.1 = ascii "content-length") && req.body ≠ [] then
    [(ascii "content-length", decimal req.body.length)]
  else []

/-- The header fields that are sent. -/
def sentFields (req : RequestInfo) : Headers :=
  Headers.endToEnd req.headers ++ req.addedHost ++ req.addedLength ++ [(ascii "connection", ascii "close")]

/-- What is sent, line by line. -/
theorem Parsed.bytes {req : RequestInfo} (h : req.Parsed) :
    buildForwardProxyRequest req =
      (req.sentRequestLine :: req.sentFields.map headerLine).flatMap (· ++ crlf) ++ crlf ++ req.body := by
  have hhost : (if (Headers.endToEnd req.headers).any fun f => f.1 = ascii "host" then []
       else ascii "host: " ++ req.host ++
        (if req.port ≠ 0 ∧ req.port ≠ 80 then ascii ":" ++ decimal req.port.toNat else []) ++ crlf) =
      (req.addedHost.map headerLine).flatMap (· ++ crlf) := by
    rw [addedHost]
    split
    · rfl
    · simp [headerLine, ascii]
  have hlength : (if !((Headers.endToEnd req.headers).any fun f => f.1 = ascii "content-length") && req.body ≠ [] then
      ascii "content-length: " ++ decimal req.body.length ++ crlf else []) =
        (req.addedLength.map headerLine).flatMap (· ++ crlf) := by
    rw [addedLength]
    split
    · simp [headerLine, ascii]
    · rfl
  have hclose : ascii "connection: close" ++ crlf = [(ascii "connection", ascii "close")].flatMap fun f =>
      headerLine f ++ crlf :=
    rfl
  rw [buildForwardProxyRequest, if_neg (by simp [h.method.1, h.host.1, h.notConnect])]
  simp only [hhost, hlength]
  simp only [sentFields, sentRequestLine, List.flatMap_cons, List.map_append, List.flatMap_append, List.flatMap_map,
    List.append_assoc, ← hclose]

/-- The path of a URL is made of its bytes and a slash. -/
theorem not_mem_buildOriginForm {c : UInt8} (hc : c ≠ 47) {url : Bytes} (h : c ∉ url) : c ∉ buildOriginForm url := by
  have hpath : ∀ n, c ∉ originPath (url.drop n) := by
    intro n
    rw [originPath]
    split
    · simpa [ascii] using hc
    · rename_i path hpath
      intro hmem
      exact h (List.mem_of_mem_drop ((List.dropWhile_sublist _).subset hmem))
  unfold buildOriginForm
  repeat' split
  · exact hpath 7
  · exact hpath 8
  · simpa [ascii] using hc
  · exact h
  · simp [hc, h]
  · exact h

/-- Every header field that is sent is one of the map's that is passed on, or an added one without line ends. -/
theorem Parsed.plain_sent {req : RequestInfo} (h : req.Parsed) : ∀ f ∈ req.sentFields, 13 ∉ headerLine f := by
  intro f hf
  simp only [sentFields, List.mem_append, List.mem_singleton] at hf
  rcases hf with ((hf | hf) | hf) | rfl
  · obtain ⟨h1, h2⟩ := h.plain f (List.mem_filter.mp hf).1
    exact not_mem_headerLine h1.1 h2.1
  · unfold addedHost at hf
    split at hf
    · cases hf
    · obtain rfl := List.mem_singleton.mp hf
      refine not_mem_headerLine (show 13 ∉ ascii "host" by decide) (not_mem_append h.host.2.1 ?_)
      split
      · exact not_mem_append (by decide) (not_mem_decimal (by decide) _)
      · simp
  · unfold addedLength at hf
    split at hf
    · obtain rfl := List.mem_singleton.mp hf
      exact not_mem_headerLine (show 13 ∉ ascii "content-length" by decide) (not_mem_decimal (by decide) _)
    · cases hf
  · decide

theorem Parsed.plain_requestLine {req : RequestInfo} (h : req.Parsed) : 13 ∉ req.sentRequestLine := by
  refine not_mem_append (not_mem_append (not_mem_append (not_mem_append h.method.2.1 (by decide)) ?_) (by decide)) ?_
  · exact not_mem_buildOriginForm (by decide) h.url.1
  · split
    · decide
    · exact h.version.1

/-! ## The fields of a name -/

/-- The map's `connection` field is not sent. -/
theorem Parsed.no_connection {req : RequestInfo} (h : req.Parsed) :
    fieldsNamed "connection" (Headers.endToEnd req.headers) = [] := by
  refine List.filter_eq_nil_iff.mpr fun f hf hname => ?_
  obtain ⟨hmem, hsent⟩ := List.mem_filter.mp hf
  rw [h.lower f hmem, decide_eq_true_eq] at hname
  rw [hname] at hsent
  exact absurd hsent (by decide)

/-- What is added for want of a `host` or a `content-length` adds nothing of another name. -/
theorem fieldsNamed_addedHost (req : RequestInfo) {name : String} (hname : ascii "host" ≠ ascii name) :
    fieldsNamed name req.addedHost = [] := by
  have hlower : toLowerAscii (ascii "host") = ascii "host" := by decide
  unfold addedHost
  split
  · rfl
  · simp [fieldsNamed, hlower, hname]

theorem fieldsNamed_addedLength (req : RequestInfo) {name : String} (hname : ascii "content-length" ≠ ascii name) :
    fieldsNamed name req.addedLength = [] := by
  have hlower : toLowerAscii (ascii "content-length") = ascii "content-length" := by decide
  unfold addedLength
  split
  · simp [fieldsNamed, hlower, hname]
  · rfl

theorem Parsed.one_host {req : RequestInfo} (h : req.Parsed) : (fieldsNamed "host" req.sentFields).length = 1 := by
  have hclose : fieldsNamed "host" [(ascii "connection", ascii "close")] = [] := by decide
  have hlower : toLowerAscii (ascii "host") = ascii "host" := by decide
  rw [sentFields, fieldsNamed_append, fieldsNamed_append, fieldsNamed_append, hclose,
    fieldsNamed_addedLength req (by decide), List.append_nil, List.append_nil, addedHost]
  rcases fieldsNamed_endToEnd h.lower h.distinct "host" with ⟨hany, v, -, heq⟩ | ⟨hany, heq⟩
  · rw [heq, if_pos hany]
    rfl
  · rw [heq, if_neg (by simp [hany])]
    simp [fieldsNamed, hlower]

theorem Parsed.one_connection {req : RequestInfo} (h : req.Parsed) :
    fieldsNamed "connection" req.sentFields = [(ascii "connection", ascii "close")] := by
  rw [sentFields, fieldsNamed_append, fieldsNamed_append, fieldsNamed_append, h.no_connection,
    fieldsNamed_addedHost req (by decide), fieldsNamed_addedLength req (by decide)]
  decide

/-- The `content-length` fields that are sent: the map's, or the added one. -/
theorem Parsed.sent_length {req : RequestInfo} (h : req.Parsed) :
    (∃ v, (ascii "content-length", v) ∈ req.headers ∧
      fieldsNamed "content-length" req.sentFields = [(ascii "content-length", v)]) ∨
      fieldsNamed "content-length" req.sentFields = req.addedLength ∧
        req.addedLength = if req.body ≠ [] then [(ascii "content-length", decimal req.body.length)] else [] := by
  have hclose : fieldsNamed "content-length" [(ascii "connection", ascii "close")] = [] := by decide
  have hlower : toLowerAscii (ascii "content-length") = ascii "content-length" := by decide
  have hsent : fieldsNamed "content-length" req.sentFields =
      fieldsNamed "content-length" (Headers.endToEnd req.headers) ++ fieldsNamed "content-length" req.addedLength := by
    rw [sentFields, fieldsNamed_append, fieldsNamed_append, fieldsNamed_append, hclose,
      fieldsNamed_addedHost req (by decide), List.append_nil, List.append_nil]
  rcases fieldsNamed_endToEnd h.lower h.distinct "content-length" with ⟨hany, v, hmem, heq⟩ | ⟨hany, heq⟩
  · refine .inl ⟨v, hmem, ?_⟩
    rw [hsent, heq, addedLength, if_neg (by simp [hany])]
    rfl
  · have hadded : req.addedLength =
        if req.body ≠ [] then [(ascii "content-length", decimal req.body.length)] else [] := by
      simp [addedLength, hany]
    refine .inr ⟨?_, hadded⟩
    rw [hsent, heq, List.nil_append, hadded]
    split
    · simp [fieldsNamed, hlower]
    · rfl

end RequestInfo

/-- The request sent upstream is cut by its first empty line into a head and the body of the client's request. The
head is a request line and header lines; these are the end-to-end headers of the map and added ones, with one `host`,
one `connection: close` and at most one `content-length`; and the declared length, zero if there is none, is that of
the body. -/
theorem forwarded_request_framed (req : RequestInfo) (h : req.Parsed) :
    ∃ head fields added, splitMessage (buildForwardProxyRequest req) = some (head, req.body) ∧
      headLines head = req.sentRequestLine :: fields.map headerLine ∧
      fields.Perm (Headers.endToEnd req.headers ++ added) ∧
      (∀ f ∈ added, f.1 = ascii "host" ∨ f.1 = ascii "content-length" ∨ f.1 = ascii "connection") ∧
      (fieldsNamed "host" fields).length = 1 ∧
      fieldsNamed "connection" fields = [(ascii "connection", ascii "close")] ∧
      (fieldsNamed "content-length" fields).length ≤ 1 ∧
      declaredLength fields = some req.body.length := by
  obtain ⟨hsplit, hlines⟩ := splitMessage_lines h.plain_requestLine h.plain_sent req.body
  have hlength : (fieldsNamed "content-length" req.sentFields).length ≤ 1 ∧
      declaredLength req.sentFields = some req.body.length := by
    rcases h.sent_length with ⟨v, hv, heq⟩ | ⟨heq, hadded⟩
    · rw [declaredLength, heq]
      exact ⟨Nat.le_refl _, h.length v hv⟩
    · rw [declaredLength, heq, hadded]
      by_cases hbody : req.body = []
      · simp [hbody]
      · simpa [hbody] using lengthValue_decimal req.body.length
  refine ⟨crlf.intercalate (req.sentRequestLine :: req.sentFields.map headerLine), req.sentFields,
    req.addedHost ++ req.addedLength ++ [(ascii "connection", ascii "close")], ?_, hlines, ?_, ?_, h.one_host,
      h.one_connection, hlength⟩
  · rw [h.bytes, hsplit]
  · rw [RequestInfo.sentFields, List.append_assoc, List.append_assoc, List.append_assoc]
  · intro f hf
    simp only [List.mem_append, List.mem_singleton] at hf
    rcases hf with (hf | hf) | rfl
    · unfold RequestInfo.addedHost at hf
      split at hf
      · cases hf
      · exact .inl (by rw [List.mem_singleton.mp hf])
    · unfold RequestInfo.addedLength at hf
      split at hf
      · exact .inr (.inl (by rw [List.mem_singleton.mp hf]))
      · cases hf
    · exact .inr (.inr rfl)

/-- A request that came in chunks: the parser has put the body together, and the map has no `content-length`. -/
def chunkedPost : RequestInfo where
  method := ascii "POST"
  url := ascii "http://h/p"
  version := ascii "1.1"
  host := ascii "h"
  port := 80
  contentLength := 0
  chunked := true
  keepAlive := true
  isConnect := false
  headers := [(ascii "transfer-encoding", ascii "chunked"), (ascii "host", ascii "h"),
    (ascii "connection", ascii "keep-alive")]
  body := ascii "hi"

theorem chunkedPost_parsed : chunkedPost.Parsed where
  notConnect := rfl
  method := by decide
  url := by decide
  version := by decide
  host := by decide
  lower := by decide
  distinct := by unfold Headers.Distinct; decide
  plain := by unfold Headers.Plain; decide
  length := fun v hv =>
    absurd (List.mem_map_of_mem hv) (show ascii "content-length" ∉ chunkedPost.headers.map Prod.fst by decide)

/-- The request that came in chunks is sent with the length of its body. -/
theorem forwarded_request_framed_chunked : chunkedPost.Parsed ∧
    ∃ head fields, splitMessage (buildForwardProxyRequest chunkedPost) = some (head, ascii "hi") ∧
      headLines head = chunkedPost.sentRequestLine :: fields.map headerLine ∧ declaredLength fields = some 2 := by
  obtain ⟨head, fields, added, hsplit, hlines, -, -, -, -, -, hlen⟩ :=
    forwarded_request_framed chunkedPost chunkedPost_parsed
  exact ⟨chunkedPost_parsed, head, fields, hsplit, hlines, hlen⟩

example : buildForwardProxyRequest chunkedPost =
    ascii "POST /p HTTP/1.1\r\nhost: h\r\ncontent-length: 2\r\nconnection: close\r\n\r\nhi" := by
  decide

end HpServer
