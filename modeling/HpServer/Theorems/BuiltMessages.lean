import HpServer.Lemmas.MessageText

/-!
# The messages the proxy writes itself

A response that the proxy makes is cut at its first empty line into the lines that were meant and the payload,
whatever bytes the reason, the detail or the agent has in it. The target of a forwarded request is the path and the
query of an absolute URL, except where the path is empty and there is a query.
-/

namespace HpServer

open MessageBuilder

/-! ## Responses -/

/-- `response` is cut at its first empty line into `lines` and `payload`, and no line has a line end in it. -/
structure CutsInto (response : Bytes) (lines : List Bytes) (payload : Bytes) : Prop where
  split : splitMessage response = some (crlf.intercalate lines, payload)
  headLines_eq : headLines (crlf.intercalate lines) = lines
  plain : ∀ l ∈ lines, 13 ∉ l ∧ 10 ∉ l

/-- A text that is written line by line, with an empty line before the payload. -/
theorem CutsInto.of_lines {line : Bytes} {ls : List Bytes} (hplain : ∀ l ∈ line :: ls, 13 ∉ l ∧ 10 ∉ l)
    (hne : ∀ l ∈ ls, l ≠ [])
    (payload : Bytes) : CutsInto (crlf.intercalate (line :: ls) ++ (crlf ++ crlf) ++ payload) (line :: ls) payload := by
  have hline : 13 ∉ line := (hplain line (by simp)).1
  have hls : ∀ l ∈ ls, 13 ∉ l := by
    intro l hl
    exact (hplain l (by simp [hl])).1
  constructor
  · exact Lines.atFirst_intercalate (by decide) payload hline fun l hl => ⟨hls l hl, hne l hl⟩
  · exact Lines.lines_intercalate hline hls
  · exact hplain

/-- An empty line that is the last thing of a text is its only one. -/
theorem CutsInto.only_at_end {response : Bytes} {lines : List Bytes} (h : CutsInto response lines [])
    {before after : Bytes} (heq : response = before ++ (crlf ++ crlf) ++ after) : after = [] := by
  have hfirst := Lines.length_le_of_atFirst h.split heq
  have htext := congrArg List.length (Lines.eq_of_atFirst h.split)
  rw [heq] at htext
  simp only [List.length_append, List.length_nil] at htext
  exact List.length_eq_zero_iff.mp (by omega)

/-- What is left of a token has no line end in it. -/
theorem not_mem_sanitizeHeaderToken (value fallback : Bytes) (hfallback : 13 ∉ fallback ∧ 10 ∉ fallback) :
    13 ∉ sanitizeHeaderToken value fallback ∧ 10 ∉ sanitizeHeaderToken value fallback := by
  by_cases hout : (value.filter fun c => c ≠ 13 ∧ c ≠ 10) = []
  · rw [sanitizeHeaderToken, if_pos hout]
    exact hfallback
  · rw [sanitizeHeaderToken, if_neg hout]
    simp

theorem length_sanitizeBody (body : Bytes) : (sanitizeBody body).length = body.length := by
  simp [sanitizeBody]

theorem not_mem_sanitizeBody (body : Bytes) : 13 ∉ sanitizeBody body := by
  intro hmem
  obtain ⟨c, -, hc⟩ := List.mem_map.mp hmem
  split at hc
  · exact absurd hc (by decide)
  · contradiction

theorem not_mem_signedDecimal {c : UInt8} (hc : c < 45) (n : Int) : c ∉ signedDecimal n := by
  have hdecimal : c ∉ decimal n.natAbs := not_mem_decimal (UInt8.lt_trans hc (by decide)) _
  have hminus : c ≠ 45 := UInt8.ne_of_lt hc
  unfold signedDecimal
  split
  · simp [hminus, hdecimal]
  · exact hdecimal

/-- The first line of a response. -/
def statusLine (statusCode : Int) (reason : Bytes) : Bytes :=
  ascii "HTTP/1.1 " ++ signedDecimal statusCode ++ ascii " " ++ reason

/-- The header lines of a response with a plain text body of a length. -/
def plainTextLines (length : Nat) (closeConnection : Bool) : List Bytes :=
  [ascii "Content-Type: text/plain; charset=utf-8", ascii "Content-Length: " ++ decimal length,
    ascii "Connection: " ++ (if closeConnection then ascii "close" else ascii "keep-alive")]

/-- `response` is cut at its first empty line into a status line, the three header lines and a payload of the declared
length, which is the length of `body`. -/
structure CutsAsPlainText (response : Bytes) (statusCode : Int) (body : Bytes) (closeConnection : Bool)
    (reason payload : Bytes) : Prop where
  cuts : CutsInto response (statusLine statusCode reason :: plainTextLines payload.length closeConnection) payload
  length_eq : payload.length = body.length
  noCr : 13 ∉ payload

theorem plainTextLines_plain (length : Nat) (closeConnection : Bool) :
    ∀ l ∈ plainTextLines length closeConnection, (13 ∉ l ∧ 10 ∉ l) ∧ l ≠ [] := by
  intro l hl
  simp only [plainTextLines, List.mem_cons, List.not_mem_nil, or_false] at hl
  rcases hl with rfl | rfl | rfl
  · decide
  · refine ⟨⟨?_, ?_⟩, by simp [decimal_ne_nil]⟩
    · exact not_mem_append (by decide) (not_mem_decimal (by decide) _)
    · exact not_mem_append (by decide) (not_mem_decimal (by decide) _)
  · cases closeConnection <;> decide

/-- A response with a plain text body is cut as it was meant. -/
theorem cutsAsPlainText (statusCode : Int) (reasonPhrase body : Bytes) (closeConnection : Bool) :
    CutsAsPlainText (buildPlainTextResponse statusCode reasonPhrase body closeConnection) statusCode body closeConnection
      (sanitizeHeaderToken reasonPhrase (ascii "Unknown")) (sanitizeBody body) := by
  have hreason := not_mem_sanitizeHeaderToken reasonPhrase (ascii "Unknown") (by decide)
  have hfields := plainTextLines_plain (sanitizeBody body).length closeConnection
  refine ⟨?_, length_sanitizeBody body, not_mem_sanitizeBody body⟩
  have hplain : ∀ l ∈ statusLine statusCode (sanitizeHeaderToken reasonPhrase (ascii "Unknown")) ::
      plainTextLines (sanitizeBody body).length closeConnection, 13 ∉ l ∧ 10 ∉ l := by
    intro l hl
    rcases List.mem_cons.mp hl with rfl | hl
    · constructor
      · refine not_mem_append (not_mem_append (not_mem_append (by decide) ?_) (by decide)) hreason.1
        exact not_mem_signedDecimal (by decide) statusCode
      · refine not_mem_append (not_mem_append (not_mem_append (by decide) ?_) (by decide)) hreason.2
        exact not_mem_signedDecimal (by decide) statusCode
    · exact (hfields l hl).1
  have hcuts := CutsInto.of_lines hplain (fun l hl => (hfields l hl).2) (sanitizeBody body)
  have htext : buildPlainTextResponse statusCode reasonPhrase body closeConnection =
      crlf.intercalate (statusLine statusCode (sanitizeHeaderToken reasonPhrase (ascii "Unknown")) ::
        plainTextLines (sanitizeBody body).length closeConnection) ++ (crlf ++ crlf) ++ sanitizeBody body := by
    simp only [buildPlainTextResponse, statusLine, plainTextLines, List.intercalate_cons_cons,
      List.intercalate_singleton, List.append_assoc]
  rw [htext]
  exact hcuts

/-- The response that opens a tunnel is cut as it was meant, with nothing behind the empty line. -/
theorem cutsInto_connectEstablished (proxyAgent : Bytes) :
    CutsInto (buildConnectEstablishedResponse proxyAgent)
      [ascii "HTTP/1.1 200 Connection Established",
        ascii "Proxy-Agent: " ++ sanitizeHeaderToken proxyAgent (ascii "hpserver")] [] := by
  have hagent := not_mem_sanitizeHeaderToken proxyAgent (ascii "hpserver") (by decide)
  have hplain : ∀ l ∈ [ascii "HTTP/1.1 200 Connection Established",
      ascii "Proxy-Agent: " ++ sanitizeHeaderToken proxyAgent (ascii "hpserver")], 13 ∉ l ∧ 10 ∉ l := by
    intro l hl
    simp only [List.mem_cons, List.not_mem_nil, or_false] at hl
    rcases hl with rfl | rfl
    · decide
    · exact ⟨not_mem_append (by decide) hagent.1, not_mem_append (by decide) hagent.2⟩
  have hcuts := CutsInto.of_lines hplain ?_ []
  · simpa only [buildConnectEstablishedResponse, List.intercalate_cons_cons, List.intercalate_singleton,
      List.append_assoc, List.append_nil] using hcuts
  · intro l hl
    rw [List.mem_singleton.mp hl]
    simp [ascii]

/-- No reason, body, detail or agent splits a response that the proxy makes: the plain text responses, the 503 and the
403 among them, are a status line, three header lines and a payload of the declared length; the response that opens a
tunnel is a status line, the line of the agent and an empty line, the only one. -/
theorem generated_responses_not_split :
    (∀ (statusCode : Int) (reasonPhrase body : Bytes) (closeConnection : Bool), ∃ reason payload,
      CutsAsPlainText (buildPlainTextResponse statusCode reasonPhrase body closeConnection) statusCode body
        closeConnection reason payload) ∧
    (∀ detail, ∃ reason payload, CutsAsPlainText (buildServiceUnavailableResponse detail) 503
      (withDetail (ascii "proxy upstream unavailable") detail) true reason payload) ∧
    (∀ detail, ∃ reason payload, CutsAsPlainText (buildForbiddenResponse detail) 403
      (withDetail (ascii "request forbidden") detail) true reason payload) ∧
    ∀ proxyAgent, ∃ agent,
      buildConnectEstablishedResponse proxyAgent =
        ascii "HTTP/1.1 200 Connection Established" ++ crlf ++ (ascii "Proxy-Agent: " ++ agent) ++ crlf ++ crlf ∧
      CutsInto (buildConnectEstablishedResponse proxyAgent)
        [ascii "HTTP/1.1 200 Connection Established", ascii "Proxy-Agent: " ++ agent] [] ∧
      ∀ before after, buildConnectEstablishedResponse proxyAgent = before ++ (crlf ++ crlf) ++ after → after = [] := by
  refine ⟨?_, ?_, ?_, ?_⟩
  · intro statusCode reasonPhrase body closeConnection
    exact ⟨_, _, cutsAsPlainText statusCode reasonPhrase body closeConnection⟩
  · intro detail
    exact ⟨_, _, cutsAsPlainText 503 _ _ true⟩
  · intro detail
    exact ⟨_, _, cutsAsPlainText 403 _ _ true⟩
  · intro proxyAgent
    have hcuts := cutsInto_connectEstablished proxyAgent
    refine ⟨_, ?_, hcuts, ?_⟩
    · simp only [buildConnectEstablishedResponse, List.append_assoc]
    · intro before after heq
      exact hcuts.only_at_end heq

/-! ## The target of a forwarded request -/

/-- A URL in absolute form: a scheme, an authority, a path that is empty or begins with a slash, and a query that is
empty or begins with a question mark. -/
structure AbsoluteUrl where
  https : Bool
  authority : Bytes
  path : Bytes
  query : Bytes
  authority_ne : authority ≠ []
  authority_plain : 47 ∉ authority ∧ 63 ∉ authority ∧ 35 ∉ authority
  path_form : path = [] ∨ path.head? = some 47
  path_plain : 63 ∉ path ∧ 35 ∉ path
  query_form : query = [] ∨ query.head? = some 63
  query_plain : 35 ∉ query

namespace AbsoluteUrl

def text (url : AbsoluteUrl) : Bytes :=
  (if url.https then ascii "https://" else ascii "http://") ++ (url.authority ++ url.path ++ url.query)

/-- The target of a request for the URL in origin form. -/
def originForm (url : AbsoluteUrl) : Bytes := (if url.path = [] then ascii "/" else url.path) ++ url.query

end AbsoluteUrl

/-- The path of a URL begins with a slash. -/
theorem originPath_head (rest : Bytes) : (originPath rest).head? = some 47 := by
  have hhead := List.head?_dropWhile_not (fun c : UInt8 => decide (c ≠ 47)) rest
  cases hdrop : rest.dropWhile (fun c => decide (c ≠ 47)) with
  | nil => rw [originPath, hdrop]; rfl
  | cons c path =>
    rw [hdrop] at hhead
    have hc : c = 47 := by simpa using hhead
    rw [originPath, hdrop, hc]
    rfl

/-- It is no longer than what it is taken from. -/
theorem length_originPath_le {rest : Bytes} (hne : rest ≠ []) : (originPath rest).length ≤ rest.length := by
  unfold originPath
  split
  · exact List.length_pos_iff.mpr hne
  · exact (List.dropWhile_suffix _).length_le

/-- A target that begins with a slash stays as it is. -/
theorem buildOriginForm_of_slash {target : Bytes} (h : target.head? = some 47) : buildOriginForm target = target := by
  obtain ⟨rest, rfl⟩ := List.head?_eq_some_iff.mp h
  rw [buildOriginForm, if_neg (by simp [ascii]), if_neg (by simp [ascii]), if_neg (by simp),
    if_neg (by simp [ascii]), if_neg (by simp)]

/-- A target in origin form begins with a slash, unless it is the asterisk. -/
theorem buildOriginForm_form (url : Bytes) : buildOriginForm url = ascii "*" ∨ (buildOriginForm url).head? = some 47 := by
  unfold buildOriginForm
  split
  · exact .inr (originPath_head _)
  split
  · exact .inr (originPath_head _)
  split
  · exact .inr rfl
  split
  · exact .inl ‹_›
  split
  · exact .inr rfl
  · next hslash => exact .inr (by simpa using hslash)

theorem buildOriginForm_idem (url : Bytes) : buildOriginForm (buildOriginForm url) = buildOriginForm url := by
  rcases buildOriginForm_form url with h | h
  · rw [h]
    decide
  · exact buildOriginForm_of_slash h

namespace AbsoluteUrl

/-- The scheme is cut off, the authority has no slash, and the rest is searched for one. -/
theorem buildOriginForm_text (url : AbsoluteUrl) : buildOriginForm url.text = originPath (url.path ++ url.query) := by
  have hskip : ∀ c ∈ url.authority, (decide (c ≠ 47)) = true := by
    intro c hc
    exact decide_eq_true fun h => url.authority_plain.1 (h ▸ hc)
  have hpath : originPath (url.authority ++ url.path ++ url.query) = originPath (url.path ++ url.query) := by
    rw [originPath, List.append_assoc, List.dropWhile_append_of_pos hskip, originPath]
  rw [← hpath, text]
  cases url.https with
  | false =>
    rw [if_neg Bool.false_ne_true, buildOriginForm, if_pos (List.prefix_append _ _)]
    rfl
  | true =>
    have hhttp : ¬ ascii "http://" <+: ascii "https://" ++ (url.authority ++ url.path ++ url.query) := by
      simp [ascii, List.cons_prefix_cons]
    rw [if_pos rfl, buildOriginForm, if_neg hhttp, if_pos (List.prefix_append _ _)]
    rfl

/-- Where the path is not empty, the first slash behind the authority is where it begins. -/
theorem originForm_of_path {url : AbsoluteUrl} (hpath : url.path ≠ []) : buildOriginForm url.text = url.originForm := by
  obtain ⟨rest, hrest⟩ := List.head?_eq_some_iff.mp (url.path_form.resolve_left hpath)
  rw [buildOriginForm_text, originForm, if_neg hpath, hrest]
  simp [originPath]

/-- Where the path is empty, the target is right only if the query is empty too: what is taken from the query is
shorter than a slash with the query behind it. -/
theorem originForm_iff_of_path_nil {url : AbsoluteUrl} (hpath : url.path = []) :
    buildOriginForm url.text = url.originForm ↔ url.query = [] := by
  rw [buildOriginForm_text, originForm, if_pos hpath, hpath, List.nil_append]
  constructor
  · intro heq
    by_contra hquery
    have hle := length_originPath_le hquery
    rw [heq, List.length_append] at hle
    have hslash : (ascii "/").length = 1 := rfl
    omega
  · intro hquery
    rw [hquery]
    rfl

end AbsoluteUrl

/-- The target of a request for an absolute URL is its path, or a slash, and its query exactly where the path is not
empty or there is no query. A target that begins with a slash stays as it is, and making the origin form twice is
making it once. -/
theorem origin_form_iff (url : AbsoluteUrl) (target : Bytes) :
    (buildOriginForm url.text = url.originForm ↔ url.path ≠ [] ∨ url.query = []) ∧
      (target.head? = some 47 → buildOriginForm target = target) ∧
      buildOriginForm (buildOriginForm target) = buildOriginForm target := by
  refine ⟨?_, buildOriginForm_of_slash, buildOriginForm_idem target⟩
  by_cases hpath : url.path = []
  · rw [url.originForm_iff_of_path_nil hpath]
    simp [hpath]
  · exact ⟨fun _ => .inl hpath, fun _ => url.originForm_of_path hpath⟩

/-- `http://h?a=/b`. -/
def queryOnlyUrl : AbsoluteUrl where
  https := false
  authority := ascii "h"
  path := []
  query := ascii "?a=/b"
  authority_ne := by decide
  authority_plain := by decide
  path_form := by decide
  path_plain := by decide
  query_form := by decide
  query_plain := by decide

/-- The slash that is found is one of the query. -/
theorem origin_form_of_query_only :
    buildOriginForm queryOnlyUrl.text = ascii "/b" ∧ queryOnlyUrl.originForm = ascii "/?a=/b" ∧
      buildOriginForm queryOnlyUrl.text ≠ queryOnlyUrl.originForm := by
  decide

/-- `https://h/a?b` is turned into `/a?b`. -/
def pathUrl : AbsoluteUrl where
  https := true
  authority := ascii "h"
  path := ascii "/a"
  query := ascii "?b"
  authority_ne := by decide
  authority_plain := by decide
  path_form := by decide
  path_plain := by decide
  query_form := by decide
  query_plain := by decide

theorem origin_form_of_path_url :
    buildOriginForm pathUrl.text = pathUrl.originForm ∧ buildOriginForm (ascii "/x") = ascii "/x" := by
  obtain ⟨hurl, hslash, -⟩ := origin_form_iff pathUrl (ascii "/x")
  exact ⟨hurl.mpr (.inl (by decide)), hslash (by decide)⟩

end HpServer
