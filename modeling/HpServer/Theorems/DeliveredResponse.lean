import HpServer.Lemmas.ForwardDelivery

/-!
# Responses that are delivered

An upstream server answers with interim responses and a final one, framed as HTTP/1.1 prescribes for the method of the
request, and closes the connection. `forward_request` returns with the first piece of the stream behind which its
parser has a complete message, whichever message that is; and the parser is not told the method of the request. So the
answer is delivered (`Clear`) when no piece ends just behind an interim response, when each interim response lets the
connection go on, and when a response to `HEAD` announces no body.
-/

namespace HpServer

open Llhttp

namespace Llhttp

/-! ## Framing as HTTP/1.1 prescribes -/

/-- An interim response: a head and nothing more, which announces no body. A parser of responses does not set a method. -/
structure Interim {τ : Type} (lexer : Lexer τ) extends HeadText lexer .response where
  informational : info.statusCode / 100 = 1
  noMethod : info.method ≠ ascii "CONNECT"
  noLength : info.contentLengthField = false
  noEncoding : info.transferEncoding = false
  noChunks : info.chunked = false

/-- The body is the one that the method of the request and the head call for. -/
def Framed {τ : Type} (lexer : Lexer τ) (method : Bytes) (h : Head) (body : Bytes) : Prop :=
  if method = ascii "HEAD" ∨ h.statusCode = 204 ∨ h.statusCode = 304 then body = []
  else if h.chunked then ∃ pieces last, readAll (lexer.chunk .response h) lexer.chunkStart body = some (pieces, last)
  else if h.transferEncoding then True
  else if h.contentLengthField then body.length = h.contentLength.toNat
  else True

/-- A final response to a request with the method. -/
structure Final {τ : Type} (lexer : Lexer τ) (method : Bytes) extends HeadText lexer .response where
  body : Bytes
  final : info.statusCode / 100 ≠ 1
  noMethod : info.method ≠ ascii "CONNECT"
  framed : Framed lexer method info body

/-- The head calls for a body that has an end of its own. -/
def Head.announcesBody (h : Head) : Bool :=
  !(h.statusCode = 204 || h.statusCode = 304) &&
    (h.chunked || !h.transferEncoding && h.contentLengthField && 0 < h.contentLength)

namespace Interim

variable {τ : Type} {lexer : Lexer τ}

/-- Only 101 is an upgrade. -/
theorem afterHeadersComplete (i : Interim lexer) :
    i.info.afterHeadersComplete .response = if i.info.statusCode = 101 then .pause else .restart := by
  have hinfo := i.informational
  split
  · rename_i hstatus
    simp [Head.afterHeadersComplete, hstatus]
  · rename_i hstatus
    have hupgrade : i.info.upgrade .response = false := by simp [Head.upgrade, hstatus, i.noMethod]
    have heof : i.info.messageNeedsEof .response = false := by simp [Head.messageNeedsEof, hinfo]
    simp [Head.afterHeadersComplete, hstatus, hupgrade, heof, i.noLength, i.noEncoding, i.noChunks]

/-- An interim response is a message without a body. -/
def message (i : Interim lexer) : Message lexer .response where
  toHeadText := i.toHeadText
  body := []
  bodyOut := []
  last := i.info
  isBody := by
    have hafter := i.afterHeadersComplete
    split at hafter
    · rw [IsBody, hafter]
      exact ⟨rfl, rfl, rfl⟩
    · rw [IsBody, hafter]
      exact ⟨rfl, rfl, rfl⟩

theorem bytes_message (i : Interim lexer) : i.message.bytes = i.text := List.append_nil _

theorem after_message_upgrade {i : Interim lexer} (h : i.info.statusCode = 101) :
    i.message.after = .paused i.message.last := by
  have hafter : i.message.info.afterHeadersComplete .response = .pause := by
    have hafter := i.afterHeadersComplete
    rwa [if_pos h] at hafter
  rw [Message.after, hafter]

theorem after_message {i : Interim lexer} (h : i.info.statusCode ≠ 101) :
    i.message.after = afterMessageComplete .response i.info := by
  have hafter : i.message.info.afterHeadersComplete .response = .restart := by
    have hafter := i.afterHeadersComplete
    rwa [if_neg h] at hafter
  rw [Message.after, hafter]
  rfl

end Interim

namespace Final

variable {τ : Type} {lexer : Lexer τ} {method : Bytes}

def bytes (f : Final lexer method) : Bytes := f.text ++ f.body

/-- What the response is to llhttp: a message; or, in answer to `HEAD`, a head whose body is missing; or a message
that the end of the stream completes. -/
theorem cases (f : Final lexer method) :
    (¬(method = ascii "HEAD" ∧ f.info.announcesBody = true) ∧ ∃ m : Message lexer .response, m.bytes = f.bytes) ∨
    (¬(method = ascii "HEAD" ∧ f.info.announcesBody = true) ∧ f.info.afterHeadersComplete .response = .untilEof) ∨
    ((method = ascii "HEAD" ∧ f.info.announcesBody = true) ∧ f.body = [] ∧
      ∃ p out, BodyPart lexer .response f.info [] p out ∧ (Llhttp.finish p).1 = false) := by
  have hafter := Head.afterHeadersComplete_final f.final f.noMethod
  have hframed := f.framed
  have hmessage : ∀ out last, IsBody lexer .response f.info f.body out last →
      ∃ m : Message lexer .response, m.bytes = f.bytes := by
    intro out last hbody
    exact ⟨{ toHeadText := f.toHeadText, body := f.body, bodyOut := out, last := last, isBody := hbody }, rfl⟩
  rw [Framed] at hframed
  by_cases hempty : f.info.statusCode = 204 ∨ f.info.statusCode = 304
  · rw [if_pos hempty] at hafter
    rw [if_pos (.inr hempty)] at hframed
    refine .inl ⟨?_, hmessage [] f.info ?_⟩
    · rcases hempty with hempty | hempty <;> simp [Head.announcesBody, hempty]
    · rw [IsBody, hafter]
      exact ⟨hframed, rfl, rfl⟩
  rw [if_neg hempty] at hafter
  have hstatus : ¬f.info.statusCode = 204 ∧ ¬f.info.statusCode = 304 := not_or.mp hempty
  cases hchunked : f.info.chunked with
  | true =>
    rw [hchunked] at hafter hframed
    by_cases hhead : method = ascii "HEAD"
    · rw [if_pos (.inl hhead)] at hframed
      have hannounces : f.info.announcesBody = true := by simp [Head.announcesBody, hchunked, hstatus]
      exact .inr (.inr ⟨⟨hhead, hannounces⟩, hframed, _, _, .chunked hafter rfl, rfl⟩)
    · rw [if_neg (by simp [hhead, hstatus])] at hframed
      obtain ⟨pieces, last, hpieces⟩ := hframed
      refine .inl ⟨fun h => hhead h.1, hmessage (pieces.map Piece.callback) last ?_⟩
      rw [IsBody, hafter]
      exact ⟨pieces, hpieces, rfl⟩
  | false =>
    cases hencoding : f.info.transferEncoding with
    | true =>
      exact .inr (.inl ⟨by simp [Head.announcesBody, hchunked, hencoding],
        by simpa [hchunked, hencoding] using hafter⟩)
    | false =>
      cases hlength : f.info.contentLengthField with
      | false =>
        exact .inr (.inl ⟨by simp [Head.announcesBody, hchunked, hlength],
          by simpa [hchunked, hencoding, hlength] using hafter⟩)
      | true =>
        simp only [hchunked, hencoding, hlength, Bool.false_eq_true, if_false, if_true] at hafter hframed
        by_cases hzero : f.info.contentLength = 0
        · rw [if_pos hzero] at hafter
          refine .inl ⟨by simp [Head.announcesBody, hchunked, hzero], hmessage [] f.info ?_⟩
          rw [IsBody, hafter]
          refine ⟨?_, rfl, rfl⟩
          split at hframed
          · exact hframed
          · rw [hzero] at hframed
            exact List.length_eq_zero_iff.mp hframed
        · rw [if_neg hzero] at hafter
          have hpos : 0 < f.info.contentLength := UInt64.pos_iff_ne_zero.mpr hzero
          by_cases hhead : method = ascii "HEAD"
          · rw [if_pos (.inl hhead)] at hframed
            refine .inr (.inr ⟨⟨hhead, ?_⟩, hframed, _, _, .identity hafter (Head.contentLength_pos hafter), rfl⟩)
            simp [Head.announcesBody, hstatus, hencoding, hlength, hpos]
          · rw [if_neg (by simp [hhead, hstatus])] at hframed
            refine .inl ⟨fun h => hhead h.1, hmessage (bodyCallbacks f.body) f.info ?_⟩
            rw [IsBody, hafter]
            exact ⟨hframed, rfl, rfl⟩

end Final

/-- The stream of an answer: the interim responses and the final one. -/
def answerStream {τ : Type} {lexer : Lexer τ} {method : Bytes} (f : Final lexer method) : List (Interim lexer) → Bytes
  | [] => f.bytes
  | i :: interims => i.text ++ answerStream f interims

theorem begins_answerStream {τ : Type} {lexer : Lexer τ} {method : Bytes} (f : Final lexer method)
    (interims : List (Interim lexer)) :
    Begins (answerStream f interims) := by
  cases interims with
  | nil => exact f.begins.append f.body
  | cons i interims => exact i.begins.append _

end Llhttp

/-! ## Answers that are delivered -/

open HttpResponseParser

section

variable {τ : Type} {lexer : Lexer τ} {method : Bytes}

/-- When an answer is delivered whose pieces end at `ends`; the interim responses that are left begin behind `offset`
bytes. -/
def Clear (f : Final lexer method) (ends : List Nat) (offset : Nat) : List (Interim lexer) → Prop
  | [] => ¬(method = ascii "HEAD" ∧ f.info.announcesBody = true)
  | i :: interims =>
    if i.info.statusCode = 101 then
      -- the parser is done with everything behind it
      ∀ n ∈ ends, n < offset + i.text.length ∨ offset + (answerStream f (i :: interims)).length ≤ n
    else i.info.shouldKeepAlive .response = true ∧ offset + i.text.length ∉ ends ∧
      Clear f ends (offset + i.text.length) interims

/-- Nothing is complete or malformed where a piece ends, behind `pre`, inside a stream. -/
def GoingBehind (lexer : Lexer τ) (ends : List Nat) (pre stream : Bytes) : Prop :=
  ∀ n ∈ ends, pre.length < n → n < stream.length → Going lexer (stream.take n)

/-- A piece that ends in the next text ends behind a part of it. -/
theorem take_append_of_lt {pre text : Bytes} (rest : Bytes) {n : Nat} (hpre : pre.length < n)
    (hn : n < (pre ++ text).length) :
    ∃ a b, a ≠ [] ∧ b ≠ [] ∧ text = a ++ b ∧ (pre ++ (text ++ rest)).take n = pre ++ a := by
  rw [List.length_append] at hn
  refine ⟨text.take (n - pre.length), text.drop (n - pre.length), ?_, ?_, (List.take_append_drop _ _).symm, ?_⟩
  · rw [← List.length_pos_iff, List.length_take]
    omega
  · rw [← List.length_pos_iff, List.length_drop]
    omega
  · rw [List.take_append, List.take_of_length_le (by omega), List.take_append_of_le_length (by omega)]

/-- A piece that ends in a message. -/
theorem going_take_message {pre : Bytes} {out : List Callback} (hpre : Between lexer .response pre out)
    (m : Message lexer .response)
    (rest : Bytes) {n : Nat} (hlt : pre.length < n) (hn : n < (pre ++ m.bytes).length) :
    Going lexer ((pre ++ (m.bytes ++ rest)).take n) := by
  obtain ⟨a, b, ha, hb, hab, htake⟩ := take_append_of_lt rest hlt hn
  obtain ⟨p, out', hpart⟩ := m.partial_of_append hab ha hb
  rw [htake]
  exact going_of_part hpre hpart

/-- The final response behind whole messages. -/
theorem delivered_final {pre : Bytes} {out : List Callback} (hpre : Between lexer .response pre out)
    (f : Final lexer method) (ends : List Nat) :
    (GoingBehind lexer ends pre (pre ++ f.bytes) ∧ Done lexer (pre ++ f.bytes)) ↔
      ¬(method = ascii "HEAD" ∧ f.info.announcesBody = true) := by
  rcases f.cases with ⟨hclear, m, hm⟩ | ⟨hclear, hafter⟩ | ⟨hhead, hbody, p, out', hpart, hfinish⟩
  · refine iff_of_true ⟨?_, ?_⟩ hclear
    · intro n _ hlt hn
      rw [← hm] at hn ⊢
      have hgoing := going_take_message hpre m [] hlt hn
      rwa [List.append_nil] at hgoing
    · have hfinished := finished_of_message (w := []) hpre m (.inl (fun b hb => by cases hb))
      rw [List.append_nil, hm] at hfinished
      exact .inl hfinished
  · -- the body lasts until the connection is closed
    have huntil : ∀ part, Partial lexer .response (f.text ++ part) (.untilEof f.info)
        (f.callbacks ++ bodyCallbacks part) := by
      intro part
      exact .body f.toHeadText (.untilEof hafter)
    refine iff_of_true ⟨?_, ?_⟩ hclear
    · intro n _ hlt hn
      rw [Final.bytes]
      by_cases htext : n < (pre ++ f.text).length
      · obtain ⟨a, b, ha, hb, hab, htake⟩ := take_append_of_lt f.body hlt htext
        obtain ⟨p, out', hpart⟩ := f.toHeadText.partial_of_append hab ha hb
        rw [htake]
        exact going_of_part hpre hpart
      · rw [List.take_append, List.take_of_length_le (by omega), List.take_append,
          List.take_of_length_le (by simp at htext; omega)]
        exact going_of_part hpre (huntil _)
    · exact (done_of_part hpre (huntil f.body)).mpr rfl
  · refine iff_of_false ?_ (fun hclear => hclear hhead)
    rintro ⟨-, hdone⟩
    rw [Final.bytes, hbody, done_of_part hpre (.body f.toHeadText hpart), hfinish] at hdone
    cases hdone

/-- A piece that ends in an interim response, behind whole messages. -/
theorem going_take_interim {pre : Bytes} {out : List Callback} (hpre : Between lexer .response pre out)
    (i : Interim lexer) (rest : Bytes)
    {n : Nat} (hlt : pre.length < n) (hn : n < pre.length + i.text.length) :
    Going lexer ((pre ++ (i.text ++ rest)).take n) := by
  rw [← i.bytes_message] at hn ⊢
  exact going_take_message hpre i.message rest hlt (by rwa [List.length_append])

/-- An upgrade behind whole messages: whatever follows it, the parser has a complete message. -/
theorem delivered_upgrade {pre : Bytes} {out : List Callback} (hpre : Between lexer .response pre out) {i : Interim lexer}
    (hstatus : i.info.statusCode = 101) (ends : List Nat) (rest : Bytes) :
    (GoingBehind lexer ends pre (pre ++ (i.text ++ rest)) ∧ Done lexer (pre ++ (i.text ++ rest))) ↔
      ∀ n ∈ ends, n < pre.length + i.text.length ∨ pre.length + (i.text ++ rest).length ≤ n := by
  have hpos : 0 < i.text.length := List.length_pos_iff.mpr i.text_ne_nil
  have hfinished : ∀ w, Finished lexer (pre ++ (i.text ++ w)) := by
    intro w
    have h := finished_of_message (w := w) hpre i.message (.inr (Interim.after_message_upgrade hstatus))
    rwa [i.bytes_message, List.append_assoc] at h
  constructor
  · rintro ⟨hgoing, -⟩ n hn
    by_contra hend
    rw [not_or, Nat.not_lt, Nat.not_le] at hend
    have hcut := hgoing n hn (by omega) (by rw [List.length_append]; exact hend.2)
    rw [List.take_append, List.take_of_length_le (by omega), List.take_append, List.take_of_length_le (by omega)] at hcut
    exact (hfinished _).not_going hcut
  · intro hends
    refine ⟨?_, .inl (hfinished rest)⟩
    intro n hn hlt hlast
    rw [List.length_append] at hlast
    exact going_take_interim hpre i rest hlt ((hends n hn).resolve_right (by omega))

/-- An interim response behind whole messages: it must let another message follow, and no piece may end just behind it. -/
theorem delivered_interim {pre : Bytes} {out : List Callback} (hpre : Between lexer .response pre out) {i : Interim lexer}
    (hstatus : i.info.statusCode ≠ 101) (ends : List Nat) {rest : Bytes} (hrest : Begins rest) :
    (GoingBehind lexer ends pre (pre ++ (i.text ++ rest)) ∧ Done lexer (pre ++ (i.text ++ rest))) ↔
      i.info.shouldKeepAlive .response = true ∧ pre.length + i.text.length ∉ ends ∧
        GoingBehind lexer ends (pre ++ i.text) (pre ++ i.text ++ rest) ∧ Done lexer (pre ++ i.text ++ rest) := by
  have hpos : 0 < i.text.length := List.length_pos_iff.mpr i.text_ne_nil
  have hrestPos : 0 < rest.length := by
    obtain ⟨b, rest', rfl, -⟩ := hrest
    exact Nat.succ_pos _
  have hlen : (pre ++ (i.text ++ rest)).length = pre.length + i.text.length + rest.length := by
    simp only [List.length_append, Nat.add_assoc]
  have hfinished : Finished lexer (pre ++ i.text) := by
    have h := finished_of_message (w := []) hpre i.message (.inl (fun b hb => by cases hb))
    rwa [i.bytes_message, List.append_nil] at h
  have htake : (pre ++ (i.text ++ rest)).take (pre.length + i.text.length) = pre ++ i.text := by
    rw [← List.append_assoc, ← List.length_append, List.take_left]
  rw [List.append_assoc]
  constructor
  · rintro ⟨hgoing, hdone⟩
    refine ⟨?_, ?_, ?_, hdone⟩
    · -- behind the last message of a connection nothing may follow
      by_contra hclose
      have hafter := Interim.after_message hstatus
      rw [afterMessageComplete, if_neg hclose] at hafter
      have hmalformed := malformed_of_closed hpre i.message hafter hrest
      rw [i.bytes_message, List.append_assoc, hdone.ok] at hmalformed
      cases hmalformed
    · intro hend
      have hcut := hgoing _ hend (by omega) (by omega)
      rw [htake] at hcut
      exact hfinished.not_going hcut
    · intro n hn hlt
      rw [List.length_append] at hlt
      exact hgoing n hn (by omega)
  · rintro ⟨-, hend, hgoing, hdone⟩
    refine ⟨?_, hdone⟩
    intro n hn hlt hlast
    rcases Nat.lt_trichotomy n (pre.length + i.text.length) with h | rfl | h
    · exact going_take_interim hpre i rest hlt h
    · exact absurd hn hend
    · exact hgoing n hn (by rwa [List.length_append]) hlast

/-- The interim responses and the final one, behind whole messages. -/
theorem delivered_iff_clear {pre : Bytes} {out : List Callback} (hpre : Between lexer .response pre out)
    (f : Final lexer method) (ends : List Nat) (interims : List (Interim lexer)) :
    (GoingBehind lexer ends pre (pre ++ answerStream f interims) ∧ Done lexer (pre ++ answerStream f interims)) ↔
      Clear f ends pre.length interims := by
  induction interims generalizing pre out with
  | nil => exact delivered_final hpre f ends
  | cons i interims ih =>
    rw [Clear]
    split
    · rename_i hstatus
      exact delivered_upgrade hpre hstatus ends _
    · rename_i hstatus
      rw [answerStream, delivered_interim hpre hstatus ends (begins_answerStream f interims)]
      refine and_congr_right fun hkeep => and_congr_right fun _ => ?_
      have hafter := Interim.after_message hstatus
      rw [afterMessageComplete, if_pos hkeep] at hafter
      have hbetween := Between.message i.message hpre hafter
      rw [i.bytes_message] at hbetween
      rw [ih hbetween, List.length_append]

end

/-- A request is answered with interim responses and a final one, in pieces, and the connection is closed.
`forward_request` returns true with the whole stream when it is clear: no piece ends just behind an interim response,
or behind an upgrade; each interim response lets the connection go on; and a response to `HEAD` announces no body. -/
theorem final_response_delivered {τ : Type} (lexer : Lexer τ) (req : RequestInfo)
    (hforward : MessageBuilder.buildForwardProxyRequest req ≠ []) (interims : List (Interim lexer))
    (f : Final lexer req.method)
    (first second : Forward.Connection (MessageBuilder.buildForwardProxyRequest req) (answerStream f interims)) :
    (((Forward.lts lexer req).drive {} (.compute :: (first.answers ++ second.answers))).pc = .returned true ∧
      ((Forward.lts lexer req).drive {} (.compute :: (first.answers ++ second.answers))).outResponse =
        answerStream f interims) ↔
      Clear f (Forward.ends 0 first.pieces) 0 interims := by
  rw [Forward.drive_connections lexer req hforward]
  have hanswered := Forward.receive_answered (going_nil lexer) first.pieces_ne_nil
  rw [List.nil_append, first.pieces_flatten] at hanswered
  have hclear := delivered_iff_clear .nil f (Forward.ends 0 first.pieces) interims
  rw [List.nil_append, List.length_nil] at hclear
  rw [hanswered, List.length_nil, ← hclear]
  refine and_congr_left fun _ => ⟨?_, ?_⟩
  · intro hgoing n hn _
    exact hgoing n hn
  · intro hgoing n hn hlt
    rcases Nat.eq_zero_or_pos n with rfl | hpos
    · exact going_nil lexer
    · exact hgoing n hn hpos hlt

/-! ## A response to `HEAD` -/

namespace Upstream

/-- A request for the head of `/a`. -/
def headRequest : RequestInfo :=
  { RequestInfo.empty with method := ascii "HEAD", host := ascii "h", port := 80, url := ascii "/a" }

/-- A request for `/a`. -/
def getRequest : RequestInfo := { headRequest with method := ascii "GET" }

def hintsText : Bytes := ascii "HTTP/1.1 103 Early Hints\r\n\r\n"

def pageText : Bytes := ascii "HTTP/1.1 200 OK\r\nContent-Length: 2\r\n\r\n"

def pageInfo : Head := { statusCode := 200, contentLength := 2, contentLengthField := true }

/-- What llhttp finds in the heads. -/
def lexer : Lexer Tables :=
  tableLexer
    [(hintsText, [(.version, ascii "1.1"), (.status, ascii "Early Hints")], { statusCode := 103 }),
      (pageText, [(.version, ascii "1.1"), (.status, ascii "OK"), (.headerField, ascii "Content-Length"),
        (.headerValue, ascii "2")], pageInfo)]
    []

def hints : Interim lexer where
  text := hintsText
  texts := [(.version, ascii "1.1"), (.status, ascii "Early Hints")]
  info := { statusCode := 103 }
  begins := ⟨72, _, rfl, rfl⟩
  isHead := rfl
  informational := rfl
  noMethod := by decide
  noLength := rfl
  noEncoding := rfl
  noChunks := rfl

/-- The page. -/
def page : Final lexer getRequest.method where
  text := pageText
  texts := [(.version, ascii "1.1"), (.status, ascii "OK"), (.headerField, ascii "Content-Length"),
    (.headerValue, ascii "2")]
  info := pageInfo
  begins := ⟨72, _, rfl, rfl⟩
  isHead := rfl
  body := ascii "ok"
  final := by decide
  noMethod := by decide
  framed := rfl

/-- The head of the page. -/
def pageHead : Final lexer headRequest.method where
  toHeadText := page.toHeadText
  body := []
  final := page.final
  noMethod := page.noMethod
  framed := rfl

/-- A connection that takes the request at once and gives the stream in these pieces. -/
def connection {forward stream : Bytes} (pieces : List Bytes) (hforward : forward ≠ [])
    (hsize : ∀ piece ∈ pieces, piece ≠ [] ∧ piece.length ≤ Tunnel.kIoBufferSize) (hall : pieces.flatten = stream) :
    Forward.Connection forward stream where
  sends := [([], forward.length)]
  arrivals := pieces.map fun piece => ([], piece)
  stallsAtEnd := []
  sends_pos := by
    intro send hsend
    rw [List.mem_singleton.mp hsend]
    exact List.length_pos_iff.mpr hforward
  sends_all := rfl
  arrivals_size := by
    intro arrival harrival
    obtain ⟨piece, hpiece, rfl⟩ := List.mem_map.mp harrival
    exact hsize piece hpiece
  arrivals_all := by simpa [Function.comp_def] using hall

/-- The head of the page, in one piece. -/
def headConnection : Forward.Connection (MessageBuilder.buildForwardProxyRequest headRequest)
      (answerStream pageHead []) :=
  connection [pageText] (by decide +kernel) (by decide +kernel) rfl

/-- The hints and the page, in two pieces; the first one ends in the hints. -/
def getConnection : Forward.Connection (MessageBuilder.buildForwardProxyRequest getRequest) (answerStream page [hints]) :=
  connection [hintsText.take 10, hintsText.drop 10 ++ pageText ++ ascii "ok"] (by decide +kernel) (by decide +kernel) rfl

end Upstream

/-- A response to `HEAD` with a length is waited for in vain, twice. -/
theorem final_response_delivered_false :
    MessageBuilder.buildForwardProxyRequest Upstream.headRequest ≠ [] ∧
      ¬(((Forward.lts Upstream.lexer Upstream.headRequest).drive {}
          (.compute :: (Upstream.headConnection.answers ++ Upstream.headConnection.answers))).pc = .returned true ∧
        Upstream.pageHead.bytes <:+: ((Forward.lts Upstream.lexer Upstream.headRequest).drive {}
          (.compute :: (Upstream.headConnection.answers ++ Upstream.headConnection.answers))).outResponse) := by
  refine ⟨by decide +kernel, ?_⟩
  rintro ⟨hpc, -⟩
  revert hpc
  decide +kernel

/-- A page behind an interim response. -/
theorem final_response_delivered_page :
    ((Forward.lts Upstream.lexer Upstream.getRequest).drive {}
        (.compute :: (Upstream.getConnection.answers ++ Upstream.getConnection.answers))).pc = .returned true ∧
      ((Forward.lts Upstream.lexer Upstream.getRequest).drive {}
        (.compute :: (Upstream.getConnection.answers ++ Upstream.getConnection.answers))).outResponse =
          answerStream Upstream.page [Upstream.hints] := by
  refine (final_response_delivered Upstream.lexer Upstream.getRequest (by decide +kernel) [Upstream.hints] Upstream.page
    Upstream.getConnection Upstream.getConnection).mpr ?_
  rw [Clear, if_neg (by decide)]
  refine ⟨by decide, by decide +kernel, ?_⟩
  rintro ⟨hmethod, -⟩
  revert hmethod
  decide

end HpServer
