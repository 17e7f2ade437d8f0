import HpServer.Lemmas.ParsedResponse

/-!
# A response and what follows it

A response parser is fed with a response and more bytes behind it, in some calls of `parse`. Between two calls it sees
that it has a complete message and takes no more; in one call llhttp goes on behind the message. So it matters what
follows the response in the call that brings its last byte: line ends do no harm, and anything else begins another
message, which takes the place of the first, or is an error.
-/

namespace HpServer

open Llhttp

section

variable {τ : Type} (lexer : Lexer τ)

/-- The response of a message. -/
def Llhttp.Message.response {lexer : Lexer τ} (m : Message lexer .response) : ResponseInfo :=
  m.toHeadText.response m.bodyOut

/-- A call that ends with `rest` behind `m` leaves a complete response: `m` itself, or a later one. -/
inductive Stops (m : Message lexer .response) : Bytes → ResponseInfo → Prop where
  | here {rest : Bytes} : Blank rest ∨ m.after = .paused m.last → Stops m rest m.response
  | later {rest : Bytes} (m' : Message lexer .response) : m.after = .start → EndsWith lexer m' rest →
    Stops m rest m'.response

namespace HttpResponseParser

/-- Some calls of `parse`, one after another, and whether all of them return true. -/
def parseCalls (p : HttpResponseParser τ) : List Bytes → HttpResponseParser τ × Bool
  | [] => (p, true)
  | data :: rest =>
    let (p', ok) := p.parse lexer data
    let (p'', oks) := parseCalls p' rest
    (p'', ok && oks)

/-- All calls return true, and the parser ends with a complete response, which is `r`, and no error. -/
structure Gives (calls : List Bytes) (p : HttpResponseParser τ) (r : ResponseInfo) : Prop where
  ok : (parseCalls lexer p calls).2 = true
  complete : (parseCalls lexer p calls).1.isMessageComplete = true
  noError : (parseCalls lexer p calls).1.hasParseError = false
  response : (parseCalls lexer p calls).1.response = r

/-! ## Calls one after another -/

theorem parseCalls_cons (p : HttpResponseParser τ) (data : Bytes) (rest : List Bytes) :
    parseCalls lexer p (data :: rest) =
      ((parseCalls lexer (p.parse lexer data).1 rest).1,
        (p.parse lexer data).2 && (parseCalls lexer (p.parse lexer data).1 rest).2) := rfl

/-- A parser that has a complete message takes no more. -/
theorem parseCalls_complete {p : HttpResponseParser τ} (herror : p.hasParseError = false)
    (hcomplete : p.isMessageComplete = true) (calls : List Bytes) : parseCalls lexer p calls = (p, true) := by
  induction calls with
  | nil => rfl
  | cons data rest ih =>
    have hparse : p.parse lexer data = (p, true) := by simp [parse, herror, hcomplete]
    rw [parseCalls_cons, hparse, ih]
    rfl

/-- A complete message is what all further calls give. -/
theorem gives_iff_of_complete {p : HttpResponseParser τ} (herror : p.hasParseError = false)
    (hcomplete : p.isMessageComplete = true)
    (calls : List Bytes) (r : ResponseInfo) : Gives lexer calls p r ↔ p.response = r := by
  have hcalls := parseCalls_complete lexer herror hcomplete calls
  constructor
  · intro hgives
    rw [← hgives.response, hcalls]
  · intro hresponse
    constructor <;> rw [hcalls] <;> assumption

/-- A call that returns true leaves what is given to the calls behind it. -/
theorem gives_cons_iff {p p' : HttpResponseParser τ} {data : Bytes} (hparse : p.parse lexer data = (p', true))
    (rest : List Bytes) (r : ResponseInfo) : Gives lexer (data :: rest) p r ↔ Gives lexer rest p' r := by
  have hcalls : parseCalls lexer p (data :: rest) = parseCalls lexer p' rest := by
    rw [parseCalls_cons, hparse, Bool.true_and]
  constructor
  · rintro ⟨hall, hcomplete, herror, hresponse⟩
    rw [hcalls] at hall hcomplete herror hresponse
    exact ⟨hall, hcomplete, herror, hresponse⟩
  · rintro ⟨hall, hcomplete, herror, hresponse⟩
    constructor <;> rw [hcalls] <;> assumption

variable {lexer}

theorem hasParseError_settle {p : HttpResponseParser τ} (hp : p.hasParseError = false) (hok : p.settle.2 = true) :
    p.settle.1.hasParseError = false := by
  rw [settle] at hok ⊢
  split
  · simp_all
  · rfl
  · exact hp

/-- The next call, as if all bytes had come at once. -/
theorem Going.parse {bytes : Bytes} (h : Going lexer bytes) (data : Bytes) :
    HttpResponseParser.parse lexer (afterReading lexer bytes).settle.1 data =
      (afterReading lexer (bytes ++ data)).settle := by
  by_cases hdata : data = []
  · obtain ⟨hself, -, -⟩ := settle_eq_self h.ok h.incomplete
    rw [hdata, List.append_nil, hself, HttpResponseParser.parse, if_pos (by simp), hasParseError_afterReading]
    rfl
  · exact parse_afterReading lexer h.ok h.incomplete hdata

/-- What is malformed remains so. -/
theorem malformed_append {bytes : Bytes} (h : (afterReading lexer bytes).settle.2 = false) (more : Bytes) :
    (afterReading lexer (bytes ++ more)).settle.2 = false := by
  have hfailed : (run lexer .response .start bytes).1 = .failed := by
    rw [← parser_afterReading]
    rw [settle] at h
    split at h
    · assumption
    · cases h
    · cases h
  have hparser := parser_afterReading lexer (bytes ++ more)
  rw [run_append, hfailed, run_failed] at hparser
  rw [settle, hparser]

/-- What some calls give is decided by the first of them after which there is a complete message. -/
theorem Going.gives_iff {bytes : Bytes} (h : Going lexer bytes) (calls : List Bytes) (r : ResponseInfo) :
    Gives lexer calls (afterReading lexer bytes).settle.1 r ↔
      ∃ k, (Finished lexer (bytes ++ (calls.take k).flatten) ∧
        (afterReading lexer (bytes ++ (calls.take k).flatten)).response = r) ∧
        ∀ j < k, ¬Finished lexer (bytes ++ (calls.take j).flatten) := by
  induction calls generalizing bytes with
  | nil =>
    constructor
    · intro hgives
      have hcomplete := hgives.complete
      rw [parseCalls, h.incomplete] at hcomplete
      cases hcomplete
    · rintro ⟨k, ⟨hfinished, -⟩, -⟩
      rw [List.take_nil, List.flatten_nil, List.append_nil] at hfinished
      exact absurd h hfinished.not_going
  | cons data rest ih =>
    have hzero : ¬Finished lexer (bytes ++ ((data :: rest).take 0).flatten) := by
      intro hfinished
      rw [List.take_zero, List.flatten_nil, List.append_nil] at hfinished
      exact hfinished.not_going h
    rw [exists_first_succ hzero fun hfirst => hfirst.1]
    simp only [List.take_succ_cons, List.flatten_cons, ← List.append_assoc]
    cases hok : (afterReading lexer (bytes ++ data)).settle.2 with
    | false =>
      constructor
      · intro hgives
        have hall := hgives.ok
        rw [parseCalls_cons, h.parse, hok] at hall
        cases hall
      · rintro ⟨k, ⟨hfinished, -⟩, -⟩
        have hfalse := malformed_append hok (rest.take k).flatten
        rw [hfinished.ok] at hfalse
        cases hfalse
    | true =>
      rw [gives_cons_iff lexer ((h.parse data).trans (Prod.ext rfl hok))]
      rcases going_or_finished hok with hgoing | hfinished
      · exact ih hgoing
      · -- the calls behind this one do nothing
        have herror := hasParseError_settle (hasParseError_afterReading lexer (bytes ++ data)) hok
        rw [gives_iff_of_complete lexer herror hfinished.complete, response_settle]
        have hfirst : Finished lexer (bytes ++ data ++ (rest.take 0).flatten) := by
          rwa [List.take_zero, List.flatten_nil, List.append_nil]
        rw [exists_first_zero hfirst, List.take_zero, List.flatten_nil, List.append_nil, and_iff_right hfinished]

end HttpResponseParser

/-! ## What follows a response -/

namespace Llhttp

variable {lexer}

theorem Between.append {kind : Kind} {a b : Bytes} {outa outb : List Callback} (ha : Between lexer kind a outa)
    (hb : Between lexer kind b outb) : Between lexer kind (a ++ b) (outa ++ outb) := by
  induction hb with
  | nil =>
    rw [List.append_nil, List.append_nil]
    exact ha
  | lineEnd _ hend ih =>
    rw [← List.append_assoc]
    exact .lineEnd ih hend
  | message m _ hafter ih =>
    rw [← List.append_assoc, ← List.append_assoc]
    exact .message m ih hafter

/-- Behind the last message of a connection there may only be line ends. -/
theorem run_closed_of_not_blank {kind : Kind} {text : Bytes} (h : ¬Blank text) :
    (run lexer kind .closed text).1 = .failed := by
  induction text with
  | nil => exact absurd (fun b hb => by cases hb) h
  | cons b text ih =>
    rw [run_cons]
    cases hb : isLineEnd b with
    | true =>
      have htext : ¬Blank text := by
        intro htext
        refine h fun c hc => ?_
        rcases List.mem_cons.mp hc with rfl | hc
        · exact hb
        · exact htext c hc
      simp only [step, hb, if_true]
      exact ih htext
    | false =>
      simp only [step, hb]
      exact congrArg Prod.fst (run_failed lexer kind text)

end Llhttp

namespace HttpResponseParser

variable {lexer}

/-- The response of the last message. -/
theorem response_of_message {pre w : Bytes} {out : List Callback} (hpre : Between lexer .response pre out)
    (m : Message lexer .response)
    (hw : Blank w ∨ m.after = .paused m.last) : (afterReading lexer (pre ++ m.bytes ++ w)).response = m.response := by
  rw [response_afterReading, hpre.run_message m hw, Message.response, HeadText.response, Message.callbacks,
    HeadText.callbacks]
  simp only [List.cons_append]
  rw [response_collect_begin, ← List.cons_append, collect, List.foldl_append]
  rfl

/-- A call that stops behind `m` has the response that it stops with. -/
theorem finished_of_stops {m : Message lexer .response} {rest : Bytes} {r : ResponseInfo} (h : Stops lexer m rest r) :
    Finished lexer (m.bytes ++ rest) ∧ (afterReading lexer (m.bytes ++ rest)).response = r := by
  cases h with
  | here hrest => exact ⟨finished_of_message .nil m hrest, response_of_message .nil m hrest⟩
  | later m' hafter hends =>
    obtain ⟨pre, w, out, rfl, hpre, hw⟩ := hends
    have hbetween : Between lexer .response (m.bytes ++ pre) (m.callbacks ++ out) :=
      (Between.message m .nil hafter).append hpre
    rw [← List.append_assoc, ← List.append_assoc]
    exact ⟨finished_of_message hbetween m' hw, response_of_message hbetween m' hw⟩

theorem Finished.not_failed {bytes : Bytes} (h : Finished lexer bytes) :
    (run lexer .response .start bytes).1 ≠ .failed := by
  intro hfailed
  have hok := h.ok
  rw [← parser_afterReading] at hfailed
  rw [settle, hfailed] at hok
  cases hok

/-- A call that ends behind `m` with a complete message stops there. -/
theorem Finished.stops {m : Message lexer .response} {rest : Bytes} (h : Finished lexer (m.bytes ++ rest)) :
    ∃ r, Stops lexer m rest r := by
  have hnot := h.not_failed
  rw [run_append, m.run] at hnot
  rcases m.after_cases with hafter | hafter | hafter
  · have hreads := run_reads lexer .response rest
    rw [hafter] at hnot
    generalize (run lexer .response .start rest).1 = p at hnot hreads
    generalize (run lexer .response .start rest).2 = out at hreads
    cases hreads with
    | between hpre =>
      rcases hpre.last with ⟨hblank, -⟩ | ⟨pre, w, out', m', rfl, hpre', hw, -⟩
      · exact ⟨_, .here (.inl hblank)⟩
      · exact ⟨_, .later m' hafter ⟨pre, w, out', rfl, hpre', .inl hw⟩⟩
    | @closed pre w out' m' hpre _ hw => exact ⟨_, .later m' hafter ⟨pre, w, out', rfl, hpre, .inl hw⟩⟩
    | @paused pre w out' m' hpre hpaused => exact ⟨_, .later m' hafter ⟨pre, w, out', rfl, hpre, .inr hpaused⟩⟩
    | inside hpre hpart =>
      have hm : Between lexer .response m.bytes m.callbacks := .message m .nil hafter
      have hgoing := going_of_part (hm.append hpre) hpart
      rw [List.append_assoc] at hgoing
      exact absurd hgoing h.not_going
    | failed => exact absurd rfl hnot
  · rw [hafter] at hnot
    by_cases hrest : Blank rest
    · exact ⟨_, .here (.inl hrest)⟩
    · exact absurd (run_closed_of_not_blank hrest) hnot
  · exact ⟨_, .here (.inr hafter)⟩

/-- Up to where the calls stop, the stream has `m` in it. -/
theorem finished_iff_stops {m : Message lexer .response} {t bytes : Bytes} (hstream : bytes <+: m.bytes ++ t)
    (r : ResponseInfo) :
    Finished lexer bytes ∧ (afterReading lexer bytes).response = r ↔ ∃ rest, bytes = m.bytes ++ rest ∧
      Stops lexer m rest r := by
  constructor
  · rintro ⟨hfinished, hresponse⟩
    obtain ⟨tail, htail⟩ := hstream
    rcases List.append_eq_append_iff.mp htail with ⟨b, hm, -⟩ | ⟨rest, hbytes, -⟩
    · by_cases hb : b = []
      · subst hb
        rw [List.append_nil] at hm
        have hstop : Stops lexer m [] m.response := .here (.inl fun b hb => by cases hb)
        have heq := (finished_of_stops hstop).2
        rw [List.append_nil, hm, hresponse] at heq
        exact ⟨[], by rw [List.append_nil, hm], by rw [heq]; exact hstop⟩
      · -- the end of `m` is still to come
        by_cases hnil : bytes = []
        · rw [hnil] at hfinished
          exact absurd (going_nil lexer) hfinished.not_going
        · obtain ⟨p, out, hpart⟩ := m.partial_of_append hm hnil hb
          exact absurd (going_of_part .nil hpart) hfinished.not_going
    · subst hbytes
      obtain ⟨r', hstops⟩ := hfinished.stops
      have heq := (finished_of_stops hstops).2
      rw [hresponse] at heq
      exact ⟨rest, rfl, heq ▸ hstops⟩
  · rintro ⟨rest, rfl, hstops⟩
    exact finished_of_stops hstops

/-- It is enough that nothing but line ends follows `m` in the call that brings its last byte. -/
theorem gives_of_blank {m : Message lexer .response} {before after : List Bytes} {a w : Bytes}
    (hm : m.bytes = before.flatten ++ a)
    (ha : a ≠ []) (hw : Blank w) : Gives lexer (before ++ (a ++ w) :: after) {} m.response := by
  have hstart : ({} : HttpResponseParser τ) = (afterReading lexer []).settle.1 := rfl
  have hlast : ((before ++ (a ++ w) :: after).take (before.length + 1)).flatten = m.bytes ++ w := by
    rw [hm, List.take_append, List.take_of_length_le (by omega)]
    simp
  rw [hstart, (going_nil lexer).gives_iff]
  refine ⟨before.length + 1, ?_, ?_⟩
  · rw [List.nil_append, hlast]
    exact finished_of_stops (.here (.inl hw))
  · intro j hj hfinished
    rw [List.nil_append, List.take_append_of_le_length (by omega)] at hfinished
    have hsplit : m.bytes ++ [] = (before.take j).flatten ++ ((before.drop j).flatten ++ a) := by
      rw [List.append_nil, ← List.append_assoc, ← List.flatten_append, List.take_append_drop, hm]
    obtain ⟨rest, hbytes, -⟩ := (finished_iff_stops ⟨_, hsplit.symm⟩ _).mp ⟨hfinished, rfl⟩
    -- an earlier call ends before the last byte of `m`
    have hlen := congrArg List.length hsplit
    have hpos := List.length_pos_of_ne_nil ha
    rw [hbytes] at hlen
    simp only [List.length_append, List.length_nil] at hlen
    omega

/-- A response and more bytes, in any calls: all of them return true, and the response is that of `m`, exactly when
the first call that ends behind `m` with a complete response ends with that response. -/
theorem response_survives_cuts (m : Message lexer .response) (t : Bytes) (calls : List Bytes)
    (hcalls : calls.flatten = m.bytes ++ t) :
    Gives lexer calls {} m.response ↔
      ∃ k rest, (calls.take k).flatten = m.bytes ++ rest ∧ Stops lexer m rest m.response ∧
        ∀ j < k, ∀ rest' r, (calls.take j).flatten = m.bytes ++ rest' → ¬Stops lexer m rest' r := by
  have hstream : ∀ k, (calls.take k).flatten <+: m.bytes ++ t := by
    intro k
    refine ⟨(calls.drop k).flatten, ?_⟩
    rw [← List.flatten_append, List.take_append_drop, hcalls]
  have hstart : ({} : HttpResponseParser τ) = (afterReading lexer []).settle.1 := rfl
  rw [hstart, (going_nil lexer).gives_iff]
  simp only [List.nil_append, finished_iff_stops (hstream _)]
  constructor
  · rintro ⟨k, ⟨rest, hbytes, hstops⟩, hfirst⟩
    refine ⟨k, rest, hbytes, hstops, ?_⟩
    intro j hj rest' r hbytes' hstops'
    apply hfirst j hj
    rw [hbytes']
    exact (finished_of_stops hstops').1
  · rintro ⟨k, rest, hbytes, hstops, hfirst⟩
    refine ⟨k, ⟨rest, hbytes, hstops⟩, ?_⟩
    intro j hj hfinished
    obtain ⟨rest', hbytes', hstops'⟩ := (finished_iff_stops (hstream j) _).mp ⟨hfinished, rfl⟩
    exact hfirst j hj rest' _ hbytes' hstops'

end HttpResponseParser

end

/-! ## A page and another one behind it -/

namespace CutPage

def headText : Bytes := ascii "HTTP/1.1 200 OK\r\nContent-Length: 2\r\n\r\n"

/-- What llhttp finds in the head of the page. -/
def lexer : Lexer Tables :=
  tableLexer
    [(headText, [(.version, ascii "1.1"), (.status, ascii "OK"), (.headerField, ascii "Content-Length"),
      (.headerValue, ascii "2")], { statusCode := 200, contentLength := 2, contentLengthField := true })]
    []

/-- The page. -/
def page : Message lexer .response where
  text := headText
  texts := [(.version, ascii "1.1"), (.status, ascii "OK"), (.headerField, ascii "Content-Length"),
    (.headerValue, ascii "2")]
  info := { statusCode := 200, contentLength := 2, contentLengthField := true }
  begins := ⟨72, _, rfl, rfl⟩
  isHead := rfl
  body := ascii "hi"
  bodyOut := bodyCallbacks (ascii "hi")
  last := { statusCode := 200, contentLength := 2, contentLengthField := true }
  isBody := ⟨rfl, rfl, rfl⟩

/-- A page with the same head. -/
def nextPage : Bytes := headText ++ ascii "ho"

end CutPage

/-- Another page behind the page, in the same call: the parser goes on with it, and ends with its response. -/
theorem response_survives_cuts_false :
    [CutPage.page.bytes ++ CutPage.nextPage].flatten = CutPage.page.bytes ++ CutPage.nextPage ∧
      (HttpResponseParser.parseCalls CutPage.lexer {} [CutPage.page.bytes ++ CutPage.nextPage]).2 = true ∧
      (HttpResponseParser.parseCalls CutPage.lexer {} [CutPage.page.bytes ++ CutPage.nextPage]).1.response.body =
        ascii "ho" ∧
      ¬HttpResponseParser.Gives CutPage.lexer [CutPage.page.bytes ++ CutPage.nextPage] {} CutPage.page.response := by
  have hbody : (HttpResponseParser.parseCalls CutPage.lexer {}
      [CutPage.page.bytes ++ CutPage.nextPage]).1.response.body = ascii "ho" := by
    decide +kernel
  refine ⟨by simp, by decide +kernel, hbody, fun hgives => ?_⟩
  rw [hgives.response] at hbody
  exact absurd hbody (by decide +kernel)

/-- The page and a line end, cut between the head and the body. -/
theorem response_survives_cuts_page :
    HttpResponseParser.Gives CutPage.lexer [CutPage.headText, ascii "hi\n"] {} CutPage.page.response := by
  refine (HttpResponseParser.response_survives_cuts CutPage.page (ascii "\n") _ (by decide +kernel)).mpr
    ⟨2, ascii "\n", by decide +kernel, .here (.inl ?_), ?_⟩
  · intro b hb
    rw [List.mem_singleton.mp hb]
    decide
  · intro j hj rest r hbytes _
    -- the first call ends before the body
    have hlen := congrArg List.length hbytes
    have hshort : ([CutPage.headText, ascii "hi\n"].take j).flatten.length < CutPage.page.bytes.length := by
      have hj' : j = 0 ∨ j = 1 := by omega
      rcases hj' with rfl | rfl <;> decide +kernel
    rw [List.length_append] at hlen
    omega

end HpServer
