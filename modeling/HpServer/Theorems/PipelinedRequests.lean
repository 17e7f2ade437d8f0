import HpServer.Lemmas.ParserRuns

/-!
# The first of several requests

A client may send a request and further bytes behind it. In every round of `handle_client`, what the socket has is
read and handed to the parser in one call, and only then does `handle_client` ask whether a message is complete. A
message that begins in the same round makes the parser forget the complete one before it: the first request is seen
exactly if nothing but line ends follows it in the round that brings its last byte, or if it is repeated and the
repeated one is the first that is whole at the end of a round.
-/

namespace HpServer

open Llhttp

/-! ## Rounds -/

namespace HttpConn

variable {π : Type}

/-- A round of `handle_client` up to its question for a complete message; there is none when it answers -1. -/
def readAndParse (p : RequestParser π) (c : HttpConn π) (recvs : List RecvOutcome) : Option (HttpConn π) :=
  match c.io.readFromSocket recvs with
  | (_, .error _) => none
  | (io, .ok _) =>
    match parseAvailableData p { c with io := io } with
    | (_, false) => none
    | (c', true) => some c'

/-- The first request `handle_client` sees in some rounds, each given as what its calls of `recv` bring. -/
def firstRequest (p : RequestParser π) (c : HttpConn π) : List (List Bytes) → Option RequestInfo
  | [] => none
  | round :: rounds =>
    match c.readAndParse p (round.map .data) with
    | none => none
    | some c' => if p.isMessageComplete c'.parser then some (p.request c'.parser) else firstRequest p c' rounds

theorem readFromSocket_data {c : ConnectionIo} (hfd : 0 ≤ c.fd) {round : List Bytes}
    (hround : ∀ chunk ∈ round, chunk ≠ []) :
    ∃ total, c.readFromSocket (round.map .data) = ({ c with readBuffer := c.readBuffer ++ round.flatten },
      .ok total) := by
  have hloop : ∀ (c : ConnectionIo) (total : Nat), ∃ total',
      c.recvLoop total (round.map .data) = ({ c with readBuffer := c.readBuffer ++ round.flatten }, .ok total') := by
    induction round with
    | nil =>
      intro c total
      exact ⟨total, by simp [ConnectionIo.recvLoop]⟩
    | cons chunk round ih =>
      intro c total
      obtain ⟨total', hrest⟩ := ih (fun d hd => hround d (by simp [hd])) { c with readBuffer := c.readBuffer ++ chunk }
        (total + chunk.length)
      refine ⟨total', ?_⟩
      rw [List.map_cons, ConnectionIo.recvLoop, if_neg (hround chunk (by simp)), hrest]
      simp
  rw [ConnectionIo.readFromSocket, if_neg (by omega)]
  exact hloop c 0

end HttpConn

namespace HttpRequestParser

variable {τ : Type} (lexer : Lexer τ)

/-- The first request a parser has when it is fed with one chunk after another. -/
def observe (p : HttpRequestParser τ) : List Bytes → Option RequestInfo
  | [] => none
  | chunk :: chunks =>
    match p.parse lexer chunk with
    | (_, false) => none
    | (p', true) => if p'.isMessageComplete then some p'.request else observe p' chunks

/-- A round hands the parser what it has read. -/
theorem readAndParse_eq {c : HttpConn (HttpRequestParser τ)} (hfd : 0 ≤ c.io.fd)
    (hoffset : c.parseOffset = c.io.readBuffer.length) {round : List Bytes} (hround : ∀ chunk ∈ round, chunk ≠ []) :
    c.readAndParse (interface lexer) (round.map .data) =
      if (c.parser.parse lexer round.flatten).2 then
        some { c with
          io := { c.io with readBuffer := c.io.readBuffer ++ round.flatten }
          parser := (c.parser.parse lexer round.flatten).1
          parseOffset := (c.io.readBuffer ++ round.flatten).length }
      else none := by
  obtain ⟨total, hread⟩ := HttpConn.readFromSocket_data hfd hround
  rw [HttpConn.readAndParse, hread]
  simp only [HttpConn.parseAvailableData, hoffset, List.drop_left, List.length_append]
  by_cases herror : c.parser.hasParseError = true
  · simp [interface, parse, herror]
  · by_cases hnil : round.flatten = []
    · simp [interface, parse, herror, hnil]
    · have hpos := List.length_pos_of_ne_nil hnil
      rw [if_neg (by simp only [interface, herror, Bool.false_or, decide_eq_true_eq]; omega)]
      simp only [interface]
      cases hparse : c.parser.parse lexer round.flatten with
      | mk p' ok => cases ok <;> simp

theorem firstRequest_eq_observe {c : HttpConn (HttpRequestParser τ)} (hfd : 0 ≤ c.io.fd)
    (hoffset : c.parseOffset = c.io.readBuffer.length) {rounds : List (List Bytes)}
    (hrounds : ∀ round ∈ rounds, ∀ chunk ∈ round, chunk ≠ []) :
    c.firstRequest (interface lexer) rounds = observe lexer c.parser (rounds.map List.flatten) := by
  induction rounds generalizing c with
  | nil => rfl
  | cons round rounds ih =>
    rw [HttpConn.firstRequest, List.map_cons, observe, readAndParse_eq lexer hfd hoffset (hrounds round (by simp))]
    cases hparse : c.parser.parse lexer round.flatten with
    | mk p' ok =>
      cases ok with
      | false => simp
      | true =>
        simp only [if_true]
        by_cases hcomplete : p'.isMessageComplete = true
        · rw [if_pos hcomplete]
          exact if_pos hcomplete
        · rw [if_neg hcomplete]
          refine (if_neg hcomplete).trans (ih ?_ ?_ fun r hr => hrounds r (by simp [hr]))
          · exact hfd
          · rfl

/-- The same, in terms of all that was read. -/
theorem observe_afterReading {a : Bytes} (hok : (afterReading lexer a).settle.2 = true)
    (hcomplete : (afterReading lexer a).settle.1.isMessageComplete = false) {chunk : Bytes} (chunks : List Bytes) :
    observe lexer (afterReading lexer a).settle.1 (chunk :: chunks) =
      if (afterReading lexer (a ++ chunk)).settle.2 = false then none
      else if (afterReading lexer (a ++ chunk)).settle.1.isMessageComplete then
        some (afterReading lexer (a ++ chunk)).settle.1.request
      else observe lexer (afterReading lexer (a ++ chunk)).settle.1 chunks := by
  have hparse : parse lexer (afterReading lexer a).settle.1 chunk = (afterReading lexer (a ++ chunk)).settle := by
    by_cases hnil : chunk = []
    · -- nothing new, and nothing that `parse` would refuse
      obtain ⟨hself, -, -⟩ := settle_eq_self hok hcomplete
      rw [hnil, List.append_nil, hself, parse, if_pos (by simp), hasParseError_afterReading]
      rfl
    · exact parse_afterReading lexer hok hcomplete hnil
  rw [observe, hparse]
  cases (afterReading lexer (a ++ chunk)).settle with
  | mk p' ok => cases ok <;> simp

end HttpRequestParser

/-! ## A request and what follows it -/

/-- A message that llhttp goes on behind: it keeps the connection and is no upgrade. -/
theorem Llhttp.Message.after_eq_start {τ : Type} {lexer : Lexer τ} (m : Message lexer .request)
    (hupgrade : m.info.upgrade .request = false) (hkeep : m.last.shouldKeepAlive .request = true) : m.after = .start := by
  have hcomplete : afterMessageComplete .request m.last = (.start : Point τ) := if_pos hkeep
  unfold Message.after
  split
  · exact hcomplete
  · rename_i hpause
    simp only [Head.afterHeadersComplete, hupgrade] at hpause
    repeat' split at hpause
    all_goals simp_all
  · rw [afterBody, if_neg (by simp [hupgrade]), hcomplete]

/-- What the parser makes of a message. -/
def Llhttp.Message.request {τ : Type} {lexer : Lexer τ} (m : Message lexer .request) : RequestInfo :=
  (HttpRequestParser.collect m.callbacks : HttpRequestParser τ).request

/-- The parts of a request that the client has sent. -/
def RequestInfo.sent (r : RequestInfo) : Bytes × Bytes × Headers × Bytes := (r.method, r.url, r.headers, r.body)

/-- Behind the first `need` bytes of some chunks: the rest of the chunk in which they end, and the later chunks. -/
def behind (need : Nat) : List Bytes → Bytes × List Bytes
  | [] => ([], [])
  | chunk :: chunks => if chunk.length < need then behind (need - chunk.length) chunks else (chunk.drop need, chunks)

theorem exists_begins_of_not_blank {e : Bytes} (h : ¬Blank e) : ∃ w rest, e = w ++ rest ∧ Blank w ∧ Begins rest := by
  induction e with
  | nil => exact absurd (fun b hb => by cases hb) h
  | cons b e ih =>
    by_cases hb : isLineEnd b = true
    · have hrest : ¬Blank e := by
        intro hblank
        refine h fun c hc => ?_
        rcases List.mem_cons.mp hc with rfl | hc
        · exact hb
        · exact hblank c hc
      obtain ⟨w, rest, rfl, hw, hbegins⟩ := ih hrest
      refine ⟨b :: w, rest, rfl, fun c hc => ?_, hbegins⟩
      rcases List.mem_cons.mp hc with rfl | hc
      · exact hb
      · exact hw c hc
    · exact ⟨[], b :: e, rfl, (fun c hc => by cases hc), b, e, rfl, by simpa using hb⟩

/-- A stream that is not blank makes a message begin. -/
theorem run_begins {τ : Type} (lexer : Lexer τ) (kind : Kind) {e : Bytes} (h : ¬Blank e) :
    ∃ out, (run lexer kind .start e).2 = .messageBegin :: out := by
  obtain ⟨w, rest, rfl, hw, hbegins⟩ := exists_begins_of_not_blank h
  rw [run_append, run_blank_start lexer kind hw, run_start lexer kind hbegins]
  exact ⟨_, rfl⟩

namespace HttpRequestParser

variable {τ : Type} {lexer : Lexer τ}

/-- The parser forgets a message when another one begins. -/
theorem afterReading_forgets {m : Message lexer .request} (hafter : m.after = .start) {e : Bytes} (he : ¬Blank e) :
    afterReading lexer (m.bytes ++ e) = afterReading lexer e := by
  obtain ⟨out, hout⟩ := run_begins lexer .request he
  have hrun : run lexer .request .start (m.bytes ++ e) =
      ((run lexer .request .start e).1, m.callbacks ++ (run lexer .request .start e).2) := by
    rw [run_append, m.run, hafter]
  have hparser : (m.callbacks.foldl callback { parser := (run lexer .request .start e).1 }).parser =
      (run lexer .request .start e).1 := by
    rw [foldl_at]
  rw [afterReading, afterReading, hrun, hout, List.foldl_append, foldl_begin, hparser]

/-- Behind whole messages the last one stands. -/
theorem afterReading_endsWith {m : Message lexer .request} {bytes : Bytes} (h : EndsWith lexer m bytes) :
    (afterReading lexer bytes).settle.2 = true ∧ (afterReading lexer bytes).settle.1.isMessageComplete = true ∧
      (afterReading lexer bytes).settle.1.request = m.request := by
  obtain ⟨out, hrun⟩ := h.run
  have hstate : (collect (out ++ m.callbacks) : HttpRequestParser τ).parseState = .messageComplete := by
    rw [collect, foldl_parseState, List.foldl_append, m.foldl_after]
  have hrequest : (collect (out ++ m.callbacks) : HttpRequestParser τ).request = m.request := by
    obtain ⟨out', heq, -⟩ := m.callbacks_eq
    rw [Message.request, collect, List.foldl_append, heq, List.cons_append, foldl_begin, foldl_at]
  rw [afterReading, hrun, foldl_at]
  rcases m.after_cases with h | h | h <;> rw [h] <;> simp [settle, isMessageComplete, hstate, hrequest]

/-- In the middle of a message there is none. -/
theorem afterReading_inside {pre part : Bytes} {p : Point τ} {out out' : List Callback}
    (hpre : Between lexer .request pre out) (hpart : Partial lexer .request part p out') :
    (afterReading lexer (pre ++ part)).settle.2 = true ∧
      (afterReading lexer (pre ++ part)).settle.1.isMessageComplete = false := by
  have hrun := run_append_of lexer .request hpre.run hpart.run
  have hstate : (afterReading lexer (pre ++ part)).parseState = .reading := by
    rw [afterReading, foldl_parseState, hrun, List.foldl_append, hpart.foldl_after]
  have hpoint : (afterReading lexer (pre ++ part)).settle = (afterReading lexer (pre ++ part), true) := by
    have hparser := parser_afterReading lexer (pre ++ part)
    rw [hrun] at hparser
    rw [settle, hparser]
    cases hpart with
    | head => rfl
    | body hd hbody => cases hbody <;> rfl
  rw [hpoint]
  exact ⟨rfl, by simp [isMessageComplete, hstate]⟩

/-- A part of a message, if only nothing of it, is no complete message. -/
theorem afterReading_part {m : Message lexer .request} {a b : Bytes} (hab : m.bytes = a ++ b) (hb : b ≠ []) :
    (afterReading lexer a).settle.2 = true ∧ (afterReading lexer a).settle.1.isMessageComplete = false := by
  by_cases ha : a = []
  · subst ha
    exact ⟨rfl, rfl⟩
  · obtain ⟨p, out, hpart⟩ := m.partial_of_append hab ha hb
    exact afterReading_inside .nil hpart

/-- A parser that has a complete message has read one to its end. -/
theorem endsWith_of_complete {bytes : Bytes} (hok : (afterReading lexer bytes).settle.2 = true)
    (hcomplete : (afterReading lexer bytes).settle.1.isMessageComplete = true) :
    ∃ m : Message lexer .request, EndsWith lexer m bytes := by
  have hparser := parser_afterReading lexer bytes
  have hstate : (afterReading lexer bytes).parseState =
      (run lexer .request .start bytes).2.foldl ParseState.after .reading := by
    rw [afterReading, foldl_parseState]
  have hreads := run_reads lexer .request bytes
  generalize (run lexer .request .start bytes).1 = p at hparser hreads
  generalize (run lexer .request .start bytes).2 = out at hstate hreads
  cases hreads with
  | between hpre =>
    rcases hpre.last with ⟨-, rfl⟩ | ⟨pre', w, out', m, rfl, hpre', hw, -⟩
    · simp [settle, hparser, isMessageComplete, hstate] at hcomplete
    · exact ⟨m, pre', w, out', rfl, hpre', .inl hw⟩
  | closed m hpre _ hw => exact ⟨m, _, _, _, rfl, hpre, .inl hw⟩
  | paused m hpre hafter => exact ⟨m, _, _, _, rfl, hpre, .inr hafter⟩
  | inside hpre hpart =>
    obtain ⟨-, hincomplete⟩ := afterReading_inside hpre hpart
    rw [hcomplete] at hincomplete
    cases hincomplete
  | failed => simp [settle, hparser] at hok

/-- A parser that has no complete message has not read one to its end. -/
theorem not_endsWith_of_incomplete {bytes : Bytes}
    (hcomplete : (afterReading lexer bytes).settle.1.isMessageComplete = false) :
    ¬∃ m : Message lexer .request, EndsWith lexer m bytes := by
  rintro ⟨m, hends⟩
  rw [(afterReading_endsWith hends).2.1] at hcomplete
  cases hcomplete

/-- An error is for good: what is read to the end of a message was never malformed. -/
theorem ok_of_endsWith_append {m : Message lexer .request} {a b : Bytes} (h : EndsWith lexer m (a ++ b)) :
    (afterReading lexer a).settle.2 = true := by
  have hfailed := h.not_failed
  rw [← parser_afterReading] at hfailed
  rw [settle]
  split
  · exact absurd ‹_› hfailed
  · rfl
  · rfl

/-- What is seen first, when nothing is complete so far: the last message when for the first time a chunk ends with
whole messages. -/
theorem observe_iff {a : Bytes} (hok : (afterReading lexer a).settle.2 = true)
    (hcomplete : (afterReading lexer a).settle.1.isMessageComplete = false) (chunks : List Bytes) (r : RequestInfo) :
    observe lexer (afterReading lexer a).settle.1 chunks = some r ↔
      ∃ k, (∃ m : Message lexer .request, EndsWith lexer m (a ++ (chunks.take k).flatten) ∧ m.request = r) ∧
        ∀ j < k, ¬∃ m : Message lexer .request, EndsWith lexer m (a ++ (chunks.take j).flatten) := by
  induction chunks generalizing a with
  | nil =>
    simp only [observe, List.take_nil, List.flatten_nil, List.append_nil, reduceCtorEq, false_iff]
    rintro ⟨k, ⟨m, hends, -⟩, -⟩
    exact not_endsWith_of_incomplete hcomplete ⟨m, hends⟩
  | cons chunk chunks ih =>
    have hzero : ¬∃ m : Message lexer .request, EndsWith lexer m (a ++ ((chunk :: chunks).take 0).flatten) := by
      rw [List.take_zero, List.flatten_nil, List.append_nil]
      exact not_endsWith_of_incomplete hcomplete
    rw [observe_afterReading lexer hok hcomplete, exists_first_succ hzero fun ⟨m, hends, _⟩ => ⟨m, hends⟩]
    simp only [List.take_succ_cons, List.flatten_cons, ← List.append_assoc]
    cases hok' : (afterReading lexer (a ++ chunk)).settle.2 with
    | false =>
      simp only [if_true, reduceCtorEq, false_iff]
      rintro ⟨k, ⟨m, hends, -⟩, -⟩
      rw [ok_of_endsWith_append hends] at hok'
      cases hok'
    | true =>
      simp only [Bool.true_eq_false, if_false]
      cases hcomplete' : (afterReading lexer (a ++ chunk)).settle.1.isMessageComplete with
      | true =>
        obtain ⟨m, hends⟩ := endsWith_of_complete hok' hcomplete'
        have hrequest : ∀ m' : Message lexer .request, EndsWith lexer m' (a ++ chunk) →
            (afterReading lexer (a ++ chunk)).settle.1.request = m'.request := by
          intro m' hends'
          exact (afterReading_endsWith hends').2.2
        have hfirst : ∃ m : Message lexer .request, EndsWith lexer m (a ++ chunk ++ (chunks.take 0).flatten) := by
          rw [List.take_zero, List.flatten_nil, List.append_nil]
          exact ⟨m, hends⟩
        rw [exists_first_zero hfirst, List.take_zero, List.flatten_nil, List.append_nil, if_pos rfl, Option.some.injEq]
        constructor
        · intro hr
          exact ⟨m, hends, (hrequest m hends).symm.trans hr⟩
        · rintro ⟨m', hends', hr⟩
          exact (hrequest m' hends').trans hr
      | false =>
        simp only [Bool.false_eq_true, if_false]
        exact ih hok' hcomplete'

/-- When all of a message is read: it stands if only line ends follow in the same chunk; else the parser is where it
would be if the message had not been there. -/
theorem observe_message {m : Message lexer .request} (hafter : m.after = .start) {a b rest : Bytes}
    (hab : m.bytes = a ++ b) (hb : b ≠ []) {chunks : List Bytes} (hchunks : chunks.flatten = b ++ rest) :
    (Blank (behind b.length chunks).1 → observe lexer (afterReading lexer a).settle.1 chunks = some m.request) ∧
      (¬Blank (behind b.length chunks).1 → observe lexer (afterReading lexer a).settle.1 chunks =
        observe lexer {} ((behind b.length chunks).1 :: (behind b.length chunks).2)) := by
  induction chunks generalizing a b with
  | nil =>
    rw [List.flatten_nil, List.nil_eq, List.append_eq_nil_iff] at hchunks
    exact absurd hchunks.1 hb
  | cons chunk chunks ih =>
    obtain ⟨hok, hcomplete⟩ := afterReading_part hab hb
    rw [observe_afterReading lexer hok hcomplete, behind]
    rw [List.flatten_cons] at hchunks
    by_cases hlen : chunk.length < b.length
    · -- the message goes on in the next chunk
      rw [if_pos hlen]
      obtain ⟨b', rfl⟩ : chunk <+: b :=
        List.prefix_of_prefix_length_le (List.prefix_append _ chunks.flatten) (hchunks ▸ List.prefix_append _ _) hlen.le
      rw [List.append_assoc] at hchunks
      rw [← List.append_assoc] at hab
      have hb' : b' ≠ [] := by
        rintro rfl
        simp at hlen
      obtain ⟨hok', hcomplete'⟩ := afterReading_part hab hb'
      have hrest := ih hab hb' (List.append_cancel_left hchunks)
      simpa [hok', hcomplete'] using hrest
    · rw [if_neg hlen]
      -- the message ends in this chunk
      obtain ⟨e, rfl⟩ : b <+: chunk :=
        List.prefix_of_prefix_length_le (List.prefix_append _ rest) (hchunks ▸ List.prefix_append _ _)
          (Nat.le_of_not_lt hlen)
      rw [List.drop_left, ← List.append_assoc, ← hab]
      constructor
      · intro hblank
        have hends : EndsWith lexer m (m.bytes ++ e) := ⟨[], e, [], rfl, .nil, .inl hblank⟩
        obtain ⟨hok', hcomplete', hrequest⟩ := afterReading_endsWith hends
        simp [hok', hcomplete', hrequest]
      · intro hblank
        rw [afterReading_forgets hafter hblank]
        exact (observe_afterReading lexer (a := []) rfl rfl chunks).symm

end HttpRequestParser

/-- The message is the first that is whole at the end of a round, with only line ends behind it there, or anything
behind an upgrade. -/
def FirstWhole {τ : Type} (lexer : Lexer τ) (rounds : List Bytes) (m : Message lexer .request) : Prop :=
  ∃ k, EndsWith lexer m (rounds.take k).flatten ∧
    ∀ j < k, ∀ m' : Message lexer .request, ¬EndsWith lexer m' (rounds.take j).flatten

/-- That is what a new parser sees first. -/
theorem HttpRequestParser.observe_new_iff {τ : Type} {lexer : Lexer τ} (chunks : List Bytes) (r : RequestInfo) :
    observe lexer {} chunks = some r ↔ ∃ m : Message lexer .request, m.request = r ∧ FirstWhole lexer chunks m := by
  have hiff := @observe_iff τ lexer [] rfl rfl chunks r
  simp only [List.nil_append] at hiff
  refine hiff.trans ⟨?_, ?_⟩
  · rintro ⟨k, ⟨m, hends, hr⟩, hfirst⟩
    exact ⟨m, hr, k, hends, fun j hj m' hends' => hfirst j hj ⟨m', hends'⟩⟩
  · rintro ⟨m, hr, k, hends, hfirst⟩
    exact ⟨k, ⟨m, hends, hr⟩, fun j hj ⟨m', hends'⟩ => hfirst j hj m' hends'⟩

/-- A client sends a request that keeps the connection and is no upgrade, and any bytes behind it; they arrive in any
rounds. The first request that `handle_client` sees is that request exactly if nothing but line ends follows it in the
round that brings its last byte; or, when it is forgotten, if the same is sent again, and that is the first message
behind it that is whole at the end of a round. -/
theorem first_request_is_seen {τ : Type} (lexer : Lexer τ) (m : Message lexer .request)
    (hupgrade : m.info.upgrade .request = false) (hkeep : m.last.shouldKeepAlive .request = true) (rest : Bytes)
    (rounds : List (List Bytes)) (hrounds : ∀ round ∈ rounds, ∀ chunk ∈ round, chunk ≠ [])
    (hstream : rounds.flatten.flatten = m.bytes ++ rest) (fd : Int) (hfd : 0 ≤ fd) (id : Nat) :
    (HttpConn.firstRequest (HttpRequestParser.interface lexer) { io := { fd := fd }, parser := {}, id := id } rounds).map
        RequestInfo.sent = some m.request.sent ↔
      Blank (behind m.bytes.length (rounds.map List.flatten)).1 ∨
        ∃ m' : Message lexer .request, m'.request.sent = m.request.sent ∧
          FirstWhole lexer ((behind m.bytes.length (rounds.map List.flatten)).1 ::
            (behind m.bytes.length (rounds.map List.flatten)).2) m' := by
  have hchunks : (rounds.map List.flatten).flatten = m.bytes ++ rest := by
    rw [← hstream, List.flatten_flatten]
  rw [HttpRequestParser.firstRequest_eq_observe lexer hfd rfl hrounds]
  obtain ⟨hblank, hforgotten⟩ := HttpRequestParser.observe_message (a := []) (b := m.bytes)
    (m.after_eq_start hupgrade hkeep) (List.nil_append _).symm m.bytes_ne_nil hchunks
  by_cases h : Blank (behind m.bytes.length (rounds.map List.flatten)).1
  · rw [show HttpRequestParser.observe lexer {} (rounds.map List.flatten) = some m.request from hblank h]
    simp [h]
  · rw [show HttpRequestParser.observe lexer {} (rounds.map List.flatten) = _ from hforgotten h, or_iff_right h,
      Option.map_eq_some_iff]
    simp only [HttpRequestParser.observe_new_iff]
    constructor
    · rintro ⟨r, ⟨m', rfl, hfirst⟩, hsent⟩
      exact ⟨m', hsent, hfirst⟩
    · rintro ⟨m', hsent, hfirst⟩
      exact ⟨m'.request, ⟨m', rfl, hfirst⟩, hsent⟩

/-! ## Two requests in one round -/

namespace Pipelined

def firstText : Bytes := ascii "GET /a HTTP/1.1\r\n\r\n"

def secondText : Bytes := ascii "GET /b HTTP/1.1\r\n\r\n"

/-- What llhttp finds in two requests. -/
def lexer : Lexer Tables :=
  tableLexer
    [(firstText, [(.url, ascii "/a"), (.version, ascii "1.1")], { method := ascii "GET" }),
      (secondText, [(.url, ascii "/b"), (.version, ascii "1.1")], { method := ascii "GET" })]
    []

/-- The first of the two. -/
def first : Message lexer .request where
  text := firstText
  texts := [(.url, ascii "/a"), (.version, ascii "1.1")]
  info := { method := ascii "GET" }
  begins := ⟨71, _, rfl, rfl⟩
  isHead := rfl
  body := []
  bodyOut := []
  last := { method := ascii "GET" }
  isBody := ⟨rfl, rfl, rfl⟩

/-- The connection the requests arrive on. -/
def conn : HttpConn (HttpRequestParser Tables) := { io := { fd := 5 }, parser := {}, id := 0 }

end Pipelined

/-- Both requests arrive in one round, and the second is the first that is seen. -/
theorem first_request_is_seen_false :
    (HttpConn.firstRequest (HttpRequestParser.interface Pipelined.lexer) Pipelined.conn
        [[Pipelined.first.bytes ++ Pipelined.secondText]]).map RequestInfo.sent ≠ some Pipelined.first.request.sent := by
  intro hsame
  have hurl := congrArg (Option.map fun sent => sent.2.1) hsame
  rw [Option.map_map] at hurl
  exact absurd hurl (by decide +kernel)

/-- They arrive in a round each, and the first is seen. -/
theorem first_request_is_seen_rounds :
    (HttpConn.firstRequest (HttpRequestParser.interface Pipelined.lexer) Pipelined.conn
        [[Pipelined.first.bytes], [Pipelined.secondText]]).map RequestInfo.sent = some Pipelined.first.request.sent := by
  refine (first_request_is_seen Pipelined.lexer Pipelined.first (by decide) (by decide) Pipelined.secondText _
    (by decide) (by decide) 5
    (by decide) 0).mpr (.inl ?_)
  show ∀ b ∈ ([] : Bytes), isLineEnd b = true
  intro b hb
  cases hb

end HpServer
