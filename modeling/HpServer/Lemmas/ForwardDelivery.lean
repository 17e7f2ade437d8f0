import HpServer.Lemmas.ForwardReading

/-!
# Connections of `forward_request`

A connection on which all goes well: it is made, it takes the whole request, and it gives a stream in pieces and is
closed. Its calls may be interrupted or blocked in between. What `forward_request` makes of such a connection depends
on the pieces alone (`receive`): it returns with the first piece behind which the parser has a complete message, it
gives up at one that is malformed, and at the end of the stream it asks `finish`.
-/

namespace HpServer

open Llhttp

namespace HttpResponseParser

variable {τ : Type} {lexer : Lexer τ}

/-- What the bytes are once the connection is closed behind them: a message is complete, or the end of the stream
completes one. -/
def Done (lexer : Lexer τ) (bytes : Bytes) : Prop :=
  Finished lexer bytes ∨ Going lexer bytes ∧ (afterReading lexer bytes).settle.1.finish.2 = true

/-- Where the parser still expects bytes, `finish` decides. -/
theorem Going.done_iff {bytes : Bytes} (h : Going lexer bytes) :
    Done lexer bytes ↔ (afterReading lexer bytes).settle.1.finish.2 = true := by
  constructor
  · intro hdone
    rcases hdone with hfinished | ⟨-, hfinish⟩
    · exact absurd h hfinished.not_going
    · exact hfinish
  · intro hfinish
    exact .inr ⟨h, hfinish⟩

/-- What is done is well formed. -/
theorem Done.ok {bytes : Bytes} (h : Done lexer bytes) : (afterReading lexer bytes).settle.2 = true := by
  rcases h with h | ⟨h, -⟩
  · exact h.ok
  · exact h.ok

/-- The beginning of a message, when the connection is closed behind it. -/
theorem done_of_part {pre part : Bytes} {out out' : List Callback} {p : Point τ} (hpre : Between lexer .response pre out)
    (hpart : Partial lexer .response part p out') : Done lexer (pre ++ part) ↔ (Llhttp.finish p).1 = true := by
  have hgoing := going_of_part hpre hpart
  rw [hgoing.done_iff, hgoing.finish, run_append_of lexer .response hpre.run hpart.run]

end HttpResponseParser

namespace Forward

open Errno HttpResponseParser
open Tunnel (kIoBufferSize)

/-! ## Pieces of a stream -/

/-- What comes of the bytes of a connection. -/
inductive Outcome where
  | answered (response : Bytes)
  | malformed
  | cutOff
  deriving DecidableEq

/-- What comes of the pieces of a stream that are received one after another, behind some bytes that are incomplete. -/
def receive {τ : Type} (lexer : Lexer τ) (bytes : Bytes) : List Bytes → Outcome
  | [] => if (afterReading lexer bytes).settle.1.finish.2 then .answered bytes else .cutOff
  | piece :: pieces =>
    if (afterReading lexer (bytes ++ piece)).settle.2 = false then .malformed
    else if (afterReading lexer (bytes ++ piece)).settle.1.isMessageComplete then .answered (bytes ++ piece)
    else receive lexer (bytes ++ piece) pieces

/-- Where the pieces end, behind `offset` bytes. -/
def ends (offset : Nat) : List Bytes → List Nat
  | [] => []
  | piece :: pieces => (offset + piece.length) :: ends (offset + piece.length) pieces

section

variable {τ : Type} {lexer : Lexer τ}

/-- A piece behind which the parser expects more is followed by the next. -/
theorem receive_going {bytes piece : Bytes} (h : Going lexer (bytes ++ piece)) (pieces : List Bytes) :
    receive lexer bytes (piece :: pieces) = receive lexer (bytes ++ piece) pieces := by
  rw [receive, if_neg (by simp [h.ok]), if_neg (by simp [h.incomplete])]

/-- A piece behind which there is a complete message is the last. -/
theorem receive_finished {bytes piece : Bytes} (h : Finished lexer (bytes ++ piece)) (pieces : List Bytes) :
    receive lexer bytes (piece :: pieces) = .answered (bytes ++ piece) := by
  rw [receive, if_neg (by simp [h.ok]), if_pos h.complete]

/-- A piece that makes the stream malformed is the last. -/
theorem receive_malformed {bytes piece : Bytes} (h : (afterReading lexer (bytes ++ piece)).settle.2 = false)
    (pieces : List Bytes) :
    receive lexer bytes (piece :: pieces) = .malformed := by
  rw [receive, if_pos h]

/-- The loop ends with a piece behind which there is something complete or malformed. -/
theorem receive_stop {bytes piece response : Bytes} {pieces : List Bytes} (h : ¬Going lexer (bytes ++ piece)) :
    receive lexer bytes (piece :: pieces) = .answered response ↔ Finished lexer (bytes ++ piece) ∧
      response = bytes ++ piece := by
  cases hok : (afterReading lexer (bytes ++ piece)).settle.2 with
  | false =>
    rw [receive_malformed hok]
    constructor
    · intro heq
      cases heq
    · rintro ⟨hfinished, -⟩
      rw [hfinished.ok] at hok
      cases hok
  | true =>
    have hfinished := (going_or_finished hok).resolve_left h
    rw [receive_finished hfinished, Outcome.answered.injEq, eq_comm]
    exact ⟨fun heq => ⟨hfinished, heq⟩, fun heq => heq.2⟩

/-- A stream is cut off when it ends in the middle of a message. -/
theorem receive_cutOff {bytes : Bytes} (h : Going lexer bytes) {pieces : List Bytes}
    (hcut : receive lexer bytes pieces = .cutOff) :
    ¬Done lexer (bytes ++ pieces.flatten) := by
  induction pieces generalizing bytes with
  | nil =>
    rw [List.flatten_nil, List.append_nil, h.done_iff]
    intro hfinish
    rw [receive, if_pos hfinish] at hcut
    cases hcut
  | cons piece pieces ih =>
    cases hok : (afterReading lexer (bytes ++ piece)).settle.2 with
    | false =>
      rw [receive_malformed hok] at hcut
      cases hcut
    | true =>
      rcases going_or_finished hok with hgoing | hfinished
      · rw [receive_going hgoing] at hcut
        rw [List.flatten_cons, ← List.append_assoc]
        exact ih hgoing hcut
      · rw [receive_finished hfinished] at hcut
        cases hcut

/-- The whole stream is the answer when nothing is complete or malformed at the end of a piece before the last one,
and the message is complete when the connection is closed. -/
theorem receive_answered {bytes : Bytes} (h : Going lexer bytes) {pieces : List Bytes}
    (hpieces : ∀ piece ∈ pieces, piece ≠ []) :
    receive lexer bytes pieces = .answered (bytes ++ pieces.flatten) ↔
      (∀ n ∈ ends bytes.length pieces, n < (bytes ++ pieces.flatten).length →
        Going lexer ((bytes ++ pieces.flatten).take n)) ∧ Done lexer (bytes ++ pieces.flatten) := by
  induction pieces generalizing bytes with
  | nil => simp [receive, ends, h.done_iff]
  | cons piece pieces ih =>
    rw [List.forall_mem_cons] at hpieces
    have htake : (bytes ++ piece ++ pieces.flatten).take (bytes.length + piece.length) = bytes ++ piece := by
      rw [← List.length_append, List.take_left]
    rw [List.flatten_cons, ← List.append_assoc, ends, List.forall_mem_cons, htake]
    by_cases hgoing : Going lexer (bytes ++ piece)
    · rw [receive_going hgoing, ih hgoing hpieces.2, List.length_append]
      simp only [hgoing, implies_true, true_and]
    · -- the loop ends with this piece: the stream is the answer only if it is the last one
      rw [receive_stop hgoing]
      cases pieces with
      | nil => simp [Done, hgoing, ends]
      | cons q qs =>
        have hq : 0 < q.length := List.length_pos_iff.mpr (hpieces.2 q (by simp))
        constructor
        · rintro ⟨-, heq⟩
          have hlen := congrArg List.length heq
          simp only [List.flatten_cons, List.length_append] at hlen
          omega
        · rintro ⟨⟨hend, -⟩, -⟩
          refine absurd (hend ?_) hgoing
          simp only [List.flatten_cons, List.length_append]
          omega

end

/-! ## Connections -/

/-- A call that is interrupted, or that would block and is waited for: it is made again. -/
inductive Stall where
  | interrupted
  | blocked

/-- What the calls answer when they are held up. -/
def Stall.answers : Stall → List Answer
  | .interrupted => [.failed eintr eintr]
  | .blocked => [.failed eagain eagain, .ready]

/-- What calls that stall some times answer, up to the one that does not. -/
def stalled (stalls : List Stall) (answer : Answer) : List Answer := stalls.flatMap Stall.answers ++ [answer]

/-- How many bytes some calls send. -/
def sentLength : List (List Stall × Nat) → Nat
  | [] => 0
  | send :: sends => send.2 + sentLength sends

/-- A connection that takes the request and gives a stream. Each `send` and `recv` may stall first, and so may the
`recv` at the end of the stream. -/
structure Connection (forward stream : Bytes) where
  sends : List (List Stall × Nat)
  arrivals : List (List Stall × Bytes)
  stallsAtEnd : List Stall
  sends_pos : ∀ send ∈ sends, 0 < send.2
  sends_all : sentLength sends = forward.length
  arrivals_size : ∀ arrival ∈ arrivals, arrival.2 ≠ [] ∧ arrival.2.length ≤ kIoBufferSize
  arrivals_all : (arrivals.map Prod.snd).flatten = stream

namespace Connection

variable {forward stream : Bytes}

/-- The pieces that the stream is received in. -/
def pieces (c : Connection forward stream) : List Bytes := c.arrivals.map Prod.snd

/-- What the calls on the connection answer. -/
def answers (c : Connection forward stream) : List Answer :=
  .connected :: (c.sends.flatMap (fun send => stalled send.1 (.sent send.2)) ++
    .compute :: (c.arrivals.flatMap (fun arrival => stalled arrival.1 (.data arrival.2)) ++ stalled c.stallsAtEnd .zero))

theorem pieces_ne_nil (c : Connection forward stream) : ∀ piece ∈ c.pieces, piece ≠ [] := by
  intro piece hpiece
  obtain ⟨arrival, harrival, rfl⟩ := List.mem_map.mp hpiece
  exact (c.arrivals_size arrival harrival).1

/-- The pieces make up the stream. -/
theorem pieces_flatten (c : Connection forward stream) : c.pieces.flatten = stream := c.arrivals_all

end Connection

/-! ## What `forward_request` makes of a connection -/

section

variable {τ : Type} (lexer : Lexer τ) (req : RequestInfo)

namespace State

@[simp] theorem attempt_tookBytes (s : State τ) (bytes : Bytes) : (s.tookBytes bytes).attempt = s.attempt := by
  rw [tookBytes]
  split <;> rfl

@[simp] theorem outResponse_tookBytes (s : State τ) (bytes : Bytes) :
    (s.tookBytes bytes).outResponse = s.outResponse := by
  rw [tookBytes]
  split <;> rfl

@[simp] theorem received_tookBytes (s : State τ) (bytes : Bytes) : (s.tookBytes bytes).received = s.received := by
  rw [tookBytes]
  split <;> rfl

/-- A malformed response is not asked for again. -/
theorem pc_fail_eproto (s : State τ) : (s.fail eproto).pc = .returned false := by
  rw [fail, if_neg (by rintro ⟨-, h⟩; revert h; decide)]

/-- There are no more than two attempts. -/
theorem pc_fail_second {s : State τ} (h : s.attempt = 1) (e : Nat) : (s.fail e).pc = .returned false := by
  rw [fail, if_neg (by simp [h])]

end State

theorem step_eq (s : State τ) (ans : Answer) :
    (lts lexer req).step s ans = s.step lexer (MessageBuilder.buildForwardProxyRequest req) ans := rfl

theorem step_recv {s : State τ} (hpc : s.pc = .recv) (ans : Answer) :
    (lts lexer req).step s ans = s.stepRecv lexer ans.ofSocketOps := by
  rw [step_eq, State.step, hpc]

/-- What happens behind a connection: the function returns, or goes on with an attempt that failed. -/
def Outcome.Leads (lexer : Lexer τ) (req : RequestInfo) (attempt : Nat) (rest : List Answer) (t : State τ) :
    Outcome → Prop
  | .answered response => t.pc = .returned true ∧ t.outResponse = response
  | .malformed => t.pc = .returned false
  | .cutOff => ∃ s : State τ, s.attempt = attempt ∧ t = (lts lexer req).drive (s.fail econnreset) rest

/-- Once it has returned, nothing happens. -/
theorem drive_returned {s : State τ} {ok : Bool} (hpc : s.pc = .returned ok) (answers : List Answer) :
    (lts lexer req).drive s answers = s := by
  refine Lts.drive_of_stuck (fun ans => ?_) answers
  rw [step_eq, State.step, hpc]

/-- The function is about to call `send` or `recv`. -/
def Calling (forward : Bytes) (s : State τ) : Prop := s.pc = .recv ∨ ∃ offset < forward.length, s.pc = .send offset

/-- A call that was interrupted is made again. -/
theorem Calling.step_interrupted {s : State τ} (h : Calling (MessageBuilder.buildForwardProxyRequest req) s) :
    (lts lexer req).step s (.failed eintr eintr) = some (s.error eintr) := by
  rcases h with hpc | ⟨offset, hoffset, hpc⟩
  · rw [step_eq, State.step, hpc]
    rfl
  · rw [step_eq, State.step, hpc]
    simp only [State.stepSend, Answer.ofSocketOps, afterSocketOps_eintr, if_pos hoffset, if_true]

/-- A call that would block is made again when the socket is ready. -/
theorem Calling.drive_blocked {s : State τ} (h : Calling (MessageBuilder.buildForwardProxyRequest req) s)
    (rest : List Answer) :
    (lts lexer req).drive s (.failed eagain eagain :: .ready :: rest) = (lts lexer req).drive (s.error eagain) rest := by
  have hback : (s.error eagain).goto s.pc = s.error eagain := rfl
  rcases h with hpc | ⟨offset, hoffset, hpc⟩
  · have hwait : (lts lexer req).step s (.failed eagain eagain) = some ((s.error eagain).goto .waitReadable) := by
      rw [step_eq, State.step, hpc]
      rfl
    have hready : (lts lexer req).step ((s.error eagain).goto .waitReadable) .ready =
        some ((s.error eagain).goto .recv) := rfl
    rw [← hpc, hback] at hready
    exact (Lts.drive_cons hwait _).trans (Lts.drive_cons hready _)
  · have hwait : (lts lexer req).step s (.failed eagain eagain) =
        some ((s.error eagain).goto (.waitWritable offset)) := by
      rw [step_eq, State.step, hpc]
      simp only [State.stepSend, Answer.ofSocketOps, afterSocketOps_eagain, if_pos hoffset, if_true]
      rfl
    have hready : (lts lexer req).step ((s.error eagain).goto (.waitWritable offset)) .ready =
        some ((s.error eagain).goto (.send offset)) := rfl
    rw [← hpc, hback] at hready
    exact (Lts.drive_cons hwait _).trans (Lts.drive_cons hready _)

/-- Stalls only change `errno`. -/
theorem Calling.drive_stalled {s : State τ} (h : Calling (MessageBuilder.buildForwardProxyRequest req) s)
    (stalls : List Stall) (ans : Answer) (rest : List Answer) :
    ∃ e, (lts lexer req).drive s (stalled stalls ans ++ rest) = (lts lexer req).drive (s.error e) (ans :: rest) := by
  rw [stalled, List.append_assoc, List.singleton_append]
  induction stalls generalizing s with
  | nil => exact ⟨s.errno, rfl⟩
  | cons stall stalls ih =>
    cases stall with
    | interrupted =>
      obtain ⟨e, he⟩ := ih (s := s.error eintr) h
      exact ⟨e, (Lts.drive_cons (h.step_interrupted lexer req) _).trans he⟩
    | blocked =>
      obtain ⟨e, he⟩ := ih (s := s.error eagain) h
      exact ⟨e, (h.drive_blocked lexer req _).trans he⟩

/-- The request is sent, and the response awaited. -/
theorem drive_sends {s : State τ} {offset : Nat} (hpc : s.pc = .send offset) (hresponse : s.outResponse = [])
    (hreceived : s.received = []) {sends : List (List Stall × Nat)} (hpos : ∀ send ∈ sends, 0 < send.2)
    (hall : offset + sentLength sends = (MessageBuilder.buildForwardProxyRequest req).length) (rest : List Answer) :
    ∃ t : State τ, (lts lexer req).drive s
      (sends.flatMap (fun send => stalled send.1 (.sent send.2)) ++ .compute :: rest) =
        (lts lexer req).drive t rest ∧ Awaits lexer t ∧ t.pc = .recv ∧ t.received = [] ∧ t.attempt = s.attempt := by
  induction sends generalizing s offset with
  | nil =>
    have hstep : (lts lexer req).step s .compute =
        some { s with pc := .recv, responseParser := {}, partialReadTimeoutRetries := 0 } := by
      rw [step_eq, State.step, hpc]
      simp only [State.stepSend, Answer.ofSocketOps]
      rw [if_neg (by rw [sentLength] at hall; omega)]
    refine ⟨_, Lts.drive_cons hstep rest, ⟨?_, ?_, ?_⟩, rfl, hreceived, rfl⟩
    · rw [hresponse, hreceived]
    · rw [hreceived]
      rfl
    · rw [hreceived]
      exact going_nil lexer
  | cons send sends ih =>
    rw [List.forall_mem_cons] at hpos
    rw [sentLength] at hall
    have hlt : offset < (MessageBuilder.buildForwardProxyRequest req).length := by omega
    obtain ⟨e, he⟩ := Calling.drive_stalled lexer req (.inr ⟨offset, hlt, hpc⟩) send.1 (.sent send.2)
      (sends.flatMap (fun send => stalled send.1 (.sent send.2)) ++ .compute :: rest)
    have hstep : (lts lexer req).step (s.error e) (.sent send.2) = some (((s.error e).tookBytes
        (((MessageBuilder.buildForwardProxyRequest req).drop offset).take send.2)).goto (.send (offset + send.2))) := by
      rw [step_eq, State.step]
      simp only [State.error, hpc, State.stepSend, Answer.ofSocketOps]
      rw [if_pos hlt, if_pos ⟨hpos.1, by omega⟩]
    obtain ⟨t, ht, hawaits, hrecv, hnil, hattempt⟩ := ih (s := ((s.error e).tookBytes
      (((MessageBuilder.buildForwardProxyRequest req).drop offset).take send.2)).goto (.send (offset + send.2))) rfl
      (by simp [State.goto, State.error, hresponse]) (by simp [State.goto, State.error, hreceived]) hpos.2 (by omega)
    refine ⟨t, ?_, hawaits, hrecv, hnil, by simpa [State.goto, State.error] using hattempt⟩
    rw [List.flatMap_cons, List.append_assoc, he, Lts.drive_cons hstep, ht]

/-- The response is received. -/
theorem drive_arrivals {s : State τ} (h : Awaits lexer s) (hpc : s.pc = .recv) {arrivals : List (List Stall × Bytes)}
    (hsize : ∀ arrival ∈ arrivals, arrival.2 ≠ [] ∧ arrival.2.length ≤ kIoBufferSize) (stallsAtEnd : List Stall)
    (rest : List Answer) :
    (receive lexer s.received (arrivals.map Prod.snd)).Leads lexer req s.attempt rest ((lts lexer req).drive s
      (arrivals.flatMap (fun arrival => stalled arrival.1 (.data arrival.2)) ++
        (stalled stallsAtEnd .zero ++ rest))) := by
  induction arrivals generalizing s with
  | nil =>
    obtain ⟨e, he⟩ := Calling.drive_stalled lexer req (.inl hpc) stallsAtEnd .zero rest
    have hawaits : Awaits lexer (s.error e) := h.same rfl rfl rfl
    have hstep := (step_recv lexer req (s := s.error e) hpc .zero).trans hawaits.stepRecv_zero
    rw [List.flatMap_nil, List.nil_append, he, Lts.drive_cons hstep, List.map_nil, receive]
    have hreceived : (s.error e).received = s.received := rfl
    by_cases hfinish : (afterReading lexer s.received).settle.1.finish.2 = true
    · rw [hreceived, if_pos hfinish, if_pos hfinish, drive_returned lexer req rfl]
      exact ⟨rfl, h.response⟩
    · rw [hreceived, if_neg hfinish, if_neg hfinish]
      exact ⟨(s.error e).closed, rfl, rfl⟩
  | cons arrival arrivals ih =>
    rw [List.forall_mem_cons] at hsize
    obtain ⟨e, he⟩ := Calling.drive_stalled lexer req (.inl hpc) arrival.1 (.data arrival.2)
      (arrivals.flatMap (fun arrival => stalled arrival.1 (.data arrival.2)) ++ (stalled stallsAtEnd .zero ++ rest))
    have hawaits : Awaits lexer (s.error e) := h.same rfl rfl rfl
    have hstep := (step_recv lexer req (s := s.error e) hpc (.data arrival.2)).trans (hawaits.stepRecv_data hsize.1)
    rw [List.flatMap_cons, List.append_assoc, he, Lts.drive_cons hstep, List.map_cons, receive]
    have hreceived : (s.error e).received = s.received := rfl
    rw [hreceived]
    split
    · rw [drive_returned lexer req (State.pc_fail_eproto _)]
      exact State.pc_fail_eproto _
    · rename_i hok
      split
      · rw [drive_returned lexer req rfl]
        exact ⟨rfl, by rw [State.goto, State.gained]; exact congrArg (· ++ arrival.2) h.response⟩
      · rename_i hcomplete
        exact ih (s := (s.error e).gained lexer arrival.2)
          (hawaits.gained ⟨Bool.not_eq_false _ ▸ hok, Bool.not_eq_true _ ▸ hcomplete⟩) hpc hsize.2

/-- What comes of a connection is what comes of its pieces. -/
theorem drive_connection {s : State τ} (hpc : s.pc = .connect) (hresponse : s.outResponse = []) {stream : Bytes}
    (c : Connection (MessageBuilder.buildForwardProxyRequest req) stream) (rest : List Answer) :
    (receive lexer [] c.pieces).Leads lexer req s.attempt rest ((lts lexer req).drive s (c.answers ++ rest)) := by
  have hstep : (lts lexer req).step s .connected =
      some { s with pc := .send 0, sent := [] :: s.sent, received := [] } := by
    rw [step_eq, State.step, hpc]
    rfl
  obtain ⟨t, ht, hawaits, hrecv, hnil, hattempt⟩ := drive_sends lexer req
    (s := { s with pc := .send 0, sent := [] :: s.sent, received := [] }) rfl hresponse rfl c.sends_pos
    (by rw [Nat.zero_add, c.sends_all])
    (c.arrivals.flatMap (fun arrival => stalled arrival.1 (.data arrival.2)) ++ (stalled c.stallsAtEnd .zero ++ rest))
  have hleads := drive_arrivals lexer req hawaits hrecv c.arrivals_size c.stallsAtEnd rest
  rw [hnil, hattempt, ← ht, ← Lts.drive_cons hstep] at hleads
  simpa only [Connection.answers, Connection.pieces, List.cons_append, List.append_assoc] using hleads

/-- What `forward_request` returns when both the connections it may make give the same stream. -/
theorem drive_connections (hforward : MessageBuilder.buildForwardProxyRequest req ≠ []) {stream : Bytes}
    (first second : Connection (MessageBuilder.buildForwardProxyRequest req) stream) :
    (((lts lexer req).drive {} (.compute :: (first.answers ++ second.answers))).pc = .returned true ∧
      ((lts lexer req).drive {} (.compute :: (first.answers ++ second.answers))).outResponse = stream) ↔
      receive lexer [] first.pieces = .answered stream := by
  have hstart : (lts lexer req).step ({} : State τ) .compute = some { pc := .connect } := by
    rw [step_eq, State.step]
    simp only [State.stepStart, if_neg hforward]
    rfl
  rw [Lts.drive_cons hstart]
  have hfirst := drive_connection lexer req (s := { pc := .connect }) rfl rfl first second.answers
  cases houtcome : receive lexer [] first.pieces with
  | answered response =>
    rw [houtcome] at hfirst
    obtain ⟨hpc, hresponse⟩ := hfirst
    rw [hpc, hresponse, Outcome.answered.injEq]
    exact ⟨fun h => h.2, fun h => ⟨rfl, h⟩⟩
  | malformed =>
    rw [houtcome] at hfirst
    have hpc : _ = Pc.returned false := hfirst
    rw [hpc]
    constructor
    · rintro ⟨hpc, -⟩
      cases hpc
    · intro h
      cases h
  | cutOff =>
    rw [houtcome] at hfirst
    obtain ⟨s, hattempt, hs⟩ := hfirst
    have hretry : s.fail econnreset = { s with attempt := 1, finalErrno := econnreset, outResponse := [],
                                               pc := .connect } := by
      rw [State.fail, if_pos ⟨hattempt, .inr rfl⟩]
    have hnot := receive_cutOff (going_nil lexer) houtcome
    have hsecond := drive_connection lexer req (s := s.fail econnreset) (by rw [hretry]) (by rw [hretry]) second []
    rw [List.append_nil, ← hs] at hsecond
    rw [List.nil_append, first.pieces_flatten] at hnot
    refine iff_of_false ?_ nofun
    rintro ⟨hpc, hresponse⟩
    cases houtcome' : receive lexer [] second.pieces with
    | answered response =>
      -- the stream is not complete on the second connection either
      rw [houtcome'] at hsecond
      rw [hsecond.2] at hresponse
      have hanswered := receive_answered (going_nil lexer) second.pieces_ne_nil
      rw [List.nil_append, second.pieces_flatten, houtcome', hresponse] at hanswered
      exact hnot (hanswered.mp rfl).2
    | malformed =>
      rw [houtcome'] at hsecond
      have hfalse : _ = Pc.returned false := hsecond
      rw [hpc] at hfalse
      cases hfalse
    | cutOff =>
      rw [houtcome'] at hsecond
      obtain ⟨s', hattempt', hs'⟩ := hsecond
      rw [hs', Lts.drive, State.pc_fail_second (by rw [hattempt', hretry])] at hpc
      cases hpc

end

end Forward
end HpServer
