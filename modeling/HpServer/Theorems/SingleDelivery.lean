import HpServer.HttpRequestParser
import HpServer.Lemmas.ForwardReading

/-!
# On how many connections a request is sent

`forward_request` makes a second attempt when the first one fails with `ETIMEDOUT` or `ECONNRESET`, whatever was sent
by then. A request that the upstream server has received whole is sent again when the server resets the connection or
is slow to answer. It is sent whole on one connection at most if no first attempt fails in this way once all is sent
(`answersFirst`).
-/

namespace HpServer
namespace Forward

open Errno

variable {τ : Type}

/-- A method that a server may be asked for twice. -/
def isIdempotent (method : Bytes) : Bool :=
  method = ascii "GET" || method = ascii "HEAD" || method = ascii "PUT" || method = ascii "DELETE" ||
    method = ascii "OPTIONS" ||
    method = ascii "TRACE"

/-- The connections on which all of the request was sent. -/
def deliveries (forward : Bytes) (s : State τ) : Nat := s.sent.countP fun bytes => bytes = forward

/-- While the answer to a first attempt is awaited: neither a `recv` that fails, with the `perror` behind it, nor
`wait_fd` leaves `ECONNRESET`, nor `recv` `ETIMEDOUT`; `wait_fd` times out only in the middle of a response, and not
too often; and the connection is not closed in the middle of a response. -/
def answersFirst (s : State τ) (ans : Answer) : Bool :=
  decide (s.attempt ≠ 0) ||
    match s.pc, ans with
    | .recv, .failed e left => decide (afterSocketOps e left ≠ etimedout) && decide (afterSocketOps e left ≠ econnreset)
    | .recv, .zero => s.responseParser.isMessageComplete || s.responseParser.finish.2
    | .waitReadable, .failed e _ =>
      decide (e ≠ econnreset) &&
        (decide (e ≠ etimedout) ||
          (decide (s.outResponse ≠ []) && !s.responseParser.isMessageComplete &&
            decide (s.partialReadTimeoutRetries < kMaxPartialReadTimeoutRetries)))
    | _, _ => true

/-- Of the connections, only the last one may have taken all of the request; while it is being sent, it has not. -/
def SentOnce (forward : Bytes) (s : State τ) : Prop :=
  match s.pc with
  | .start | .connect => deliveries forward s = 0
  | .send offset => ∃ others, s.sent = forward.take offset :: others ∧ offset ≤ forward.length ∧ forward ∉ others
  | .waitWritable offset => ∃ others, s.sent = forward.take offset :: others ∧ offset < forward.length ∧ forward ∉ others
  | .recv | .waitReadable | .returned _ => deliveries forward s ≤ 1

/-- None was delivered whole. -/
theorem deliveries_eq_zero {forward : Bytes} {s : State τ} : deliveries forward s = 0 ↔ forward ∉ s.sent := by
  rw [deliveries, List.countP_eq_zero]
  constructor
  · intro h hmem
    exact h forward hmem (by simp)
  · intro h bytes hbytes heq
    exact h (of_decide_eq_true heq ▸ hbytes)

/-- One connection more. -/
theorem deliveries_cons_le {forward last : Bytes} {others : List Bytes} {s : State τ} (hsent : s.sent = last :: others)
    (hothers : forward ∉ others) : deliveries forward s ≤ 1 := by
  have hzero : others.countP (fun bytes => bytes = forward) = 0 := by
    rw [List.countP_eq_zero]
    intro bytes hbytes heq
    exact hothers (of_decide_eq_true heq ▸ hbytes)
  rw [deliveries, hsent, List.countP_cons, hzero]
  split <;> omega

/-- What was sent of the request so far is not all of it. -/
theorem deliveries_take {forward : Bytes} {offset : Nat} {others : List Bytes} {s : State τ}
    (hsent : s.sent = forward.take offset :: others)
    (hoffset : offset < forward.length) (hothers : forward ∉ others) : deliveries forward s = 0 := by
  rw [deliveries_eq_zero, hsent, List.mem_cons]
  rintro (heq | hmem)
  · have hlen := congrArg List.length heq
    rw [List.length_take] at hlen
    omega
  · exact hothers hmem

/-- An attempt that fails before all is sent. -/
theorem SentOnce.fail_early {forward : Bytes} {s : State τ} (h : deliveries forward s = 0) (e : Nat) :
    SentOnce forward (s.fail e) := by
  rw [State.fail]
  split
  · exact h
  · exact Nat.le_trans (Nat.le_of_eq h) (Nat.zero_le 1)

/-- An attempt that fails later is the last one, unless it is the first and fails with an error that is retried. -/
theorem SentOnce.fail_late {forward : Bytes} {s : State τ} (h : deliveries forward s ≤ 1) {e : Nat}
    (hfirst : s.attempt = 0 → e ≠ etimedout ∧ e ≠ econnreset) : SentOnce forward (s.fail e) := by
  rw [State.fail, if_neg]
  · exact h
  · rintro ⟨hattempt, heq⟩
    obtain ⟨htimedout, hreset⟩ := hfirst hattempt
    rcases heq with heq | heq
    · exact htimedout heq
    · exact hreset heq

/-- What a `send` does. -/
theorem sentOnce_stepSend {forward : Bytes} {s t : State τ} {offset : Nat} {ans : Answer} (hpc : s.pc = .send offset)
    (h : ∃ others, s.sent = forward.take offset :: others ∧ offset ≤ forward.length ∧ forward ∉ others)
    (hst : s.stepSend forward offset ans = some t) : SentOnce forward t := by
  obtain ⟨others, hsent, hoffset, hothers⟩ := h
  unfold State.stepSend at hst
  split at hst
  · rename_i hlt
    have hearly := deliveries_take hsent hlt hothers
    cases ans with
    | sent n =>
      simp only at hst
      split at hst
      · rename_i hn
        obtain rfl := Option.some.inj hst
        refine ⟨others, ?_, hn.2, hothers⟩
        rw [State.tookBytes, hsent]
        show (forward.take offset ++ (forward.drop offset).take n) :: others = _
        rw [List.take_add]
      · cases hst
    | failed e =>
      simp only at hst
      split at hst
      · obtain rfl := Option.some.inj hst
        simp only [SentOnce, State.error, hpc]
        exact ⟨others, hsent, hoffset, hothers⟩
      · split at hst
        · obtain rfl := Option.some.inj hst
          exact ⟨others, hsent, hlt, hothers⟩
        · obtain rfl := Option.some.inj hst
          exact SentOnce.fail_early (s := s.error e) hearly e
    | zero =>
      obtain rfl := Option.some.inj hst
      exact SentOnce.fail_early hearly _
    | _ => cases hst
  · cases ans with
    | compute =>
      obtain rfl := Option.some.inj hst
      exact deliveries_cons_le hsent hothers
    | _ => cases hst

/-- What a `recv` does. -/
theorem sentOnce_stepRecv {lexer : Llhttp.Lexer τ} {forward : Bytes} {s t : State τ} {ans : Answer} (hpc : s.pc = .recv)
    (h : deliveries forward s ≤ 1) (hanswers : answersFirst s ans = true)
    (hst : s.stepRecv lexer ans.ofSocketOps = some t) :
    SentOnce forward t := by
  cases ans with
  | data bytes =>
    simp only [Answer.ofSocketOps] at hst
    rw [State.stepRecv] at hst
    split at hst
    · simp only at hst
      split at hst
      · obtain rfl := Option.some.inj hst
        refine SentOnce.fail_late ?_ ?_
        · exact h
        · intro _
          decide
      · split at hst
        · obtain rfl := Option.some.inj hst
          exact h
        · obtain rfl := Option.some.inj hst
          simp only [SentOnce, hpc]
          exact h
    · cases hst
  | zero =>
    simp only [Answer.ofSocketOps] at hst
    rw [State.stepRecv] at hst
    split at hst
    · obtain rfl := Option.some.inj hst
      exact h
    · rename_i hincomplete
      simp only at hst
      split at hst
      · obtain rfl := Option.some.inj hst
        exact h
      · rename_i hfinish
        obtain rfl := Option.some.inj hst
        refine SentOnce.fail_late ?_ ?_
        · exact h
        · intro hattempt
          have hattempt' : s.attempt = 0 := hattempt
          simp [answersFirst, hpc, hattempt', hincomplete, hfinish] at hanswers
  | failed e left =>
    simp only [Answer.ofSocketOps, State.stepRecv] at hst
    split at hst
    · obtain rfl := Option.some.inj hst
      simp only [SentOnce, State.error, hpc]
      exact h
    · split at hst
      · obtain rfl := Option.some.inj hst
        exact h
      · obtain rfl := Option.some.inj hst
        refine SentOnce.fail_late (s := s.error (afterSocketOps e left)) h fun hattempt => ?_
        have hattempt' : s.attempt = 0 := hattempt
        simpa [answersFirst, hpc, hattempt'] using hanswers
  | _ => cases hst

/-- What waiting does. -/
theorem sentOnce_stepWaitReadable {forward : Bytes} {s t : State τ} {ans : Answer} (hpc : s.pc = .waitReadable)
    (h : deliveries forward s ≤ 1) (hanswers : answersFirst s ans = true) (hst : s.stepWaitReadable ans = some t) :
    SentOnce forward t := by
  cases ans with
  | ready =>
    obtain rfl := Option.some.inj hst
    exact h
  | failed e =>
    rw [State.stepWaitReadable] at hst
    split at hst
    · obtain rfl := Option.some.inj hst
      exact h
    · rename_i hnot
      obtain rfl := Option.some.inj hst
      refine SentOnce.fail_late (s := s.error e) h fun hattempt => ?_
      have hattempt' : s.attempt = 0 := hattempt
      simp only [answersFirst, hpc, hattempt', ne_eq, not_true_eq_false, decide_false, Bool.false_or,
        Bool.and_eq_true, Bool.or_eq_true, decide_eq_true_eq, Bool.not_eq_true'] at hanswers
      obtain ⟨hreset, hborne⟩ := hanswers
      -- a timeout that is borne with does not fail the attempt
      refine ⟨fun htimedout => ?_, hreset⟩
      obtain ⟨⟨hresponse, hincomplete⟩, hretries⟩ := hborne.resolve_left fun hne => hne htimedout
      exact hnot ⟨htimedout, hresponse, hincomplete, hretries⟩
  | _ => cases hst

/-- It is kept by every step. -/
theorem SentOnce.step {lexer : Llhttp.Lexer τ} {forward : Bytes} {s t : State τ} {ans : Answer} (h : SentOnce forward s)
    (hanswers : answersFirst s ans = true) (hst : s.step lexer forward ans = some t) : SentOnce forward t := by
  rw [SentOnce] at h
  rw [State.step] at hst
  cases hpc : s.pc with
  | start =>
    simp only [hpc] at h hst
    cases ans with
    | compute =>
      rw [State.stepStart] at hst
      split at hst
      · obtain rfl := Option.some.inj hst
        exact Nat.le_trans (Nat.le_of_eq h) (Nat.zero_le 1)
      · obtain rfl := Option.some.inj hst
        exact h
    | _ => cases hst
  | connect =>
    simp only [hpc] at h hst
    cases ans with
    | connected =>
      obtain rfl := Option.some.inj hst
      exact ⟨s.sent, rfl, Nat.zero_le _, deliveries_eq_zero.mp h⟩
    | failed e =>
      obtain rfl := Option.some.inj hst
      exact SentOnce.fail_early (s := s.error e) h e
    | _ => cases hst
  | send offset =>
    simp only [hpc] at h hst
    exact sentOnce_stepSend hpc h hst
  | waitWritable offset =>
    simp only [hpc] at h hst
    obtain ⟨others, hsent, hlt, hothers⟩ := h
    cases ans with
    | ready =>
      obtain rfl := Option.some.inj hst
      exact ⟨others, hsent, Nat.le_of_lt hlt, hothers⟩
    | failed e =>
      obtain rfl := Option.some.inj hst
      exact SentOnce.fail_early (deliveries_take (s := s.error e) hsent hlt hothers) e
    | _ => cases hst
  | recv =>
    simp only [hpc] at h hst
    exact sentOnce_stepRecv hpc h hanswers hst
  | waitReadable =>
    simp only [hpc] at h hst
    exact sentOnce_stepWaitReadable hpc h hanswers hst
  | returned ok => simp [hpc] at hst

/-- So the request was delivered at most once. -/
theorem SentOnce.deliveries_le {forward : Bytes} {s : State τ} (h : SentOnce forward s) : deliveries forward s ≤ 1 := by
  rw [SentOnce] at h
  cases hpc : s.pc with
  | start | connect =>
    simp only [hpc] at h
    omega
  | send offset | waitWritable offset =>
    simp only [hpc] at h
    obtain ⟨others, hsent, -, hothers⟩ := h
    exact deliveries_cons_le hsent hothers
  | recv | waitReadable | returned ok => simpa only [hpc] using h

end Forward

/-- A call of `forward_request` sends all of the request on one connection at most, in every run in which no first
attempt that has sent it fails with `ETIMEDOUT` or `ECONNRESET`. -/
theorem request_sent_once {τ : Type} (lexer : Llhttp.Lexer τ) (req : RequestInfo) (s : Forward.State τ)
    (h : (Forward.lts lexer req).ReachesBy (fun s ans => Forward.answersFirst s ans = true) s) :
    Forward.deliveries (MessageBuilder.buildForwardProxyRequest req) s ≤ 1 := by
  have hsent : Forward.SentOnce (MessageBuilder.buildForwardProxyRequest req) s := by
    refine h.invariant ?_ ?_
    · intro s hinit
      obtain rfl : s = {} := hinit
      exact rfl
    · intro s t ans _ hs hanswers hst
      exact hs.step hanswers hst
  exact hsent.deliveries_le

/-! ## A connection that is reset -/

namespace Forward

/-- A request that is not to be made twice. -/
def postRequest : RequestInfo :=
  { RequestInfo.empty with method := ascii "POST", host := ascii "h", port := 80, url := ascii "/a" }

/-- The answers by which all of it is sent on a connection. -/
def posted : List Answer := [.connected, .sent (MessageBuilder.buildForwardProxyRequest postRequest).length, .compute]

/-- A reader that knows no text. -/
def noLexer : Llhttp.Lexer Llhttp.Tables := Llhttp.tableLexer [] []

end Forward

/-- The upstream server resets the connection when it has the request, and gets the request again. -/
theorem request_sent_once_false :
    Forward.isIdempotent Forward.postRequest.method = false ∧
      ∃ s, (Forward.lts Forward.noLexer Forward.postRequest).Reachable s ∧
      ¬Forward.deliveries (MessageBuilder.buildForwardProxyRequest Forward.postRequest) s ≤ 1 := by
  refine ⟨by decide +kernel, ?_⟩
  obtain ⟨s, hs, hp⟩ := Lts.exists_of_exec (M := Forward.lts Forward.noLexer Forward.postRequest)
    (.compute :: Forward.posted ++ .failed Errno.econnreset Errno.econnreset :: Forward.posted)
    (fun s : Forward.State Llhttp.Tables =>
      decide (¬Forward.deliveries (MessageBuilder.buildForwardProxyRequest Forward.postRequest) s ≤ 1)) rfl
        (by decide +kernel)
  exact ⟨s, hs, of_decide_eq_true hp⟩

/-- A connection that cannot be made is tried again, and the request is sent once. -/
theorem request_sent_once_retried :
    ∃ s, (Forward.lts Forward.noLexer Forward.postRequest).ReachesBy (fun s ans => Forward.answersFirst s ans = true) s ∧
      s.attempt = 1 ∧ Forward.deliveries (MessageBuilder.buildForwardProxyRequest Forward.postRequest) s ≤ 1 := by
  obtain ⟨s, hs, hp⟩ := Lts.exists_of_execBy (M := Forward.lts Forward.noLexer Forward.postRequest)
    (fun s ans => Forward.answersFirst s ans = true)
      (.compute :: .failed Errno.etimedout Errno.etimedout :: Forward.posted)
    (fun s : Forward.State Llhttp.Tables => decide (s.attempt = 1)) rfl (by decide +kernel)
  exact ⟨s, hs, of_decide_eq_true hp, request_sent_once Forward.noLexer Forward.postRequest s hs⟩

end HpServer
