import HpServer.HttpRequestParser
import HpServer.Lemmas.ForwardReading

/-!
# A forwarded request that succeeds has a complete response

`forward_request` returns true when the parser has a complete message, or when the upstream server closes the
connection and `finish` finds nothing wrong. llhttp finds nothing wrong with a stream in which no message has begun: a
connection that is closed at once counts as a response. In runs in which no connection is closed before something
other than line ends was received (`sendsSomething`), success means that a complete response was received.
-/

namespace HpServer

open Llhttp

/-! ## Runs of `forward_request` -/

namespace Forward

variable {τ : Type} {lexer : Lexer τ}

/-- The connection is not closed while only line ends were received on it. -/
def sendsSomething (s : State τ) (ans : Answer) : Bool :=
  !(decide (s.pc = .recv) && decide (ans = .zero) && s.received.all isLineEnd)

/-- What holds at each place of the function. -/
def Holds (lexer : Lexer τ) (s : State τ) : Prop :=
  match s.pc with
  | .start | .connect => s.outResponse = []
  | .send _ | .waitWritable _ => s.outResponse = [] ∧ s.received = []
  | .recv | .waitReadable => Awaits lexer s
  | .returned true => s.outResponse = s.received ∧ CompleteResponse lexer s.received
  | .returned false => True

/-- After a failure nothing was answered. -/
theorem holds_fail (s : State τ) (e : Nat) : Holds lexer (s.fail e) := by
  rw [State.fail]
  split
  · exact rfl
  · exact trivial

theorem Awaits.holds {s : State τ} (h : Awaits lexer s) (hpc : s.pc = .recv) : Holds lexer s := by
  rw [Holds, hpc]
  exact h

/-- Bytes are received: they are read with those before them. -/
theorem Awaits.data {s t : State τ} (h : Awaits lexer s) (hpc : s.pc = .recv) {bytes : Bytes}
    (hst : s.stepRecv lexer (.data bytes) = some t) : Holds lexer t := by
  by_cases hbytes : bytes ≠ [] ∧ bytes.length ≤ Tunnel.kIoBufferSize
  · rw [h.stepRecv_data hbytes] at hst
    obtain rfl := Option.some.inj hst
    split
    · exact holds_fail _ _
    · rename_i hok
      rw [Bool.not_eq_false] at hok
      split
      · rename_i hcomplete
        refine ⟨?_, HttpResponseParser.Finished.complete_response ⟨hok, hcomplete⟩⟩
        simp only [State.goto, State.gained, h.response]
      · rename_i hcomplete
        exact (h.gained ⟨hok, Bool.not_eq_true _ ▸ hcomplete⟩).holds hpc
  · rw [State.stepRecv, if_neg hbytes] at hst
    cases hst

/-- The connection is closed: what was received is complete, unless it is nothing. -/
theorem Awaits.zero {s t : State τ} (h : Awaits lexer s) (hpc : s.pc = .recv) (hsends : sendsSomething s .zero = true)
    (hst : s.stepRecv lexer .zero = some t) : Holds lexer t := by
  rw [h.stepRecv_zero] at hst
  obtain rfl := Option.some.inj hst
  split
  · rename_i hfinish
    refine ⟨h.response, (h.going.complete_response hfinish).resolve_left fun hblank => ?_⟩
    have hall : s.received.all isLineEnd = true := List.all_eq_true.mpr hblank
    simp [sendsSomething, hpc, hall] at hsends
  · exact holds_fail _ _

/-- While the request is sent, nothing was received. -/
theorem holds_stepSend {forward : Bytes} {s t : State τ} {offset : Nat} {ans : Answer} (hpc : s.pc = .send offset)
    (h : s.outResponse = [] ∧ s.received = []) (hst : s.stepSend forward offset ans = some t) : Holds lexer t := by
  unfold State.stepSend at hst
  split at hst
  · cases ans with
    | sent n =>
      simp only at hst
      split at hst
      · obtain rfl := Option.some.inj hst
        rw [State.tookBytes]
        split <;> exact h
      · cases hst
    | failed e =>
      simp only at hst
      split at hst
      · obtain rfl := Option.some.inj hst
        simpa only [Holds, State.error, hpc] using h
      · split at hst
        · obtain rfl := Option.some.inj hst
          exact h
        · obtain rfl := Option.some.inj hst
          exact holds_fail _ _
    | zero =>
      obtain rfl := Option.some.inj hst
      exact holds_fail _ _
    | _ => cases hst
  · cases ans with
    | compute =>
      obtain rfl := Option.some.inj hst
      -- a new parser, and nothing received
      have hfresh : (HttpResponseParser.afterReading lexer []).settle = ({}, true) := rfl
      refine Awaits.holds ⟨?_, ?_, ?_⟩ rfl
      · rw [h.1, h.2]
      · rw [h.2, hfresh]
      · rw [h.2]
        exact HttpResponseParser.going_nil lexer
    | _ => cases hst

/-- What a `recv` does. -/
theorem Awaits.stepRecv {s t : State τ} (h : Awaits lexer s) (hpc : s.pc = .recv) {ans : Answer}
    (hsends : sendsSomething s ans = true) (hst : s.stepRecv lexer ans.ofSocketOps = some t) : Holds lexer t := by
  cases ans with
  | data bytes => exact h.data hpc hst
  | zero => exact h.zero hpc hsends hst
  | failed e left =>
    simp only [Answer.ofSocketOps, State.stepRecv] at hst
    split at hst
    · obtain rfl := Option.some.inj hst
      have hawaits : Awaits lexer (s.error (Errno.afterSocketOps e left)) := h.same rfl rfl rfl
      exact hawaits.holds hpc
    · split at hst
      · obtain rfl := Option.some.inj hst
        exact h.same rfl rfl rfl
      · obtain rfl := Option.some.inj hst
        exact holds_fail _ _
  | _ => cases hst

/-- What waiting does. -/
theorem Awaits.stepWaitReadable {s t : State τ} (h : Awaits lexer s) {ans : Answer}
    (hst : s.stepWaitReadable ans = some t) :
    Holds lexer t := by
  cases ans with
  | ready =>
    obtain rfl := Option.some.inj hst
    exact h.same rfl rfl rfl
  | failed e =>
    rw [State.stepWaitReadable] at hst
    split at hst
    · obtain rfl := Option.some.inj hst
      exact h.same rfl rfl rfl
    · obtain rfl := Option.some.inj hst
      exact holds_fail _ _
  | _ => cases hst

/-- It is kept by every step. -/
theorem Holds.step {forward : Bytes} {s t : State τ} {ans : Answer} (h : Holds lexer s)
    (hsends : sendsSomething s ans = true) (hst : s.step lexer forward ans = some t) : Holds lexer t := by
  rw [Holds] at h
  rw [State.step] at hst
  cases hpc : s.pc with
  | start =>
    simp only [hpc] at h hst
    cases ans with
    | compute =>
      rw [State.stepStart] at hst
      split at hst
      · obtain rfl := Option.some.inj hst
        exact trivial
      · obtain rfl := Option.some.inj hst
        exact h
    | _ => cases hst
  | connect =>
    simp only [hpc] at h hst
    cases ans with
    | connected =>
      obtain rfl := Option.some.inj hst
      exact ⟨h, rfl⟩
    | failed e =>
      obtain rfl := Option.some.inj hst
      exact holds_fail _ _
    | _ => cases hst
  | send offset =>
    simp only [hpc] at h hst
    exact holds_stepSend hpc h hst
  | waitWritable offset =>
    simp only [hpc] at h hst
    cases ans with
    | ready =>
      obtain rfl := Option.some.inj hst
      exact h
    | failed e =>
      obtain rfl := Option.some.inj hst
      exact holds_fail _ _
    | _ => cases hst
  | recv =>
    simp only [hpc] at h hst
    exact h.stepRecv hpc hsends hst
  | waitReadable =>
    simp only [hpc] at h hst
    exact h.stepWaitReadable hst
  | returned ok => simp [hpc] at hst

/-- By induction it holds throughout the run. -/
theorem reachesBy_holds {req : RequestInfo} {s : State τ}
    (h : (lts lexer req).ReachesBy (fun s ans => sendsSomething s ans = true) s) : Holds lexer s := by
  refine h.invariant ?_ ?_
  · intro s hinit
    obtain rfl : s = {} := hinit
    exact rfl
  · intro s t ans _ hholds hsends hst
    exact hholds.step hsends hst

end Forward

/-- If `forward_request` returns true, its response is what was received on the last connection, and that ends with a
complete response: in every run in which no connection is closed before anything but line ends was received on it. -/
theorem forwarded_response_complete {τ : Type} (lexer : Lexer τ) (req : RequestInfo) (s : Forward.State τ)
    (h : (Forward.lts lexer req).ReachesBy (fun s ans => Forward.sendsSomething s ans = true) s)
    (hpc : s.pc = .returned true) :
    s.outResponse = s.received ∧ CompleteResponse lexer s.received := by
  have hholds := Forward.reachesBy_holds h
  simpa only [Forward.Holds, hpc] using hholds

/-! ## A connection that is closed at once -/

namespace Forward

/-- A request for `/a`. -/
def getRequest : RequestInfo := { RequestInfo.empty with method := ascii "GET", host := ascii "h", port := 80,
                                                         url := ascii "/a" }

/-- A response without a body. -/
def emptyResponse : Bytes := ascii "HTTP/1.1 204 No Content\r\n\r\n"

/-- What llhttp finds in it. -/
def emptyLexer : Lexer Tables := tableLexer
      [(emptyResponse, [(.version, ascii "1.1"), (.status, ascii "No Content")], { statusCode := 204 })] []

/-- The answers by which the request is sent. -/
def delivered : List Answer :=
  [.compute, .connected, .sent (MessageBuilder.buildForwardProxyRequest getRequest).length, .compute]

end Forward

/-- The upstream server closes the connection without a byte, and the request counts as answered. -/
theorem forwarded_response_complete_false :
    ∃ s, (Forward.lts Forward.emptyLexer Forward.getRequest).Reachable s ∧ s.pc = .returned true ∧
      ¬(s.outResponse = s.received ∧ CompleteResponse Forward.emptyLexer s.received) := by
  obtain ⟨s, hs, hp⟩ := Lts.exists_of_exec (M := Forward.lts Forward.emptyLexer Forward.getRequest)
    (List.flatten [Forward.delivered, [.zero]])
    (fun s : Forward.State Tables => decide (s.pc = .returned true ∧ s.received = [])) rfl (by decide +kernel)
  obtain ⟨hpc, hnil⟩ := of_decide_eq_true hp
  exact ⟨s, hs, hpc, fun h => h.2.ne_nil hnil⟩

/-- A response in one piece. -/
theorem forwarded_response_complete_empty :
    ∃ s, (Forward.lts Forward.emptyLexer Forward.getRequest).ReachesBy
      (fun s ans => Forward.sendsSomething s ans = true) s ∧
      s.pc = .returned true ∧ s.outResponse = s.received ∧ CompleteResponse Forward.emptyLexer s.received := by
  obtain ⟨s, hs, hp⟩ := Lts.exists_of_execBy (M := Forward.lts Forward.emptyLexer Forward.getRequest)
    (fun s ans => Forward.sendsSomething s ans = true) (List.flatten [Forward.delivered, [.data Forward.emptyResponse]])
    (fun s : Forward.State Tables => decide (s.pc = .returned true)) rfl (by decide +kernel)
  have hpc := of_decide_eq_true hp
  exact ⟨s, hs, hpc, forwarded_response_complete Forward.emptyLexer Forward.getRequest s hs hpc⟩

end HpServer
