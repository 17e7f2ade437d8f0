import HpServer.Tunnel

/-!
# What a step of the tunnel does to its directions

`Dir.Step` lists what one step can do to a direction's buffer, flags and log. `DirOk` is what the directions keep:
what was sent, followed by what is still in the buffer, is what was received, and a half-close is the last thing that
happens in a direction. `PcOk` is what the function knows at each point of its loop.
-/

namespace HpServer
namespace Tunnel

open PollMask Errno

/-- The bytes a log has read from the source. -/
def receivedBytes : List Io → Bytes
  | [] => []
  | .recv data :: rest => data ++ receivedBytes rest
  | _ :: rest => receivedBytes rest

/-- The bytes a log has sent to the destination. -/
def sentBytes : List Io → Bytes
  | [] => []
  | .send data :: rest => data ++ sentBytes rest
  | _ :: rest => sentBytes rest

@[simp] theorem receivedBytes_append (l₁ l₂ : List Io) :
    receivedBytes (l₁ ++ l₂) = receivedBytes l₁ ++ receivedBytes l₂ := by
  induction l₁ with
  | nil => rfl
  | cons x l ih => cases x <;> simp [receivedBytes, ih]

@[simp] theorem sentBytes_append (l₁ l₂ : List Io) : sentBytes (l₁ ++ l₂) = sentBytes l₁ ++ sentBytes l₂ := by
  induction l₁ with
  | nil => rfl
  | cons x l ih => cases x <;> simp [sentBytes, ih]

/-- What one step can do to a direction. -/
inductive Dir.Step (d : Dir) : Dir → Prop where
  | same : Dir.Step d d
  | sent (n : Nat) : 0 < n → n ≤ d.unsent.length → Dir.Step d (d.sent n)
  | cleared : d.buf.length ≤ d.offset → Dir.Step d d.cleared
  | shutDown : d.shutDue = true → Dir.Step d d.shutDown
  | received (bytes : Bytes) : d.eof = false → Dir.Step d (d.received bytes)
  | ended : d.eof = false → Dir.Step d d.ended

/-- A half-close stands at the end of a log, after the end of the source, with everything received already sent. -/
def ClosesLast (log : List Io) : Prop :=
  ∀ l₁ l₂, log = l₁ ++ .shutdown :: l₂ → l₂ = [] ∧ .eof ∈ l₁ ∧ sentBytes l₁ = receivedBytes l₁

/-- What a direction keeps. -/
structure DirOk (d : Dir) : Prop where
  offset : d.offset ≤ d.buf.length
  bytes : sentBytes d.log ++ d.unsent = receivedBytes d.log
  eof : d.eof = true ↔ .eof ∈ d.log
  shut : d.shut = true ↔ .shutdown ∈ d.log
  closed : d.shut = true → d.eof = true ∧ d.buf = []
  last : ClosesLast d.log

/-- It holds of a direction at the beginning. -/
theorem dirOk_init : DirOk {} where
  offset := Nat.le_refl _
  bytes := rfl
  eof := by simp
  shut := by simp
  closed := by simp
  last := by
    intro l₁ l₂ h
    cases l₁ <;> cases h

/-- A log without a half-close may grow by anything else. -/
theorem ClosesLast.append {log : List Io} (hn : .shutdown ∉ log) {x : Io} (hx : x ≠ .shutdown) :
    ClosesLast (log ++ [x]) := by
  intro l₁ l₂ h
  have hmem : Io.shutdown ∈ log ++ [x] := h ▸ List.mem_append_right l₁ List.mem_cons_self
  rcases List.mem_append.mp hmem with hm | hm
  · exact absurd hm hn
  · exact absurd (List.mem_singleton.mp hm).symm hx

/-- A half-close after the end of the source, with everything sent, may be appended to a log without one. -/
theorem ClosesLast.shutdown {log : List Io} (hn : .shutdown ∉ log) (he : .eof ∈ log)
    (hb : sentBytes log = receivedBytes log) : ClosesLast (log ++ [.shutdown]) := by
  intro l₁ l₂ h
  rcases List.append_eq_append_iff.mp h with ⟨m, hl, hr⟩ | ⟨m, hl, hr⟩
  · cases m with
    | nil =>
      rw [List.append_nil] at hl
      rw [List.nil_append] at hr
      cases hr
      exact ⟨rfl, hl ▸ he, hl ▸ hb⟩
    | cons y m =>
      have := congrArg List.length hr
      simp at this
  · cases m with
    | nil =>
      rw [List.append_nil] at hl
      rw [List.nil_append] at hr
      cases hr
      exact ⟨rfl, hl ▸ he, hl ▸ hb⟩
    | cons y m =>
      cases hr
      exact absurd (hl ▸ List.mem_append_right l₁ List.mem_cons_self) hn

/-- Every step keeps what a direction keeps. -/
theorem Dir.Step.dirOk {d d' : Dir} (h : d.Step d') (hd : DirOk d) : DirOk d' := by
  have hopen : d.eof = false → .shutdown ∉ d.log := by
    intro he hm
    have hc := (hd.closed (hd.shut.mpr hm)).1
    rw [he] at hc
    cases hc
  cases h with
  | same => exact hd
  | sent n hn hle =>
    have hsh : d.shut = false := by
      by_contra hs
      have hb := (hd.closed (by simpa using hs)).2
      simp [Dir.unsent, hb] at hle
      omega
    have hno : Io.shutdown ∉ d.log := by
      intro hm
      rw [hd.shut.mpr hm] at hsh
      cases hsh
    have hlen : n ≤ d.buf.length - d.offset := by simpa [Dir.unsent] using hle
    have hoff := hd.offset
    refine ⟨?_, ?_, by simpa [Dir.sent] using hd.eof, by simpa [Dir.sent] using hd.shut, hd.closed,
      ClosesLast.append hno nofun⟩
    · simp only [Dir.sent]
      omega
    · have hsplit : (d.unsent.take n) ++ (d.sent n).unsent = d.unsent := by
        simp only [Dir.sent, Dir.unsent, ← List.drop_drop]
        exact List.take_append_drop n _
      simp only [Dir.sent, sentBytes_append, receivedBytes_append, sentBytes, receivedBytes, List.append_nil]
      rw [← hd.bytes, List.append_assoc]
      exact congrArg (sentBytes d.log ++ ·) hsplit
  | cleared hle =>
    have hemp : d.unsent = [] := List.drop_eq_nil_of_le hle
    refine ⟨Nat.le_refl _, ?_, hd.eof, hd.shut, fun hs => ⟨(hd.closed hs).1, rfl⟩, hd.last⟩
    have hb := hd.bytes
    rw [hemp] at hb
    exact hb
  | shutDown hdue =>
    simp only [Dir.shutDue, Bool.and_eq_true, List.isEmpty_iff, Bool.not_eq_true'] at hdue
    obtain ⟨⟨he, hbuf⟩, hs⟩ := hdue
    have hno : Io.shutdown ∉ d.log := by
      intro hm
      rw [hd.shut.mpr hm] at hs
      cases hs
    have hall : sentBytes d.log = receivedBytes d.log := by
      have hb := hd.bytes
      simpa [Dir.unsent, hbuf] using hb
    refine ⟨hd.offset, ?_, by simpa [Dir.shutDown] using hd.eof, by simp [Dir.shutDown], fun _ => ⟨he, hbuf⟩,
      ClosesLast.shutdown hno (hd.eof.mp he) hall⟩
    simpa [Dir.shutDown, Dir.unsent, sentBytes, receivedBytes] using hd.bytes
  | received bytes he =>
    have hno := hopen he
    refine ⟨?_, ?_, by simpa [Dir.received] using hd.eof, by simpa [Dir.received] using hd.shut, ?_,
      ClosesLast.append hno nofun⟩
    · have := hd.offset
      simp only [Dir.received, List.length_append]
      omega
    · simp only [Dir.received, Dir.unsent, sentBytes_append, receivedBytes_append, sentBytes, receivedBytes,
        List.append_nil, List.drop_append_of_le_length hd.offset]
      rw [← hd.bytes, Dir.unsent, List.append_assoc]
    · intro hs
      exact absurd (hd.shut.mp hs) hno
  | ended he =>
    have hno := hopen he
    refine ⟨hd.offset, ?_, by simp [Dir.ended], by simpa [Dir.ended] using hd.shut, ?_, ClosesLast.append hno nofun⟩
    · simpa [Dir.ended, Dir.unsent, sentBytes, receivedBytes] using hd.bytes
    · intro hs
      exact absurd (hd.shut.mp hs) hno

/-! ## The points of the loop -/

/-- What the function knows where it is. -/
def PcOk (s : State) : Prop :=
  match s.pc with
  | .shutdown .u2c => (s.dir .c2u).shutDue = false
  | .finish => ∀ w, (s.dir w).shutDue = false
  | .interests => ((s.dir .c2u).complete && (s.dir .u2c).complete) = false
  | .poll client upstream => client = s.clientEvents ∧ upstream = s.upstreamEvents ∧ (client ≠ 0 ∨ upstream ≠ 0)
  | .read .c2u client upstream =>
    (client &&& pollIn ≠ 0 → (s.dir .c2u).eof = false) ∧ (upstream &&& pollIn ≠ 0 → (s.dir .u2c).eof = false)
  | .read .u2c _ upstream => upstream &&& pollIn ≠ 0 → (s.dir .u2c).eof = false
  | .returned true => ∀ w, (s.dir w).complete = true ∧ (s.dir w).shutDue = false
  | _ => True

/-- A source is found readable only when it was polled for that. -/
theorem open_of_answers {d d' : Dir} {r : PollMask} (h : Answers (d.readInterest ||| d'.writeInterest) r)
    (hr : r &&& pollIn ≠ 0) : d.eof = false := by
  by_contra he
  have hread : d.readInterest = 0 := by simp [Dir.readInterest, he]
  have hmask : ~~~((d.readInterest ||| d'.writeInterest) ||| always) &&& pollIn = pollIn := by
    rw [hread]
    unfold Dir.writeInterest
    split <;> decide
  apply hr
  rw [← hmask, ← BitVec.and_assoc, h]
  exact BitVec.zero_and

/-- While a direction is not complete, something is polled for. -/
theorem events_ne_zero {s : State} (h : ((s.dir .c2u).complete && (s.dir .u2c).complete) = false) :
    ¬(s.clientEvents = 0 ∧ s.upstreamEvents = 0) := by
  unfold State.clientEvents State.upstreamEvents Dir.readInterest Dir.writeInterest
  simp only [Dir.complete] at h
  cases h1 : (s.dir .c2u).eof <;> cases h2 : (s.dir .u2c).eof <;> cases h3 : (s.dir .c2u).buf.isEmpty <;>
    cases h4 : (s.dir .u2c).buf.isEmpty <;> simp [h1, h2, h3, h4] at h ⊢ <;> decide

/-- A half-close that was due has been made. -/
theorem Dir.shutDue_shutDown (d : Dir) : d.shutDown.shutDue = false := by
  simp [Dir.shutDown, Dir.shutDue]

/-- A step that sets one direction is a step of each. -/
theorem Dir.step_setDir {s : State} {w : Way} {d : Dir} (h : (s.dir w).Step d) (v : Way) :
    (s.dir v).Step ((s.setDir w d).dir v) := by
  by_cases hv : v = w
  · subst hv
    simpa [State.setDir] using h
  · simpa [State.setDir, hv] using Dir.Step.same

/-- What a step of the relay leaves: each direction took one step, and the function knows what it should. -/
def Relayed (s s' : State) : Prop := (∀ w, (s.dir w).Step (s'.dir w)) ∧ PcOk s'

/-- Sending the 200 leaves both directions alone. -/
theorem stepSendEstablished_relayed {s s' : State} {offset : Nat} {ans : Answer}
    (h : s.stepSendEstablished offset ans = some s') (hpc : s.pc = .sendEstablished offset) : Relayed s s' := by
  unfold State.stepSendEstablished at h
  repeat' split at h
  all_goals cases h
  all_goals refine ⟨fun w => .same, ?_⟩
  all_goals simp [PcOk, State.goto, State.error, State.fail, State.loop, hpc]

/-- What `flush` does. -/
theorem stepFlush_relayed {s s' : State} {w : Way} {ans : Answer} (h : s.stepFlush w ans = some s')
    (hpc : s.pc = .flush w) : Relayed s s' := by
  unfold State.stepFlush at h
  split at h
  · split at h
    · split at h
      · rename_i n hn
        cases h
        exact ⟨Dir.step_setDir (.sent n hn.1 hn.2), by simp [PcOk, State.setDir, hpc]⟩
      · cases h
    · repeat' split at h
      all_goals cases h
      · exact ⟨fun v => .same, by simp [PcOk, State.error, hpc]⟩
      · exact ⟨fun v => .same, by cases w <;> simp [PcOk, State.error, State.goto, Pc.afterFlush]⟩
      · exact ⟨fun v => .same, by simp [PcOk, State.fail]⟩
    · cases h
      exact ⟨fun v => .same, by simp [PcOk, State.fail]⟩
    · cases h
  · rename_i hle
    split at h
    · cases h
      exact ⟨Dir.step_setDir (.cleared (Nat.not_lt.mp hle)), by cases w <;> simp [PcOk, State.goto, Pc.afterFlush]⟩
    · cases h

/-- After the half-close of both directions none is due. -/
theorem pcOk_afterShutdown {s : State} (s' : State) {w : Way} (hp : PcOk s) (hpc : s.pc = .shutdown w)
    (hw : (s'.dir w).shutDue = false) (hv : ∀ v, v ≠ w → s'.dir v = s.dir v) : PcOk (s'.goto (Pc.afterShutdown w)) := by
  cases w with
  | c2u => exact hw
  | u2c =>
    have hprev : (s.dir .c2u).shutDue = false := by simpa [PcOk, hpc] using hp
    intro v
    cases v with
    | c2u =>
      change (s'.dir .c2u).shutDue = false
      rw [hv .c2u nofun, hprev]
    | u2c => exact hw

/-- What the half-close does. -/
theorem stepShutdown_relayed {s s' : State} {w : Way} {ans : Answer} (hp : PcOk s) (h : s.stepShutdown w ans = some s')
    (hpc : s.pc = .shutdown w) : Relayed s s' := by
  unfold State.stepShutdown at h
  split at h
  · rename_i hdue
    have hshut : ((s.setDir w (s.dir w).shutDown).dir w).shutDue = false := by
      simp [State.setDir, Dir.shutDue_shutDown]
    have hothers : ∀ v, v ≠ w → (s.setDir w (s.dir w).shutDown).dir v = s.dir v := by
      intro v hv
      simp [State.setDir, hv]
    split at h
    · cases h
      exact ⟨Dir.step_setDir (.shutDown hdue), pcOk_afterShutdown _ hp hpc hshut hothers⟩
    · rename_i e
      cases h
      exact ⟨Dir.step_setDir (.shutDown hdue),
        pcOk_afterShutdown ((s.setDir w (s.dir w).shutDown).error e) hp hpc hshut hothers⟩
    · cases h
  · rename_i hdue
    split at h
    · cases h
      exact ⟨fun v => .same, pcOk_afterShutdown _ hp hpc (by simpa using hdue) fun _ _ => rfl⟩
    · cases h

/-- What the test at the end of a turn does. -/
theorem stepFinish_relayed {s s' : State} {ans : Answer} (hp : PcOk s) (h : s.stepFinish ans = some s')
    (hpc : s.pc = .finish) : Relayed s s' := by
  unfold State.stepFinish at h
  split at h
  · split at h
    · rename_i hc
      cases h
      simp only [Bool.and_eq_true] at hc
      refine ⟨fun v => .same, fun v => ?_⟩
      have hdue : ∀ v, (s.dir v).shutDue = false := by simpa [PcOk, hpc] using hp
      cases v with
      | c2u => exact ⟨hc.1, hdue .c2u⟩
      | u2c => exact ⟨hc.2, hdue .u2c⟩
    · rename_i hc
      cases h
      exact ⟨fun v => .same, eq_false_of_ne_true hc⟩
  · cases h

/-- What computing the interests does. -/
theorem stepInterests_relayed {s s' : State} {ans : Answer} (h : s.stepInterests ans = some s') : Relayed s s' := by
  unfold State.stepInterests at h
  repeat' split at h
  all_goals cases h
  · exact ⟨fun v => .same, by simp [PcOk, State.loop]⟩
  · exact ⟨fun v => .same, rfl, rfl, Decidable.not_and_iff_or_not.mp ‹_›⟩

/-- What `poll` does. -/
theorem stepPoll_relayed {s s' : State} {client upstream : PollMask} {ans : Answer} (hp : PcOk s)
    (h : s.stepPoll client upstream ans = some s') (hpc : s.pc = .poll client upstream) : Relayed s s' := by
  simp only [PcOk, hpc] at hp
  obtain ⟨rfl, rfl, -⟩ := hp
  unfold State.stepPoll at h
  split at h
  · cases h
    exact ⟨fun v => .same, by simp [PcOk, State.fail]⟩
  · split at h <;> cases h
    · exact ⟨fun v => .same, by simp [PcOk, State.loop]⟩
    · exact ⟨fun v => .same, by simp [PcOk, State.fail]⟩
  · split at h
    · rename_i hans
      obtain ⟨h0, h1, -⟩ := hans
      split at h <;> cases h
      · exact ⟨fun v => .same, by simp [PcOk, State.fail]⟩
      · exact ⟨fun v => .same, open_of_answers h0, open_of_answers h1⟩
    · cases h
  · cases h

/-- What is known behind the reading of a direction. -/
theorem pcOk_afterRead {s : State} (s' : State) {w : Way} {client upstream : PollMask} (hp : PcOk s)
    (hpc : s.pc = .read w client upstream) (hv : ∀ v, v ≠ w → s'.dir v = s.dir v) :
    PcOk (s'.afterRead w client upstream) := by
  cases w with
  | c2u =>
    have hprev := hp
    simp only [PcOk, hpc] at hprev
    simp only [State.afterRead, State.goto, PcOk]
    rw [hv .u2c nofun]
    exact hprev.2
  | u2c => trivial

/-- More bytes of a source leave open what was open. -/
theorem pcOk_received {s : State} {w : Way} {client upstream : PollMask} {bytes : Bytes} (hp : PcOk s)
    (hpc : s.pc = .read w client upstream) : PcOk (s.setDir w ((s.dir w).received bytes)) := by
  have heof : ∀ v, ((s.setDir w ((s.dir w).received bytes)).dir v).eof = (s.dir v).eof := by
    intro v
    by_cases hv : v = w
    · subst hv
      simp [State.setDir, Dir.received]
    · simp [State.setDir, hv]
  have hpc' : (s.setDir w ((s.dir w).received bytes)).pc = .read w client upstream := hpc
  cases w <;> simpa only [PcOk, hpc, hpc', heof] using hp

/-- A source that was found readable is not at its end. -/
theorem PcOk.open {s : State} {w : Way} {client upstream : PollMask} (hp : PcOk s) (hpc : s.pc = .read w client upstream)
    (hin : sourceEvents w client upstream &&& pollIn ≠ 0) : (s.dir w).eof = false := by
  cases w with
  | c2u =>
    simp only [PcOk, hpc] at hp
    exact hp.1 hin
  | u2c =>
    simp only [PcOk, hpc] at hp
    exact hp hin

/-- What reading does. -/
theorem stepRead_relayed {s s' : State} {w : Way} {client upstream : PollMask} {ans : Answer} (hp : PcOk s)
    (h : s.stepRead w client upstream ans = some s') (hpc : s.pc = .read w client upstream) : Relayed s s' := by
  unfold State.stepRead at h
  split at h
  · rename_i hin
    have hopen := hp.open hpc hin
    split at h
    · split at h <;> cases h
      exact ⟨Dir.step_setDir (.received _ hopen), pcOk_received hp hpc⟩
    · cases h
      have hothers : ∀ v, v ≠ w → (s.setDir w (s.dir w).ended).dir v = s.dir v := by
        intro v hv
        simp [State.setDir, hv]
      refine ⟨fun v => ?_, pcOk_afterRead _ hp hpc hothers⟩
      have hstep := Dir.step_setDir (.ended hopen) v
      cases w <;> exact hstep
    · rename_i e left
      repeat' split at h
      all_goals cases h
      · exact ⟨fun v => .same, hp⟩
      · refine ⟨fun v => ?_, pcOk_afterRead (s.error e) hp hpc fun _ _ => rfl⟩
        cases w <;> exact .same
      · exact ⟨fun v => .same, by simp [PcOk, State.fail]⟩
    · cases h
  · split at h
    · cases h
      refine ⟨fun v => ?_, pcOk_afterRead _ hp hpc fun _ _ => rfl⟩
      cases w <;> exact .same
    · cases h

/-- Every step does one thing to the directions, and keeps what the function knows. -/
theorem step_relayed {a : Args} {s s' : State} {ans : Answer} (hp : PcOk s) (h : s.step a ans = some s') :
    Relayed s s' := by
  unfold State.step at h
  split at h
  · unfold State.stepStart at h
    repeat' split at h
    all_goals cases h
    all_goals exact ⟨fun v => .same, by simp [PcOk, State.fail, State.goto]⟩
  · unfold State.stepConnect at h
    split at h <;> cases h
    all_goals exact ⟨fun v => .same, by simp [PcOk, State.fail, State.goto]⟩
  · exact stepSendEstablished_relayed h ‹_›
  · unfold State.stepWaitWritable at h
    split at h <;> cases h
    all_goals exact ⟨fun v => .same, by simp [PcOk, State.fail, State.goto]⟩
  · exact stepFlush_relayed h ‹_›
  · exact stepShutdown_relayed hp h ‹_›
  · exact stepFinish_relayed hp h ‹_›
  · exact stepInterests_relayed h
  · exact stepPoll_relayed hp h ‹_›
  · exact stepRead_relayed hp h ‹_›
  · cases h

/-! ## The number of polls -/

/-- The parts of a run: before the loop, in an iteration before its poll, in one after it, and after the return. -/
inductive Phase where
  | before
  | early
  | late
  | over
  deriving DecidableEq

/-- The part of the run a program point is in. -/
def Pc.phase : Pc → Phase
  | .start | .connect | .sendEstablished _ | .waitWritable _ => .before
  | .flush _ | .shutdown _ | .finish | .interests => .early
  | .poll _ _ | .read _ _ _ => .late
  | .returned _ => .over

theorem Pc.phase_afterFlush (w : Way) : (Pc.afterFlush w).phase = .early := by cases w <;> rfl

theorem Pc.phase_afterShutdown (w : Way) : (Pc.afterShutdown w).phase = .early := by cases w <;> rfl

/-- What a step does to the part of the run it is in and to the records of iterations and polls. -/
inductive Turn (s s' : State) : Prop where
  | stay : s'.pc.phase = s.pc.phase → s'.iterations = s.iterations → s'.polls = s.polls → Turn s s'
  | loop : s.pc.phase = .before ∨ s.pc.phase = .late → s'.pc = .flush .c2u → s'.iterations = s.iterations + 1 →
      s'.polls = s.polls → Turn s s'
  | poll : s.pc.phase = .early → s'.pc.phase = .late → s'.iterations = s.iterations →
      s'.polls = s.polls ++ [(s.clientEvents, s.upstreamEvents)] → s.clientEvents ≠ 0 ∨ s.upstreamEvents ≠ 0 → Turn s s'
  | exit : s.pc.phase ≠ .over → s'.pc.phase = .over → s'.iterations = s.iterations → s'.polls = s.polls → Turn s s'

/-- How a step counts towards the turns of the loop. -/
theorem step_turn {a : Args} {s s' : State} {ans : Answer} (hp : PcOk s) (h : s.step a ans = some s') : Turn s s' := by
  unfold State.step at h
  split at h
  all_goals rename_i hpc
  · unfold State.stepStart at h
    repeat' split at h
    all_goals cases h
    · exact .exit (by rw [hpc]; decide) rfl rfl rfl
    · exact .stay (by rw [hpc]; rfl) rfl rfl
  · unfold State.stepConnect at h
    split at h <;> cases h
    · exact .stay (by rw [hpc]; rfl) rfl rfl
    · exact .exit (by rw [hpc]; decide) rfl rfl rfl
  · unfold State.stepSendEstablished at h
    repeat' split at h
    all_goals cases h
    · exact .stay (by rw [hpc]; rfl) rfl rfl
    · exact .stay rfl rfl rfl
    · exact .stay (by rw [hpc]; rfl) rfl rfl
    · exact .exit (by rw [hpc]; nofun) rfl rfl rfl
    · exact .exit (by rw [hpc]; nofun) rfl rfl rfl
    · exact .loop (by rw [hpc]; exact .inl rfl) rfl rfl rfl
  · unfold State.stepWaitWritable at h
    split at h <;> cases h
    · exact .stay (by rw [hpc]; rfl) rfl rfl
    · exact .exit (by rw [hpc]; nofun) rfl rfl rfl
  · unfold State.stepFlush at h
    repeat' split at h
    all_goals cases h
    · exact .stay rfl rfl rfl
    · exact .stay rfl rfl rfl
    · exact .stay (by rw [hpc]; exact Pc.phase_afterFlush _) rfl rfl
    · exact .exit (by rw [hpc]; nofun) rfl rfl rfl
    · exact .exit (by rw [hpc]; nofun) rfl rfl rfl
    · exact .stay (by rw [hpc]; exact Pc.phase_afterFlush _) rfl rfl
  · unfold State.stepShutdown at h
    repeat' split at h
    all_goals cases h
    all_goals exact .stay (by rw [hpc]; exact Pc.phase_afterShutdown _) rfl rfl
  · unfold State.stepFinish at h
    repeat' split at h
    all_goals cases h
    · exact .exit (by rw [hpc]; decide) rfl rfl rfl
    · exact .stay (by rw [hpc]; rfl) rfl rfl
  · have hev : ¬(s.clientEvents = 0 ∧ s.upstreamEvents = 0) := by
      simp only [PcOk, hpc] at hp
      exact events_ne_zero hp
    unfold State.stepInterests at h
    repeat' split at h
    all_goals cases h
    · exact absurd ‹_› hev
    · exact .poll (by rw [hpc]; rfl) rfl rfl rfl (Decidable.not_and_iff_or_not.mp hev)
  · unfold State.stepPoll at h
    repeat' split at h
    all_goals cases h
    · exact .exit (by rw [hpc]; nofun) rfl rfl rfl
    · exact .loop (by rw [hpc]; exact .inr rfl) rfl rfl rfl
    · exact .exit (by rw [hpc]; nofun) rfl rfl rfl
    · exact .exit (by rw [hpc]; nofun) rfl rfl rfl
    · exact .stay (by rw [hpc]; rfl) rfl rfl
  · rename_i w client upstream
    have hafter : ∀ t : State, t.iterations = s.iterations → t.polls = s.polls →
        Turn s (t.afterRead w client upstream) := by
      intro t hi hq
      cases w with
      | c2u => exact .stay (by rw [hpc]; rfl) hi hq
      | u2c => exact .loop (by rw [hpc]; exact .inr rfl) rfl (congrArg (· + 1) hi) hq
    unfold State.stepRead at h
    repeat' split at h
    all_goals cases h
    · exact .stay rfl rfl rfl
    · exact hafter _ rfl rfl
    · exact .stay rfl rfl rfl
    · exact hafter _ rfl rfl
    · exact .exit (by rw [hpc]; nofun) rfl rfl rfl
    · exact hafter _ rfl rfl
  · cases h

/-- Every iteration but the one that is going on has polled once, for something. -/
structure PollsOk (s : State) : Prop where
  asked : ∀ p ∈ s.polls, p.1 ≠ 0 ∨ p.2 ≠ 0
  counted : match s.pc.phase with
    | .before => s.iterations = 0 ∧ s.polls = []
    | .early => s.iterations = s.polls.length + 1
    | .late => s.iterations = s.polls.length
    | .over => s.polls.length ≤ s.iterations ∧ s.iterations ≤ s.polls.length + 1

/-- It is kept by every step. -/
theorem Turn.pollsOk {s s' : State} (h : Turn s s') (hk : PollsOk s) : PollsOk s' := by
  obtain ⟨hasked, hcount⟩ := hk
  cases h with
  | stay hph hi hq =>
    refine ⟨by rw [hq]; exact hasked, ?_⟩
    rw [hph, hi, hq]
    exact hcount
  | loop hph hpc hi hq =>
    refine ⟨by rw [hq]; exact hasked, ?_⟩
    rw [hpc, hi, hq]
    change s.iterations + 1 = s.polls.length + 1
    rcases hph with hph | hph <;> rw [hph] at hcount
    · rw [hcount.1, hcount.2]
      rfl
    · exact congrArg (· + 1) hcount
  | poll hph hph' hi hq hne =>
    refine ⟨?_, ?_⟩
    · rw [hq]
      intro p hp
      rcases List.mem_append.mp hp with hp | hp
      · exact hasked p hp
      · rw [List.mem_singleton.mp hp]
        exact hne
    · rw [hph']
      rw [hph] at hcount
      rw [hi, hq, List.length_append]
      exact hcount
  | exit hne hph hi hq =>
    refine ⟨by rw [hq]; exact hasked, ?_⟩
    rw [hph, hi, hq]
    cases hs : s.pc.phase <;> rw [hs] at hcount
    · rw [hcount.1, hcount.2]
      exact ⟨Nat.le_refl _, Nat.zero_le _⟩
    · exact ⟨by omega, by omega⟩
    · exact ⟨by omega, by omega⟩
    · exact absurd hs hne

/-! ## Runs -/

/-- The invariant of the tunnel. -/
structure TunnelOk (s : State) : Prop where
  dirs : ∀ w, DirOk (s.dir w)
  pc : PcOk s
  polls : PollsOk s

/-- It holds at the beginning. -/
theorem tunnelOk_init (errno : Nat) : TunnelOk (initState errno) where
  dirs := fun _ => dirOk_init
  pc := trivial
  polls := ⟨nofun, rfl, rfl⟩

/-- All of it is kept by every step. -/
theorem step_tunnelOk {a : Args} {s s' : State} {ans : Answer} (ho : TunnelOk s)
    (h : (system a).step s ans = some s') : TunnelOk s' := by
  change s.step a ans = some s' at h
  obtain ⟨hdirs, hpc⟩ := step_relayed ho.pc h
  exact ⟨fun w => (hdirs w).dirOk (ho.dirs w), hpc, (step_turn ho.pc h).pollsOk ho.polls⟩

/-- By induction it holds in every state. -/
theorem reachable_tunnelOk {a : Args} {s : State} (h : (system a).Reachable s) : TunnelOk s := by
  refine h.invariant ?_ fun s t ans _ ho hs => step_tunnelOk ho hs
  rintro s ⟨errno, rfl⟩
  exact tunnelOk_init errno

end Tunnel
end HpServer
