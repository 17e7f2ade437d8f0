import HpServer.Lemmas.LoggerMoves

/-!
# No line of the log is lost

Every line that the buffer has taken is written, in order and once, or is still in the buffer or in the writer's hands
(`Ledger`). The writer leaves its loop only if it has seen `running` cleared and then the buffer empty, so that
nothing that was accepted before the destructor cleared the flag is left behind. And the destructor never waits in
vain: from any state in which it waits in `join`, the writer's thread alone, whatever the threads that log are in the
middle of, comes to the end of its loop.

While the logger is in use a line may lie in the buffer with the writer asleep and nobody about to wake it:
`write_log` does not hold `mtx`, and its notification may come between the writer's look into the buffer and its
sleep.
-/

namespace HpServer
namespace Logger

open RingThreads (Pc answerEmpty)

variable {T α : Type} [DecidableEq T] [Inhabited α] {moved : α → α} {bufferSize : Nat}

/-! ## The lines -/

/-- The line that the writer writes next. -/
def WriterPc.line : WriterPc α → List α
  | .write line => [line]
  | _ => []

/-- The line that a `pop` has taken out and not returned yet. -/
def held : Pc α → List α
  | .popUnlock (some line) => [line]
  | _ => []

/-- The lines on their way from the buffer to the log. -/
def State.inHand (s : State T α) : List α := s.writer.line ++ held (s.ring.pc none)

/-- Every accepted line is written, on its way or in the buffer, and in this order. -/
def Ledger (s : State T α) : Prop := s.written ++ s.inHand ++ s.ring.shared.items = s.accepted

omit [DecidableEq T] in
/-- A `push` adds the line that it stores. -/
theorem items_of_push {t : T} {sh sh' : RingThreads.Shared T α} {p p' : Pc α} {line : α}
    (h : RingThreads.Move moved t sh p sh' p') (hp : serves (.push line) p = true) :
    sh'.items = sh.items ++ stored p := by
  cases h <;> first | rfl | exact (List.append_nil _).symm | cases hp

omit [DecidableEq T] in
/-- What the writer does in the buffer takes no line away but the one it has then in hand. -/
theorem items_of_writer {t : T} {sh sh' : RingThreads.Shared T α} {p p' : Pc α} {op : RingThreads.Op α}
    (h : RingThreads.Move moved t sh p sh' p')
    (hseen : p.Seen bufferSize sh) (hpush : ∀ line, op ≠ .push line) (hfirst : p = .idle → p' = .start op)
    (hp : serves op p = true)
    (hlast : ∀ item, p ≠ .popUnlock item) : held p = [] ∧ held p' ++ sh'.items = sh.items := by
  cases h with
  | call op' =>
    rw [hfirst rfl]
    cases op <;> exact ⟨rfl, rfl⟩
  | popStore currentHead item =>
    obtain ⟨-, hitem⟩ := hseen
    refine ⟨rfl, ?_⟩
    cases hitems : sh.items with
    | nil => simp [hitems] at hitem
    | cons first rest =>
      rw [hitems, List.head?_cons, Option.some.injEq] at hitem
      rw [hitem]
      rfl
  | popUnlock item => exact absurd rfl (hlast item)
  | store item nextTail =>
    cases op with
    | push line => exact absurd rfl (hpush line)
    | _ => cases hp
  | _ => exact ⟨rfl, rfl⟩

omit [Inhabited α] in
theorem WriterPc.line_wake (w : WriterPc α) : w.wake.line = w.line := by
  cases w <;> rfl

omit [DecidableEq T] [Inhabited α] in
/-- A writer that makes no call has nothing in hand but the line it writes. -/
theorem held_of_calls {s : State T α} (hp : Paired s) (h : s.writer.calls = none) : held (s.ring.pc none) = [] := by
  have hidle := hp.writer
  rw [h] at hidle
  rw [show s.ring.pc none = .idle from hidle]
  rfl

omit [Inhabited α] in
theorem WriterPc.line_of_calls {w : WriterPc α} {op : RingThreads.Op α} (h : w.calls = some op) : w.line = [] := by
  cases w <;> first | rfl | cases h

/-- No line is lost or doubled by a move. -/
theorem Move.ledger {s s' : State T α} (h : Move moved s s') (hp : Paired s)
    (hsound : RingThreads.Sound bufferSize s.ring) (hl : Ledger s) : Ledger s' := by
  unfold Ledger State.inHand at hl ⊢
  cases h with
  | @pushing t line sh' p' hline hmove _ _ =>
    have hwithin := hp.logging t
    rw [hline] at hwithin
    have hitems := items_of_push hmove hwithin
    rw [RingThreads.State.move_pc_of_ne _ (Option.some_ne_none t).symm]
    change s.written ++ (s.writer.line ++ held (s.ring.pc none)) ++ sh'.items = s.accepted ++ stored (s.ring.pc (some t))
    rw [hitems, ← List.append_assoc, hl]
  | @pushReturns t line ok _ _ =>
    rw [RingThreads.State.move_pc_of_ne _ (Option.some_ne_none t).symm]
    exact hl
  | @within op sh' p' hop hmove hfirst _ hlast =>
    have hwithin := hp.writer
    rw [hop] at hwithin
    have hpush : ∀ line, op ≠ .push line := by
      rintro line rfl
      cases hw : s.writer <;> rw [hw] at hop <;> cases hop
    have hnotLast : ∀ item, s.ring.pc none ≠ .popUnlock item := by
      intro item hpc
      rw [hpc] at hwithin
      cases op <;> first | exact hlast rfl item hpc | cases hwithin
    obtain ⟨hheld, hitems⟩ := items_of_writer hmove (hsound.seen none) hpush hfirst hwithin hnotLast
    rw [WriterPc.line_of_calls hop, hheld, List.nil_append, List.append_nil] at hl
    rw [RingThreads.State.move_pc_self, WriterPc.line_of_calls hop, List.nil_append]
    change s.written ++ held p' ++ sh'.items = s.accepted
    rw [List.append_assoc, hitems, hl]
  | @popReturns item hw hpc =>
    rw [hw, hpc] at hl
    rw [RingThreads.State.move_pc_self]
    cases item with
    | none => exact hl
    | some line => exact hl
  | loopAnswer hw hpc | predAnswer hw hpc =>
    rw [hw, hpc] at hl
    rw [RingThreads.State.move_pc_self]
    split <;> exact hl
  | write hw =>
    rw [hw, held_of_calls hp (by rw [hw]; rfl)] at hl
    rw [held_of_calls hp (by rw [hw]; rfl)]
    simpa [WriterPc.line] using hl
  | loadRunning hw | predRunning hw =>
    rw [hw] at hl
    split <;> exact hl
  | lock hw _ | sleep hw | spurious hw | wake hw _ | unlock hw =>
    rw [hw] at hl
    exact hl
  | notify _ | notifyAll _ =>
    rw [WriterPc.line_wake]
    exact hl
  | log _ _ | destroy _ | stopLock _ _ | clear _ | stopUnlock _ | join _ _ => exact hl

/-- By induction the lines are kept throughout. -/
theorem reachable_ledger {s : State T α} (hsize : bufferSize + 1 < UInt64.size)
    (h : (system T moved bufferSize).Reachable s) : Ledger s := by
  refine h.invariant ?_ ?_
  · rintro s rfl
    rfl
  · intro s s' a hr hs hstep
    exact (step_move hstep).2.ledger (reachable_paired hr) (RingThreads.reachable_sound hsize (reachable_ring hr)) hs

/-! ## The end of the loop -/

omit [DecidableEq T] in
/-- Only a thread inside `pop` moves `head_`. -/
theorem head_of_move {t : T} {sh sh' : RingThreads.Shared T α} {p p' : Pc α} (h : RingThreads.Move moved t sh p sh' p')
    (hp : p.holdsHead = false) : sh'.ring.head = sh.ring.head := by
  cases h <;> first | rfl | cases hp

omit [Inhabited α] in
theorem LogPc.holdsHead_of_within {l : LogPc α} {p : Pc α} (h : Within l.calls p) : p.holdsHead = false := by
  cases l with
  | push line => cases p <;> first | rfl | cases h
  | _ => rw [show p = .idle from h]; rfl

/-- Only the writer moves `head_`: what it has loaded is what is there. -/
theorem reachable_head {s : State T α} (h : (system T moved bufferSize).Reachable s) :
    ∀ head, s.ring.pc none = .emptyTail head → head = s.ring.shared.ring.head := by
  refine h.invariant (I := fun s => ∀ head, s.ring.pc none = .emptyTail head → head = s.ring.shared.ring.head) ?_ ?_
  · rintro s rfl head hpc
    cases hpc
  · intro s s' a hr hs hstep head hpc
    have hp := reachable_paired hr
    rcases (step_move hstep).2.ring with heq | ⟨t, p', sh', hmove, heq⟩
    · rw [heq] at hpc ⊢
      exact hs head hpc
    · rw [heq] at hpc ⊢
      cases t with
      | none =>
        rw [RingThreads.State.move_pc_self] at hpc
        generalize s.ring.pc none = p at hmove
        change p' = .emptyTail head at hpc
        cases hmove with
        | call op => cases op <;> cases hpc
        | emptyHead =>
          cases hpc
          rfl
        | _ => cases hpc
      | some u =>
        rw [RingThreads.State.move_pc_of_ne _ (Option.some_ne_none u).symm] at hpc
        have hhead := head_of_move hmove (LogPc.holdsHead_of_within (hp.logging u))
        rw [hs head hpc]
        exact hhead.symm

/-- What the writer has seen when it leaves: all that the buffer had taken is written. -/
structure Drained (s : State T α) : Prop where
  cleared : s.stopper.cleared = true → s.acceptedAtStop.isSome
  before : ∀ before, s.acceptedAtStop = some before → before <+: s.accepted
  exited : s.writer = .exited → ∃ before, s.acceptedAtStop = some before ∧ before <+: s.written

/-- The buffer takes lines and gives none back. -/
theorem Move.accepted {s s' : State T α} (h : Move moved s s') : s.accepted <+: s'.accepted := by
  cases h with
  | pushing _ _ _ _ => exact List.prefix_append _ _
  | _ => exact List.prefix_refl _

/-- The writer leaves where `empty` has answered that nothing is there. -/
theorem Move.exited {s s' : State T α} (h : Move moved s s') (hexit : s'.writer = .exited) :
    s.writer = .exited ∧ s'.written = s.written ∨
      ∃ head, s.writer = .loopEmpty ∧ s.ring.pc none = .emptyTail head ∧ answerEmpty s.ring.shared.ring head = true ∧
        s'.written = s.written := by
  have hwake : s.writer.wake = .exited → s.writer = .exited := by
    intro hw
    cases hpc : s.writer <;> rw [hpc] at hw <;> first | rfl | cases hw
  cases h with
  | notify _ | notifyAll _ => exact .inl ⟨hwake hexit, rfl⟩
  | @loopAnswer head hw hpc =>
    cases hanswer : answerEmpty s.ring.shared.ring head with
    | true => exact .inr ⟨head, hw, hpc, hanswer, rfl⟩
    | false =>
      simp only [hanswer] at hexit
      cases hexit
  | predAnswer hw hpc =>
    simp only at hexit
    split at hexit <;> cases hexit
  | loadRunning hw | predRunning hw =>
    simp only at hexit
    split at hexit <;> cases hexit
  | @popReturns item hw hpc => cases item <;> cases hexit
  | log _ _ | pushing _ _ _ _ | pushReturns _ _ | within _ _ _ _ _ => exact .inl ⟨hexit, rfl⟩
  | destroy _ | stopLock _ _ | clear _ | stopUnlock _ | join _ _ => exact .inl ⟨hexit, rfl⟩
  | lock _ _ | sleep _ | spurious _ | wake _ _ | write _ | unlock _ => cases hexit

/-- What was accepted at the stop is noted once, when `running` is cleared. -/
theorem Move.acceptedAtStop {s s' : State T α} (h : Move moved s s') :
    s'.acceptedAtStop = s.acceptedAtStop ∧ (s'.stopper.cleared = true → s.stopper.cleared = true) ∨
      s.stopper = .clear ∧ s'.acceptedAtStop = some s.accepted ∧ s'.accepted = s.accepted ∧ s'.writer = s.writer := by
  cases h with
  | clear hs => exact .inr ⟨hs, rfl, rfl, rfl⟩
  | destroy hs | stopLock hs _ => exact .inl ⟨rfl, fun h => by cases h⟩
  | stopUnlock hs | notifyAll hs | join hs _ => exact .inl ⟨rfl, fun _ => by rw [hs]; rfl⟩
  | _ => exact .inl ⟨rfl, id⟩

/-- By induction it holds in every state. -/
theorem reachable_drained {s : State T α} (hsize : bufferSize + 1 < UInt64.size)
    (h : (system T moved bufferSize).Reachable s) :
    Drained s := by
  refine h.invariant ?_ ?_
  · rintro s rfl
    refine ⟨?_, ?_, ?_⟩
    · intro hcleared
      cases hcleared
    · intro before hbefore
      cases hbefore
    · intro hexit
      cases hexit
  · intro s s' a hr hs hstep
    have hmove := (step_move hstep).2
    have hcontrol := reachable_control hr
    rcases hmove.acceptedAtStop with ⟨hsame, hback⟩ | ⟨hclear, hnow, haccepted, hwriter⟩
    · refine ⟨fun hc => ?_, fun before hb => ?_, fun hexit => ?_⟩
      · rw [hsame]
        exact hs.cleared (hback hc)
      · exact (hs.before before (hsame.symm.trans hb)).trans hmove.accepted
      · rcases hmove.exited hexit with ⟨hw, hwritten⟩ | ⟨head, hw, hpc, hanswer, hwritten⟩
        · rw [hsame, hwritten]
          exact hs.exited hw
        · -- the buffer is empty, so that what was accepted is what was written
          have hcleared := hcontrol.leaving (by rw [hw]; rfl)
          obtain ⟨before, hbefore⟩ := Option.isSome_iff_exists.mp (hs.cleared hcleared)
          have hempty : s.ring.shared.items = [] := by
            rw [reachable_head hr head hpc] at hanswer
            exact (RingThreads.reachable_sound hsize (reachable_ring hr)).kept.answerEmpty_iff.mp hanswer
          have hledger := reachable_ledger hsize hr
          rw [Ledger, State.inHand, hw, hpc, hempty] at hledger
          have hall : s.written = s.accepted := by simpa [WriterPc.line, held] using hledger
          refine ⟨before, hsame.trans hbefore, ?_⟩
          rw [hwritten, hall]
          exact hs.before before hbefore
    · refine ⟨fun _ => by rw [hnow]; rfl, fun before hb => ?_, fun hexit => ?_⟩
      · rw [hnow, Option.some.injEq] at hb
        rw [← hb, haccepted]
      · have hcleared := hcontrol.leaving (by rw [← hwriter, hexit]; rfl)
        rw [hclear] at hcleared
        cases hcleared

/-- In every state that the logger reaches, whatever threads log and however their operations interleave with the
writer's and the destructor's: the accepted lines are the written ones, then the one on its way, then those in the
buffer, and there are never more than `bufferSize` of the last; and when the writer has left, all lines are written
that were accepted before `running` was cleared. -/
theorem logger_keeps_lines (hsize : bufferSize + 1 < UInt64.size) {s : State T α}
    (h : (system T moved bufferSize).Reachable s) :
    s.written ++ s.inHand ++ s.ring.shared.items = s.accepted ∧ s.inHand.length ≤ 1 ∧
      s.ring.shared.items.length ≤ bufferSize ∧
      (s.writer = .exited → ∃ before, s.acceptedAtStop = some before ∧ before <+: s.written) := by
  have hkept := (RingThreads.reachable_sound hsize (reachable_ring h)).kept
  refine ⟨reachable_ledger hsize h, ?_, ?_, (reachable_drained hsize h).exited⟩
  · have hp := reachable_paired h
    rw [State.inHand, List.length_append]
    cases hcalls : s.writer.calls with
    | none =>
      rw [held_of_calls hp hcalls]
      cases s.writer <;> simp [WriterPc.line]
    | some op =>
      rw [WriterPc.line_of_calls hcalls]
      unfold held
      split <;> simp
  · exact hkept.size ▸ hkept.valid.size_le

/-- A line is logged, and the destructor is called. -/
def lineThenStop : List (Act Bool Nat) :=
  List.flatten [[.log true 7], List.replicate 8 (.step true), [.destroy], List.replicate 4 .stopper]

theorem logger_keeps_lines_one :
    ∃ s : State Bool Nat, (system Bool (fun _ : Nat => 0) 2).Reachable s ∧ s.writer = .exited ∧ s.written = [7] ∧
      s.written ++ s.inHand ++ s.ring.shared.items = s.accepted ∧ ∃ before, s.acceptedAtStop = some before ∧
        before <+: s.written := by
  obtain ⟨s, hs, htest⟩ := Lts.exists_of_exec (M := system Bool (fun _ : Nat => 0) 2)
    (List.flatten [lineThenStop, List.replicate 20 .writer])
    (fun s => s.writer = .exited ∧ s.written = [7]) rfl (by decide +kernel)
  obtain ⟨hexit, hwritten⟩ := of_decide_eq_true htest
  obtain ⟨hledger, -, -, hbefore⟩ := logger_keeps_lines (by decide) hs
  exact ⟨s, hs, hexit, hwritten, hledger, hbefore hexit⟩

/-- A thread logs between the writer's look into the buffer and its sleep. -/
def lateLine : List (Act Bool Nat) :=
  List.flatten [List.replicate 6 .writer, [.log true 7], List.replicate 8 (.step true), [.writer]]

-- The line stays where it is until the next one, or the destructor, wakes the writer.
example : ∃ s : State Bool Nat, (system Bool (fun _ : Nat => 0) 2).Reachable s ∧ s.writer = .asleep false ∧
      s.ring.shared.items = [7] ∧
    s.logging true = .idle ∧ s.logging false = .idle := by
  obtain ⟨s, hs, htest⟩ := Lts.exists_of_exec (M := system Bool (fun _ : Nat => 0) 2) lateLine
    (fun s => s.writer = .asleep false ∧ s.ring.shared.items = [7] ∧ s.logging true = .idle ∧ s.logging false = .idle) rfl
    (by decide +kernel)
  exact ⟨s, hs, of_decide_eq_true htest⟩

/-! ## The destructor does not wait in vain -/

/-- How many operations of `empty` are left. -/
def emptyRank : Pc α → Nat
  | .idle => 3
  | .emptyHead => 2
  | .emptyTail _ => 1
  | _ => 0

omit [Inhabited α] in
theorem emptyRank_le (p : Pc α) : emptyRank p ≤ 3 := by
  cases p <;> simp only [emptyRank] <;> omega

/-- What is left to do for a writer that has not decided yet whether it takes one of `n` lines: the way to the exit,
if there is none. -/
def passRank : Nat → Nat
  | 0 => 6
  | n + 1 => 20 * n + 7

/-- What is left to do within `pop` and after it, with `n` lines in the buffer. -/
def popRank (n : Nat) : Pc α → Nat
  | .idle => passRank n + 7
  | .popLock => passRank n + 6
  | .popHead => passRank n + 5
  | .popTail _ => passRank n + 4
  | .popIndex => passRank n + 3
  | .popTake _ => passRank n + 2
  | .popStore _ _ => passRank n + 1
  | .popUnlock none => 20 * n + 6
  | .popUnlock (some _) => 20 * n + 7
  | _ => 0

theorem passRank_lt (n : Nat) : passRank (n + 1) + 9 < 20 * (n + 1) + 1 := by
  simp only [passRank]
  omega

theorem passRank_le (n : Nat) : passRank n ≤ 20 * n + 6 := by
  cases n <;> simp only [passRank] <;> omega

omit [Inhabited α] in
theorem popRank_le (n : Nat) (p : Pc α) : popRank n p ≤ 20 * n + 13 := by
  have hpass := passRank_le n
  unfold popRank
  split <;> omega

/-- A bound on the operations of a writer that does not sleep, after `running` is cleared and while nobody logs. -/
def State.rank (s : State T α) : Nat :=
  let n := s.ring.shared.items.length
  match s.writer with
  | .loopEmpty => 20 * n + emptyRank (s.ring.pc none)
  | .loadRunning => 20 * n + 4
  | .unlock => 20 * n + 5
  | .write _ => 20 * n + 6
  | .pop => popRank n (s.ring.pc none)
  | .predRunning => passRank n + 8
  | .lock | .asleep _ => passRank n + 9
  | .predEmpty | .sleep | .exited => 0

theorem callRing_of_idle {ring : RingThreads.State (Option T) α} {t : Option T} (h : ring.pc t = .idle)
    (op : RingThreads.Op α) :
    callRing moved ring t op = some (ring.move t (.start op, ring.shared)) := by
  rw [callRing, h]
  simp only [RingThreads.State.step, h]

theorem callRing_of_step {ring : RingThreads.State (Option T) α} {t : Option T}
    {r : Pc α × RingThreads.Shared (Option T) α}
    (h : ring.shared.step moved t (ring.pc t) = some r) (op : RingThreads.Op α) :
    callRing moved ring t op = some (ring.move t r) := by
  unfold callRing
  split
  · rename_i hidle
    rw [hidle] at h
    cases h
  · rw [RingThreads.State.step, h]
    rfl

/-- `empty` waits for nobody. -/
theorem callEmpty_progress (moved : α → α) {ring : RingThreads.State (Option T) α}
    (h : serves .empty (ring.pc none) = true) :
    ∃ p', callRing moved ring none .empty = some (ring.move none (p', ring.shared)) ∧
      ((emptyAnswer ring.shared.ring (ring.pc none) = none ∧ emptyRank p' < emptyRank (ring.pc none)) ∨
        ∃ head, ring.pc none = .emptyTail head) := by
  cases hpc : ring.pc none with
  | idle => exact ⟨_, callRing_of_idle hpc _, .inl ⟨rfl, Nat.lt_succ_self _⟩⟩
  | emptyHead => exact ⟨_, callRing_of_step (r := (.emptyTail ring.shared.ring.head, ring.shared))
    (by rw [hpc]; rfl) _, .inl ⟨rfl, Nat.lt_succ_self _⟩⟩
  | emptyTail head => exact ⟨_, callRing_of_step (r := (.idle, ring.shared)) (by rw [hpc]; rfl) _, .inr ⟨head, rfl⟩⟩
  | _ =>
    rw [hpc] at h
    cases h

/-- `pop` waits for nobody, if nobody else pops. -/
theorem callPop_progress (moved : α → α) {ring : RingThreads.State (Option T) α} (h : serves .pop (ring.pc none) = true)
    (hsound : RingThreads.Sound bufferSize ring) (hfree : ring.pc none = .popLock → ring.shared.headMtx = none) :
    ∃ p' sh', callRing moved ring none .pop = some (ring.move none (p', sh')) ∧
      ((popAnswer (ring.pc none) = none ∧ popRank sh'.items.length p' < popRank ring.shared.items.length (ring.pc none)) ∨
        ∃ item, ring.pc none = .popUnlock item ∧ sh'.items = ring.shared.items) := by
  have hseen := hsound.seen none
  have hgo : ∀ {r}, ring.shared.step moved none (ring.pc none) = some r →
      callRing moved ring none .pop = some (ring.move none r) :=
    fun hr => callRing_of_step hr _
  cases hpc : ring.pc none with
  | idle => exact ⟨_, _, callRing_of_idle hpc _, .inl ⟨rfl, Nat.lt_succ_self _⟩⟩
  | popLock =>
    refine ⟨.popHead, { ring.shared with headMtx := some none }, hgo ?_, .inl ⟨rfl, Nat.lt_succ_self _⟩⟩
    rw [hpc, RingThreads.Shared.step, if_pos (hfree hpc)]
  | popHead => exact ⟨_, _, hgo (by rw [hpc]; rfl), .inl ⟨rfl, Nat.lt_succ_self _⟩⟩
  | popTail head =>
    rw [hpc] at hseen
    by_cases hnone : head = ring.shared.ring.tail
    · -- the indices are equal, so there is no line
      refine ⟨.popUnlock none, ring.shared, hgo ?_, .inl ⟨rfl, ?_⟩⟩
      · rw [hpc, RingThreads.Shared.step, if_pos hnone]
      · have hnil : ring.shared.items = [] := by
          rw [← hsound.kept.answerEmpty_iff]
          exact decide_eq_true (hseen.symm.trans hnone)
        rw [hnil]
        exact (by decide : 6 < 10)
    · refine ⟨.popIndex, ring.shared, hgo ?_, .inl ⟨rfl, Nat.lt_succ_self _⟩⟩
      rw [hpc, RingThreads.Shared.step, if_neg hnone]
  | popIndex => exact ⟨_, _, hgo (by rw [hpc]; rfl), .inl ⟨rfl, Nat.lt_succ_self _⟩⟩
  | popTake currentHead => exact ⟨_, _, hgo (by rw [hpc]; rfl), .inl ⟨rfl, Nat.lt_succ_self _⟩⟩
  | popStore currentHead item =>
    rw [hpc] at hseen
    refine ⟨_, _, hgo (by rw [hpc]; rfl), .inl ⟨rfl, ?_⟩⟩
    cases hitems : ring.shared.items with
    | nil => simp [RingThreads.Pc.Seen, hitems] at hseen
    | cons first rest => exact Nat.lt_succ_self _
  | popUnlock item => exact ⟨.idle, { ring.shared with headMtx := none }, hgo (by rw [hpc]; rfl), .inr ⟨item, rfl, rfl⟩⟩
  | _ =>
    rw [hpc] at h
    cases h

/-- Nobody but the writer takes `head_mutex_`. -/
theorem headMtx_free {s : State T α} (h : (system T moved bufferSize).Reachable s) (hpc : s.ring.pc none = .popLock) :
    s.ring.shared.headMtx = none := by
  cases hmtx : s.ring.shared.headMtx with
  | none => rfl
  | some t =>
    have hin := RingThreads.reachable_holdsHead (reachable_ring h) hmtx
    cases t with
    | none =>
      rw [hpc] at hin
      cases hin
    | some u => cases (LogPc.holdsHead_of_within ((reachable_paired h).logging u)).symm.trans hin

/-- While the destructor waits, the writer has left or has an operation to do that brings it nearer to the end. -/
theorem writer_progress (hsize : bufferSize + 1 < UInt64.size) {s : State T α}
    (h : (system T moved bufferSize).Reachable s) (hjoin : s.stopper = .join) (hexit : s.writer ≠ .exited) :
    ∃ s', s.stepWriter moved = some s' ∧ s'.stopper = .join ∧ s'.acceptedAtStop = s.acceptedAtStop ∧
      s'.rank < s.rank := by
  have hcontrol := reachable_control h
  have hpaired := (reachable_paired h).writer
  have hsound := RingThreads.reachable_sound hsize (reachable_ring h)
  have hrunning : s.running = false := by rw [hcontrol.running, hjoin]; rfl
  have hdrowsy := hcontrol.drowsy (by rw [hjoin]; rfl)
  have hmarked := hcontrol.marked (by rw [hjoin]; rfl)
  have hmtx : s.writer.locked = false → s.mtx = none := by
    intro hout
    rw [hcontrol.mtx, hout, hjoin]
    rfl
  unfold State.stepWriter
  cases hw : s.writer with
  | loadRunning =>
    refine ⟨_, rfl, hjoin, rfl, ?_⟩
    have hle := emptyRank_le (s.ring.pc none)
    simp only [State.rank, hw, hrunning, Bool.false_eq_true, if_false]
    omega
  | loopEmpty =>
    rw [hw] at hpaired
    obtain ⟨p', hcall, hnext⟩ := callEmpty_progress moved hpaired
    refine ⟨_, Option.map_eq_some_iff.mpr ⟨_, hcall, rfl⟩, hjoin, rfl, ?_⟩
    rcases hnext with ⟨hanswer, hlt⟩ | ⟨head, hpc⟩
    · simp only [State.rank, hw, hanswer, Option.elim_none, RingThreads.State.move_pc_self]
      exact Nat.add_lt_add_left hlt _
    · -- at the end of the loop, or there is a line
      have hempty := hsound.kept.answerEmpty_iff
      rw [← reachable_head h head hpc] at hempty
      simp only [State.rank, hw, hpc, emptyAnswer, Option.elim_some, RingThreads.State.move]
      cases hanswer : answerEmpty s.ring.shared.ring head with
      | true => exact Nat.succ_pos _
      | false =>
        rw [hanswer] at hempty
        cases hitems : s.ring.shared.items with
        | nil => cases hempty.mpr hitems
        | cons line rest => exact passRank_lt rest.length
  | lock => exact ⟨_, if_pos (hmtx (by rw [hw]; rfl)), hjoin, rfl, by simp only [State.rank, hw]; omega⟩
  | predRunning =>
    refine ⟨_, rfl, hjoin, rfl, ?_⟩
    have hidle : s.ring.pc none = .idle := by rwa [hw] at hpaired
    simp only [State.rank, hw, hrunning, hidle, popRank, Bool.false_eq_true, if_false]
    omega
  | asleep notified =>
    cases notified with
    | false =>
      rw [hw] at hmarked
      cases hmarked
    | true => exact ⟨_, if_pos ⟨rfl, hmtx (by rw [hw]; rfl)⟩, hjoin, rfl, by simp only [State.rank, hw]; omega⟩
  | pop =>
    rw [hw] at hpaired
    obtain ⟨p', sh', hcall, hnext⟩ := callPop_progress moved hpaired hsound (headMtx_free h)
    refine ⟨_, Option.map_eq_some_iff.mpr ⟨_, hcall, rfl⟩, hjoin, rfl, ?_⟩
    rcases hnext with ⟨hanswer, hlt⟩ | ⟨item, hpc, hitems⟩
    · simp only [State.rank, hw, hanswer, Option.elim_none, RingThreads.State.move_pc_self]
      exact hlt
    · simp only [State.rank, hw, hpc, popAnswer, Option.elim_some, RingThreads.State.move, hitems]
      cases item <;> exact Nat.lt_succ_self _
  | write line => exact ⟨_, rfl, hjoin, rfl, by simp only [State.rank, hw]; omega⟩
  | unlock => exact ⟨_, rfl, hjoin, rfl, by simp only [State.rank, hw]; omega⟩
  | exited => exact absurd hw hexit
  | predEmpty | sleep =>
    rw [hw] at hdrowsy
    cases hdrowsy

/-- The destructor waits in `join`; the accepted lines were `atStop` when it cleared `running`. -/
structure Waiting (moved : α → α) (bufferSize : Nat) (atStop : Option (List α)) (s : State T α) : Prop where
  reachable : (system T moved bufferSize).Reachable s
  join : s.stopper = .join
  atStop : s.acceptedAtStop = atStop

/-- While the stopper waits, the writer can always go on, and has less to do afterwards. -/
theorem waiting_progress (hsize : bufferSize + 1 < UInt64.size) {atStop : Option (List α)} (s : State T α)
    (h : Waiting moved bufferSize atStop s) (hexit : ¬s.writer = .exited) :
    ∃ s', (system T moved bufferSize).step s .writer = some s' ∧ Waiting moved bufferSize atStop s' ∧
      s'.rank < s.rank := by
  obtain ⟨s', hwriter, hjoin, hsame, hlt⟩ := writer_progress hsize h.reachable h.join hexit
  have hstep : (system T moved bufferSize).step s .writer = some s' := by
    change s.step moved .writer = _
    rw [State.step, if_neg (by rw [h.join]; decide)]
    exact hwriter
  exact ⟨s', hstep, ⟨.step h.reachable trivial hstep, hjoin, hsame.trans h.atStop⟩, hlt⟩

omit [DecidableEq T] [Inhabited α] in
/-- How much there is to do, by what is in the buffer. -/
theorem rank_le (s : State T α) : s.rank ≤ 20 * s.ring.shared.items.length + 15 := by
  have hpass := passRank_le s.ring.shared.items.length
  have hempty := emptyRank_le (s.ring.pc none)
  have hpop := popRank_le s.ring.shared.items.length (s.ring.pc none)
  unfold State.rank
  cases s.writer <;> simp only <;> omega

/-- From any state in which the destructor waits for the writer's thread, that thread alone comes to its end within a
number of operations that only the lines in the buffer count for; then the destructor returns. All lines are written
by then that were accepted before `running` was cleared. -/
theorem logger_stops (hsize : bufferSize + 1 < UInt64.size) {s : State T α} (h : (system T moved bufferSize).Reachable s)
    (hjoin : s.stopper = .join) :
    ∃ n s', n ≤ 20 * s.ring.shared.items.length + 15 ∧
      (system T moved bufferSize).exec s (List.replicate n .writer) = some s' ∧ s'.writer = .exited ∧
      (∃ before, s.acceptedAtStop = some before ∧ before <+: s'.written) ∧
      (system T moved bufferSize).step s' .stopper = some { s' with stopper := .done } := by
  have hwaiting : Waiting moved bufferSize s.acceptedAtStop s := ⟨h, hjoin, rfl⟩
  obtain ⟨n, s', hn, hexec, ⟨hr', hjoin', hsame⟩, hexit⟩ :=
    Lts.exists_exec_replicate State.rank Act.writer (waiting_progress hsize) hwaiting
  refine ⟨n, s', Nat.le_trans hn (rank_le s), hexec, hexit, ?_, ?_⟩
  · rw [← hsame]
    exact (reachable_drained hsize hr').exited hexit
  · change s'.step moved .stopper = _
    rw [State.step, if_neg (by rw [hjoin']; decide)]
    simp only [State.stepStopper, hjoin', hexit]

theorem logger_stops_one :
    ∃ s : State Bool Nat, (system Bool (fun _ : Nat => 0) 2).Reachable s ∧ s.stopper = .join ∧ s.ring.shared.items = [7] ∧
      ∃ n s', n ≤ 35 ∧ (system Bool (fun _ : Nat => 0) 2).exec s (List.replicate n .writer) = some s' ∧
        s'.writer = .exited := by
  obtain ⟨s, hs, htest⟩ := Lts.exists_of_exec (M := system Bool (fun _ : Nat => 0) 2) lineThenStop
    (fun s => s.stopper = .join ∧ s.ring.shared.items = [7]) rfl (by decide +kernel)
  obtain ⟨hjoin, hitems⟩ := of_decide_eq_true htest
  obtain ⟨n, s', hn, hexec, hexit, -, -⟩ := logger_stops (by decide) hs hjoin
  rw [hitems] at hn
  exact ⟨s, hs, hjoin, hitems, n, s', hn, hexec, hexit⟩

end Logger
end HpServer
