import HpServer.Lemmas.RingMoves
import HpServer.Logger

/-!
# What one step of the logger does

Every step of `Logger.system` is one of the moves of `Move`; `step_move` says so once. A move that concerns the buffer
is a move of one of the buffer's threads, so that the buffer of a logger is in a state its own threads can reach
(`Move.ring`). The invariants are told apart by what they are about: which call of the buffer a thread is within
(`Paired`), `mtx` and the flag (`Control`), and the lines (`Ledger`).
-/

namespace HpServer
namespace Logger

open RingThreads (Pc answerEmpty)

variable {T α : Type} [DecidableEq T] [Inhabited α] {moved : α → α}

/-- The call of the buffer that the writer is within. -/
def WriterPc.calls : WriterPc α → Option (RingThreads.Op α)
  | .loopEmpty | .predEmpty => some .empty
  | .pop => some .pop
  | _ => none

/-- The moves. -/
inductive Move (moved : α → α) (s : State T α) : State T α → Prop where
  | log {t : T} (line : α) : s.logging t = .idle →
    Move moved s { s with logging := Function.update s.logging t (.push line) }
  | pushing {t : T} {line : α} {sh' : RingThreads.Shared (Option T) α} {p' : Pc α} : s.logging t = .push line →
      RingThreads.Move moved (some t) s.ring.shared (s.ring.pc (some t)) sh' p' →
      (s.ring.pc (some t) = .idle → p' = .start (.push line)) → (∀ ok, s.ring.pc (some t) ≠ .pushUnlock ok) →
      Move moved s { s with ring := s.ring.move (some t) (p', sh'),
                            accepted := s.accepted ++ stored (s.ring.pc (some t)) }
  | pushReturns {t : T} {line : α} {ok : Bool} : s.logging t = .push line → s.ring.pc (some t) = .pushUnlock ok →
      Move moved s
        { s with
          ring := s.ring.move (some t) (.idle, { s.ring.shared with tailMtx := none })
          logging := Function.update s.logging t (if ok then .notify else .idle) }
  | notify {t : T} : s.logging t = .notify →
      Move moved s { s with writer := s.writer.wake, logging := Function.update s.logging t .idle }
  | loadRunning : s.writer = .loadRunning → Move moved s { s with writer := if s.running then .lock else .loopEmpty }
  | lock : s.writer = .lock → s.mtx = none → Move moved s { s with mtx := some .writer, writer := .predRunning }
  | predRunning : s.writer = .predRunning → Move moved s { s with writer := if s.running then .predEmpty else .pop }
  | sleep : s.writer = .sleep → Move moved s { s with mtx := none, writer := .asleep false }
  | spurious : s.writer = .asleep false → Move moved s { s with writer := .asleep true }
  | wake : s.writer = .asleep true → s.mtx = none → Move moved s { s with mtx := some .writer, writer := .predRunning }
  | within {op : RingThreads.Op α} {sh' : RingThreads.Shared (Option T) α} {p' : Pc α} : s.writer.calls = some op →
      RingThreads.Move moved none s.ring.shared (s.ring.pc none) sh' p' → (s.ring.pc none = .idle → p' = .start op) →
      (op = .empty → ∀ head, s.ring.pc none ≠ .emptyTail head) → (op = .pop → ∀ item, s.ring.pc none ≠ .popUnlock item) →
      Move moved s { s with ring := s.ring.move none (p', sh') }
  | loopAnswer {head : Nat} : s.writer = .loopEmpty → s.ring.pc none = .emptyTail head →
      Move moved s
        { s with
          ring := s.ring.move none (.idle, s.ring.shared)
          writer := if answerEmpty s.ring.shared.ring head then .exited else .lock }
  | predAnswer {head : Nat} : s.writer = .predEmpty → s.ring.pc none = .emptyTail head →
      Move moved s
        { s with
          ring := s.ring.move none (.idle, s.ring.shared)
          writer := if answerEmpty s.ring.shared.ring head then .sleep else .pop }
  | popReturns {item : Option α} : s.writer = .pop → s.ring.pc none = .popUnlock item →
      Move moved s
        { s with ring := s.ring.move none (.idle, { s.ring.shared with headMtx := none }),
                 writer := item.elim .unlock .write }
  | write {line : α} : s.writer = .write line → Move moved s { s with written := s.written ++ [line], writer := .unlock }
  | unlock : s.writer = .unlock → Move moved s { s with mtx := none, writer := .loadRunning }
  | destroy : s.stopper = .alive → Move moved s { s with stopper := .lock }
  | stopLock : s.stopper = .lock → s.mtx = none → Move moved s { s with mtx := some .stopper, stopper := .clear }
  | clear : s.stopper = .clear → Move moved s
    { s with running := false, acceptedAtStop := some s.accepted, stopper := .unlock }
  | stopUnlock : s.stopper = .unlock → Move moved s { s with mtx := none, stopper := .notifyAll }
  | notifyAll : s.stopper = .notifyAll → Move moved s { s with writer := s.writer.wake, stopper := .join }
  | join : s.stopper = .join → s.writer = .exited → Move moved s { s with stopper := .done }

/-- The next operation of a call is a move of the thread, and the first is the call's. -/
theorem move_of_callRing {ring ring' : RingThreads.State (Option T) α} {t : Option T} {op : RingThreads.Op α}
    (h : callRing moved ring t op = some ring') :
    ∃ p' sh', RingThreads.Move moved t ring.shared (ring.pc t) sh' p' ∧ (ring.pc t = .idle → p' = .start op) ∧
      ring' = ring.move t (p', sh') := by
  unfold callRing at h
  split at h
  · rename_i hidle
    rw [RingThreads.State.step, hidle] at h
    cases h
    exact ⟨_, _, hidle ▸ .call op, fun _ => rfl, rfl⟩
  · rename_i hbusy
    obtain ⟨⟨p', sh'⟩, hstep, rfl⟩ := Option.map_eq_some_iff.mp h
    exact ⟨p', sh', RingThreads.move_of_step hstep, fun hidle => absurd hidle hbusy, rfl⟩

/-- A step of a thread that logs is a move. -/
theorem move_of_stepLog {s s' : State T α} {t : T} (h : s.stepLog moved t = some s') : Move moved s s' := by
  unfold State.stepLog at h
  split at h
  · cases h
  · rename_i line hline
    obtain ⟨ring', hring, rfl⟩ := Option.map_eq_some_iff.mp h
    obtain ⟨p', sh', hmove, hfirst, rfl⟩ := move_of_callRing hring
    by_cases hlast : ∃ ok, s.ring.pc (some t) = .pushUnlock ok
    · obtain ⟨ok, hok⟩ := hlast
      have hmove' := hok ▸ hmove
      cases hmove'
      simpa [stored, pushAnswer, hok] using Move.pushReturns hline hok
    · have hnot : ∀ ok, s.ring.pc (some t) ≠ .pushUnlock ok := fun ok hok => hlast ⟨ok, hok⟩
      have hanswer : pushAnswer (s.ring.pc (some t)) = none := by
        unfold pushAnswer
        split
        · exact absurd ‹_› (hnot _)
        · rfl
      rw [hanswer, Option.elim_none, ← hline, Function.update_eq_self]
      exact .pushing hline hmove hfirst hnot
  · exact Option.some.inj h ▸ .notify ‹_›

/-- The operations of `empty`: the writer goes on with `next` when it has the answer. -/
theorem move_of_callEmpty {s : State T α} {ring' : RingThreads.State (Option T) α} {next : Bool → WriterPc α}
    (hcall : callRing moved s.ring none .empty = some ring') (hcalls : s.writer.calls = some .empty)
    (hlast : ∀ head, s.ring.pc none = .emptyTail head →
      Move moved s { s with ring := s.ring.move none (.idle, s.ring.shared),
                            writer := next (answerEmpty s.ring.shared.ring head) }) :
    Move moved s { s with ring := ring',
                          writer := (emptyAnswer s.ring.shared.ring (s.ring.pc none)).elim s.writer next } := by
  obtain ⟨p', sh', hmove, hfirst, rfl⟩ := move_of_callRing hcall
  by_cases hpc : ∃ head, s.ring.pc none = .emptyTail head
  · obtain ⟨head, hhead⟩ := hpc
    have hmove' := hhead ▸ hmove
    cases hmove'
    simpa [emptyAnswer, hhead] using hlast head hhead
  · have hnot : ∀ head, s.ring.pc none ≠ .emptyTail head := fun head hhead => hpc ⟨head, hhead⟩
    have hanswer : emptyAnswer s.ring.shared.ring (s.ring.pc none) = none := by
      unfold emptyAnswer
      split
      · exact absurd ‹_› (hnot _)
      · rfl
    rw [hanswer]
    exact .within hcalls hmove hfirst (fun _ => hnot) fun h => by cases h

/-- The operations of `pop`. -/
theorem move_of_callPop {s : State T α} {ring' : RingThreads.State (Option T) α} (hpop : s.writer = .pop)
    (hcall : callRing moved s.ring none .pop = some ring') :
    Move moved s { s with ring := ring',
                          writer := (popAnswer (s.ring.pc none)).elim .pop fun item => item.elim .unlock .write } := by
  obtain ⟨p', sh', hmove, hfirst, rfl⟩ := move_of_callRing hcall
  by_cases hpc : ∃ item, s.ring.pc none = .popUnlock item
  · obtain ⟨item, hitem⟩ := hpc
    have hmove' := hitem ▸ hmove
    cases hmove'
    simpa [popAnswer, hitem] using Move.popReturns hpop hitem
  · have hnot : ∀ item, s.ring.pc none ≠ .popUnlock item := fun item hitem => hpc ⟨item, hitem⟩
    have hanswer : popAnswer (s.ring.pc none) = none := by
      unfold popAnswer
      split
      · exact absurd ‹_› (hnot _)
      · rfl
    rw [hanswer, Option.elim_none, ← hpop]
    exact .within (by rw [hpop]; rfl) hmove hfirst (fun h => by cases h) fun _ => hnot

/-- A step of the writer is a move. -/
theorem move_of_stepWriter {s s' : State T α} (h : s.stepWriter moved = some s') : Move moved s s' := by
  unfold State.stepWriter at h
  split at h
  · exact Option.some.inj h ▸ .loadRunning ‹_›
  · rename_i hpc
    obtain ⟨ring', hring, rfl⟩ := Option.map_eq_some_iff.mp h
    rw [← hpc]
    exact move_of_callEmpty hring (by rw [hpc]; rfl) fun head hhead => .loopAnswer hpc hhead
  · obtain ⟨hfree, heq⟩ := Option.ite_none_right_eq_some.mp h
    exact Option.some.inj heq ▸ .lock ‹_› hfree
  · exact Option.some.inj h ▸ .predRunning ‹_›
  · rename_i hpc
    obtain ⟨ring', hring, rfl⟩ := Option.map_eq_some_iff.mp h
    rw [← hpc]
    exact move_of_callEmpty hring (by rw [hpc]; rfl) fun head hhead => .predAnswer hpc hhead
  · exact Option.some.inj h ▸ .sleep ‹_›
  · rename_i notified hpc
    obtain ⟨⟨rfl, hfree⟩, heq⟩ := Option.ite_none_right_eq_some.mp h
    exact Option.some.inj heq ▸ .wake hpc hfree
  · rename_i hpc
    obtain ⟨ring', hring, rfl⟩ := Option.map_eq_some_iff.mp h
    exact move_of_callPop hpc hring
  · exact Option.some.inj h ▸ .write ‹_›
  · exact Option.some.inj h ▸ .unlock ‹_›
  · cases h

/-- A step of the destructor is a move. -/
theorem move_of_stepStopper {s s' : State T α} (h : s.stepStopper = some s') : Move moved s s' := by
  unfold State.stepStopper at h
  split at h
  · cases h
  · obtain ⟨hfree, heq⟩ := Option.ite_none_right_eq_some.mp h
    exact Option.some.inj heq ▸ .stopLock ‹_› hfree
  · exact Option.some.inj h ▸ .clear ‹_›
  · exact Option.some.inj h ▸ .stopUnlock ‹_›
  · exact Option.some.inj h ▸ .notifyAll ‹_›
  · split at h
    · exact Option.some.inj h ▸ .join ‹_› ‹_›
    · cases h
  · cases h

/-- Every step is a move, and the destructor has not returned. -/
theorem step_move {bufferSize : Nat} {s s' : State T α} {a : Act T α}
    (h : (system T moved bufferSize).step s a = some s') :
    s.stopper ≠ .done ∧ Move moved s s' := by
  change s.step moved a = some s' at h
  unfold State.step at h
  obtain ⟨hdone, h⟩ := Option.ite_none_left_eq_some.mp h
  refine ⟨hdone, ?_⟩
  cases a with
  | log t line =>
    simp only at h
    split at h
    · exact Option.some.inj h ▸ .log line ‹_›
    · cases h
  | step t => exact move_of_stepLog h
  | writer => exact move_of_stepWriter h
  | spurious =>
    simp only at h
    split at h
    · exact Option.some.inj h ▸ .spurious ‹_›
    · cases h
  | destroy =>
    obtain ⟨halive, heq⟩ := Option.ite_none_right_eq_some.mp h
    exact Option.some.inj heq ▸ .destroy halive
  | stopper => exact move_of_stepStopper h

/-! ## The buffer -/

/-- A move leaves the buffer alone, or is a move of one of its threads. -/
theorem Move.ring {s s' : State T α} (h : Move moved s s') :
    s'.ring = s.ring ∨ ∃ t p' sh', RingThreads.Move moved t s.ring.shared (s.ring.pc t) sh' p' ∧
      s'.ring = s.ring.move t (p', sh') := by
  cases h with
  | pushing _ hmove _ _ => exact .inr ⟨_, _, _, hmove, rfl⟩
  | within _ hmove _ _ _ => exact .inr ⟨_, _, _, hmove, rfl⟩
  | pushReturns _ hpc => exact .inr ⟨_, _, _, hpc ▸ .pushUnlock _, rfl⟩
  | loopAnswer _ hpc => exact .inr ⟨_, _, _, hpc ▸ .emptyTail _, rfl⟩
  | predAnswer _ hpc => exact .inr ⟨_, _, _, hpc ▸ .emptyTail _, rfl⟩
  | popReturns _ hpc => exact .inr ⟨_, _, _, hpc ▸ .popUnlock _, rfl⟩
  | _ => exact .inl rfl

/-- By induction the buffer is in a state that its threads can reach. -/
theorem reachable_ring {bufferSize : Nat} {s : State T α} (h : (system T moved bufferSize).Reachable s) :
    (RingThreads.system (Option T) moved bufferSize).Reachable s.ring := by
  refine h.invariant (I := fun s => (RingThreads.system (Option T) moved bufferSize).Reachable s.ring) ?_ ?_
  · rintro s rfl
    exact .init rfl
  · intro s s' a _ hs hstep
    rcases (step_move hstep).2.ring with heq | ⟨t, p', sh', hmove, heq⟩
    · rwa [heq]
    · obtain ⟨b, hb⟩ := RingThreads.exists_step_of_move bufferSize hmove
      rw [heq]
      exact .step hs trivial hb

/-! ## Who is within which call -/

/-- The program points of the buffer where a thread may be that calls `op`, or is about to. -/
def serves : RingThreads.Op α → Pc α → Bool
  | _, .idle => true
  | .push _, .pushLock _ | .push _, .pushIndex _ | .push _, .pushHead _ _ | .push _, .pushWrite _ _
  | .push _, .pushStore _ _
  | .push _, .pushUnlock _ => true
  | .pop, .popLock | .pop, .popHead | .pop, .popTail _ | .pop, .popIndex | .pop, .popTake _ | .pop, .popStore _ _
  | .pop, .popUnlock _ => true
  | .empty, .emptyHead | .empty, .emptyTail _ => true
  | .size, .sizeHead | .size, .sizeTail _ => true
  | _, _ => false

/-- The call of the buffer that `write_log` is within. -/
def LogPc.calls : LogPc α → Option (RingThreads.Op α)
  | .push line => some (.push line)
  | _ => none

/-- A thread is within the call that it makes, and within none if it makes none. -/
def Within (call : Option (RingThreads.Op α)) (p : Pc α) : Prop := call.elim (p = .idle) fun op => serves op p = true

omit [Inhabited α] in
/-- Before its first step in the buffer a thread may be about to make any call. -/
theorem Within.idle (call : Option (RingThreads.Op α)) : Within call .idle := by
  rcases call with _ | (_ | _ | _ | _) <;> rfl

omit [DecidableEq T] in
/-- A thread goes on within its call. -/
theorem serves_of_move {t : T} {sh sh' : RingThreads.Shared T α} {p p' : Pc α} {op : RingThreads.Op α}
    (h : RingThreads.Move moved t sh p sh' p')
    (hfirst : p = .idle → p' = .start op) (hp : serves op p = true) : serves op p' = true := by
  cases h with
  | call op' =>
    rw [hfirst rfl]
    cases op <;> rfl
  | _ => cases op <;> first | rfl | cases hp

/-- Each thread is within the call of the buffer that its own point says. -/
structure Paired (s : State T α) : Prop where
  writer : Within s.writer.calls (s.ring.pc none)
  logging : ∀ t, Within (s.logging t).calls (s.ring.pc (some t))

omit [Inhabited α] in
theorem WriterPc.calls_wake (w : WriterPc α) : w.wake.calls = w.calls := by
  cases w <;> rfl

omit [DecidableEq T] [Inhabited α] in
/-- A writer that makes no call can begin any. -/
theorem Paired.writer_free {s : State T α} (h : Paired s) (hnone : s.writer.calls = none)
    (call : Option (RingThreads.Op α)) :
    Within call (s.ring.pc none) := by
  have hidle := h.writer
  rw [hnone] at hidle
  rw [show s.ring.pc none = .idle from hidle]
  exact .idle call

omit [Inhabited α] in
/-- One thread goes on with `write_log`, and no other moves in the buffer. -/
theorem Paired.logging_update {s : State T α} (h : Paired s) {t : T} {next : LogPc α} {pc' : Option T → Pc α}
    (hown : Within next.calls (pc' (some t))) (hothers : ∀ u, u ≠ t → pc' (some u) = s.ring.pc (some u)) (u : T) :
    Within (Function.update s.logging t next u).calls (pc' (some u)) := by
  by_cases hu : u = t
  · rw [hu, Function.update_self]
    exact hown
  · rw [Function.update_of_ne hu, hothers u hu]
    exact h.logging u

omit [Inhabited α] in
/-- The writer moves in the buffer, and nobody else. -/
theorem Paired.logging_of_writer {s : State T α} (h : Paired s) (r : Pc α × RingThreads.Shared (Option T) α) (u : T) :
    Within (s.logging u).calls ((s.ring.move none r).pc (some u)) := by
  rw [RingThreads.State.move_pc_of_ne _ (Option.some_ne_none u)]
  exact h.logging u

omit [Inhabited α] in
/-- The writer's call has returned. -/
theorem Paired.returned {s : State T α} (h : Paired s) (sh' : RingThreads.Shared (Option T) α) {s' : State T α}
    (hring : s'.ring = s.ring.move none (.idle, sh')) (hlogging : s'.logging = s.logging) : Paired s' where
  writer := by
    rw [hring, RingThreads.State.move_pc_self]
    exact .idle _
  logging u := by
    rw [hring, hlogging]
    exact h.logging_of_writer _ u

/-- It is kept by every move. -/
theorem Move.paired {s s' : State T α} (h : Move moved s s') (hp : Paired s) : Paired s' := by
  cases h with
  | @log t line hidle =>
    refine ⟨hp.writer, hp.logging_update ?_ fun u _ => rfl⟩
    have hfree := hp.logging t
    rw [hidle] at hfree
    rw [show s.ring.pc (some t) = .idle from hfree]
    rfl
  | @pushing t line sh' p' hline hmove hfirst _ =>
    have hwithin := hp.logging t
    rw [hline] at hwithin
    refine ⟨?_, fun u => ?_⟩
    · rw [RingThreads.State.move_pc_of_ne _ (Option.some_ne_none t).symm]
      exact hp.writer
    · have hown : Within (LogPc.push line).calls ((s.ring.move (some t) (p', sh')).pc (some t)) := by
        rw [RingThreads.State.move_pc_self]
        exact serves_of_move hmove hfirst hwithin
      have hothers : ∀ v, v ≠ t → (s.ring.move (some t) (p', sh')).pc (some v) = s.ring.pc (some v) :=
        fun v hv => RingThreads.State.move_pc_of_ne _ (fun heq => hv (Option.some.inj heq)) _
      have hupdate := hp.logging_update hown hothers u
      rwa [← hline, Function.update_eq_self] at hupdate
  | @pushReturns t line ok hline hpc =>
    refine ⟨?_, hp.logging_update ?_ ?_⟩
    · rw [RingThreads.State.move_pc_of_ne _ (Option.some_ne_none t).symm]
      exact hp.writer
    · rw [RingThreads.State.move_pc_self]
      exact .idle _
    · intro v hv
      exact RingThreads.State.move_pc_of_ne _ (fun heq => hv (Option.some.inj heq)) _
  | @notify t hnotify =>
    refine ⟨?_, hp.logging_update ?_ fun u _ => rfl⟩
    · rw [WriterPc.calls_wake]
      exact hp.writer
    · have hfree := hp.logging t
      rwa [hnotify] at hfree
  | within hop hmove hfirst _ _ =>
    refine ⟨?_, hp.logging_of_writer _⟩
    have hwithin := hp.writer
    rw [hop] at hwithin
    rw [RingThreads.State.move_pc_self, hop]
    exact serves_of_move hmove hfirst hwithin
  | loopAnswer _ _ => exact hp.returned _ rfl rfl
  | predAnswer _ _ => exact hp.returned _ rfl rfl
  | popReturns _ _ => exact hp.returned _ rfl rfl
  | notifyAll _ =>
    refine ⟨?_, hp.logging⟩
    rw [WriterPc.calls_wake]
    exact hp.writer
  | loadRunning hw | lock hw _ | predRunning hw | sleep hw | spurious hw | wake hw _ | write hw | unlock hw =>
    exact ⟨hp.writer_free (by rw [hw]; rfl) _, hp.logging⟩
  | destroy _ | stopLock _ _ | clear _ | stopUnlock _ | join _ _ => exact ⟨hp.writer, hp.logging⟩

/-- By induction it holds in every state. -/
theorem reachable_paired {bufferSize : Nat} {s : State T α} (h : (system T moved bufferSize).Reachable s) : Paired s := by
  refine h.invariant ?_ ?_
  · rintro s rfl
    exact ⟨rfl, fun t => rfl⟩
  · intro s s' a _ hs hstep
    exact (step_move hstep).2.paired hs

/-! ## `mtx`, the flag and the wait -/

/-- The writer's program points inside `mtx`. -/
def WriterPc.locked : WriterPc α → Bool
  | .predRunning | .predEmpty | .sleep | .pop | .write _ | .unlock => true
  | _ => false

/-- The writer has seen `running` set and means to sleep. -/
def WriterPc.drowsy : WriterPc α → Bool
  | .predEmpty | .sleep => true
  | _ => false

/-- The writer sleeps, and no notification has marked it. -/
def WriterPc.unmarked : WriterPc α → Bool
  | .asleep false => true
  | _ => false

/-- The writer has seen `running` cleared, or has left the loop because it had. -/
def WriterPc.leaving : WriterPc α → Bool
  | .loopEmpty | .exited => true
  | _ => false

/-- The destructor's program points inside `mtx`. -/
def StopPc.locked : StopPc → Bool
  | .clear | .unlock => true
  | _ => false

/-- The destructor has cleared `running`. -/
def StopPc.cleared : StopPc → Bool
  | .unlock | .notifyAll | .join | .done => true
  | _ => false

/-- The destructor has notified. -/
def StopPc.notified : StopPc → Bool
  | .join | .done => true
  | _ => false

/-- `mtx` and `running` are as the two program points say; after `running` is cleared nobody goes to sleep, and after
the notification nobody sleeps on. -/
structure Control (s : State T α) : Prop where
  mtx : s.mtx = if s.writer.locked then some .writer else if s.stopper.locked then some .stopper else none
  apart : s.writer.locked = true → s.stopper.locked = false
  running : s.running = !s.stopper.cleared
  leaving : s.writer.leaving = true → s.stopper.cleared = true
  drowsy : s.stopper.cleared = true → s.writer.drowsy = false
  marked : s.stopper.notified = true → s.writer.unmarked = false

omit [Inhabited α] in
/-- A notification changes nothing but the mark. -/
theorem WriterPc.wake_eq (w : WriterPc α) :
    w.wake.locked = w.locked ∧ w.wake.leaving = w.leaving ∧ w.wake.drowsy = w.drowsy ∧ w.wake.unmarked = false := by
  cases w <;> exact ⟨rfl, rfl, rfl, rfl⟩

omit [Inhabited α] in
theorem WriterPc.locked_of_drowsy {w : WriterPc α} (h : w.drowsy = true) : w.locked = true := by
  cases w <;> first | rfl | cases h

theorem StopPc.cleared_of_notified {p : StopPc} (h : p.notified = true) : p.cleared = true := by
  cases p <;> first | rfl | cases h

/-- It is kept by every move. -/
theorem Move.control {s s' : State T α} (h : Move moved s s') (hc : Control s) : Control s' := by
  obtain ⟨hmtx, hapart, hrunning, hleaving, hdrowsy, hmarked⟩ := hc
  cases h with
  | log _ _ | pushing _ _ _ _ | pushReturns _ _ | within _ _ _ _ _ =>
    exact ⟨hmtx, hapart, hrunning, hleaving, hdrowsy, hmarked⟩
  | notify _ =>
    obtain ⟨hlocked, hleaves, hdrowses, hunmarked⟩ := s.writer.wake_eq
    constructor <;> simp only [hlocked, hleaves, hdrowses, hunmarked] <;> first | assumption | exact fun _ => trivial
  | notifyAll hs =>
    obtain ⟨hlocked, hleaves, hdrowses, hunmarked⟩ := s.writer.wake_eq
    rw [hs] at hmtx hapart hrunning hleaving hdrowsy
    constructor <;> simp only [hlocked, hleaves, hdrowses, hunmarked] <;> first | assumption | exact fun _ => trivial
  -- what the writer reads decides where it goes on
  | loadRunning hw | predRunning hw =>
    cases hr : s.running <;> constructor <;> simp_all [WriterPc.locked, WriterPc.leaving, WriterPc.drowsy,
      WriterPc.unmarked]
  | loopAnswer hw _ | predAnswer hw _ =>
    constructor <;> split <;> simp_all [WriterPc.locked, WriterPc.leaving, WriterPc.drowsy, WriterPc.unmarked]
  | @popReturns item hw _ =>
    cases item <;> constructor <;> simp_all [WriterPc.locked, WriterPc.leaving, WriterPc.drowsy, WriterPc.unmarked]
  | sleep hw =>
    -- a writer on its way to sleep holds `mtx` and has seen `running` set
    have hnot : s.stopper.notified = false := by
      refine Bool.eq_false_iff.mpr fun hn => ?_
      have hd := hdrowsy (StopPc.cleared_of_notified hn)
      rw [hw] at hd
      cases hd
    constructor <;> simp_all [WriterPc.locked, WriterPc.leaving, WriterPc.drowsy, WriterPc.unmarked]
  | clear hs =>
    -- the destructor holds `mtx`, so the writer is not on its way to sleep
    have hawake : s.writer.drowsy = false := by
      refine Bool.eq_false_iff.mpr fun hd => ?_
      have hout := hapart (WriterPc.locked_of_drowsy hd)
      rw [hs] at hout
      cases hout
    constructor <;> simp_all [StopPc.locked, StopPc.cleared, StopPc.notified]
  | lock hw _ | spurious hw | wake hw _ | write hw | unlock hw =>
    constructor <;> simp_all [WriterPc.locked, WriterPc.leaving, WriterPc.drowsy, WriterPc.unmarked]
  | destroy hs | stopLock hs _ | stopUnlock hs | join hs _ =>
    constructor <;> simp_all [StopPc.locked, StopPc.cleared, StopPc.notified]

/-- By induction it holds in every state. -/
theorem reachable_control {bufferSize : Nat} {s : State T α} (h : (system T moved bufferSize).Reachable s) :
    Control s := by
  refine h.invariant ?_ ?_
  · rintro s rfl
    exact ⟨rfl, fun _ => rfl, rfl, fun h => h, fun _ => rfl, fun _ => rfl⟩
  · intro s s' a _ hs hstep
    exact (step_move hstep).2.control hs

end Logger
end HpServer
