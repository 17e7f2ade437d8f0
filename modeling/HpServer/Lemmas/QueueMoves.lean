import HpServer.ThreadsafeQueue
import HpServer.Lib.Mutex

/-!
# What one step of the queue does

Every step of `ThreadsafeQueue.system` is a move of one thread (`Move`) or the notification at the end of a `push`;
`step_cases` says so once, and the invariants of the queue never unfold the step. The first of them is that of the two
mutexes.
-/

namespace HpServer
namespace ThreadsafeQueue

variable {T α : Type} [DecidableEq T]

/-- The thread an action is an action of. -/
def Act.thread : Act T α → T
  | .call t _ => t
  | .step t => t
  | .make t _ => t
  | .notifyOne t _ => t
  | .spurious t => t

/-- The moves of a thread: what it found, what it leaves, and where it goes on. -/
inductive Move (t : T) (sh : Shared T α) : Pc α → Shared T α → Pc α → Prop where
  | call (op : Op α) : Move t sh .idle sh (.start op)
  | make (v : α) {a : Nat} : sh.mem a = none → Move t sh (.pushMake v) (sh.store a (some ⟨none, none⟩)) (.pushLock v a)
  | pushLock (v : α) (a : Nat) : sh.tailMtx = none →
    Move t sh (.pushLock v a) { sh with tailMtx := some t } (.pushData v a)
  | setData (v : α) (a : Nat) {n : Node α} : sh.mem sh.tail = some n →
      Move t sh (.pushData v a) (sh.store sh.tail (some { n with data := some v })) (.pushNext v a)
  | setNext (v : α) (a : Nat) {n : Node α} : sh.mem sh.tail = some n →
      Move t sh (.pushNext v a) (sh.store sh.tail (some { n with next := some a })) (.pushTail v a)
  | setTail (v : α) (a : Nat) : Move t sh (.pushTail v a) { sh with tail := a, pushed := sh.pushed ++ [v] } .pushUnlock
  | pushUnlock : Move t sh .pushUnlock { sh with tailMtx := none } .pushNotify
  | headLock (c : Caller) : sh.headMtx = none → Move t sh (.headLock c) { sh with headMtx := some t } (.tailLock c)
  | tailLock (c : Caller) : sh.tailMtx = none → Move t sh (.tailLock c) { sh with tailMtx := some t } (.tailRead c)
  | tailRead (c : Caller) : Move t sh (.tailRead c) sh (.tailUnlock c sh.tail sh.contents)
  | foundEmpty (c : Caller) {seen : Nat} (held : List α) : sh.head = some seen →
      Move t sh (.tailUnlock c seen held) { sh with tailMtx := none } (c.onEmpty held)
  | foundData (c : Caller) {seen : Nat} (held : List α) : sh.head ≠ some seen →
      Move t sh (.tailUnlock c seen held) { sh with tailMtx := none } c.onData
  | popData (c : Caller) {a : Nat} {n : Node α} {v : α} : sh.head = some a → sh.mem a = some n → n.data = some v →
      Move t sh (.popData c) sh (.popHead c v)
  | popHead (c : Caller) (v : α) {a : Nat} {n : Node α} : sh.head = some a → sh.mem a = some n →
      Move t sh (.popHead c v)
        { sh.store a (some { n with next := none }) with head := n.next, popped := sh.popped ++ [v] } (.popUnlock c a)
  | popUnlock (c : Caller) (a : Nat) : Move t sh (.popUnlock c a) { sh with headMtx := none } (.popFree c a)
  | popFree (c : Caller) (a : Nat) : Move t sh (.popFree c a) (sh.store a none) .idle
  | tryRefuse (held : List α) : Move t sh (.tryRefuse held) { sh with headMtx := none } .idle
  | emptyUnlock (answer : Bool) : Move t sh (.emptyUnlock answer) { sh with headMtx := none } .idle
  | waitSleep : Move t sh .waitSleep { sh with headMtx := none } (.waitAsleep false)
  | spurious : Move t sh (.waitAsleep false) sh (.waitAsleep true)
  | wake : sh.headMtx = none → Move t sh (.waitAsleep true) { sh with headMtx := some t } (.tailLock .waitPop)

omit [DecidableEq T] in
/-- A thread's own operation is a move. -/
theorem move_of_step {t : T} {sh sh' : Shared T α} {p p' : Pc α} (h : sh.step t p = some (p', sh')) :
    Move t sh p sh' p' := by
  cases p with
  | idle | pushMake v | pushNotify => cases h
  | pushLock v a =>
    obtain ⟨hfree, heq⟩ := Option.ite_none_right_eq_some.mp h
    cases heq
    exact .pushLock v a hfree
  | pushData v a =>
    obtain ⟨n, hn, heq⟩ := Option.map_eq_some_iff.mp h
    cases heq
    exact .setData v a hn
  | pushNext v a =>
    obtain ⟨n, hn, heq⟩ := Option.map_eq_some_iff.mp h
    cases heq
    exact .setNext v a hn
  | pushTail v a => cases h; exact .setTail v a
  | pushUnlock => cases h; exact .pushUnlock
  | headLock c =>
    obtain ⟨hfree, heq⟩ := Option.ite_none_right_eq_some.mp h
    cases heq
    exact .headLock c hfree
  | tailLock c =>
    obtain ⟨hfree, heq⟩ := Option.ite_none_right_eq_some.mp h
    cases heq
    exact .tailLock c hfree
  | tailRead c => cases h; exact .tailRead c
  | tailUnlock c seen held =>
    rw [Shared.step] at h
    cases h
    split
    · rename_i hhead
      exact .foundEmpty c held hhead
    · rename_i hhead
      exact .foundData c held hhead
  | popData c =>
    obtain ⟨a, ha, h⟩ := Option.bind_eq_some_iff.mp h
    obtain ⟨n, hn, h⟩ := Option.bind_eq_some_iff.mp h
    obtain ⟨v, hv, heq⟩ := Option.bind_eq_some_iff.mp h
    cases heq
    exact .popData c ha hn hv
  | popHead c v =>
    obtain ⟨a, ha, h⟩ := Option.bind_eq_some_iff.mp h
    obtain ⟨n, hn, heq⟩ := Option.bind_eq_some_iff.mp h
    cases heq
    exact .popHead c v ha hn
  | popUnlock c a => cases h; exact .popUnlock c a
  | popFree c a => cases h; exact .popFree c a
  | tryRefuse held => cases h; exact .tryRefuse held
  | emptyUnlock answer => cases h; exact .emptyUnlock answer
  | waitSleep => cases h; exact .waitSleep
  | waitAsleep notified =>
    cases notified with
    | false => cases h
    | true =>
      obtain ⟨hfree, heq⟩ := Option.ite_none_right_eq_some.mp h
      cases heq
      exact .wake hfree

/-- Where the mover is. -/
theorem State.move_pc_self (s : State T α) (t : T) (r : Pc α × Shared T α) : (s.move t r).pc t = r.1 :=
  Function.update_self ..

/-- The others stay where they are. -/
theorem State.move_pc_of_ne (s : State T α) {t u : T} (h : u ≠ t) (r : Pc α × Shared T α) : (s.move t r).pc u = s.pc u :=
  Function.update_of_ne h ..

omit [DecidableEq T] in
theorem Pc.eq_of_asleep {p : Pc α} (h : p.asleep = true) : p = .waitAsleep false := by
  cases p with
  | waitAsleep notified =>
    cases notified with
    | false => rfl
    | true => cases h
  | _ => cases h

/-- Every step is a move of the acting thread, or the notification of a `push`. -/
theorem step_cases [Fintype T] {s s' : State T α} {a : Act T α} (h : (system T α).step s a = some s') :
    (∃ p' sh', Move a.thread s.shared (s.pc a.thread) sh' p' ∧ s' = s.move a.thread (p', sh')) ∨
      ∃ waiter pc, a = .notifyOne a.thread waiter ∧ s.pc a.thread = .pushNotify ∧ State.marks s.pc waiter = some pc ∧
        s' = { s with pc := Function.update pc a.thread .idle } := by
  change s.step a = some s' at h
  cases a with
  | call t op =>
    simp only [State.step] at h
    split at h
    · rename_i hp
      cases h
      refine .inl ⟨_, _, ?_, rfl⟩
      simp only [Act.thread, hp]
      exact .call op
    · cases h
  | step t =>
    obtain ⟨⟨p', sh'⟩, hstep, heq⟩ := Option.map_eq_some_iff.mp h
    exact .inl ⟨p', sh', move_of_step hstep, heq.symm⟩
  | make t b =>
    simp only [State.step] at h
    split at h
    · rename_i v hp hfree
      cases h
      refine .inl ⟨_, _, ?_, rfl⟩
      simp only [Act.thread, hp]
      exact .make v hfree
    · cases h
  | notifyOne t waiter =>
    simp only [State.step] at h
    split at h
    · rename_i hp
      obtain ⟨pc, hpc, heq⟩ := Option.map_eq_some_iff.mp h
      exact .inr ⟨waiter, pc, rfl, hp, hpc, heq.symm⟩
    · cases h
  | spurious t =>
    obtain ⟨hp, heq⟩ := Option.ite_none_right_eq_some.mp h
    cases heq
    refine .inl ⟨_, _, ?_, rfl⟩
    simp only [Act.thread, Pc.eq_of_asleep hp]
    exact .spurious

/-- What holds of a thread's program point holds after a notification, if it holds between two calls and of a waiter
that is marked. -/
theorem notified [Fintype T] {Q : Pc α → Prop} {pc pc' : T → Pc α} {waiter : Option T}
    (h : State.marks pc waiter = some pc') (t u : T)
    (hu : Q (pc u)) (hidle : Q .idle) (hwake : Q (.waitAsleep true)) : Q (Function.update pc' t .idle u) := by
  by_cases hut : u = t
  · rw [hut, Function.update_self]
    exact hidle
  · rw [Function.update_of_ne hut]
    cases waiter with
    | none =>
      obtain ⟨-, heq⟩ := Option.ite_none_right_eq_some.mp h
      cases heq
      exact hu
    | some w =>
      obtain ⟨-, heq⟩ := Option.ite_none_right_eq_some.mp h
      cases heq
      by_cases huw : u = w
      · rw [huw, Function.update_self]
        exact hwake
      · rwa [Function.update_of_ne huw]

/-! ## The mutexes -/

/-- The program points inside `head_mtx`. -/
def Pc.holdsHead : Pc α → Bool
  | .tailLock _ | .tailRead _ | .tailUnlock _ _ _ | .popData _ | .popHead _ _ | .popUnlock _ _ => true
  | .tryRefuse _ | .emptyUnlock _ | .waitSleep => true
  | _ => false

/-- The program points inside `tail_mtx`. -/
def Pc.holdsTail : Pc α → Bool
  | .pushData _ _ | .pushNext _ _ | .pushTail _ _ | .pushUnlock | .tailRead _ | .tailUnlock _ _ _ => true
  | _ => false

/-- Only the holder of a mutex is at a program point inside it. -/
structure MutexesHeld (s : State T α) : Prop where
  head : Mutex.Held s.shared.headMtx fun t => (s.pc t).holdsHead
  tail : Mutex.Held s.shared.tailMtx fun t => (s.pc t).holdsTail

omit [DecidableEq T] in
/-- What a move does to `head_mtx`. -/
theorem Move.headMtx {t : T} {sh sh' : Shared T α} {p p' : Pc α} (h : Move t sh p sh' p') :
    (p'.holdsHead = true → p.holdsHead = true ∧ sh'.headMtx = sh.headMtx ∨ sh'.headMtx = some t) ∧
      (p.holdsHead = false → sh'.headMtx = sh.headMtx ∨ sh.headMtx = none) := by
  cases h with
  | call op => cases op <;> simp [Pc.start, Pc.holdsHead]
  | foundEmpty c held _ => cases c <;> simp [Caller.onEmpty, Pc.holdsHead]
  | foundData c held _ => cases c <;> simp [Caller.onData, Pc.holdsHead]
  | _ => simp_all [Pc.holdsHead, Shared.store]

omit [DecidableEq T] in
/-- What a move does to `tail_mtx`. -/
theorem Move.tailMtx {t : T} {sh sh' : Shared T α} {p p' : Pc α} (h : Move t sh p sh' p') :
    (p'.holdsTail = true → p.holdsTail = true ∧ sh'.tailMtx = sh.tailMtx ∨ sh'.tailMtx = some t) ∧
      (p.holdsTail = false → sh'.tailMtx = sh.tailMtx ∨ sh.tailMtx = none) := by
  cases h with
  | call op => cases op <;> simp [Pc.start, Pc.holdsTail]
  | foundEmpty c held _ => cases c <;> simp [Caller.onEmpty, Pc.holdsTail]
  | foundData c held _ => cases c <;> simp [Caller.onData, Pc.holdsTail]
  | _ => simp_all [Pc.holdsTail, Shared.store]

section
variable {inside : Pc α → Bool}

/-- A move keeps a mutex, of which `inside` and `mtx` are the program points and the holder. -/
theorem held_move {mtx : Shared T α → Option T} {s : State T α} {t : T} {p' : Pc α} {sh' : Shared T α}
    (h : Mutex.Held (mtx s.shared) fun u => inside (s.pc u))
    (hmove : (inside p' = true → inside (s.pc t) = true ∧ mtx sh' = mtx s.shared ∨ mtx sh' = some t) ∧
      (inside (s.pc t) = false → mtx sh' = mtx s.shared ∨ mtx s.shared = none)) :
    Mutex.Held (mtx (s.move t (p', sh')).shared) fun u => inside ((s.move t (p', sh')).pc u) := by
  refine h.step (t := t) ?_ ?_ hmove.2
  · intro u hut hu
    rwa [State.move_pc_of_ne s hut] at hu
  · intro ht
    rw [State.move_pc_self] at ht
    exact hmove.1 ht

/-- So does a notification, since neither an idle thread nor a sleeping one is inside. -/
theorem held_notify [Fintype T] {holder : Option T} {pc pc' : T → Pc α} {waiter : Option T} {t : T}
    (h : Mutex.Held holder fun u => inside (pc u)) (hmarks : State.marks pc waiter = some pc')
    (hidle : inside .idle = false)
    (hwake : inside (.waitAsleep true) = false) : Mutex.Held holder fun u => inside (Function.update pc' t .idle u) := by
  intro u
  refine notified (Q := fun p => inside p = true → holder = some u) hmarks t u (h u) ?_ ?_
  · intro hin
    rw [hidle] at hin
    cases hin
  · intro hin
    rw [hwake] at hin
    cases hin

end

/-- It is kept by every step. -/
theorem step_mutexesHeld [Fintype T] {s s' : State T α} {a : Act T α} (hm : MutexesHeld s)
    (h : (system T α).step s a = some s') : MutexesHeld s' := by
  rcases step_cases h with ⟨p', sh', hmove, rfl⟩ | ⟨waiter, pc, -, -, hmarks, rfl⟩
  · exact ⟨held_move hm.head hmove.headMtx, held_move hm.tail hmove.tailMtx⟩
  · exact ⟨held_notify hm.head hmarks rfl rfl, held_notify hm.tail hmarks rfl rfl⟩

/-- By induction it holds in every state. -/
theorem reachable_mutexesHeld [Fintype T] {s : State T α} (h : (system T α).Reachable s) : MutexesHeld s := by
  refine h.invariant ?_ fun s t a _ hs hstep => step_mutexesHeld hs hstep
  rintro s rfl
  constructor
  · intro u hu
    cases hu
  · intro u hu
    cases hu

end ThreadsafeQueue
end HpServer
