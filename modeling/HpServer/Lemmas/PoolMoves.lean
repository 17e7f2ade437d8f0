import HpServer.ThreadPool
import HpServer.Lib.Count
import HpServer.Lib.Mutex

/-!
# What one step of the pool does

Every step of `ThreadPool.system` is a move of one thread (`Move`: its program point and the shared state), after a
notification may have marked sleeping threads (`Marked`). `step_move` says so once; the lemmas after it say, by cases
on the program point, what a move does to the mutex and to the queue and its counter. The invariants of the pool use
these and never unfold the step.
-/

namespace HpServer
namespace ThreadPool

variable {T : Type} [DecidableEq T]

/-- The thread an action is an action of. -/
def Act.thread : Act T → T
  | .call t _ => t
  | .step t => t
  | .notifyOne t _ => t
  | .spurious t => t

/-- The move of the acting thread in a step: its own operation, the caller's side of a notification, the begin of a
call, or the end of a wait. -/
inductive Move (c : Config T) (a : Act T) (sh : Shared T) : Pc T → Shared T → Pc T → Prop where
  | own {p p' : Pc T} {sh' : Shared T} : sh.step c a.thread p = some (p', sh') → Move c a sh p sh' p'
  | notify : Move c a sh .notify sh .accept
  | notifyNotFull (d : Dequeuer) (k : Nat) :
      Move c a sh (.notifyNotFull d k) (sh.afterDequeued k d).2 (sh.afterDequeued k d).1
  | notifyAll : Move c a sh .stopNotifyAll sh .stopNotifyAllNotFull
  | notifyAllNotFull : Move c a sh .stopNotifyAllNotFull sh .stopUnlock
  | call (op : Op) : a = .call a.thread op → a.thread ∉ c.workers →
    Move c a sh .idle (sh.begin op) (.start sh.nextTask op)
  | spurious {p : Pc T} : p.sleepsOnCv = true ∨ p.sleepsOnNotFull = true → Move c a sh p sh p.wake

/-- `pc'` is `pc` with some threads that slept unmarked now marked. -/
def Marked (pc pc' : T → Pc T) : Prop :=
  ∀ u, pc' u = pc u ∨ (((pc u).sleepsOnCv = true ∨ (pc u).sleepsOnNotFull = true) ∧ pc' u = (pc u).wake)

omit [DecidableEq T] in
theorem Marked.refl (pc : T → Pc T) : Marked pc pc := fun _ => .inl rfl

/-- A notification only marks sleeping threads. -/
theorem marks_marked [Fintype T] {sleeps : Pc T → Bool} {pc pc' : T → Pc T} {w : Option T}
    (hs : ∀ p, sleeps p = true → p.sleepsOnCv = true ∨ p.sleepsOnNotFull = true)
    (h : State.marks sleeps pc w = some pc') : Marked pc pc' := by
  cases w with
  | none =>
    simp only [State.marks, Option.ite_none_right_eq_some, Option.some.injEq] at h
    rw [← h.2]
    exact Marked.refl pc
  | some u =>
    simp only [State.marks, Option.ite_none_right_eq_some, Option.some.injEq] at h
    obtain ⟨hu, rfl⟩ := h
    intro v
    by_cases hv : v = u
    · subst hv
      exact .inr ⟨hs _ hu, Function.update_self ..⟩
    · exact .inl (Function.update_of_ne hv ..)

omit [DecidableEq T] in
theorem marksAll_marked {sleeps : Pc T → Bool} (pc : T → Pc T)
    (hs : ∀ p, sleeps p = true → p.sleepsOnCv = true ∨ p.sleepsOnNotFull = true) :
    Marked pc (State.marksAll sleeps pc) := by
  intro u
  by_cases hu : sleeps (pc u) = true
  · exact .inr ⟨hs _ hu, by simp [State.marksAll, hu]⟩
  · exact .inl (by simp [State.marksAll, hu])

omit [DecidableEq T] in
/-- A thread that does not sleep is not marked. -/
theorem Marked.eq_of_awake {pc pc' : T → Pc T} (h : Marked pc pc') {t : T} (h1 : (pc t).sleepsOnCv = false)
    (h2 : (pc t).sleepsOnNotFull = false) : pc' t = pc t := by
  rcases h t with h | ⟨h, -⟩
  · exact h
  · rcases h with h | h
    · rw [h1] at h; cases h
    · rw [h2] at h; cases h

omit [DecidableEq T] in
/-- What a sleeping thread has alike marked and not marked, marking keeps. -/
theorem Marked.keeps {α : Type} {f : Pc T → α} {pc pc' : T → Pc T} (h : Marked pc pc')
    (hf : ∀ p, f p.wake = f p) (u : T) :
    f (pc' u) = f (pc u) := by
  rcases h u with heq | ⟨-, heq⟩
  · rw [heq]
  · rw [heq, hf]

/-- Every step is the move of the acting thread, after threads that slept may have been marked. -/
theorem step_move [Fintype T] {c : Config T} {s s' : State T} {a : Act T} (h : (system c).step s a = some s') :
    ∃ pc p' sh', Marked s.pc pc ∧ pc a.thread = s.pc a.thread ∧ Move c a s.shared (s.pc a.thread) sh' p' ∧
      s' = { shared := sh', pc := Function.update pc a.thread p' } := by
  change s.step c a = some s' at h
  cases a with
  | call t op =>
    simp only [State.step, Option.ite_none_right_eq_some, Option.some.injEq] at h
    obtain ⟨⟨hi, hw⟩, rfl⟩ := h
    refine ⟨s.pc, _, _, Marked.refl _, rfl, ?_, rfl⟩
    simp only [Act.thread, hi]
    exact .call op rfl hw
  | step t =>
    simp only [State.step, State.stepThread] at h
    split at h
    · rename_i hp
      cases h
      refine ⟨_, _, _, marksAll_marked s.pc fun _ h => .inl h, ?_, ?_, rfl⟩
      · simp [Act.thread, State.marksAll, hp, Pc.sleepsOnCv]
      · simp only [Act.thread, hp]
        exact .notifyAll
    · rename_i hp
      cases h
      refine ⟨_, _, _, marksAll_marked s.pc fun _ h => .inr h, ?_, ?_, rfl⟩
      · simp [Act.thread, State.marksAll, hp, Pc.sleepsOnNotFull]
      · simp only [Act.thread, hp]
        exact .notifyAllNotFull
    · obtain ⟨⟨p', sh'⟩, hm, rfl⟩ := Option.map_eq_some_iff.mp h
      exact ⟨s.pc, p', sh', Marked.refl _, rfl, .own hm, rfl⟩
  | notifyOne t w =>
    simp only [State.step, State.notifyOne] at h
    split at h
    · rename_i hp
      obtain ⟨pc, hm, rfl⟩ := Option.map_eq_some_iff.mp h
      have hmk := marks_marked (fun _ h => .inl h) hm
      refine ⟨pc, _, _, hmk, hmk.eq_of_awake (by simp [Act.thread, hp, Pc.sleepsOnCv])
        (by simp [Act.thread, hp, Pc.sleepsOnNotFull]), ?_, rfl⟩
      simp only [Act.thread, hp]
      exact .notify
    · rename_i d k hp
      obtain ⟨pc, hm, rfl⟩ := Option.map_eq_some_iff.mp h
      have hmk := marks_marked (fun _ h => .inr h) hm
      refine ⟨pc, _, _, hmk, hmk.eq_of_awake (by simp [Act.thread, hp, Pc.sleepsOnCv])
        (by simp [Act.thread, hp, Pc.sleepsOnNotFull]), ?_, rfl⟩
      simp only [Act.thread, hp]
      exact .notifyNotFull d k
    · cases h
  | spurious t =>
    simp only [State.step, Option.ite_none_right_eq_some, Option.some.injEq] at h
    obtain ⟨hp, rfl⟩ := h
    exact ⟨s.pc, _, _, Marked.refl _, rfl, .spurious hp, rfl⟩

/-- About to call `notify_one`, on either condition. -/
def Pc.notifiesOne : Pc T → Bool
  | .notify | .notifyNotFull _ _ => true
  | _ => false

/-- A thread about to notify does nothing else. -/
theorem act_of_notifiesOne [Fintype T] {c : Config T} {s s' : State T} {a : Act T}
    (hp : (s.pc a.thread).notifiesOne = true)
    (h : (system c).step s a = some s') : ∃ waiter, a = .notifyOne a.thread waiter := by
  change s.step c a = some s' at h
  cases a with
  | notifyOne t waiter => exact ⟨waiter, rfl⟩
  | call t op =>
    obtain ⟨⟨hidle, -⟩, -⟩ := Option.ite_none_right_eq_some.mp h
    rw [Act.thread, hidle] at hp
    cases hp
  | spurious t =>
    obtain ⟨hsleeps, -⟩ := Option.ite_none_right_eq_some.mp h
    rw [Act.thread] at hp
    cases hpc : s.pc t <;> simp [hpc, Pc.sleepsOnCv, Pc.sleepsOnNotFull, Pc.notifiesOne] at hsleeps hp
  | step t =>
    rw [Act.thread] at hp
    cases hpc : s.pc t with
    | notify | notifyNotFull d k => simp [State.step, State.stepThread, hpc, Shared.step] at h
    | _ =>
      rw [hpc] at hp
      cases hp

/-! ## The mutex -/

/-- The program points at which a thread holds `mtx`. -/
def Pc.locked : Pc T → Bool
  | .pushCount _ | .pushStopped _ | .pushDone _ | .pushSleep _ | .pushCheckStopped _ | .pushCheckDone _
  | .pushThrow => true
  | .tryCount _ | .tryStopped _ | .tryDone _ | .tryRefuse => true
  | .enqueue _ | .fetchAdd | .notify | .accept => true
  | .predPop | .predDone | .predFlag | .workerSleep | .gotUnlock _ | .exitUnlock => true
  | .stopNotifyAll | .stopNotifyAllNotFull | .stopUnlock => true
  | _ => false

/-- Only the holder of `mtx` is at a program point inside it. -/
def MutexHeld (s : State T) : Prop := ∀ t, (s.pc t).locked = true → s.shared.mtx = some t

omit [DecidableEq T] in
/-- A sleeping thread does not hold `mtx`, marked or not. -/
theorem Pc.wake_not_locked {p : Pc T} (h : p.sleepsOnCv = true ∨ p.sleepsOnNotFull = true) :
    p.wake.locked = false ∧ p.locked = false := by
  cases p <;> simp_all [Pc.sleepsOnCv, Pc.sleepsOnNotFull, Pc.wake, Pc.locked]

/-- A move that ends inside the mutex began there and kept it, or took it when it was free; a move that begins outside
leaves it alone or takes it when it is free. -/
theorem Move.mutex {c : Config T} {a : Act T} {sh sh' : Shared T} {p p' : Pc T} (h : Move c a sh p sh' p') :
    (p'.locked = true → (p.locked = true ∧ sh'.mtx = sh.mtx) ∨ sh'.mtx = some a.thread) ∧
      (p.locked = false → sh'.mtx = sh.mtx ∨ (sh.mtx = none ∧ sh'.mtx = some a.thread)) := by
  cases h with
  | own h =>
    unfold Shared.step at h
    split at h <;> try simp only [Shared.branch, Shared.lock, Shared.unlock, Shared.tryPop] at h
    all_goals (repeat' split at h)
    all_goals cases h
    all_goals simp_all [Pc.locked]
    cases ‹ClearFrom› <;> simp [Shared.afterClear]
  | notify => simp [Pc.locked]
  | notifyNotFull d k => cases d <;> simp [Shared.afterDequeued, Pc.locked]
  | notifyAll => simp [Pc.locked]
  | notifyAllNotFull => simp [Pc.locked]
  | call op _ _ =>
    cases op with
    | stop b => cases b <;> simp [Shared.begin, Pc.start, Pc.locked]
    | _ => simp [Shared.begin, Pc.start, Pc.locked]
  | spurious hp => simp [Pc.wake_not_locked hp]

omit [DecidableEq T] in
/-- A thread that holds `mtx` is not marked. -/
theorem Marked.eq_of_locked {pc pc' : T → Pc T} (h : Marked pc pc') {u : T} (hu : (pc' u).locked = true) :
    pc' u = pc u := by
  rcases h u with he | ⟨hs, he⟩
  · exact he
  · rw [he, (Pc.wake_not_locked hs).1] at hu
    cases hu

/-- No two threads are inside the mutex. -/
theorem step_mutexHeld [Fintype T] {c : Config T} {s s' : State T} {a : Act T} (hm : MutexHeld s)
    (h : (system c).step s a = some s') : MutexHeld s' := by
  obtain ⟨pc, p', sh', hmk, -, hmv, rfl⟩ := step_move h
  refine Mutex.Held.step (t := a.thread) hm ?_ ?_ ?_
  · intro u hut hu
    simp only [Function.update_of_ne hut] at hu
    rwa [hmk.eq_of_locked hu] at hu
  · intro hu
    simp only [Function.update_self] at hu
    exact hmv.mutex.1 hu
  · intro hout
    exact (hmv.mutex.2 hout).imp_right And.left

theorem reachable_mutexHeld [Fintype T] {c : Config T} {s : State T} (h : (system c).Reachable s) : MutexHeld s := by
  refine h.invariant ?_ fun s t i _ hi hs => step_mutexHeld hi hs
  rintro s rfl t ht
  by_cases hw : t ∈ c.workers <;> simp [initState, hw, Pc.locked] at ht

end ThreadPool
end HpServer
