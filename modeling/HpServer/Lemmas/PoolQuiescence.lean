import HpServer.Lemmas.PoolShutdown

/-!
# The pool comes to rest

What a `stop` of either kind has told the workers and the producers when it waits in `join`: the flags are set
(`Told`), and nobody sleeps unmarked or is on its way to sleep because it looked before they were (`Roused`). All this
is for runs with any calls.
-/

namespace HpServer
namespace ThreadPool

variable {T : Type}

/-! ## What one move does -/

/-- The flags of one of the two ways to stop are set. -/
def Told (c : Config T) (sh : Shared T) : Prop :=
  sh.isDone = true ∨ (sh.isStopped = true ∧ ∀ w ∈ c.workers, sh.stopFlag w = true)

namespace Pc

/-- A thread that sleeps unmarked, or will without looking again at a flag that may be set. -/
def heedless (sh : Shared T) (t : T) : Pc T → Bool
  | .workerSleep | .workerAsleep false | .pushSleep _ | .pushAsleep _ false => true
  | .predFlag => !sh.stopFlag t
  | .pushDone _ => !sh.isDone
  | _ => false

/-- A `stop` that has set its flags and not joined yet. -/
def tells : Pc T → Bool
  | .clearPop .stopFirst | .fetchSub (.clear .stopFirst) _ | .storeZero (.clear .stopFirst) _
  | .notifyNotFull (.clear .stopFirst) _ => true
  | .stopLock | .stopNotifyAll | .stopNotifyAllNotFull | .stopUnlock | .stopJoin _ => true
  | _ => false

/-- The points that a move to which is told of in `Course`. -/
def notable (p : Pc T) : Bool :=
  p.tells || p.sleepsOnCv ||
    match p with
    | .stopStoreFlags _ | .exited => true
    | _ => false

end Pc

/-- What a move does to the flags, to `mtx` and to the sleepers. -/
structure Course (c : Config T) (t : T) (sh : Shared T) (p : Pc T) (sh' : Shared T) (p' : Pc T) : Prop where
  done : sh.isDone = true → sh'.isDone = true
  stopped : sh.isStopped = true → sh'.isStopped = true
  flags : ∀ w, sh.stopFlag w = true → sh'.stopFlag w = true
  loop : p'.inLoop = p.inLoop
  mtx : sh'.mtx = sh.mtx ∧ p'.locked = p.locked ∨ sh'.mtx = some t ∧ p'.locked = true ∨ sh'.mtx = none
  heeds : Told c sh → (p.inLoop = true → t ∈ c.workers) → p.heedless sh t = false → p'.heedless sh' t = false
  tells : p'.tells = true → p.tells = true ∨ sh'.isDone = true ∨ p = .stopStoreFlags []
  flagging : ∀ rest, p' = .stopStoreFlags rest →
    sh'.isStopped = true ∧ (rest = c.workers ∨ ∃ w, p = .stopStoreFlags (w :: rest) ∧ sh'.stopFlag w = true)
  asleep : p'.sleepsOnCv = true → p.locked = true
  notified : p' = .stopNotifyAllNotFull → p = .stopNotifyAll
  unlocking : p' = .stopUnlock → p = .stopNotifyAllNotFull
  returned : ∀ w, sh.returned w = true → sh'.returned w = true
  exited : p' = .exited → sh'.returned t = true
  joining : ∀ rest, p' = .stopJoin rest → p = .stopUnlock ∧ rest = c.workers ∨ ∃ w, p = .stopJoin (w :: rest)

/-- A move that sets no flag, and ends where nobody sleeps and no `stop` has told anything yet. -/
theorem Course.quiet {c : Config T} {t : T} {sh sh' : Shared T} {p p' : Pc T} (hdone : sh'.isDone = sh.isDone)
    (hstopped : sh'.isStopped = sh.isStopped) (hflags : sh'.stopFlag = sh.stopFlag)
    (hreturned : sh'.returned = sh.returned)
    (hloop : p'.inLoop = p.inLoop) (hmtx : sh'.mtx = sh.mtx ∧ p'.locked = p.locked ∨ sh'.mtx = some t ∧
      p'.locked = true ∨ sh'.mtx = none)
    (hheeds : p'.heedless sh' t = false) (hp' : p'.notable = false) : Course c t sh p sh' p' := by
  have htells : p'.tells ≠ true ∧ p'.sleepsOnCv ≠ true := by
    simp only [Pc.notable, Bool.or_eq_false_iff] at hp'
    simp [hp'.1]
  refine ⟨?_, ?_, ?_, hloop, hmtx, fun _ _ _ => hheeds, fun h => absurd h htells.1, ?_, fun h => absurd h htells.2,
    ?_, ?_, ?_, ?_, ?_⟩
  · exact fun h => hdone.trans h
  · exact fun h => hstopped.trans h
  · exact fun w h => (congrFun hflags w).trans h
  · rintro rest rfl
    cases hp'
  · rintro rfl
    cases hp'
  · rintro rfl
    cases hp'
  · exact fun w h => (congrFun hreturned w).trans h
  · rintro rfl
    cases hp'
  · rintro rest rfl
    cases hp'

/-! ## The invariant -/

/-- Nobody sleeps unmarked or is on its way to sleep. -/
def Roused (s : State T) : Prop := ∀ u, (s.pc u).heedless s.shared u = false

/-- Where a `stop` has notified everybody. -/
def Pc.notifiedAll : Pc T → Bool
  | .stopUnlock | .stopJoin _ => true
  | _ => false

/-- What holds in every run, whatever is called. -/
structure Stopping (c : Config T) (s : State T) : Prop where
  roles : ∀ t, t ∈ c.workers ↔ (s.pc t).inLoop = true
  mtx : ∀ t, s.shared.mtx = some t → (s.pc t).locked = true
  told : ∀ t, (s.pc t).tells = true → Told c s.shared
  flagging : ∀ t rest, s.pc t = .stopStoreFlags rest →
    s.shared.isStopped = true ∧ rest <:+ c.workers ∧ ∀ w ∈ c.workers, w ∈ rest ∨ s.shared.stopFlag w = true
  notified : ∀ t, s.pc t = .stopNotifyAllNotFull → ∀ u, (s.pc u).sleepsOnCv = false
  roused : ∀ t, (s.pc t).notifiedAll = true → Roused s
  exited : ∀ t, s.pc t = .exited → s.shared.returned t = true
  joining : ∀ t rest, s.pc t = .stopJoin rest → rest <:+ c.workers

/-- A step: the mover's course, and the other threads where they were or newly marked. -/
structure CourseStep (c : Config T) (t : T) (s s' : State T) : Prop where
  held : MutexHeld s
  course : Course c t s.shared (s.pc t) s'.shared (s'.pc t)
  others : ∀ u, u ≠ t → s'.pc u = s.pc u ∨ (s.pc u = .workerAsleep false ∧ s'.pc u = .workerAsleep true) ∨
    ∃ k, s.pc u = .pushAsleep k false ∧ s'.pc u = .pushAsleep k true

/-- A thread that is marked slept, and sleeps. -/
theorem Marked.cases {pc pc' : T → Pc T} (h : Marked pc pc') (u : T) :
    pc' u = pc u ∨ (pc u = .workerAsleep false ∧ pc' u = .workerAsleep true) ∨ ∃ k, pc u = .pushAsleep k false ∧
      pc' u = .pushAsleep k true := by
  rcases h u with heq | ⟨hsleeps, heq⟩
  · exact .inl heq
  · cases hpc : pc u with
    | workerAsleep notified => cases notified <;> simp_all [Pc.sleepsOnCv, Pc.sleepsOnNotFull, Pc.wake]
    | pushAsleep k notified => cases notified <;> simp_all [Pc.sleepsOnCv, Pc.sleepsOnNotFull, Pc.wake]
    | _ => simp [hpc, Pc.sleepsOnCv, Pc.sleepsOnNotFull] at hsleeps

/-- What is heeded once is heeded when more flags are set. -/
theorem Pc.heedless_mono {sh sh' : Shared T} (hdone : sh.isDone = true → sh'.isDone = true)
    (hflags : ∀ w, sh.stopFlag w = true → sh'.stopFlag w = true) {t : T} {p : Pc T} (h : p.heedless sh t = false) :
    p.heedless sh' t = false := by
  unfold heedless at h ⊢
  split at h <;> simp_all

namespace CourseStep

variable {c : Config T} {t : T} {s s' : State T}

/-- What is said of a thread that does not sleep was true of it before, if it is not the mover. -/
theorem eq_of_awake (h : CourseStep c t s s') {u : T} (hu : u ≠ t) (hworker : s'.pc u ≠ .workerAsleep true)
    (hpush : ∀ k, s'.pc u ≠ .pushAsleep k true) : s'.pc u = s.pc u := by
  rcases h.others u hu with heq | ⟨-, heq⟩ | ⟨k, -, heq⟩
  · exact heq
  · exact absurd heq hworker
  · exact absurd heq (hpush k)

/-- What was told remains told. -/
theorem told_mono (h : CourseStep c t s s') (ht : Told c s.shared) : Told c s'.shared := by
  rcases ht with hdone | ⟨hstopped, hflags⟩
  · exact .inl (h.course.done hdone)
  · exact .inr ⟨h.course.stopped hstopped, fun w hw => h.course.flags w (hflags w hw)⟩

/-- The workers are those inside the loop. -/
theorem roles (h : CourseStep c t s s') (hs : Stopping c s) (u : T) : u ∈ c.workers ↔ (s'.pc u).inLoop = true := by
  rw [hs.roles u]
  by_cases hu : u = t
  · rw [hu, h.course.loop]
  · rcases h.others u hu with heq | ⟨hold, heq⟩ | ⟨k, hold, heq⟩
    · rw [heq]
    · rw [hold, heq]
      rfl
    · rw [hold, heq]
      rfl

/-- Whoever has the mutex knows it. -/
theorem mtx (h : CourseStep c t s s') (hs : Stopping c s) (u : T) (hu : s'.shared.mtx = some u) :
    (s'.pc u).locked = true := by
  rcases h.course.mtx with ⟨hsame, hlocked⟩ | ⟨hown, hlocked⟩ | hnone
  · have hin := hs.mtx u (hsame.symm.trans hu)
    by_cases hut : u = t
    · rw [hut, hlocked, ← hut]
      exact hin
    · rcases h.others u hut with heq | ⟨hold, -⟩ | ⟨k, hold, -⟩
      · rwa [heq]
      · rw [hold] at hin
        cases hin
      · rw [hold] at hin
        cases hin
  · obtain rfl : t = u := Option.some.inj (hown.symm.trans hu)
    exact hlocked
  · cases hnone.symm.trans hu

theorem flagging (h : CourseStep c t s s') (hs : Stopping c s) (u : T) (rest : List T)
    (hu : s'.pc u = .stopStoreFlags rest) :
    s'.shared.isStopped = true ∧ rest <:+ c.workers ∧ ∀ w ∈ c.workers, w ∈ rest ∨ s'.shared.stopFlag w = true := by
  by_cases hut : u = t
  · rw [hut] at hu
    obtain ⟨hstopped, hrest⟩ := h.course.flagging rest hu
    refine ⟨hstopped, ?_⟩
    rcases hrest with rfl | ⟨v, hv, hflag⟩
    · exact ⟨List.suffix_refl _, fun w hw => .inl hw⟩
    · obtain ⟨-, hsuffix, hall⟩ := hs.flagging t _ hv
      refine ⟨(List.suffix_cons v rest).trans hsuffix, fun w hw => ?_⟩
      rcases hall w hw with hmem | hset
      · rcases List.mem_cons.mp hmem with rfl | hlater
        · exact .inr hflag
        · exact .inl hlater
      · exact .inr (h.course.flags w hset)
  · have hold := h.eq_of_awake hut (by rw [hu]; simp) (by rw [hu]; simp)
    obtain ⟨hstopped, hsuffix, hall⟩ := hs.flagging u rest (hold.symm.trans hu)
    exact ⟨h.course.stopped hstopped, hsuffix, fun w hw => (hall w hw).imp_right (h.course.flags w)⟩

/-- All is told before the notifications. -/
theorem told (h : CourseStep c t s s') (hs : Stopping c s) (u : T) (hu : (s'.pc u).tells = true) : Told c s'.shared := by
  by_cases hut : u = t
  · rw [hut] at hu
    rcases h.course.tells hu with hbefore | hdone | hflags
    · exact h.told_mono (hs.told t hbefore)
    · exact .inl hdone
    · obtain ⟨hstopped, -, hall⟩ := hs.flagging t [] hflags
      exact h.told_mono (.inr ⟨hstopped, fun w hw => (hall w hw).resolve_left List.not_mem_nil⟩)
  · rcases h.others u hut with heq | ⟨-, heq⟩ | ⟨k, -, heq⟩
    · exact h.told_mono (hs.told u (heq ▸ hu))
    · rw [heq] at hu
      cases hu
    · rw [heq] at hu
      cases hu

/-- Nobody goes to sleep on `cv` while another thread holds `mtx`. -/
theorem notified_of_other (h : CourseStep c t s s') (hs : Stopping c s) {u : T} (hut : u ≠ t)
    (hu : s'.pc u = .stopNotifyAllNotFull) (v : T) :
    (s'.pc v).sleepsOnCv = false := by
  have hold : s.pc u = .stopNotifyAllNotFull :=
    (h.eq_of_awake hut (by rw [hu]; simp) (by rw [hu]; simp)).symm.trans hu
  have hawake := hs.notified u hold v
  by_cases hvt : v = t
  · rw [hvt]
    refine Bool.eq_false_iff.mpr fun hsleeps => ?_
    -- the one that falls asleep holds `mtx`, and so does the `stop`
    have hlocked := h.course.asleep hsleeps
    have hmtx := h.held t hlocked
    have hmtx' := h.held u (by rw [hold]; rfl)
    exact hut (Option.some.inj (hmtx'.symm.trans hmtx))
  · rcases h.others v hvt with heq | ⟨-, heq⟩ | ⟨k, -, heq⟩
    · rwa [heq]
    · rw [heq]
      rfl
    · rw [heq]
      rfl

/-- Who is roused once stays so. -/
theorem roused_mono (h : CourseStep c t s s') (hs : Stopping c s) (htold : Told c s.shared) (hr : Roused s) :
    Roused s' := by
  intro u
  by_cases hut : u = t
  · rw [hut]
    exact h.course.heeds htold (fun hloop => (hs.roles t).mpr hloop) (hr t)
  · rcases h.others u hut with heq | ⟨-, heq⟩ | ⟨k, -, heq⟩
    · rw [heq]
      exact Pc.heedless_mono h.course.done h.course.flags (hr u)
    · rw [heq]
      rfl
    · rw [heq]
      rfl

/-- A worker that has left has returned. -/
theorem exited (h : CourseStep c t s s') (hs : Stopping c s) (u : T) (hu : s'.pc u = .exited) :
    s'.shared.returned u = true := by
  by_cases hut : u = t
  · rw [hut] at hu ⊢
    exact h.course.exited hu
  · have hold := h.eq_of_awake hut (by rw [hu]; simp) (by rw [hu]; simp)
    exact h.course.returned u (hs.exited u (hold.symm.trans hu))

/-- The workers are joined one after another. -/
theorem joining (h : CourseStep c t s s') (hs : Stopping c s) (u : T) (rest : List T) (hu : s'.pc u = .stopJoin rest) :
    rest <:+ c.workers := by
  by_cases hut : u = t
  · rw [hut] at hu
    rcases h.course.joining rest hu with ⟨-, rfl⟩ | ⟨v, hv⟩
    · exact List.suffix_refl _
    · exact (List.suffix_cons v rest).trans (hs.joining t _ hv)
  · have hold := h.eq_of_awake hut (by rw [hu]; simp) (by rw [hu]; simp)
    exact hs.joining u rest (hold.symm.trans hu)

end CourseStep

/-! ## Steps and runs -/

variable [DecidableEq T]

theorem Move.course {c : Config T} {a : Act T} {sh sh' : Shared T} {p p' : Pc T} (h : Move c a sh p sh' p')
    (hstopped : ∀ rest, p = .stopStoreFlags rest → sh.isStopped = true) : Course c a.thread sh p sh' p' := by
  cases h with
  | own h =>
    unfold Shared.step at h
    split at h <;> try simp only [Shared.branch, Shared.lock, Shared.unlock, Shared.tryPop] at h
    all_goals (repeat' split at h)
    all_goals cases h
    all_goals try cases ‹Dequeuer›
    all_goals try cases ‹ClearFrom›
    -- the points that take part field by field, from the tests of the branch
    all_goals first
      | exact .quiet rfl rfl rfl rfl rfl (.inl ⟨rfl, rfl⟩) rfl rfl
      | exact .quiet rfl rfl rfl rfl rfl (.inr (.inl ⟨rfl, rfl⟩)) rfl rfl
      | exact .quiet rfl rfl rfl rfl rfl (.inr (.inr rfl)) rfl rfl
      | (constructor <;> first
          | exact id
          | exact fun _ => id
          | rfl
          | (intro h; cases h; done)
          | (intro _ h; cases h; done)
          | (simp [Shared.afterClear, Pc.inLoop, Pc.locked, Pc.heedless, Pc.tells]; done)
          | simp_all [Told, Pc.inLoop, Pc.heedless, Function.update_apply])
  | notifyNotFull d k =>
    rcases d with _ | _ | _ | _ | _
    case clear.stopFirst => constructor <;> simp [Shared.afterDequeued, Pc.inLoop, Pc.locked, Pc.heedless, Pc.tells,
      Pc.sleepsOnCv]
    all_goals exact .quiet rfl rfl rfl rfl rfl (.inl ⟨rfl, rfl⟩) rfl rfl
  | call op _ _ => rcases op with _ | _ | _ | _ | _ | _ <;> exact .quiet rfl rfl rfl rfl rfl (.inl ⟨rfl, rfl⟩) rfl rfl
  | spurious hp =>
    cases p <;> simp only [Pc.sleepsOnCv, Pc.sleepsOnNotFull, Bool.false_eq_true, or_self] at hp
    all_goals exact .quiet rfl rfl rfl rfl rfl (.inl ⟨rfl, rfl⟩) rfl rfl
  | notify => exact .quiet rfl rfl rfl rfl rfl (.inl ⟨rfl, rfl⟩) rfl rfl
  | notifyAll | notifyAllNotFull => constructor <;> simp [Pc.inLoop, Pc.locked, Pc.heedless, Pc.tells, Pc.sleepsOnCv]

variable [Fintype T]

/-- `cv.notify_all` leaves nobody asleep on `cv`. -/
theorem awake_of_notifyAll {c : Config T} {s s' : State T} {a : Act T} (h : (system c).step s a = some s')
    (hp : s.pc a.thread = .stopNotifyAll) (u : T) : (s'.pc u).sleepsOnCv = false := by
  change s.step c a = some s' at h
  cases a with
  | step t =>
    change s.pc t = _ at hp
    simp only [State.step, State.stepThread, hp, Option.some.injEq] at h
    rw [← h]
    by_cases hu : u = t
    · simp [hu, Pc.sleepsOnCv]
    · simp only [Function.update_of_ne hu, State.marksAll]
      split
      · exact Pc.wake_awake _
      · exact Bool.eq_false_iff.mpr ‹_›
  | call t op => simp [State.step, show s.pc t = _ from hp] at h
  | notifyOne t w => simp [State.step, State.notifyOne, show s.pc t = _ from hp] at h
  | spurious t => simp [State.step, show s.pc t = _ from hp, Pc.sleepsOnCv, Pc.sleepsOnNotFull] at h

/-- `cv_not_full.notify_all` leaves nobody asleep on `cv_not_full`, and wakes nobody else. -/
theorem awake_of_notifyAllNotFull {c : Config T} {s s' : State T} {a : Act T} (h : (system c).step s a = some s')
    (hp : s.pc a.thread = .stopNotifyAllNotFull) (u : T) :
    (s'.pc u).sleepsOnNotFull = false ∧ ((s.pc u).sleepsOnCv = false → (s'.pc u).sleepsOnCv = false) := by
  change s.step c a = some s' at h
  cases a with
  | step t =>
    change s.pc t = _ at hp
    simp only [State.step, State.stepThread, hp, Option.some.injEq] at h
    rw [← h]
    by_cases hu : u = t
    · simp [hu, Pc.sleepsOnCv, Pc.sleepsOnNotFull]
    · simp only [Function.update_of_ne hu, State.marksAll]
      split
      · exact ⟨by cases s.pc u <;> rfl, fun _ => Pc.wake_awake _⟩
      · exact ⟨Bool.eq_false_iff.mpr ‹_›, id⟩
  | call t op => simp [State.step, show s.pc t = _ from hp] at h
  | notifyOne t w => simp [State.step, State.notifyOne, show s.pc t = _ from hp] at h
  | spurious t => simp [State.step, show s.pc t = _ from hp, Pc.sleepsOnCv, Pc.sleepsOnNotFull] at h

/-- What a step does during a stop. -/
theorem courseStep_of_step {c : Config T} {s s' : State T} {a : Act T} (hm : MutexHeld s) (hs : Stopping c s)
    (h : (system c).step s a = some s') : CourseStep c a.thread s s' := by
  obtain ⟨pc, p', sh', hmarked, -, hmove, rfl⟩ := step_move h
  refine ⟨hm, ?_, fun u hu => ?_⟩
  · simpa only [Function.update_self] using hmove.course fun rest hpc => (hs.flagging _ rest hpc).1
  · simpa only [Function.update_of_ne hu] using hmarked.cases u

omit [DecidableEq T] [Fintype T] in
theorem Pc.locked_or_sleeps {sh : Shared T} {t : T} {p : Pc T} (h : p.heedless sh t = true) :
    p.locked = true ∨ p.sleepsOnCv = true ∨ p.sleepsOnNotFull = true := by
  unfold heedless at h
  split at h <;> simp_all [locked, sleepsOnCv, sleepsOnNotFull]

/-- It is kept by every step. -/
theorem step_stopping {c : Config T} {s s' : State T} {a : Act T} (hm : MutexHeld s) (hs : Stopping c s)
    (h : (system c).step s a = some s') : Stopping c s' := by
  have hstep := courseStep_of_step hm hs h
  refine ⟨hstep.roles hs, hstep.mtx hs, hstep.told hs, hstep.flagging hs, ?_, ?_, hstep.exited hs, hstep.joining hs⟩
  · intro t ht u
    by_cases hta : t = a.thread
    · rw [hta] at ht
      exact awake_of_notifyAll h (hstep.course.notified ht) u
    · exact hstep.notified_of_other hs hta ht u
  · intro t ht
    by_cases hta : t = a.thread
    · rw [hta] at ht
      by_cases hunlock : s'.pc a.thread = .stopUnlock
      · -- the last notification: who is inside `mtx` is this `stop`, and nobody is left asleep
        have hbefore := hstep.course.unlocking hunlock
        have hawake := awake_of_notifyAllNotFull h hbefore
        have hm' := step_mutexHeld hm h
        intro u
        refine Bool.eq_false_iff.mpr fun hheedless => ?_
        rcases Pc.locked_or_sleeps hheedless with hlocked | hcv | hnotFull
        · have hu : u = a.thread := Option.some.inj ((hm' u hlocked).symm.trans (hm' a.thread (by rw [hunlock]; rfl)))
          rw [hu, hunlock] at hheedless
          cases hheedless
        · cases ((hawake u).2 (hs.notified _ hbefore u)).symm.trans hcv
        · cases (hawake u).1.symm.trans hnotFull
      · have hjoin : ∃ rest, s'.pc a.thread = .stopJoin rest := by
          cases hpc : s'.pc a.thread <;> simp_all [Pc.notifiedAll]
        obtain ⟨rest, hrest⟩ := hjoin
        have hbefore : (s.pc a.thread).notifiedAll = true ∧ (s.pc a.thread).tells = true := by
          rcases hstep.course.joining rest hrest with ⟨hpc, -⟩ | ⟨w, hpc⟩
          · rw [hpc]
            exact ⟨rfl, rfl⟩
          · rw [hpc]
            exact ⟨rfl, rfl⟩
        exact hstep.roused_mono hs (hs.told _ hbefore.2) (hs.roused _ hbefore.1)
    · rcases hstep.others t hta with heq | ⟨-, heq⟩ | ⟨k, -, heq⟩
      · rw [heq] at ht
        refine hstep.roused_mono hs (hs.told t ?_) (hs.roused t ht)
        cases hpc : s.pc t <;> simp_all [Pc.notifiedAll, Pc.tells]
      · rw [heq] at ht
        cases ht
      · rw [heq] at ht
        cases ht

/-- By induction it holds in every state. -/
theorem reachable_stopping {c : Config T} {s : State T} (h : (system c).Reachable s) : Stopping c s := by
  refine h.invariant ?_ fun s t i hr hs hstep => step_stopping (reachable_mutexHeld hr) hs hstep
  rintro s rfl
  have hpc : ∀ t, (initState c).pc t = .loopPop ∨ (initState c).pc t = .idle := by
    intro t
    by_cases ht : t ∈ c.workers <;> simp [initState, ht]
  refine ⟨?_, ?_, ?_, ?_, ?_, ?_, ?_, ?_⟩
  · intro t
    by_cases ht : t ∈ c.workers <;> simp [initState, ht, Pc.inLoop]
  · intro t ht
    cases ht
  all_goals intro t
  all_goals rcases hpc t with ht | ht <;> rw [ht] <;> simp [Pc.tells, Pc.notifiedAll]

end ThreadPool
end HpServer
