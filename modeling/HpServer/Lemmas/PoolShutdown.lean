import HpServer.Lemmas.PoolLedger

/-!
# Workers, sleep and shutdown

The runs of the pool in which clients only call `push`, `try_push` and, once, `stop(true)` (`PushesAndOneStop`).
`Orderly` is the invariant of such runs: a worker that found the queue empty with `mtx` held finds it empty until it
sleeps or leaves; a worker leaves only with `is_done` set and the queue empty, and nothing enters the queue after
that; and a queued task always has a worker that is not asleep, or a producer about to notify one.
-/

namespace HpServer
namespace ThreadPool

variable {T : Type}

/-! ## Program points -/

namespace Pc

/-- The program points of the worker's loop. -/
def inLoop : Pc T → Bool
  | .loopPop | .fetchSub .worker _ | .storeZero .worker _ | .notifyNotFull .worker _ | .runTask _ | .readFlag => true
  | .workerLock | .predPop | .predDone | .predFlag | .workerSleep | .workerAsleep _ | .gotUnlock _ => true
  | .exitUnlock | .exited => true
  | _ => false

/-- The program points of `push`, `try_push`, `stop(true)` and the worker's loop. -/
def plain : Pc T → Bool
  | .popTask | .clearPop .client | .clearPop .stopFirst | .stopLoadStopped false | .stopStoreStopped
  | .stopStoreFlags _ => false
  | .fetchSub d _ | .storeZero d _ | .notifyNotFull d _ => d = .worker
  | _ => true

/-- A worker that holds `mtx` and has found the queue empty. -/
def sawEmpty : Pc T → Bool
  | .predDone | .predFlag | .workerSleep => true
  | _ => false

/-- A worker that returns or has returned. -/
def leaving : Pc T → Bool
  | .exitUnlock | .exited => true
  | _ => false

/-- A producer between its `task_queue.push` and its `cv.notify_one`. -/
def notifying : Pc T → Bool
  | .fetchAdd | .notify => true
  | _ => false

/-- A worker looks at the queue with `mtx` held. -/
theorem locked_of_sawEmpty {p : Pc T} (h : p.sawEmpty = true) : p.locked = true := by
  cases p <;> simp_all [sawEmpty, locked]

/-- A thread that is woken does not sleep on `cv`. -/
theorem wake_awake (p : Pc T) : p.wake.sleepsOnCv = false := by
  cases p <;> rfl

/-- It has no task to put into the queue. -/
theorem not_enqueuing_of_sawEmpty {p : Pc T} (h : p.sawEmpty = true) : p.enqueuing = false := by
  cases p <;> simp_all [sawEmpty, enqueuing]

end Pc

variable [DecidableEq T]

/-- The actions of a run in which clients call `push` and `try_push`, and `stop(true)` once. -/
def PushesAndOneStop (s : State T) : Act T → Prop
  | .call _ .push | .call _ .tryPush => True
  | .call _ (.stop true) => s.shared.stopCalls = 0
  | .call _ _ => False
  | _ => True

/-- What a move of such a run does to the data of `Orderly`. -/
structure Tidy (c : Config T) (t : T) (sh : Shared T) (p : Pc T) (sh' : Shared T) (p' : Pc T) : Prop where
  loop : p'.inLoop = p.inLoop
  plain : p'.plain = true
  flags : sh'.isStopped = sh.isStopped ∧ sh'.stopFlag = sh.stopFlag ∧ sh'.discarded = sh.discarded
  done : sh.isDone = true → sh'.isDone = true
  queue : p.enqueuing = false → sh.queue = [] → sh'.queue = []
  sawEmpty : p'.sawEmpty = true → sh'.queue = [] ∨ p.sawEmpty = true
  leaving : sh.stopFlag t = false → p'.leaving = true → p.leaving = true ∨ (sh.isDone = true ∧ p.sawEmpty = true)
  enqueuing : p'.enqueuing = true → sh.isDone = false
  returned : sh'.returned = sh.returned ∨ (p' = .exited ∧ sh'.returned = Function.update sh.returned t true)
  joining : ∀ rest, p' = .stopJoin rest → rest = c.workers ∨ ∃ w, p = .stopJoin (w :: rest) ∧ sh.returned w = true
  joined : sh'.joined = sh.joined ∨ p = .stopJoin []
  stillJoined : sh.joined = true → sh'.joined = true
  clearing : p' = .clearPop .stopLast → sh'.joined = true
  asleep : p'.sleepsOnCv = true → p.sawEmpty = true ∧ sh'.queue = sh.queue
  notifying : sh'.queue ≠ [] → sh.queue = [] → p'.notifying = true
  notified : p.notifying = true → p = .notify ∨ p'.notifying = true
  stays : p ≠ .exited

/-- The moves of a run with one `stop(true)` are tidy. `clear_queue` is only entered after the join, with an empty
queue. -/
theorem Move.tidy {c : Config T} {a : Act T} {s : State T} {sh' : Shared T} {p p' : Pc T} (hg : PushesAndOneStop s a)
    (hp : p.plain = true) (hq : p = .clearPop .stopLast → s.shared.queue = []) (h : Move c a s.shared p sh' p') :
    Tidy c a.thread s.shared p sh' p' := by
  cases h with
  | own h =>
    unfold Shared.step at h
    split at h <;> try simp only [Shared.branch, Shared.lock, Shared.unlock, Shared.tryPop] at h
    all_goals (repeat' split at h)
    all_goals cases h
    all_goals try cases ‹ClearFrom›
    -- a point outside such runs; or most fields by evaluation, and the rest from the tests of the branch
    all_goals first
      | exact absurd hp Bool.false_ne_true
      | (constructor <;> first
          | rfl
          | (simp [Shared.afterClear, Pc.inLoop, Pc.plain, Pc.sawEmpty, Pc.leaving, Pc.enqueuing, Pc.sleepsOnCv,
            Pc.notifying]; done)
          | simp_all [Pc.inLoop, Pc.plain, Pc.sawEmpty, Pc.leaving, Pc.enqueuing, Pc.notifying])
  | notifyNotFull d k =>
    obtain rfl : d = .worker := by simpa [Pc.plain] using hp
    constructor <;> simp [Shared.afterDequeued, Pc.inLoop, Pc.plain, Pc.sawEmpty, Pc.leaving, Pc.enqueuing,
      Pc.sleepsOnCv, Pc.notifying]
  | call op ha hw =>
    rw [ha] at hg
    cases op with
    | push | tryPush =>
      constructor <;> simp [Shared.begin, Pc.start, Pc.inLoop, Pc.plain, Pc.sawEmpty, Pc.leaving, Pc.enqueuing,
        Pc.sleepsOnCv, Pc.notifying]
    | popTask | clearQueue => exact hg.elim
    | stop b =>
      cases b with
      | false => exact hg.elim
      | true => constructor <;> simp [Shared.begin, Pc.start, Pc.inLoop, Pc.plain, Pc.sawEmpty, Pc.leaving,
        Pc.enqueuing, Pc.sleepsOnCv, Pc.notifying]
  | spurious hs =>
    cases p <;> simp only [Pc.sleepsOnCv, Pc.sleepsOnNotFull, Bool.false_eq_true, or_self] at hs
    all_goals constructor <;> simp_all [Pc.wake, Pc.inLoop, Pc.plain, Pc.sawEmpty, Pc.leaving, Pc.enqueuing,
      Pc.sleepsOnCv, Pc.notifying]
  | _ => constructor <;> simp [Pc.inLoop, Pc.plain, Pc.sawEmpty, Pc.leaving, Pc.enqueuing, Pc.sleepsOnCv, Pc.notifying]

/-! ## The invariant -/

/-- The invariant of the runs with one `stop(true)`. -/
structure Orderly (c : Config T) (s : State T) : Prop where
  roles : ∀ t, t ∈ c.workers ↔ (s.pc t).inLoop = true
  plain : ∀ t, (s.pc t).plain = true
  flags : s.shared.isStopped = false ∧ (∀ t, s.shared.stopFlag t = false) ∧ s.shared.discarded = []
  sawEmpty : ∀ t, (s.pc t).sawEmpty = true → s.shared.queue = []
  leaving : ∀ t, (s.pc t).leaving = true →
    s.shared.isDone = true ∧ s.shared.queue = [] ∧ ∀ u, (s.pc u).enqueuing = false
  returned : ∀ t, s.shared.returned t = true → s.pc t = .exited
  joining : ∀ t rest, s.pc t = .stopJoin rest → ∀ w ∈ c.workers, w ∈ rest ∨ s.shared.returned w = true
  joined : s.shared.joined = true → ∀ w ∈ c.workers, s.shared.returned w = true
  clearing : ∀ t, s.pc t = .clearPop .stopLast → s.shared.joined = true
  awake : s.shared.queue ≠ [] → (∃ w ∈ c.workers, (s.pc w).sleepsOnCv = false) ∨ ∃ u, (s.pc u).notifying = true

/-- A step of such a run: the mover's move is tidy, and the other threads are where they were or are newly marked. -/
structure TidyStep (c : Config T) (t : T) (s s' : State T) : Prop where
  held : MutexHeld s
  tidy : Tidy c t s.shared (s.pc t) s'.shared (s'.pc t)
  others : ∀ u, u ≠ t → s'.pc u = s.pc u ∨
    ((s.pc u).sleepsOnCv = true ∨ (s.pc u).sleepsOnNotFull = true) ∧ s'.pc u = (s.pc u).wake

namespace TidyStep

variable {c : Config T} {t : T} {s s' : State T}

/-- What a sleeping thread has alike marked and not marked, the other threads have as before. -/
theorem keeps {α : Type} (f : Pc T → α) (h : TidyStep c t s s') {u : T} (hu : u ≠ t)
    (hw : f (.workerAsleep true) = f (.workerAsleep false)) (hp : ∀ k, f (.pushAsleep k true) = f (.pushAsleep k false)) :
    f (s'.pc u) = f (s.pc u) := by
  rcases h.others u hu with he | ⟨hs, he⟩
  · rw [he]
  · rw [he]
    cases hpc : s.pc u <;> rw [hpc] at hs <;> simp only [Pc.sleepsOnCv, Pc.sleepsOnNotFull, Bool.false_eq_true,
      or_self] at hs
    case pushAsleep k b =>
      obtain rfl : b = false := by cases b <;> simp at hs ⊢
      exact hp k
    case workerAsleep b =>
      obtain rfl : b = false := by cases b <;> simp at hs ⊢
      exact hw

/-- A thread inside the mutex keeps the others from queueing a task. -/
theorem not_enqueuing (h : TidyStep c t s s') {u v : T} (huv : u ≠ v) (hl : (s.pc u).locked = true) :
    (s.pc v).enqueuing = false := by
  by_contra he
  have hmv := h.held v (Pc.locked_of_enqueuing (by simpa using he))
  exact huv (Option.some.inj ((h.held u hl).symm.trans hmv))

/-- The workers are those inside the loop. -/
theorem roles (h : TidyStep c t s s') (ho : Orderly c s) (u : T) : u ∈ c.workers ↔ (s'.pc u).inLoop = true := by
  rw [ho.roles u]
  by_cases hu : u = t
  · subst hu
    rw [h.tidy.loop]
  · rw [h.keeps Pc.inLoop hu rfl fun _ => rfl]

/-- Only `push` and `stop` are called. -/
theorem plain (h : TidyStep c t s s') (ho : Orderly c s) (u : T) : (s'.pc u).plain = true := by
  by_cases hu : u = t
  · subst hu
    exact h.tidy.plain
  · rw [h.keeps Pc.plain hu rfl fun _ => rfl]
    exact ho.plain u

/-- The pool is not stopped at once, and nothing is discarded. -/
theorem flags (h : TidyStep c t s s') (ho : Orderly c s) :
    s'.shared.isStopped = false ∧ (∀ u, s'.shared.stopFlag u = false) ∧ s'.shared.discarded = [] := by
  obtain ⟨h1, h2, h3⟩ := h.tidy.flags
  rw [h1, h2, h3]
  exact ho.flags

/-- Nothing is put into the queue while a worker that found it empty holds `mtx`. -/
theorem sawEmpty (h : TidyStep c t s s') (ho : Orderly c s) (u : T) (hs : (s'.pc u).sawEmpty = true) :
    s'.shared.queue = [] := by
  by_cases hu : u = t
  · subst hu
    rcases h.tidy.sawEmpty hs with hq | hp
    · exact hq
    · exact h.tidy.queue (Pc.not_enqueuing_of_sawEmpty hp) (ho.sawEmpty u hp)
  · rw [h.keeps Pc.sawEmpty hu rfl fun _ => rfl] at hs
    exact h.tidy.queue (h.not_enqueuing hu (Pc.locked_of_sawEmpty hs)) (ho.sawEmpty u hs)

/-- A worker decides to leave with the mutex held, when no producer is about to queue a task, and after that none gets
there. -/
theorem leaving (h : TidyStep c t s s') (ho : Orderly c s) (u : T) (hl : (s'.pc u).leaving = true) :
    s'.shared.isDone = true ∧ s'.shared.queue = [] ∧ ∀ v, (s'.pc v).enqueuing = false := by
  have hold : s.shared.isDone = true ∧ s.shared.queue = [] ∧ ∀ v, (s.pc v).enqueuing = false := by
    by_cases hu : u = t
    · subst hu
      rcases h.tidy.leaving (ho.flags.2.1 u) hl with hp | ⟨hd, hp⟩
      · exact ho.leaving u hp
      · refine ⟨hd, ho.sawEmpty u hp, fun v => ?_⟩
        by_cases hv : u = v
        · rw [← hv]
          exact Pc.not_enqueuing_of_sawEmpty hp
        · exact h.not_enqueuing hv (Pc.locked_of_sawEmpty hp)
    · rw [h.keeps Pc.leaving hu rfl fun _ => rfl] at hl
      exact ho.leaving u hl
  obtain ⟨hd, hq, hne⟩ := hold
  refine ⟨h.tidy.done hd, h.tidy.queue (hne t) hq, fun v => ?_⟩
  by_cases hv : v = t
  · subst hv
    by_contra he
    rw [h.tidy.enqueuing (by simpa using he)] at hd
    cases hd
  · rw [h.keeps Pc.enqueuing hv rfl fun _ => rfl]
    exact hne v

/-- A worker returns for good. -/
theorem returned_mono (h : TidyStep c t s s') {w : T} (hw : s.shared.returned w = true) :
    s'.shared.returned w = true := by
  rcases h.tidy.returned with he | ⟨-, he⟩
  · rw [he, hw]
  · rw [he]
    by_cases hwt : w = t
    · rw [hwt, Function.update_self]
    · rw [Function.update_of_ne hwt, hw]

/-- Only a thread that has left its loop has returned. -/
theorem returned (h : TidyStep c t s s') (ho : Orderly c s) (u : T) (hr : s'.shared.returned u = true) :
    s'.pc u = .exited := by
  by_cases hu : u = t
  · subst hu
    rcases h.tidy.returned with he | ⟨hp, -⟩
    · rw [he] at hr
      exact absurd (ho.returned u hr) h.tidy.stays
    · exact hp
  · have hold : s.shared.returned u = true := by
      rcases h.tidy.returned with he | ⟨-, he⟩
      · rw [← he, hr]
      · rw [he, Function.update_of_ne hu] at hr
        exact hr
    have hkeep := h.keeps (fun p => p = .exited) hu (by simp) (by simp)
    rw [hkeep]
    exact ho.returned u hold

/-- A worker is joined only when it has returned. -/
theorem joining (h : TidyStep c t s s') (ho : Orderly c s) (u : T) (rest : List T) (hp : s'.pc u = .stopJoin rest) :
    ∀ w ∈ c.workers, w ∈ rest ∨ s'.shared.returned w = true := by
  intro w hw
  by_cases hu : u = t
  · subst hu
    rcases h.tidy.joining rest hp with hall | ⟨v, hv, hret⟩
    · exact .inl (hall ▸ hw)
    · rcases ho.joining u _ hv w hw with hmem | hr
      · rcases List.mem_cons.mp hmem with rfl | hmem
        · exact .inr (h.returned_mono hret)
        · exact .inl hmem
      · exact .inr (h.returned_mono hr)
  · have hkeep := h.keeps (fun p => p = .stopJoin rest) hu (by simp) (by simp)
    rw [hkeep] at hp
    rcases ho.joining u rest hp w hw with hmem | hr
    · exact .inl hmem
    · exact .inr (h.returned_mono hr)

/-- When the joins are over, all workers have returned. -/
theorem joined (h : TidyStep c t s s') (ho : Orderly c s) (hj : s'.shared.joined = true) :
    ∀ w ∈ c.workers, s'.shared.returned w = true := by
  intro w hw
  rcases h.tidy.joined with he | hp
  · rw [he] at hj
    exact h.returned_mono (ho.joined hj w hw)
  · rcases ho.joining t [] hp w hw with hmem | hr
    · cases hmem
    · exact h.returned_mono hr

/-- What is left of the queue is cleared after the joins. -/
theorem clearing (h : TidyStep c t s s') (ho : Orderly c s) (u : T) (hp : s'.pc u = .clearPop .stopLast) :
    s'.shared.joined = true := by
  by_cases hu : u = t
  · subst hu
    exact h.tidy.clearing hp
  · have hkeep := h.keeps (fun p => p = .clearPop .stopLast) hu (by simp) (by simp)
    rw [hkeep] at hp
    exact h.tidy.stillJoined (ho.clearing u hp)

/-- A queued task keeps a worker awake or a producer about to notify: a worker falls asleep only on an empty queue. -/
theorem awake (h : TidyStep c t s s') (ho : Orderly c s)
    (hn : s.pc t = .notify → ∃ w ∈ c.workers, (s'.pc w).sleepsOnCv = false) (hq : s'.shared.queue ≠ []) :
    (∃ w ∈ c.workers, (s'.pc w).sleepsOnCv = false) ∨ ∃ u, (s'.pc u).notifying = true := by
  by_cases hq' : s.shared.queue = []
  · exact .inr ⟨t, h.tidy.notifying hq hq'⟩
  · rcases ho.awake hq' with ⟨w, hw, hs⟩ | ⟨u, hu⟩
    · refine .inl ⟨w, hw, ?_⟩
      by_cases hwt : w = t
      · subst hwt
        by_contra hsl
        exact hq' (ho.sawEmpty w (h.tidy.asleep (by simpa using hsl)).1)
      · rcases h.others w hwt with he | ⟨-, he⟩
        · rw [he, hs]
        · rw [he, Pc.wake_awake]
    · by_cases hut : u = t
      · subst hut
        rcases h.tidy.notified hu with hp | hp
        · exact .inl (hn hp)
        · exact .inr ⟨u, hp⟩
      · rw [← h.keeps Pc.notifying hut rfl fun _ => rfl] at hu
        exact .inr ⟨u, hu⟩

end TidyStep

/-- It holds at the beginning. -/
theorem orderly_init (c : Config T) : Orderly c (initState c) := by
  have hpc : ∀ t, t ∈ c.workers ∧ (initState c).pc t = .loopPop ∨ t ∉ c.workers ∧ (initState c).pc t = .idle := by
    intro t
    by_cases hw : t ∈ c.workers <;> simp [initState, hw]
  constructor
  case awake => exact fun h => absurd rfl h
  case joined => exact fun h => absurd h Bool.false_ne_true
  case returned => exact fun _ h => absurd h Bool.false_ne_true
  case flags => exact ⟨rfl, fun _ => rfl, rfl⟩
  all_goals
    intro t
    rcases hpc t with ⟨hw, hp⟩ | ⟨hw, hp⟩ <;> rw [hp] <;> simp [hw, Pc.inLoop, Pc.plain, Pc.sawEmpty, Pc.leaving]

variable [Fintype T]

/-- `cv.notify_one` leaves a worker that does not sleep, or has a notification pending: it marks one, or none slept. -/
theorem step_notify {c : Config T} {s s' : State T} {a : Act T} (hc : c.workers ≠ [])
    (hroles : ∀ t, t ∈ c.workers ↔ (s.pc t).inLoop = true) (hp : s.pc a.thread = .notify)
    (h : (system c).step s a = some s') : ∃ w ∈ c.workers, (s'.pc w).sleepsOnCv = false := by
  obtain ⟨waiter, ha⟩ := act_of_notifiesOne (by rw [hp]; rfl) h
  rw [ha] at h
  change s.notifyOne a.thread waiter = some s' at h
  simp only [State.notifyOne, hp] at h
  obtain ⟨pc, hmk, rfl⟩ := Option.map_eq_some_iff.mp h
  have hne : ∀ w ∈ c.workers, w ≠ a.thread := by
    rintro w hw rfl
    rw [hroles, hp] at hw
    cases hw
  cases waiter with
  | none =>
    simp only [State.marks, Option.ite_none_right_eq_some, Option.some.injEq] at hmk
    obtain ⟨hall, rfl⟩ := hmk
    obtain ⟨w, hw⟩ := List.exists_mem_of_ne_nil _ hc
    refine ⟨w, hw, ?_⟩
    simp only [Function.update_of_ne (hne w hw)]
    exact hall w
  | some w =>
    simp only [State.marks, Option.ite_none_right_eq_some, Option.some.injEq] at hmk
    obtain ⟨hsl, rfl⟩ := hmk
    have hw : w ∈ c.workers := by
      rw [hroles]
      cases hpw : s.pc w <;> rw [hpw] at hsl <;> first | rfl | cases hsl
    refine ⟨w, hw, ?_⟩
    simp only [Function.update_of_ne (hne w hw), Function.update_self]
    exact Pc.wake_awake _

/-- What a step does in such a run. -/
theorem step_tidyStep {c : Config T} {s s' : State T} {a : Act T} (hm : MutexHeld s) (ho : Orderly c s)
    (hc : c.workers ≠ []) (hg : PushesAndOneStop s a) (h : (system c).step s a = some s') : TidyStep c a.thread s s' := by
  obtain ⟨pc, p', sh', hmk, hpc, hmv, rfl⟩ := step_move h
  have hclear : s.pc a.thread = .clearPop .stopLast → s.shared.queue = [] := by
    intro hp
    obtain ⟨w, hw⟩ := List.exists_mem_of_ne_nil _ hc
    have hex := ho.returned w (ho.joined (ho.clearing _ hp) w hw)
    exact (ho.leaving w (by rw [hex]; rfl)).2.1
  refine ⟨hm, ?_, fun u hu => ?_⟩
  · simp only [Function.update_self]
    exact hmv.tidy hg (ho.plain _) hclear
  · simp only [Function.update_of_ne hu]
    exact hmk u

/-- Every step of such a run keeps the invariant. -/
theorem step_orderly {c : Config T} {s s' : State T} {a : Act T} (hm : MutexHeld s) (ho : Orderly c s)
    (hc : c.workers ≠ []) (hg : PushesAndOneStop s a) (h : (system c).step s a = some s') : Orderly c s' := by
  have ht := step_tidyStep hm ho hc hg h
  exact ⟨ht.roles ho, ht.plain ho, ht.flags ho, ht.sawEmpty ho, ht.leaving ho, ht.returned ho, ht.joining ho,
    ht.joined ho, ht.clearing ho, ht.awake ho fun hp => step_notify hc ho.roles hp h⟩

/-- By induction it holds throughout the run. -/
theorem orderly_of_reachesBy {c : Config T} {s : State T} (hc : c.workers ≠ [])
    (h : (system c).ReachesBy PushesAndOneStop s) : Orderly c s := by
  refine h.invariant ?_ fun s t i hr hi hg hs => step_orderly (reachable_mutexHeld hr.reachable) hi hc hg hs
  rintro s rfl
  exact orderly_init c

end ThreadPool
end HpServer
