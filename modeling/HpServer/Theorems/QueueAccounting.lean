import HpServer.Lemmas.PoolLedger

/-!
# The pool's queue and its counter

`queued_task_count` is meant to be the length of `task_queue` and to keep it within `max_queue_size_`. It does in
every run whose repairs are exact (`queue_accounting`). The repair of `on_task_dequeued` is not exact in general: a
worker can take a task out and discount it before the producer has counted it, and the store of zero that follows
loses the producer's count or the counts of later producers (`queue_accounting_false`).
-/

namespace HpServer
namespace ThreadPool

variable {T : Type} [DecidableEq T] [Fintype T]

/-- No thread is between its operation on the queue and its operations on the counter. -/
def State.Settled (s : State T) : Prop :=
  ∀ t, (s.pc t).adding = 0 ∧ (s.pc t).subbing = 0 ∧ (s.pc t).repairing = false

/-- The invariant of the counter: with the tasks not yet counted it is, up to the range of `size_t`, the tasks queued
or taken out and not discounted; these stay within the bound; and a caller past its admission check has room. -/
structure Balanced (c : Config T) (s : State T) : Prop where
  range : s.shared.queuedTaskCount < sizeRange
  balance : (s.shared.queuedTaskCount + s.adders) % sizeRange = s.uncounted % sizeRange
  bounded : s.uncounted ≤ c.limit
  admitted : ∀ t, (s.pc t).Admits c.limit s.uncounted s.shared

namespace QueueAux

omit [DecidableEq T] [Fintype T] in
/-- The limit is in the range of the counter. -/
theorem limit_lt (c : Config T) : c.limit < sizeRange := by
  unfold Config.limit
  split
  · decide
  · exact c.inRange

omit [DecidableEq T] in
/-- With no producer about to count, the counter is the number of tasks. -/
theorem count_eq {c : Config T} {s : State T} (hb : Balanced c s) (ha : s.adders = 0) :
    s.shared.queuedTaskCount = s.uncounted := by
  have h := hb.balance
  have hlt : s.uncounted < sizeRange := Nat.lt_of_le_of_lt hb.bounded (limit_lt c)
  rw [ha, Nat.add_zero, Nat.mod_eq_of_lt hb.range, Nat.mod_eq_of_lt hlt] at h
  exact h

/-- At the beginning there is nothing to count. -/
theorem balanced_init (c : Config T) : Balanced c (initState c) := by
  have hpc : ∀ t, (initState c).pc t = .loopPop ∨ (initState c).pc t = .idle := by
    intro t
    by_cases hw : t ∈ c.workers <;> simp [initState, hw]
  have hadd : (initState c).adders = 0 := by
    refine total_eq_zero _ _ fun t => ?_
    rcases hpc t with h | h <;> rw [h] <;> rfl
  have hsub : total Pc.subbing (initState c).pc = 0 := by
    refine total_eq_zero _ _ fun t => ?_
    rcases hpc t with h | h <;> rw [h] <;> rfl
  have hunc : (initState c).uncounted = 0 := by
    unfold State.uncounted
    rw [hsub]
    rfl
  refine ⟨Nat.two_pow_pos 64, by rw [hadd, hunc]; rfl, by rw [hunc]; exact Nat.zero_le _, ?_⟩
  intro t
  rcases hpc t with h | h <;> rw [h] <;> trivial

/-- A step whose repair, if it is one, is exact keeps the invariant. -/
theorem step_balanced {c : Config T} {s s' : State T} {a : Act T} (hm : MutexHeld s) (hb : Balanced c s)
    (hg : RepairExact s a) (h : (system c).step s a = some s') : Balanced c s' := by
  obtain ⟨hl, hadd, hsub⟩ := step_ledger h
  obtain ⟨hrange, hbal, hgrow⟩ := hl.numbers hadd hsub hb.range hb.balance hg
  obtain ⟨pc, p', sh', hmk, hpc, hmv, rfl⟩ := step_move h
  have hcount : (s.pc a.thread).locked = true → (s.pc a.thread).adding = 0 → s.shared.queuedTaskCount = s.uncounted :=
    fun hlk had => count_eq hb (adders_eq_zero hm hlk had)
  have hadm : p'.Admits c.limit s.uncounted sh' := hmv.admits (hb.admitted a.thread) hcount
  refine ⟨hrange, hbal, ?_, ?_⟩
  · rcases hgrow with hle | ⟨he, heq⟩
    · exact Nat.le_trans hle hb.bounded
    · have hroom := hb.admitted a.thread
      cases hp : s.pc a.thread <;> rw [hp] at he hroom <;> simp only [Pc.enqueuing, Bool.false_eq_true] at he
      exact Nat.le_trans (Nat.le_of_eq heq) hroom
  · intro u
    by_cases hu : u = a.thread
    · subst hu
      simp only [Function.update_self]
      rcases hgrow with hle | ⟨he, -⟩
      · exact hadm.mono hle id id
      · exact hmv.admits_of_enqueuing he
    · simp only [Function.update_of_ne hu]
      by_cases hlk : (pc u).locked = true
      · have hpu : pc u = s.pc u := hmk.eq_of_locked hlk
        rw [hpu] at hlk ⊢
        rcases hgrow with hle | ⟨he, -⟩
        · exact (hb.admitted u).mono hle hmv.flags.1 hmv.flags.2
        · have heq := (hm u hlk).symm.trans (hm _ (Pc.locked_of_enqueuing he))
          exact absurd (Option.some.inj heq) hu
      · exact Pc.admits_of_not_locked (by simpa using hlk)

/-- By induction it holds throughout the run. -/
theorem balanced_of_reachesBy {c : Config T} {s : State T} (h : (system c).ReachesBy RepairExact s) : Balanced c s := by
  refine h.invariant ?_ fun s t i hr hi hg hs => step_balanced (reachable_mutexHeld hr.reachable) hi hg hs
  rintro s rfl
  exact balanced_init c

end QueueAux

/-- In every run whose repairs are exact, `queued_task_count` is the length of `task_queue` whenever no thread is
between its operation on the queue and its operations on the counter, and the queue never holds more than
`max_queue_size_` tasks. -/
theorem queue_accounting (c : Config T) (s : State T) (h : (system c).ReachesBy RepairExact s) :
    (s.Settled → s.shared.queuedTaskCount = s.shared.queue.length) ∧ s.shared.queue.length ≤ c.limit := by
  have hb := QueueAux.balanced_of_reachesBy h
  have hlen : s.shared.queue.length ≤ s.uncounted := Nat.le_add_right _ _
  refine ⟨fun hs => ?_, Nat.le_trans hlen hb.bounded⟩
  have hadd : s.adders = 0 := total_eq_zero _ _ fun t => (hs t).1
  have hsub : total Pc.subbing s.pc = 0 := total_eq_zero _ _ fun t => (hs t).2.1
  rw [QueueAux.count_eq hb hadd, State.uncounted, hsub, Nat.add_zero]

/-- A pool of one worker, thread `false`, with room for one task; thread `true` is a client. -/
def poolOne : Config Bool where
  workers := [false]
  maxQueueSize := 1
  inRange := by decide

/-- The client's `try_push` up to its `task_queue.push`. -/
def tryPushUntilQueued : List (Act Bool) :=
  [.call true .tryPush, .step true, .step true, .step true, .step true, .step true]

instance (s : State T) : Decidable s.Settled := inferInstanceAs (Decidable (∀ _, _))

instance (s : State T) (a : Act T) : Decidable (RepairExact s a) := inferInstanceAs (Decidable (_ → _))

/-- The repair is reached and exact when the producer counts its task between the worker's `fetch_sub` and its store. -/
theorem queue_accounting_poolOne : ∃ s : State Bool, (system poolOne).ReachesBy RepairExact s ∧ s.Settled ∧
    s.shared.queuedTaskCount = s.shared.queue.length ∧ s.shared.queue.length ≤ poolOne.limit := by
  obtain ⟨s, hr, hs⟩ := Lts.exists_of_execBy (M := system poolOne) RepairExact
    (List.flatten [tryPushUntilQueued, [.step false, .step false, .step true, .step false]])
      (fun s => decide s.Settled) rfl (by decide)
  have hs := of_decide_eq_true hs
  have h := queue_accounting poolOne s hr
  exact ⟨s, hr, hs, h.1 hs, h.2⟩

/-- The counter drifts and the bound is broken. The worker takes the task out, finds the counter at zero and stores
zero before the producer counts the task: the counter is then one with the queue empty. If the store comes after two
more calls of the producer, it forgets the task they left, and the queue of a pool with room for one holds two. -/
theorem queue_accounting_false :
    ¬(∀ s, (system poolOne).Reachable s → s.Settled → s.shared.queuedTaskCount = s.shared.queue.length) ∧
      ¬(∀ s, (system poolOne).Reachable s → s.shared.queue.length ≤ poolOne.limit) := by
  constructor
  · intro h
    obtain ⟨s, hr, hs⟩ := Lts.exists_of_exec (M := system poolOne)
      (List.flatten [tryPushUntilQueued, [.step false, .step false, .step false, .step true]])
      (fun s => decide (s.Settled ∧ s.shared.queuedTaskCount ≠ s.shared.queue.length)) rfl (by decide)
    obtain ⟨hset, hne⟩ := of_decide_eq_true hs
    exact hne (h s hr hset)
  · intro h
    obtain ⟨s, hr, hs⟩ := Lts.exists_of_exec (M := system poolOne)
      (List.flatten [tryPushUntilQueued, [.step false, .step false, .step true, .notifyOne true none, .step true],
        tryPushUntilQueued, [.step true, .notifyOne true none, .step true, .step false], tryPushUntilQueued])
      (fun s => decide (poolOne.limit < s.shared.queue.length)) rfl (by decide)
    exact absurd (h s hr) (Nat.not_le.mpr (of_decide_eq_true hs))

end ThreadPool
end HpServer
