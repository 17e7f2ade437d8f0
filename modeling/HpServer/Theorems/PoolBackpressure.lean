import HpServer.Lemmas.PoolProducers
import HpServer.Theorems.QueueAccounting

/-!
# Blocked producers

`push` decides to sleep on `cv_not_full` with `mtx` held, on the counter it read; `on_task_dequeued` lowers the
counter and notifies without `mtx`. So the notification can come after a producer has found the queue full and before
it sleeps, and finds nobody to wake.
-/

namespace HpServer
namespace ThreadPool

variable {T : Type} [DecidableEq T] [Fintype T]

/-- The calls are calls of `push` and `try_push`. -/
def Producers (_ : State T) : Act T → Prop
  | .call _ .push | .call _ .tryPush => True
  | .call _ _ => False
  | _ => True

/-- A run of producers and workers in which the notifications are heeded. -/
def HeededRun (c : Config T) (s : State T) (a : Act T) : Prop := Producers s a ∧ Heeded c s a

/-- The program points of a client that calls `push` and `try_push` only. -/
def Pc.producing : Pc T → Bool
  | .idle | .pushLock _ | .pushCount _ | .pushStopped _ | .pushDone _ | .pushSleep _ | .pushAsleep _ _ => true
  | .pushCheckStopped _ | .pushCheckDone _ | .pushThrow => true
  | .tryLock _ | .tryCount _ | .tryStopped _ | .tryDone _ | .tryRefuse => true
  | .enqueue _ | .fetchAdd | .notify | .accept => true
  | _ => false

omit [DecidableEq T] [Fintype T] in
/-- Waking changes no producer into another thread. -/
theorem Pc.producing_wake (p : Pc T) : p.wake.producing = p.producing := by
  cases p <;> rfl

omit [Fintype T] in
/-- In such a run producers remain producers. -/
theorem Move.producing {c : Config T} {a : Act T} {s : State T} {sh' : Shared T} {p p' : Pc T} (hg : Producers s a)
    (hp : p.producing = true) (h : Move c a s.shared p sh' p') : p'.producing = true := by
  cases h with
  | own h =>
    unfold Shared.step at h
    split at h <;> try simp only [Shared.branch, Shared.lock, Shared.unlock, Shared.tryPop] at h
    all_goals (repeat' split at h)
    all_goals cases h
    all_goals first | rfl | cases hp
  | call op ha _ =>
    rw [ha] at hg
    cases op with
    | push | tryPush => rfl
    | popTask | clearQueue => exact hg.elim
    | stop wait => cases wait <;> exact hg.elim
  | spurious hs => rwa [Pc.producing_wake]
  | notify => rfl
  | _ => cases hp

/-- Who is not a worker only produces. -/
theorem producing_of_reachesBy {c : Config T} {s : State T} (h : (system c).ReachesBy Producers s) :
    ∀ t, t ∉ c.workers → (s.pc t).producing = true := by
  refine h.invariant (I := fun s => ∀ t, t ∉ c.workers → (s.pc t).producing = true) ?_ ?_
  · rintro s rfl t ht
    simp only [initState, if_neg ht]
    rfl
  · intro s s' a _ hs hg hstep t ht
    obtain ⟨pc, p', sh', hmk, -, hmv, rfl⟩ := step_move hstep
    by_cases hta : t = a.thread
    · subst hta
      simp only [Function.update_self]
      exact hmv.producing hg (hs _ ht)
    · simp only [Function.update_of_ne hta]
      rw [hmk.keeps Pc.producing_wake t]
      exact hs t ht

/-- By induction it holds throughout the run. -/
theorem relieved_of_reachesBy {c : Config T} {s : State T} (h : (system c).ReachesBy (HeededRun c) s) : Relieved c s := by
  refine h.invariant ?_ fun s t a hr hs hg hstep => step_relieved (reachable_roomy hr.reachable) hs hg.2 hstep
  rintro s rfl ⟨t, ht⟩
  by_cases hw : t ∈ c.workers <;> simp [initState, hw, Pc.heldBack] at ht

/-- Asleep on `cv`, with a notification pending or not. -/
def Pc.asleepOnCv : Pc T → Bool
  | .workerAsleep _ => true
  | _ => false

/-- A producer sleeps unmarked on `cv_not_full` although there is room, nothing is queued and every worker sleeps on
`cv`. -/
structure ProducerForgotten (c : Config T) (s : State T) : Prop where
  producer : ∃ t, (s.pc t).sleepsOnNotFull = true
  room : s.shared.queuedTaskCount < c.limit
  queue : s.shared.queue = []
  workers : ∀ w ∈ c.workers, (s.pc w).asleepOnCv = true

/-- In every run of producers and workers in which each last notification reaches everyone, no producer is forgotten. -/
theorem producer_not_forgotten (c : Config T) (s : State T) (h : (system c).ReachesBy (HeededRun c) s) :
    ¬ProducerForgotten c s := by
  intro hforgotten
  obtain ⟨t, ht⟩ := hforgotten.producer
  rcases relieved_of_reachesBy h ⟨t, Pc.heldBack_of_sleeps ht⟩ with hfull | hqueue | ⟨u, hu⟩
  · exact absurd hforgotten.room (Nat.not_lt.mpr hfull)
  · exact hqueue hforgotten.queue
  · by_cases hw : u ∈ c.workers
    · have hasleep := hforgotten.workers u hw
      cases hpc : s.pc u <;> simp [hpc, Pc.asleepOnCv, Pc.dequeuing] at hasleep hu
    · have hprod := producing_of_reachesBy (h.mono fun _ _ hg => hg.1) u hw
      cases hpc : s.pc u <;> simp [hpc, Pc.producing, Pc.dequeuing] at hprod hu

instance (s : State T) : (a : Act T) → Decidable (Producers s a)
  | .call _ .push | .call _ .tryPush | .step _ | .notifyOne _ _ | .spurious _ => .isTrue trivial
  | .call _ .popTask | .call _ .clearQueue | .call _ (.stop _) => .isFalse id

instance (c : Config T) (s : State T) (a : Act T) : Decidable (Heeded c s a) :=
  inferInstanceAs (Decidable (_ → _ → _ → _ → _))

instance (c : Config T) (s : State T) (a : Act T) : Decidable (HeededRun c s a) := inferInstanceAs (Decidable (_ ∧ _))

/-- The client fills the queue of a pool with room for one task, and its next `push` finds it full. -/
def pushUntilFull : List (Act Bool) :=
  List.flatten [[.call true .push], List.replicate 6 (.step true), [.notifyOne true none, .step true, .call true .push],
    List.replicate 4 (.step true)]

/-- The producer sleeps, and the worker that has taken the task out is about to notify it. -/
theorem producer_not_forgotten_asleep :
    ∃ s : State Bool, (system poolOne).ReachesBy (HeededRun poolOne) s ∧ (s.pc true).sleepsOnNotFull = true ∧
      s.shared.queuedTaskCount < poolOne.limit ∧ s.shared.queue = [] ∧ ¬ProducerForgotten poolOne s := by
  obtain ⟨s, hs, htest⟩ := Lts.exists_of_execBy (M := system poolOne) (HeededRun poolOne)
    (List.flatten [pushUntilFull, [.step true, .step false, .step false]])
    (fun s => (s.pc true).sleepsOnNotFull = true ∧ s.shared.queuedTaskCount < poolOne.limit ∧ s.shared.queue = []) rfl
    (by decide +kernel)
  obtain ⟨hsleeps, hroom, hqueue⟩ := of_decide_eq_true htest
  exact ⟨s, hs, hsleeps, hroom, hqueue, producer_not_forgotten poolOne s hs⟩

/-- The calls are calls of `push`. -/
def PushesOnly (_ : State T) : Act T → Prop
  | .call _ .push => True
  | .call _ _ => False
  | _ => True

instance (s : State T) : (a : Act T) → Decidable (PushesOnly s a)
  | .call _ .push | .step _ | .notifyOne _ _ | .spurious _ => .isTrue trivial
  | .call _ .tryPush | .call _ .popTask | .call _ .clearQueue | .call _ (.stop _) => .isFalse id

/-- The worker takes the task out and notifies while the producer has found the queue full and does not sleep yet.
Then the producer falls asleep, and the worker finds the queue empty and falls asleep too. -/
def relievedTooEarly : List (Act Bool) :=
  List.flatten [pushUntilFull, [.step false, .step false, .notifyOne false none, .step false, .step false,
    .step false, .step true], List.replicate 5 (.step false)]

/-- One producer and one worker, both asleep for good, with room in an empty queue. -/
theorem producer_forgotten :
    ¬∀ s : State Bool, (system poolOne).ReachesBy PushesOnly s →
      ¬(ProducerForgotten poolOne s ∧ ∀ w ∈ poolOne.workers, (s.pc w).sleepsOnCv = true) := by
  intro hnever
  obtain ⟨s, hs, htest⟩ := Lts.exists_of_execBy (M := system poolOne) PushesOnly relievedTooEarly
    (fun s => (s.pc true).sleepsOnNotFull = true ∧ s.shared.queuedTaskCount < poolOne.limit ∧ s.shared.queue = [] ∧
      (∀ w ∈ poolOne.workers, (s.pc w).asleepOnCv = true) ∧ ∀ w ∈ poolOne.workers, (s.pc w).sleepsOnCv = true) rfl
        (by decide +kernel)
  obtain ⟨hsleeps, hroom, hqueue, hworkers, hcv⟩ := of_decide_eq_true htest
  exact hnever s hs ⟨⟨⟨true, hsleeps⟩, hroom, hqueue, hworkers⟩, hcv⟩

end ThreadPool
end HpServer
