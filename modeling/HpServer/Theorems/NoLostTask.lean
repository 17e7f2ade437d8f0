import HpServer.Lemmas.PoolShutdown
import HpServer.Lemmas.PoolTasks

/-!
# No task is lost or run twice

The pool's promise to its callers, over every run in which clients call `push` and `try_push` and, once, `stop(true)`.
-/

namespace HpServer
namespace ThreadPool

variable {T : Type} [DecidableEq T] [Fintype T]

namespace ShutdownAux

/-- Once the workers are joined no thread has a task in its hands: only a worker takes tasks out. -/
theorem holds_eq_zero {c : Config T} {s : State T} (ho : Orderly c s) (hj : s.shared.joined = true) (k : Nat) :
    total (Pc.holds k) s.pc = 0 := by
  refine total_eq_zero _ _ fun t => ?_
  by_cases hw : t ∈ c.workers
  · rw [ho.returned t (ho.joined hj t hw)]
    rfl
  · have hloop := mt (ho.roles t).mpr hw
    have hplain := ho.plain t
    cases hp : s.pc t <;> simp_all [Pc.inLoop, Pc.plain, Pc.holds, Pc.held]

omit [DecidableEq T] [Fintype T] in
/-- What a joined pool looks like: a worker has left, so the queue is empty and no producer will queue a task. -/
theorem left_of_joined {c : Config T} {s : State T} (ho : Orderly c s) (hc : c.workers ≠ [])
    (hj : s.shared.joined = true) :
    s.shared.isDone = true ∧ s.shared.queue = [] ∧ ∀ u, (s.pc u).enqueuing = false := by
  obtain ⟨w, hw⟩ := List.exists_mem_of_ne_nil _ hc
  exact ho.leaving w (by rw [ho.returned w (ho.joined hj w hw)]; rfl)

omit [Fintype T] in
/-- Only the thread about to queue a task accepts one. -/
theorem accepted_eq {c : Config T} {a : Act T} {sh sh' : Shared T} {p p' : Pc T} (h : Move c a sh p sh' p')
    (he : p.enqueuing = false) : sh'.accepted = sh.accepted := by
  cases h.handles with
  | nothing hacc | takes _ hacc | settles _ hacc => exact hacc
  | queues k hp =>
    rw [hp] at he
    cases he

/-- After the join, no run goes on to accept a task. -/
theorem accepted_of_joined {c : Config T} {s t : State T} (hc : c.workers ≠ [])
    (h : (system c).ReachesBy PushesAndOneStop s) (hj : s.shared.joined = true)
    (ht : ((system c).startingAt s).ReachesBy PushesAndOneStop t) :
    t.shared.joined = true ∧ t.shared.accepted = s.shared.accepted := by
  refine ht.invariant (I := fun t => t.shared.joined = true ∧ t.shared.accepted = s.shared.accepted) ?_ ?_
  · rintro _ rfl
    exact ⟨hj, rfl⟩
  · rintro u v a hu ⟨huj, hacc⟩ hg hstep
    have hr := h.trans hu
    have ho := orderly_of_reachesBy hc hr
    have hts := step_tidyStep (reachable_mutexHeld hr.reachable) ho hc hg hstep
    have hne := (left_of_joined ho hc huj).2.2 a.thread
    refine ⟨hts.tidy.stillJoined huj, ?_⟩
    obtain ⟨pc, p', sh', -, -, hmv, rfl⟩ := step_move hstep
    rw [← hacc]
    exact accepted_eq hmv hne

end ShutdownAux

/-- With at least one worker, in every run in which clients call `push` and `try_push` and, once, `stop(true)`: no
task is executed twice; whenever no producer is between queueing a task and notifying, the workers all sleep without a
notification only if the queue is empty; and once `stop(true)` has joined the workers the queue is empty, every
accepted task has been executed exactly once, and no run goes on to accept another. -/
theorem no_lost_task (c : Config T) (s : State T) (hc : c.workers ≠ []) (h : (system c).ReachesBy PushesAndOneStop s) :
    (∀ k, s.shared.executed.count k ≤ 1) ∧
      ((∀ u, (s.pc u).notifying = false) → (∀ w ∈ c.workers, (s.pc w).sleepsOnCv = true) → s.shared.queue = []) ∧
      (s.shared.joined = true →
        s.shared.queue = [] ∧ (∀ k ∈ s.shared.accepted, s.shared.executed.count k = 1) ∧
          ∀ t, ((system c).startingAt s).ReachesBy PushesAndOneStop t → t.shared.accepted = s.shared.accepted) := by
  have ho := orderly_of_reachesBy hc h
  have hcons := reachable_conserved h.reachable
  have honce : ∀ k, s.shared.accepted.count k ≤ 1 := by
    intro k
    have hoff := hcons.offered k
    split_ifs at hoff <;> omega
  refine ⟨fun k => ?_, fun hn hsl => ?_, fun hj => ?_⟩
  · have hacc := hcons.accepted k
    unfold Shared.places at hacc
    have := honce k
    omega
  · by_contra hq
    rcases ho.awake hq with ⟨w, hw, hs⟩ | ⟨u, hu⟩
    · rw [hsl w hw] at hs
      cases hs
    · rw [hn u] at hu
      cases hu
  · have hq := (ShutdownAux.left_of_joined ho hc hj).2.1
    refine ⟨hq, fun k hk => ?_, fun t ht => (ShutdownAux.accepted_of_joined hc h hj ht).2⟩
    have hacc := hcons.accepted k
    rw [Shared.places, hq, ho.flags.2.2, ShutdownAux.holds_eq_zero ho hj k, List.count_nil] at hacc
    have hpos := List.count_pos_iff.mpr hk
    have := honce k
    omega

instance (s : State T) : (a : Act T) → Decidable (PushesAndOneStop s a)
  | .call _ .push | .call _ .tryPush | .step _ | .notifyOne _ _ | .spurious _ => .isTrue trivial
  | .call _ (.stop true) => inferInstanceAs (Decidable (_ = _))
  | .call _ (.stop false) | .call _ .popTask | .call _ .clearQueue => .isFalse id

/-- A pool of one worker, thread `0`, with room for two tasks; thread `1` is a client. -/
def poolTwo : Config (Fin 2) where
  workers := [0]
  maxQueueSize := 2
  inRange := by decide

/-- The client submits a task, the worker runs it and falls asleep, and `stop(true)` wakes and joins the worker. -/
def submitAndStop : List (Act (Fin 2)) :=
  List.flatten [[.call 1 .tryPush], List.replicate 6 (.step 1),
    [.notifyOne 1 none, .step 1, .step 0, .step 0, .notifyOne 0 none],
    List.replicate 8 (.step 0), [.call 1 (.stop true)], List.replicate 7 (.step 1), List.replicate 4 (.step 0),
    List.replicate 2 (.step 1)]

/-- The promise at the end of a run in which one task was accepted and the workers were joined. -/
theorem no_lost_task_poolTwo : ∃ s : State (Fin 2), (system poolTwo).ReachesBy PushesAndOneStop s ∧
    s.shared.joined = true ∧ s.shared.accepted = [0] ∧ s.shared.queue = [] ∧ s.shared.executed.count 0 = 1 := by
  obtain ⟨s, hr, hs⟩ := Lts.exists_of_execBy (M := system poolTwo) PushesAndOneStop submitAndStop
    (fun s => decide (s.shared.joined = true ∧ s.shared.accepted = [0])) rfl (by decide)
  obtain ⟨hj, hacc⟩ := of_decide_eq_true hs
  have hc : poolTwo.workers ≠ [] := by decide
  obtain ⟨hq, hall, -⟩ := (no_lost_task poolTwo s hc hr).2.2 hj
  exact ⟨s, hr, hj, hacc, hq, hall 0 (by rw [hacc]; exact List.mem_singleton_self 0)⟩

end ThreadPool
end HpServer
