import HpServer.Lemmas.SystemJobs
import HpServer.Theorems.Lifecycle

/-!
# No completion is lost

Over every interleaving of the reactor and the workers: each submitted job pushes one done event, a request in flight
has a job that is still to be heard of, and the reactor never waits for events with a done event in the queue and
nothing to wake it.
-/

namespace HpServer

variable {π : Type}

/-- The reactor is reading the eventfd or taking done events out of the queue, or will come to it in this batch. -/
def ReactorPc.Draining (eventFd : Int) : ReactorPc → Prop
  | .batch rest | .accepting rest => ∃ e ∈ rest, e.1 = eventFd
  | .drainRead _ | .drainPop _ => True
  | .tick _ | .wait _ => False

namespace Sys

/-- A done event in the queue will be seen: a worker is about to write the eventfd, the eventfd has been written and
the edge not yet reported, or the reactor is on its way to the queue. -/
def Woken (c : Config π) (s : Sys π) : Prop :=
  s.doneQueue ≠ [] → (∃ j job, s.jobs j = some job ∧ job.stage = .pushed) ∨ (0 < s.eventCounter ∧ s.edge = true) ∨
    s.pc.Draining c.eventFd

/-- A job about to write the eventfd stays so when another job is changed. -/
theorem pushed_setStage {s : Sys π} {j k : Nat} {job job' : Job} {stage : Stage} (hj : s.jobs j = some job)
    (hst : job.stage.answered = false) (hk : s.jobs k = some job') (hk' : job'.stage = .pushed) :
    (s.setStage j job stage).jobs k = some job' := by
  have hne : k ≠ j := by
    rintro rfl
    obtain rfl : job = job' := Option.some.inj (hj.symm.trans hk)
    simp [hk'] at hst
  simp [setStage, hne, hk]

/-- A step that leaves the jobs, the queue and the eventfd alone and stays on its way to the queue. -/
theorem Woken.of_same {c : Config π} {s s' : Sys π} (hs : s.Woken c) (hjobs : s'.jobs = s.jobs)
    (hq : s'.doneQueue = s.doneQueue) (hcount : s'.eventCounter = s.eventCounter) (hedge : s'.edge = s.edge)
    (hpc : s.pc.Draining c.eventFd → s'.pc.Draining c.eventFd) : s'.Woken c := by
  intro hne
  rw [hjobs, hcount, hedge]
  exact (hs (hq ▸ hne)).imp_right (Or.imp_right hpc)

/-- The events after one that is not the eventfd's. -/
theorem draining_rest {eventFd fd : Int} {ev : EpollMask} {rest : List (Int × EpollMask)} {pc : ReactorPc}
    (hpc : pc = .batch ((fd, ev) :: rest)) (hne : fd ≠ eventFd) (h : pc.Draining eventFd) :
    ∃ e ∈ rest, e.1 = eventFd := by
  rw [hpc] at h
  obtain ⟨e, he, hfd⟩ := h
  rcases List.mem_cons.mp he with rfl | he
  · exact absurd hfd hne
  · exact ⟨e, he, hfd⟩

/-- Every step keeps the queue from being forgotten. -/
theorem Moves.keeps_woken {c : Config π} {s s' : Sys π} {l : Label} (hjobs : s.JobsOk) (hs : s.Woken c)
    (h : s.Moves c l s') :
    s'.Woken c := by
  have hidle : ¬ s.pc.Draining c.eventFd → ∀ pc, Woken c { s with pc := pc } := fun hpc pc =>
    hs.of_same rfl rfl rfl rfl fun h => absurd h hpc
  cases h with
  | tickEnd hpc _ => exact hidle (by simp [hpc, ReactorPc.Draining]) _
  | waitFailed hpc => exact hidle (by simp [hpc, ReactorPc.Draining]) _
  | waited hpc _ => exact hidle (by simp [hpc, ReactorPc.Draining]) _
  | woken _ hev => exact fun _ => .inr (.inr hev)
  | batchEnd hpc => exact hidle (by simp [hpc, ReactorPc.Draining]) _
  | listen hpc => exact hs.of_same rfl rfl rfl rfl (draining_rest hpc c.fds_ne)
  | wake => exact fun _ => .inr (.inr trivial)
  | client hpc hne => exact hs.of_same rfl rfl rfl rfl (draining_rest hpc hne)
  | @submit fd ev rest io server record x id req hpc hne =>
    unfold submitProxyJob
    cases io.admitted with
    | true =>
      intro hq
      rcases hs hq with ⟨j, job, hj, hst⟩ | h | h
      · refine .inl ⟨j, job, ?_, hst⟩
        have hlt : j ≠ s.nextJob := by
          rintro rfl
          simp [(hjobs.known _).mpr (Nat.le_refl _)] at hj
        exact (Function.update_of_ne hlt ..).trans hj
      · exact .inr (.inl h)
      · exact .inr (.inr (draining_rest hpc hne h))
    | false => exact fun _ => .inr (.inl ⟨Nat.succ_pos _, rfl⟩)
  | acceptEnd hpc => exact hs.of_same rfl rfl rfl rfl fun h => by rwa [hpc] at h
  | readCounter hpc => exact fun _ => .inr (.inr (by rw [hpc]; trivial))
  | readEnd => exact fun _ => .inr (.inr trivial)
  | popEnd _ hq => exact fun hne => absurd hq hne
  | popFree hpc => exact fun _ => .inr (.inr (by rw [hpc]; trivial))
  | popUsed hpc => exact fun _ => .inr (.inr (by rw [hpc]; trivial))
  | @start j errno job hj hst =>
    intro hq
    refine (hs hq).imp_left ?_
    rintro ⟨k, job', hk, hk'⟩
    exact ⟨k, job', pushed_setStage hj (by rw [hst]; rfl) hk hk', hk'⟩
  | @tunnel j ans job t t' hj hst _ =>
    intro hq
    refine (hs hq).imp_left ?_
    rintro ⟨k, job', hk, hk'⟩
    exact ⟨k, job', pushed_setStage hj (by rw [hst]; rfl) hk hk', hk'⟩
  | @forwarded j r job => exact fun _ => .inl ⟨j, { job with stage := .pushed }, Function.update_self .., rfl⟩
  | @tunnelled j r job => exact fun _ => .inl ⟨j, { job with stage := .pushed }, Function.update_self .., rfl⟩
  | notify => exact fun _ => .inr (.inl ⟨Nat.succ_pos _, rfl⟩)
  | advance | stale | expired | accept | acceptAgain => exact hs.of_same rfl rfl rfl rfl id

/-- What the pool and the `forward_*` calls still owe a job: a queued job can be started, and a job whose call has
returned can push its done event. -/
def CanAnswer (c : Config π) (s : Sys π) (j : Nat) : Stage → Prop
  | .queued => ∀ errno, ∃ s', s.step c (.start j errno) = some (.ok s')
  | .forwarding => ∀ r, ∃ s', s.step c (.push j r) = some (.ok s') ∧ s'.pushed = s.pushed ++ [j]
  | .tunnelling t => ∀ ok, t.pc = .returned ok → ∀ r, ∃ s', s.step c (.push j r) = some (.ok s') ∧
    s'.pushed = s.pushed ++ [j]
  | .pushed | .finished => True

theorem canAnswer {c : Config π} {s : Sys π} {j : Nat} {job : Job} (hj : s.jobs j = some job) :
    s.CanAnswer c j job.stage := by
  cases hst : job.stage with
  | queued => exact fun errno => ⟨_, by simp only [step, stepStart, hj, hst]; rfl⟩
  | forwarding => exact fun r => ⟨_, by simp only [step, stepPush, hj, hst]; rfl, rfl⟩
  | tunnelling t => exact fun ok hpc r => ⟨_, by simp only [step, stepPush, hj, hst, hpc]; rfl, rfl⟩
  | pushed => trivial
  | finished => trivial

end Sys

/-- (a) Every job submitted so far has pushed one done event, or has pushed none and can still push it; the events
pushed are those the reactor has taken out of the queue, in order, and those in it. (b) A request in flight has a job
for its descriptor that is queued or running, or whose done event is in the queue. (c) When the reactor waits for
events with a done event in the queue, the eventfd's counter is not zero and its edge not yet reported, or some worker
is between its push and its write. -/
theorem no_lost_completion (c : Config π) (r : Except Fault (Sys π)) (h : c.system.Reachable r) :
    ∃ s, r = .ok s ∧
      (∀ j < s.nextJob, ∃ job, s.jobs j = some job ∧ s.pushed.count j = (if job.stage.answered then 1 else 0) ∧
        s.CanAnswer c j job.stage) ∧
      (∃ drained, s.pushed = drained ++ s.doneQueue.map DoneEvent.job) ∧
      (∀ fd, s.server.proxyInflight fd = true → ∃ j job, s.jobs j = some job ∧ job.fd = fd ∧
        (job.stage.answered = false ∨ ∃ ev ∈ s.doneQueue, ev.job = j)) ∧
      (∀ ms, s.pc = .wait ms → s.doneQueue ≠ [] →
        (0 < s.eventCounter ∧ s.edge = true) ∨ ∃ j job, s.jobs j = some job ∧ job.stage = .pushed) := by
  obtain ⟨s, rfl, -, hjobs, hwoken⟩ := Config.reachesBy_invariant (I := fun s => s.JobsOk ∧ s.Woken c)
    (fun now => ⟨Sys.jobsOk_init c now, fun hne => absurd rfl hne⟩)
    (fun s s' l hok hI _ hm => ⟨(hm.jobStep hok).jobsOk hI.1, hm.keeps_woken hI.1 hI.2⟩) h
  refine ⟨s, rfl, fun j hj => ?_, hjobs.queued, hjobs.inflight, fun ms hpc hq => ?_⟩
  · obtain ⟨job, hjob⟩ := Option.ne_none_iff_exists'.mp fun hn => Nat.not_le_of_lt hj ((hjobs.known j).mp hn)
    have hcount := hjobs.counted j
    rw [hjob] at hcount
    exact ⟨job, hjob, hcount, Sys.canAnswer hjob⟩
  · rcases hwoken hq with hpushed | hwritten | hdrain
    · exact .inr hpushed
    · exact .inl hwritten
    · simp [hpc, ReactorPc.Draining] at hdrain

/-- A run in which the reactor waits for events while a worker is between its push and its write. -/
theorem no_lost_completion_beforeWrite :
    ∃ s, smallServer.system.Reachable (.ok s) ∧ s.pc = .wait 15000 ∧ s.doneQueue.length = 1 ∧
    s.pushed.count 0 = 1 ∧ s.server.proxyInflight 5 = true ∧ s.eventCounter = 0 ∧
    ((0 < s.eventCounter ∧ s.edge = true) ∨ ∃ j job, s.jobs j = some job ∧ job.stage = .pushed) := by
  obtain ⟨r, hr, hp⟩ := Lts.exists_of_exec (M := smallServer.system)
    (List.flatten [accept5, toWait (node5 1), request5 71, [.start 0 0, .push 0 ⟨true, [1], 0⟩], toWait (node5 2)])
    (fun r => r.toOption.any fun s : Sys Bytes =>
      decide (s.pc = .wait 15000 ∧ s.doneQueue.length = 1 ∧ s.pushed.count 0 = 1 ∧ s.server.proxyInflight 5 = true ∧
        s.eventCounter = 0))
    ⟨0, rfl⟩ (by decide)
  obtain ⟨s, rfl, -, -, -, hs⟩ := no_lost_completion smallServer r hr
  simp only [Except.toOption, Option.any_some, decide_eq_true_eq] at hp
  obtain ⟨hpc, hq, hcount, hinf, hzero⟩ := hp
  exact ⟨s, hr, hpc, hq, hcount, hinf, hzero, hs 15000 hpc (by intro hn; simp [hn] at hq)⟩

end HpServer
