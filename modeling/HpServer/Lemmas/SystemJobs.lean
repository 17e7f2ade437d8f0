import HpServer.Lemmas.SystemSteps

/-!
# Jobs and done events

What a step of the server does to the jobs, the queue of done events and the flags of requests in flight (`JobStep`),
and what follows for whole runs: every job pushes one done event, the queue holds the events that were pushed last,
and a request in flight has a job that is still to be heard of (`JobsOk`).
-/

namespace HpServer

variable {π : Type}

/-- The job's done event has been pushed. -/
def Stage.answered : Stage → Bool
  | .pushed | .finished => true
  | _ => false

@[simp] theorem Stage.answered_queued : Stage.queued.answered = false := rfl

@[simp] theorem Stage.answered_pushed : Stage.pushed.answered = true := rfl

@[simp] theorem Stage.answered_finished : Stage.finished.answered = true := rfl

/-- What holds of every job and of one that is put in a job's place holds of every job then. -/
theorem forall_jobs_update {P : Job → Prop} {jobs : Nat → Option Job} (h : ∀ k job, jobs k = some job → P job) (j : Nat)
    {job' : Job} (hj : P job') : ∀ k job, Function.update jobs j (some job') k = some job → P job := by
  intro k job hk
  by_cases hkj : k = j
  · subst hkj
    rw [Function.update_self] at hk
    exact Option.some.inj hk ▸ hj
  · rw [Function.update_of_ne hkj] at hk
    exact h k job hk

namespace Sys

/-- A request is in flight on the descriptor. -/
def inflight (s : Sys π) (fd : Int) : Bool := (s.server.slot fd).inflight

/-- The number of the connection on the descriptor. -/
def connId (s : Sys π) (fd : Int) : Option Nat := (s.server.slot fd).connId

/-- What a step does to the jobs, the done events and the requests in flight. -/
inductive JobStep (env : Env π) (s s' : Sys π) : Prop where
  | same : s'.jobs = s.jobs → s'.nextJob = s.nextJob → s'.doneQueue = s.doneQueue → s'.pushed = s.pushed →
      s'.consumed = s.consumed → (∀ fd, s'.inflight fd = true → s.inflight fd = true) → JobStep env s s'
  | pop (ev : DoneEvent) : s'.jobs = s.jobs → s'.nextJob = s.nextJob → s.doneQueue = ev :: s'.doneQueue →
      s'.pushed = s.pushed →
      (∀ r ∈ s'.consumed, r ∈ s.consumed ∨ (r.event = ev ∧ s.connId ev.clientFd = some r.conn ∧ r.queued = ev.output env ∧
        r.closing ≠ .kept)) →
      (∀ fd, s'.inflight fd = true → s.inflight fd = true ∧ fd ≠ ev.clientFd) → JobStep env s s'
  | advance (j : Nat) (job : Job) (stage : Stage) : s.jobs j = some job →
      s'.jobs = Function.update s.jobs j (some { job with stage := stage }) → stage.answered = job.stage.answered →
      s'.nextJob = s.nextJob → s'.doneQueue = s.doneQueue → s'.pushed = s.pushed → s'.consumed = s.consumed →
      (∀ fd, s'.inflight fd = s.inflight fd) → JobStep env s s'
  | push (job : Job) (ev : DoneEvent) : s.jobs ev.job = some job → job.stage.answered = false → ev.clientFd = job.fd →
      s'.jobs = Function.update s.jobs ev.job (some { job with stage := .pushed }) → s'.nextJob = s.nextJob →
      s'.doneQueue = s.doneQueue ++ [ev] → s'.pushed = s.pushed ++ [ev.job] → s'.consumed = s.consumed →
      (∀ fd, s'.inflight fd = s.inflight fd) → JobStep env s s'
  | submit (job : Job) (evs : List DoneEvent) : s'.jobs = Function.update s.jobs s.nextJob (some job) →
      s.connId job.fd = some job.owner → s.inflight job.fd = false → s'.nextJob = s.nextJob + 1 →
      (job.stage = .queued ∧ evs = [] ∨ job.stage = .finished ∧ ∃ ev, evs = [ev] ∧ ev.job = s.nextJob ∧
        ev.clientFd = job.fd) →
      s'.doneQueue = s.doneQueue ++ evs → s'.pushed = s.pushed ++ evs.map DoneEvent.job → s'.consumed = s.consumed →
      (∀ fd, s'.inflight fd = true → s.inflight fd = true ∨ fd = job.fd) → JobStep env s s'

/-- A slot that is changed to one without a request in flight. -/
theorem inflight_update {s : Sys π} {server : Server π} {fd : Int} {x : Slot π}
    (hslot : server.slot = Function.update s.server.slot fd x)
    (hx : x.inflight = true → (s.server.slot fd).inflight = true)
    {i : Int} (hi : (server.slot i).inflight = true) : s.inflight i = true := by
  rw [hslot] at hi
  by_cases hfd : i = fd
  · subst hfd
    rw [Function.update_self] at hi
    exact hx hi
  · rwa [Function.update_of_ne hfd] at hi

/-- What a step of the server does to the jobs. -/
theorem Moves.jobStep {c : Config π} {s s' : Sys π} {l : Label} (hs : s.Ok) (h : s.Moves c l s') :
    JobStep c.toEnv s s' := by
  cases h with
  | stale _ hslot =>
    exact .same rfl rfl rfl rfl rfl fun fd hfd => by simpa only [inflight, hslot] using hfd
  | expired _ _ hslot => exact .same rfl rfl rfl rfl rfl fun fd => inflight_update hslot nofun
  | client _ _ _ hslot hok hserved _ =>
    refine .same rfl rfl rfl rfl rfl fun fd => inflight_update hslot fun hx => ?_
    cases hserved with
    | closed hnone => simp [(hok.tracked.held.free hnone).1] at hx
    | kept hkept => exact hkept.inflight ▸ hx
  | @submit fd ev rest io server record x id req _ _ hslot hok hid hid' hinf hinf' _ =>
    have hflags : ∀ i, (server.slot i).inflight = true → s.inflight i = true ∨ i = fd := by
      intro i hi
      by_cases hfd : i = fd
      · exact .inr hfd
      · rw [hslot, Function.update_of_ne hfd] at hi
        exact .inl hi
    unfold submitProxyJob
    cases io.admitted with
    | true =>
      exact .submit { owner := id, fd := fd, req := req, stage := .queued } [] rfl hid hinf rfl (.inl ⟨rfl, rfl⟩)
        (List.append_nil _).symm (List.append_nil _).symm rfl hflags
    | false =>
      exact .submit { owner := id, fd := fd, req := req, stage := .finished } [_] rfl hid hinf rfl
        (.inr ⟨rfl, _, rfl, rfl, rfl⟩) rfl rfl rfl hflags
  | accept _ _ hslot _ hinf _ => exact .same rfl rfl rfl rfl rfl fun fd => inflight_update hslot (by simp [hinf])
  | @popFree rest io ev queue _ hq hfree =>
    refine .pop ev rfl rfl hq rfl (fun r hr => .inl hr) fun fd hfd => ⟨hfd, ?_⟩
    rintro rfl
    have hfalse : s.inflight ev.clientFd = false := ((hs.slots _).tracked.held.free (slot_connId_none.mp hfree)).1
    exact Bool.false_ne_true (hfalse.symm.trans hfd)
  | @popUsed rest io ev queue server x id closing _ hq hid hslot _ hinf _ hcl =>
    refine .pop ev rfl rfl hq rfl ?_ fun fd hfd => ⟨inflight_update hslot (by simp [hinf]) hfd, ?_⟩
    · intro r hr
      rcases List.mem_append.mp hr with hr | hr
      · exact .inl hr
      · rw [List.mem_singleton.mp hr]
        exact .inr ⟨rfl, hid, rfl, hcl⟩
    · rintro rfl
      have hfalse : (server.slot ev.clientFd).inflight = false := by rw [hslot, Function.update_self, hinf]
      exact Bool.false_ne_true (hfalse.symm.trans hfd)
  | @start j errno job hj hst =>
    refine .advance j job _ hj rfl ?_ rfl rfl rfl rfl fun _ => rfl
    rw [hst, Job.begun]
    split <;> rfl
  | tunnel hj hst _ => exact .advance _ _ _ hj rfl (by rw [hst]; rfl) rfl rfl rfl rfl fun _ => rfl
  | forwarded hj hst => exact .push _ _ hj (by rw [hst]; rfl) rfl rfl rfl rfl rfl rfl fun _ => rfl
  | tunnelled hj hst _ => exact .push _ _ hj (by rw [hst]; rfl) rfl rfl rfl rfl rfl rfl fun _ => rfl
  | notify hj hst => exact .advance _ _ _ hj rfl (by rw [hst]; rfl) rfl rfl rfl rfl fun _ => rfl
  | _ => exact .same rfl rfl rfl rfl rfl fun _ h => h

/-- Only an accept puts a connection on a descriptor, and only on a free one; the connection gets the next number. -/
theorem Moves.connId {c : Config π} {s s' : Sys π} {l : Label} (h : s.Moves c l s') {fd : Int} {id : Nat}
    (hid : s'.connId fd = some id) :
    s.connId fd = some id ∨ (s.connId fd = none ∧ l = .accept (.client fd .admitted) ∧ id = s.nextConn) := by
  have hupdate : ∀ {server : Server π} {i : Int} {x : Slot π}, server.slot = Function.update s.server.slot i x →
      (server.slot fd).connId = some id → s.connId fd = some id ∨ (fd = i ∧ x.connId = some id) := by
    intro server i x hslot hfd
    rw [hslot] at hfd
    by_cases hi : fd = i
    · subst hi
      rw [Function.update_self] at hfd
      exact .inr ⟨rfl, hfd⟩
    · rw [Function.update_of_ne hi] at hfd
      exact .inl hfd
  cases h with
  | stale _ hslot => exact .inl (by simpa only [Sys.connId, hslot] using hid)
  | expired _ _ hslot =>
    rcases hupdate hslot hid with h | ⟨-, h⟩
    · exact .inl h
    · cases h
  | client _ _ _ hslot _ hserved _ =>
    rcases hupdate hslot hid with h | ⟨rfl, h⟩
    · exact .inl h
    · cases hserved with
      | closed hx => simp [Slot.connId, hx] at h
      | kept hkept => exact .inl (hkept.connId.symm.trans h)
  | @submit i ev rest io server record x id' req _ _ hslot _ hold hnew _ _ _ =>
    have hid' : (server.slot fd).connId = some id := by rwa [Sys.connId, server_submitProxyJob] at hid
    rcases hupdate hslot hid' with h | ⟨rfl, h⟩
    · exact .inl h
    · exact .inl (hold.trans (hnew.symm.trans h))
  | accept _ hfree hslot _ _ hx =>
    rcases hupdate hslot hid with h | ⟨rfl, h⟩
    · exact .inl h
    · rcases hx with ⟨hx, rfl⟩ | hx
      · exact .inr ⟨hfree, rfl, Option.some.inj (h.symm.trans hx)⟩
      · simp [hx] at h
  | popUsed _ _ hold hslot _ _ hx _ =>
    rcases hupdate hslot hid with h | ⟨rfl, h⟩
    · exact .inl h
    · rcases hx with hx | ⟨hx, -⟩
      · simp [hx] at h
      · exact .inl (hold.trans (hx.symm.trans h))
  | _ => exact .inl hid

/-! ## Whole runs -/

/-- The job is still to be heard of: it is queued or running, or its done event is in the queue. -/
def Outstanding (s : Sys π) (j : Nat) (job : Job) : Prop :=
  job.stage.answered = false ∨ ∃ ev ∈ s.doneQueue, ev.job = j

/-- The accounts of the jobs: jobs are numbered without gaps; each has pushed one done event or is still to push it;
the queue holds the events pushed last, each of the descriptor of its job; and a request in flight has a job that is
still to be heard of. -/
structure JobsOk (s : Sys π) : Prop where
  known : ∀ j, s.jobs j = none ↔ s.nextJob ≤ j
  counted : ∀ j, s.pushed.count j = if (s.jobs j).any (fun job => job.stage.answered) then 1 else 0
  queued : ∃ drained, s.pushed = drained ++ s.doneQueue.map DoneEvent.job
  events : ∀ ev ∈ s.doneQueue, ∃ job, s.jobs ev.job = some job ∧ job.fd = ev.clientFd
  inflight : ∀ fd, s.inflight fd = true → ∃ j job, s.jobs j = some job ∧ job.fd = fd ∧ s.Outstanding j job

/-- It holds at the beginning, when there are none. -/
theorem jobsOk_init (c : Config π) (now : Int) : (c.initSys now).JobsOk where
  known := fun j => ⟨fun _ => Nat.zero_le j, fun _ => rfl⟩
  counted := fun _ => rfl
  queued := ⟨[], rfl⟩
  events := nofun
  inflight := nofun

/-- A job keeps its descriptor, its owner and its request whatever becomes of others. -/
theorem jobs_update {s s' : Sys π} {j : Nat} {job : Job} {stage : Stage} (hj : s.jobs j = some job)
    (hjobs : s'.jobs = Function.update s.jobs j (some { job with stage := stage })) {k : Nat} {job' : Job}
    (hk : s.jobs k = some job') : ∃ stage', s'.jobs k = some { job' with stage := stage' } := by
  by_cases hjk : k = j
  · subst hjk
    obtain rfl : job = job' := Option.some.inj (hj.symm.trans hk)
    exact ⟨stage, by rw [hjobs, Function.update_self]⟩
  · exact ⟨job'.stage, by rw [hjobs, Function.update_of_ne hjk, hk]⟩

namespace JobStep

variable {env : Env π} {s s' : Sys π}

/-- A step keeps every job, up to its stage; an answered job stays answered. -/
theorem job (hs : s.JobsOk) (h : JobStep env s s') {k : Nat} {job : Job} (hk : s.jobs k = some job) :
    ∃ stage, s'.jobs k = some { job with stage := stage } := by
  cases h with
  | same hjobs => exact ⟨job.stage, by rw [hjobs, hk]⟩
  | pop ev hjobs => exact ⟨job.stage, by rw [hjobs, hk]⟩
  | advance j job' stage hj hjobs => exact jobs_update hj hjobs hk
  | push job' ev hj _ _ hjobs => exact jobs_update hj hjobs hk
  | submit job' evs hjobs =>
    have hne : k ≠ s.nextJob := by
      rintro rfl
      simp [(hs.known _).mpr (Nat.le_refl _)] at hk
    exact ⟨job.stage, by rw [hjobs, Function.update_of_ne hne, hk]⟩

/-- The jobs are those with a number below the next. -/
theorem known (hs : s.JobsOk) (h : JobStep env s s') (k : Nat) : s'.jobs k = none ↔ s'.nextJob ≤ k := by
  have hupdate : ∀ {j : Nat} {job job' : Job}, s.jobs j = some job →
      (Function.update s.jobs j (some job') k = none ↔ s.nextJob ≤ k) := by
    intro j job job' hj
    rw [← hs.known k]
    by_cases hjk : k = j
    · subst hjk
      simp [hj]
    · rw [Function.update_of_ne hjk]
  cases h with
  | same hjobs hn => rw [hjobs, hn, hs.known]
  | pop ev hjobs hn => rw [hjobs, hn, hs.known]
  | advance j job stage hj hjobs _ hn => rw [hjobs, hn, hupdate hj]
  | push job ev hj _ _ hjobs hn => rw [hjobs, hn, hupdate hj]
  | submit job evs hjobs _ _ hn =>
    rw [hjobs, hn]
    by_cases hk : k = s.nextJob
    · subst hk
      simp
    · rw [Function.update_of_ne hk, hs.known]
      omega

/-- A job that is answered has pushed one event, any other none. -/
theorem counted (hs : s.JobsOk) (h : JobStep env s s') (k : Nat) :
    s'.pushed.count k = if (s'.jobs k).any (fun job => job.stage.answered) then 1 else 0 := by
  have hcount := hs.counted k
  cases h with
  | same hjobs _ _ hp => rw [hjobs, hp, hcount]
  | pop ev hjobs _ _ hp => rw [hjobs, hp, hcount]
  | advance j job stage hj hjobs hst _ _ hp =>
    rw [hjobs, hp, hcount]
    by_cases hjk : k = j
    · subst hjk
      simp [hj, hst]
    · rw [Function.update_of_ne hjk]
  | push job ev hj hun _ hjobs _ _ hp =>
    rw [hjobs, hp, List.count_append, hcount]
    by_cases hjk : k = ev.job
    · subst hjk
      simp [hj, hun]
    · simp [hjk, Ne.symm hjk]
  | submit job evs hjobs _ _ _ hevs _ hp =>
    rw [hjobs, hp, List.count_append, hcount]
    by_cases hjk : k = s.nextJob
    · subst hjk
      rw [(hs.known _).mpr (Nat.le_refl _), Function.update_self]
      rcases hevs with ⟨hst, rfl⟩ | ⟨hst, ev, rfl, hj, -⟩
      · simp [hst]
      · simp [hst, hj]
    · rw [Function.update_of_ne hjk]
      rcases hevs with ⟨-, rfl⟩ | ⟨-, ev, rfl, hj, -⟩
      · simp
      · simp [hj, Ne.symm hjk]

/-- What is in the queue was pushed last. -/
theorem queued (hs : s.JobsOk) (h : JobStep env s s') :
    ∃ drained, s'.pushed = drained ++ s'.doneQueue.map DoneEvent.job := by
  obtain ⟨drained, hd⟩ := hs.queued
  cases h with
  | same _ _ hq hp => exact ⟨drained, by rw [hq, hp, hd]⟩
  | pop ev _ _ hq hp =>
    refine ⟨drained ++ [ev.job], ?_⟩
    rw [hp, hd, hq]
    simp
  | advance j job stage _ _ _ _ hq hp => exact ⟨drained, by rw [hq, hp, hd]⟩
  | push job ev _ _ _ _ _ hq hp => exact ⟨drained, by rw [hq, hp, hd]; simp⟩
  | submit job evs _ _ _ _ _ hq hp => exact ⟨drained, by rw [hq, hp, hd]; simp⟩

theorem events (hs : s.JobsOk) (h : JobStep env s s') :
    ∀ ev ∈ s'.doneQueue, ∃ job, s'.jobs ev.job = some job ∧ job.fd = ev.clientFd := by
  have hold : ∀ ev ∈ s.doneQueue, ∃ job, s'.jobs ev.job = some job ∧ job.fd = ev.clientFd := by
    intro ev hev
    obtain ⟨job, hj, hfd⟩ := hs.events ev hev
    obtain ⟨stage, hj'⟩ := h.job hs hj
    exact ⟨_, hj', hfd⟩
  intro ev hev
  cases h with
  | same _ _ hq => exact hold ev (hq ▸ hev)
  | pop ev' _ _ hq => exact hold ev (hq ▸ List.mem_cons_of_mem _ hev)
  | advance j job stage _ _ _ _ hq => exact hold ev (hq ▸ hev)
  | push job ev' hj _ hfd hjobs _ hq =>
    rw [hq] at hev
    rcases List.mem_append.mp hev with hev | hev
    · exact hold ev hev
    · rw [List.mem_singleton.mp hev]
      exact ⟨{ job with stage := .pushed }, by rw [hjobs, Function.update_self], hfd.symm⟩
  | submit job evs hjobs _ _ _ hevs hq =>
    rw [hq] at hev
    rcases List.mem_append.mp hev with hev | hev
    · exact hold ev hev
    · rcases hevs with ⟨-, rfl⟩ | ⟨-, ev', rfl, hj, hfd⟩
      · cases hev
      · rw [List.mem_singleton.mp hev]
        exact ⟨job, by rw [hjobs, hj, Function.update_self], hfd.symm⟩

/-- A done event stays in the queue, unless the step takes it out and with it the flag of its descriptor. -/
theorem stays (h : JobStep env s s') {ev : DoneEvent} (hev : ev ∈ s.doneQueue) :
    ev ∈ s'.doneQueue ∨ ∀ fd, s'.inflight fd = true → fd ≠ ev.clientFd := by
  cases h with
  | same _ _ hq => exact .inl (hq ▸ hev)
  | pop ev' _ _ hq _ _ hinf =>
    rw [hq] at hev
    rcases List.mem_cons.mp hev with rfl | hev
    · exact .inr fun fd hfd => (hinf fd hfd).2
    · exact .inl hev
  | advance j job stage _ _ _ _ hq => exact .inl (hq ▸ hev)
  | push job ev' _ _ _ _ _ hq => exact .inl (hq ▸ List.mem_append_left _ hev)
  | submit job evs _ _ _ _ _ hq => exact .inl (hq ▸ List.mem_append_left _ hev)

/-- A job that has not pushed its done event still has not, or the event is in the queue. -/
theorem unanswered (hs : s.JobsOk) (h : JobStep env s s') {k : Nat} {job : Job} (hk : s.jobs k = some job)
    (hun : job.stage.answered = false) :
    ∃ stage, s'.jobs k = some { job with stage := stage } ∧ s'.Outstanding k { job with stage := stage } := by
  have hsame : s'.jobs k = some job →
      ∃ stage, s'.jobs k = some { job with stage := stage } ∧ s'.Outstanding k { job with stage := stage } :=
    fun hk' => ⟨job.stage, hk', .inl hun⟩
  cases h with
  | same hjobs => exact hsame (by rw [hjobs, hk])
  | pop ev hjobs => exact hsame (by rw [hjobs, hk])
  | advance j job' stage hj hjobs hst =>
    by_cases hkj : k = j
    · subst hkj
      obtain rfl : job = job' := Option.some.inj (hk.symm.trans hj)
      exact ⟨stage, by rw [hjobs, Function.update_self], .inl (hst.trans hun)⟩
    · exact hsame (by rw [hjobs, Function.update_of_ne hkj, hk])
  | push job' ev hj _ _ hjobs _ hq =>
    by_cases hkj : k = ev.job
    · subst hkj
      obtain rfl : job = job' := Option.some.inj (hk.symm.trans hj)
      exact ⟨.pushed, by rw [hjobs, Function.update_self], .inr ⟨ev, by simp [hq], rfl⟩⟩
    · exact hsame (by rw [hjobs, Function.update_of_ne hkj, hk])
  | submit job' evs hjobs =>
    have hne : k ≠ s.nextJob := by
      rintro rfl
      simp [(hs.known _).mpr (Nat.le_refl _)] at hk
    exact hsame (by rw [hjobs, Function.update_of_ne hne, hk])

theorem inflight_old (hs : s.JobsOk) (h : JobStep env s s') {fd : Int} (hfd' : s'.inflight fd = true)
    (hfd : s.inflight fd = true) : ∃ j job, s'.jobs j = some job ∧ job.fd = fd ∧ s'.Outstanding j job := by
  obtain ⟨j, job, hj, rfl, hun | ⟨ev, hev, rfl⟩⟩ := hs.inflight fd hfd
  · obtain ⟨stage, hj', ho⟩ := h.unanswered hs hj hun
    exact ⟨j, _, hj', rfl, ho⟩
  · obtain ⟨job', hjob', hclient⟩ := hs.events ev hev
    obtain rfl : job = job' := Option.some.inj (hj.symm.trans hjob')
    obtain ⟨stage, hj'⟩ := h.job hs hj
    rcases h.stays hev with hstay | hgone
    · exact ⟨ev.job, _, hj', rfl, .inr ⟨ev, hstay, rfl⟩⟩
    · exact absurd hclient (hgone job.fd hfd')

theorem inflight_job (hs : s.JobsOk) (h : JobStep env s s') (fd : Int) (hfd' : s'.inflight fd = true) :
    ∃ j job, s'.jobs j = some job ∧ job.fd = fd ∧ s'.Outstanding j job := by
  have hold := h.inflight_old hs hfd'
  cases h with
  | same _ _ _ _ _ hinf => exact hold (hinf fd hfd')
  | pop ev _ _ _ _ _ hinf => exact hold (hinf fd hfd').1
  | advance j job stage _ _ _ _ _ _ _ hinf => exact hold (hinf fd ▸ hfd')
  | push job ev _ _ _ _ _ _ _ _ hinf => exact hold (hinf fd ▸ hfd')
  | submit job evs hjobs _ _ _ hevs hq _ _ hinf =>
    rcases hinf fd hfd' with hfd | rfl
    · exact hold hfd
    · refine ⟨s.nextJob, job, by rw [hjobs, Function.update_self], rfl, ?_⟩
      rcases hevs with ⟨hst, -⟩ | ⟨-, ev, rfl, hj, -⟩
      · exact .inl (by rw [hst]; rfl)
      · exact .inr ⟨ev, by simp [hq], hj⟩

/-- Every step keeps the accounts. -/
theorem jobsOk (hs : s.JobsOk) (h : JobStep env s s') : s'.JobsOk :=
  ⟨h.known hs, h.counted hs, h.queued hs, h.events hs, h.inflight_job hs⟩

end JobStep

/-- The accounts are right in every state a run reaches. -/
theorem reachable_jobsOk {c : Config π} {P : Except Fault (Sys π) → Label → Prop} {r : Except Fault (Sys π)}
    (h : c.system.ReachesBy P r) : ∃ s, r = .ok s ∧ s.Ok ∧ s.JobsOk :=
  Config.reachesBy_invariant (jobsOk_init c) (fun _ _ _ hok hj _ hm => (hm.jobStep hok).jobsOk hj) h

end Sys
end HpServer
