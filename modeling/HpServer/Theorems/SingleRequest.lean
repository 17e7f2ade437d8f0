import HpServer.Lemmas.SystemJobs
import HpServer.Theorems.Lifecycle

/-!
# One request per connection

A connection is meant to have one request forwarded and then to be closed. The flag of the request in flight keeps a
second one from being read, but it is taken back when the response is queued, and a connection that still waits for
its flush is read like any other: a second request is then forwarded. In runs in which no connection is read while it
waits for its flush (`readsNoWaiting`), no connection submits two jobs.
-/

namespace HpServer

open EpollMask

variable {π : Type}

/-- The event at hand does not have a connection read that is to be closed after its flush. -/
def readsNoWaiting : Except Fault (Sys π) → Label → Bool
  | .ok s, .event _ =>
    match s.pc with
    | .batch ((fd, ev) :: _) => !(s.server.closeAfterFlush fd && decide ev.Readable)
    | _ => true
  | _, _ => true

namespace Sys

/-- The connection on the descriptor is to be closed after its flush. -/
def closeAfterFlush (s : Sys π) (fd : Int) : Bool := (s.server.slot fd).closeAfterFlush

/-- A connection is busy once it has submitted a job: the job is in flight, or what is left to do is the flush. -/
def Busy (s : Sys π) (id : Nat) : Prop := ∀ fd, s.connId fd = some id → s.inflight fd = true ∨ s.closeAfterFlush fd = true

/-- Connections have numbers of their own; and no two jobs are of one connection, which is busy from its job on. -/
structure Single (s : Sys π) : Prop where
  numbered : ∀ fd id, s.connId fd = some id → id < s.nextConn
  distinct : ∀ fd fd' id, s.connId fd = some id → s.connId fd' = some id → fd = fd'
  owned : ∀ j job, s.jobs j = some job → job.owner < s.nextConn ∧ s.Busy job.owner
  once : ∀ j k job job', s.jobs j = some job → s.jobs k = some job' → job.owner = job'.owner → j = k

theorem single_init (c : Config π) (now : Int) : (c.initSys now).Single where
  numbered := fun _ _ hid => by cases hid
  distinct := fun _ _ _ hid => by cases hid
  owned := fun _ _ hj => by cases hj
  once := fun _ _ _ _ hj => by cases hj

/-- Numbers are given out in order, one to each client that is accepted. -/
theorem Moves.nextConn {c : Config π} {s s' : Sys π} {l : Label} (h : s.Moves c l s') :
    s.nextConn ≤ s'.nextConn ∧ ∀ fd adm, l = .accept (.client fd adm) → s'.nextConn = s.nextConn + 1 := by
  cases h with
  | accept => exact ⟨Nat.le_succ _, fun _ _ _ => rfl⟩
  | submit =>
    unfold submitProxyJob
    split <;> exact ⟨Nat.le_refl _, nofun⟩
  | _ => exact ⟨Nat.le_refl _, nofun⟩

/-- A connection that is in flight or waits for its flush stays so until it is closed. -/
theorem Moves.stays_busy {c : Config π} {s s' : Sys π} {l : Label} (h : s.Moves c l s') {fd : Int} {id : Nat}
    (hid : s.connId fd = some id) (hid' : s'.connId fd = some id)
    (hbusy : s.inflight fd = true ∨ s.closeAfterFlush fd = true) :
    s'.inflight fd = true ∨ s'.closeAfterFlush fd = true := by
  -- a step that changes the slot `i` to `x` is of interest only if `i` is the descriptor
  have hupdate : ∀ {server : Server π} {i : Int} {x : Slot π}, server.slot = Function.update s.server.slot i x →
      (server.slot fd).connId = some id → (fd = i → x.connId = some id → x.inflight = true ∨ x.closeAfterFlush = true) →
      (server.slot fd).inflight = true ∨ (server.slot fd).closeAfterFlush = true := by
    intro server i x hslot hlive hx
    rw [hslot] at hlive ⊢
    by_cases hi : fd = i
    · subst hi
      rw [Function.update_self] at hlive ⊢
      exact hx rfl hlive
    · rw [Function.update_of_ne hi]
      exact hbusy
  cases h with
  | stale _ hslot => simpa only [Sys.inflight, Sys.closeAfterFlush, hslot] using hbusy
  | expired _ _ hslot => exact hupdate hslot hid' fun _ hx => by cases hx
  | client _ _ _ hslot _ hserved _ =>
    refine hupdate hslot hid' ?_
    rintro rfl hx
    cases hserved with
    | closed hnone => simp [Slot.connId, hnone] at hx
    | kept hkept => rwa [hkept.inflight, hkept.closeAfterFlush]
  | submit _ _ hslot _ _ _ _ hinf =>
    simp only [Sys.connId, Sys.inflight, Sys.closeAfterFlush, server_submitProxyJob] at hid' ⊢
    exact hupdate hslot hid' fun _ _ => .inl hinf
  | accept _ hfree hslot =>
    refine hupdate hslot hid' ?_
    rintro rfl -
    rw [Sys.connId, hfree] at hid
    cases hid
  | popUsed _ _ _ hslot _ _ hx =>
    refine hupdate hslot hid' ?_
    rintro rfl hlive
    rcases hx with hnone | ⟨-, hcl⟩
    · simp [hnone] at hlive
    · exact .inr hcl
  | _ => exact hbusy

/-- Changing the stage of a job leaves every job its owner. -/
theorem owner_setStage {s : Sys π} {j : Nat} {job : Job} {stage : Stage} (hj : s.jobs j = some job) (k : Nat) (job' : Job)
    (hk : (s.setStage j job stage).jobs k = some job') : ∃ job₀, s.jobs k = some job₀ ∧ job₀.owner = job'.owner := by
  by_cases hkj : k = j
  · subst hkj
    simp only [setStage, Function.update_self, Option.some.injEq] at hk
    exact ⟨job, hj, by rw [← hk]⟩
  · simp only [setStage, Function.update_of_ne hkj] at hk
    exact ⟨job', hk, rfl⟩

/-- The jobs after a step: those before it, with their owners, and one more if the event of a connection that is read
and has nothing in flight submits it. -/
theorem Moves.submits {c : Config π} {s s' : Sys π} {l : Label} (h : s.Moves c l s') :
    (∀ k job', s'.jobs k = some job' → ∃ job, s.jobs k = some job ∧ job.owner = job'.owner) ∨
      ∃ fd ev rest io job, s.pc = .batch ((fd, ev) :: rest) ∧ l = .event io ∧ ev.Readable ∧ s.connId fd = some job.owner ∧
        s.inflight fd = false ∧ s'.inflight fd = true ∧ s'.jobs = Function.update s.jobs s.nextJob (some job) := by
  cases h with
  | @submit fd ev rest io server record x id req hpc _ hslot _ hid _ hinf hinf' _ hreadable =>
    refine .inr ⟨fd, ev, rest, io,
      { owner := id, fd := fd, req := req, stage := if io.admitted then .queued else .finished }, hpc, rfl, hreadable,
      hid, hinf, ?_, jobs_submitProxyJob ..⟩
    rw [Sys.inflight, server_submitProxyJob, served, hslot, Function.update_self, hinf']
  | start hj => exact .inl (owner_setStage hj)
  | tunnel hj => exact .inl (owner_setStage hj)
  | forwarded hj => exact .inl (owner_setStage hj)
  | tunnelled hj => exact .inl (owner_setStage hj)
  | notify hj => exact .inl (owner_setStage hj)
  | _ => exact .inl fun k job' hk => ⟨job', hk, rfl⟩

/-- A step keeps a connection busy that is one of those numbered so far. -/
theorem Moves.busy {c : Config π} {s s' : Sys π} {l : Label} (h : s.Moves c l s') {id : Nat} (hlt : id < s.nextConn)
    (hbusy : s.Busy id) : s'.Busy id := by
  intro fd hid'
  rcases h.connId hid' with hid | ⟨-, -, rfl⟩
  · exact h.stays_busy hid hid' (hbusy fd hid)
  · exact absurd hlt (Nat.lt_irrefl _)

theorem Moves.numbered {c : Config π} {s s' : Sys π} {l : Label} (h : s.Moves c l s') (hs : s.Single)
    (fd : Int) (id : Nat) (hid : s'.connId fd = some id) : id < s'.nextConn := by
  obtain ⟨hle, haccept⟩ := h.nextConn
  rcases h.connId hid with hold | ⟨-, hl, rfl⟩
  · exact Nat.lt_of_lt_of_le (hs.numbered fd id hold) hle
  · rw [haccept fd .admitted hl]
    exact Nat.lt_succ_self _

theorem Moves.distinct {c : Config π} {s s' : Sys π} {l : Label} (h : s.Moves c l s') (hs : s.Single)
    (fd fd' : Int) (id : Nat) (hid : s'.connId fd = some id) (hid' : s'.connId fd' = some id) : fd = fd' := by
  rcases h.connId hid with hold | ⟨-, hl, hnew⟩ <;> rcases h.connId hid' with hold' | ⟨-, hl', hnew'⟩
  · exact hs.distinct fd fd' id hold hold'
  · exact absurd (hs.numbered fd id hold) (by omega)
  · exact absurd (hs.numbered fd' id hold') (by omega)
  · cases hl.symm.trans hl'
    rfl

/-- A step that reads no connection waiting for its flush keeps the jobs to one for each connection. -/
theorem Moves.single {c : Config π} {s s' : Sys π} {l : Label} (hs : s.Single) (hp : readsNoWaiting (.ok s) l = true)
    (h : s.Moves c l s') : s'.Single := by
  have hle := h.nextConn.1
  rcases h.submits with hold | ⟨fd, ev, rest, io, job, hpc, rfl, hreadable, hid, hinf, hinf', hjobs⟩
  · refine ⟨h.numbered hs, h.distinct hs, ?_, ?_⟩
    · intro j job' hj
      obtain ⟨job, hj₀, howner⟩ := hold j job' hj
      obtain ⟨hlt, hbusy⟩ := hs.owned j job hj₀
      exact howner ▸ ⟨Nat.lt_of_lt_of_le hlt hle, h.busy hlt hbusy⟩
    · intro j k job₁ job₂ hj hk howner
      obtain ⟨job₁', hj₀, h₁⟩ := hold j job₁ hj
      obtain ⟨job₂', hk₀, h₂⟩ := hold k job₂ hk
      exact hs.once j k job₁' job₂' hj₀ hk₀ (by rw [h₁, h₂, howner])
  · have hlt := hs.numbered fd job.owner hid
    -- the connection is not waiting for its flush, so it is not busy, and no job is its
    have hflush : s.closeAfterFlush fd = false := by
      simp only [readsNoWaiting, hpc, Bool.not_eq_true', Bool.and_eq_false_imp, decide_eq_false_iff_not] at hp
      exact Bool.eq_false_iff.mpr fun hcl => hp hcl hreadable
    have hfirst : ∀ k job', s.jobs k = some job' → job'.owner ≠ job.owner := by
      intro k job' hk howner
      rcases (hs.owned k job' hk).2 fd (howner ▸ hid) with hbusy | hbusy
      · simp [hinf] at hbusy
      · simp [hflush] at hbusy
    refine ⟨h.numbered hs, h.distinct hs, ?_, ?_⟩
    · rw [hjobs]
      refine forall_jobs_update ?_ s.nextJob ⟨Nat.lt_of_lt_of_le hlt hle, ?_⟩
      · intro k job' hk
        obtain ⟨hlt', hbusy⟩ := hs.owned k job' hk
        exact ⟨Nat.lt_of_lt_of_le hlt' hle, h.busy hlt' hbusy⟩
      · intro fd' hfd'
        rcases h.connId hfd' with hold | ⟨-, -, hnew⟩
        · obtain rfl := hs.distinct fd fd' job.owner hid hold
          exact .inl hinf'
        · omega
    · intro j k job₁ job₂ hj hk howner
      rw [hjobs] at hj hk
      by_cases hjn : j = s.nextJob <;> by_cases hkn : k = s.nextJob
      · rw [hjn, hkn]
      · rw [hjn, Function.update_self, Option.some.injEq] at hj
        rw [Function.update_of_ne hkn] at hk
        exact absurd (hj ▸ howner.symm) (hfirst k job₂ hk)
      · rw [hkn, Function.update_self, Option.some.injEq] at hk
        rw [Function.update_of_ne hjn] at hj
        exact absurd (hk ▸ howner) (hfirst j job₁ hj)
      · rw [Function.update_of_ne hjn] at hj
        rw [Function.update_of_ne hkn] at hk
        exact hs.once j k job₁ job₂ hj hk howner

end Sys

/-- In a run in which no connection is read while it waits for its flush, two jobs submitted by one connection are one
job. -/
theorem one_job_per_connection (c : Config π) (r : Except Fault (Sys π))
    (h : c.system.ReachesBy (fun r l => readsNoWaiting r l = true) r) :
    ∃ s, r = .ok s ∧ ∀ j k job job', s.jobs j = some job → s.jobs k = some job' → job.owner = job'.owner → j = k := by
  obtain ⟨s, rfl, -, hs⟩ := Config.reachesBy_invariant (I := Sys.Single) (Sys.single_init c)
    (fun _ _ _ _ hI hp hm => hm.single hI hp) h
  exact ⟨s, rfl, hs.once⟩

/-- A run with a job for each of two clients on one descriptor, the second after the response to the first was flushed. -/
theorem one_job_per_connection_twoClients :
    ∃ s, smallServer.system.ReachesBy (fun r l => readsNoWaiting r l = true) (.ok s) ∧ s.nextJob = 2 ∧
      ∀ j k job job', s.jobs j = some job → s.jobs k = some job' → job.owner = job'.owner → j = k := by
  obtain ⟨r, hr, hp⟩ := Lts.exists_of_execBy (M := smallServer.system) (fun r l => readsNoWaiting r l = true)
    (List.flatten [halfSent, [.waited (some [(5, epollOut)]), .event { sends := [.accepted 0] }, .event {}],
      [.tickTop (node5 3), .tickTop (node5 2), .tickTop (node5 1), .tickTop none],
      accept5, toWait (node5 1), request5 71])
    (fun r => r.toOption.any fun s : Sys Bytes => decide (s.nextJob = 2)) ⟨0, rfl⟩ (by decide +kernel)
  obtain ⟨s, rfl, hs⟩ := one_job_per_connection smallServer r hr
  exact ⟨s, hr, of_decide_eq_true hp, hs⟩

/-- One byte of the response to a first request is sent; the client's second request is read and forwarded while the
rest waits. -/
theorem one_job_per_connection_false : ∃ s, smallServer.system.Reachable (.ok s) ∧ s.server.closeAfterFlush 5 = true ∧
    ∃ job job', s.jobs 0 = some job ∧ s.jobs 1 = some job' ∧ job.owner = job'.owner := by
  obtain ⟨s, hs, hp⟩ := Config.exists_of_exec (c := smallServer) 0 (List.flatten [halfSent, request5 72])
    (fun s => s.server.closeAfterFlush 5 && ((s.jobs 0).any fun job : Job =>
      (s.jobs 1).any fun job' : Job => decide (job.owner = job'.owner))) (by decide)
  simp only [Bool.and_eq_true, Option.any_eq_true, decide_eq_true_eq] at hp
  obtain ⟨hcl, job, hj, job', hj', howner⟩ := hp
  exact ⟨s, hs, hcl, job, job', hj, hj', howner⟩

end HpServer
