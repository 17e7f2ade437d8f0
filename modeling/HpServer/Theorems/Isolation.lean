import HpServer.Lemmas.SystemJobs
import HpServer.Theorems.Lifecycle

/-!
# Whose response a connection gets

A done event names its job's descriptor and not its connection. A connection may be closed while its job is
outstanding, and the kernel may give its descriptor to a new one, which then gets the response of the old one's
request. In runs in which no descriptor is given out again while a job for it is outstanding (`freshAccept`), every
done event is used on the connection that submitted its job.
-/

namespace HpServer

open EpollMask

variable {π : Type}

namespace Sys

/-- A job for the descriptor is queued or running, or its done event is in the queue. -/
def outstandingOn (s : Sys π) (fd : Int) : Bool :=
  (List.range s.nextJob).any fun j => (s.jobs j).any fun job =>
    job.fd = fd && (!job.stage.answered || s.doneQueue.any fun ev => ev.job = j)

theorem outstandingOn_of_job {s : Sys π} (hs : s.JobsOk) {j : Nat} {job : Job} (hj : s.jobs j = some job)
    (ho : s.Outstanding j job) : s.outstandingOn job.fd = true := by
  have hlt : j < s.nextJob := by
    by_contra hle
    simp [(hs.known j).mpr (Nat.le_of_not_lt hle)] at hj
  refine List.any_eq_true.mpr ⟨j, List.mem_range.mpr hlt, ?_⟩
  rw [hj, Option.any_some, decide_eq_true rfl, Bool.true_and, Bool.or_eq_true]
  rcases ho with hun | ⟨ev, hev, hjev⟩
  · exact .inl (by simp [hun])
  · exact .inr (List.any_eq_true.mpr ⟨ev, hev, decide_eq_true hjev⟩)

/-- A job that is outstanding after a step was so before it, or was submitted in it by the connection on its
descriptor. -/
theorem JobStep.outstanding_old {env : Env π} {s s' : Sys π} (h : JobStep env s s') {k : Nat} {job' : Job}
    (hk' : s'.jobs k = some job') (ho : s'.Outstanding k job') :
    (∃ job, s.jobs k = some job ∧ job.owner = job'.owner ∧ job.fd = job'.fd ∧ s.Outstanding k job) ∨
      s.connId job'.fd = some job'.owner := by
  cases h with
  | same hjobs _ hq =>
    refine .inl ⟨job', hjobs ▸ hk', rfl, rfl, ?_⟩
    rwa [Outstanding, hq] at ho
  | pop ev hjobs _ hq =>
    refine .inl ⟨job', hjobs ▸ hk', rfl, rfl, ho.imp_right ?_⟩
    rintro ⟨ev', hev', hj⟩
    exact ⟨ev', hq ▸ List.mem_cons_of_mem _ hev', hj⟩
  | advance j job stage hj hjobs hst _ hq =>
    rw [Outstanding, hq] at ho
    by_cases hkj : k = j
    · subst hkj
      rw [hjobs, Function.update_self] at hk'
      cases hk'
      exact .inl ⟨job, hj, rfl, rfl, ho.imp_left hst.symm.trans⟩
    · rw [hjobs, Function.update_of_ne hkj] at hk'
      exact .inl ⟨job', hk', rfl, rfl, ho⟩
  | push job ev hj hun _ hjobs _ hq =>
    by_cases hkj : k = ev.job
    · subst hkj
      rw [hjobs, Function.update_self] at hk'
      cases hk'
      exact .inl ⟨job, hj, rfl, rfl, .inl hun⟩
    · rw [hjobs, Function.update_of_ne hkj] at hk'
      refine .inl ⟨job', hk', rfl, rfl, ho.imp_right ?_⟩
      rintro ⟨ev', hev', rfl⟩
      rw [hq] at hev'
      rcases List.mem_append.mp hev' with hev' | hev'
      · exact ⟨ev', hev', rfl⟩
      · exact absurd (congrArg DoneEvent.job (List.mem_singleton.mp hev')) hkj
  | submit job evs hjobs hid _ _ hevs hq =>
    by_cases hkj : k = s.nextJob
    · subst hkj
      rw [hjobs, Function.update_self] at hk'
      cases hk'
      exact .inr hid
    · rw [hjobs, Function.update_of_ne hkj] at hk'
      refine .inl ⟨job', hk', rfl, rfl, ho.imp_right ?_⟩
      rintro ⟨ev', hev', rfl⟩
      rw [hq] at hev'
      rcases List.mem_append.mp hev' with hev' | hev'
      · exact ⟨ev', hev', rfl⟩
      · rcases hevs with ⟨-, rfl⟩ | ⟨-, ev, rfl, hj, -⟩
        · cases hev'
        · exact absurd ((congrArg DoneEvent.job (List.mem_singleton.mp hev')).trans hj) hkj

/-- An outstanding job belongs to the connection on its descriptor, if there is one, and the done events used so far
were used on the connections that had submitted their jobs. -/
structure Isolated (s : Sys π) : Prop where
  owner : ∀ j job, s.jobs j = some job → s.Outstanding j job → ∀ id, s.connId job.fd = some id → job.owner = id
  consumed : ∀ u ∈ s.consumed, ∃ job, s.jobs u.event.job = some job ∧ job.owner = u.conn

end Sys

/-- Every client that is admitted gets a descriptor for which no job is outstanding. -/
def freshAccept : Except Fault (Sys π) → Label → Bool
  | .ok s, .accept (.client fd .admitted) => !s.outstandingOn fd
  | _, _ => true

namespace Sys

theorem Moves.isolated {c : Config π} {s s' : Sys π} {l : Label} (hok : s.Ok) (hjobs : s.JobsOk) (hs : s.Isolated)
    (hp : freshAccept (.ok s) l = true) (h : s.Moves c l s') : s'.Isolated := by
  have hstep := h.jobStep hok
  constructor
  · intro j job hj ho id hid
    rcases hstep.outstanding_old hj ho with ⟨job₀, hj₀, howner, hfd, ho₀⟩ | hnew
    · rw [← howner]
      rcases h.connId hid with hid₀ | ⟨-, rfl, -⟩
      · exact hs.owner j job₀ hj₀ ho₀ id (hfd ▸ hid₀)
      · have hon := outstandingOn_of_job hjobs hj₀ ho₀
        simp [freshAccept, ← hfd, hon] at hp
    · rcases h.connId hid with hid₀ | ⟨hfree, -⟩
      · exact Option.some.inj (hnew.symm.trans hid₀)
      · simp [hfree] at hnew
  · have hold : ∀ u ∈ s.consumed, ∃ job, s'.jobs u.event.job = some job ∧ job.owner = u.conn := by
      intro u hu
      obtain ⟨job, hj, howner⟩ := hs.consumed u hu
      obtain ⟨stage, hj'⟩ := hstep.job hjobs hj
      exact ⟨_, hj', howner⟩
    intro u hu
    cases hstep with
    | same _ _ _ _ hc => exact hold u (hc ▸ hu)
    | pop ev hsame _ hq _ hc =>
      rcases hc u hu with hu | ⟨rfl, hid, -⟩
      · exact hold u hu
      · have hmem : u.event ∈ s.doneQueue := by simp [hq]
        obtain ⟨job, hj, hfd⟩ := hjobs.events u.event hmem
        exact ⟨job, hsame ▸ hj, hs.owner _ job hj (.inr ⟨u.event, hmem, rfl⟩) u.conn (hfd ▸ hid)⟩
    | advance _ _ _ _ _ _ _ _ _ hc => exact hold u (hc ▸ hu)
    | push _ _ _ _ _ _ _ _ _ hc => exact hold u (hc ▸ hu)
    | submit _ _ _ _ _ _ _ _ _ hc => exact hold u (hc ▸ hu)

end Sys

/-- In a run in which every admitted client gets a descriptor for which no job is outstanding, every done event that
clears a flag or queues output does so for the connection that submitted its job. -/
theorem response_isolation (c : Config π) (r : Except Fault (Sys π))
    (h : c.system.ReachesBy (fun r l => freshAccept r l = true) r) :
    ∃ s, r = .ok s ∧ ∀ u ∈ s.consumed, ∃ job, s.jobs u.event.job = some job ∧ job.owner = u.conn := by
  obtain ⟨s, rfl, -, -, hiso⟩ := Config.reachesBy_invariant (I := fun s => s.JobsOk ∧ s.Isolated)
    (fun now => ⟨Sys.jobsOk_init c now, ⟨nofun, nofun⟩⟩)
    (fun s s' l hok hI hp hm => ⟨(hm.jobStep hok).jobsOk hI.1, hm.isolated hok hI.1 hI.2 hp⟩) h
  exact ⟨s, rfl, hiso.consumed⟩

/-- A run in which a response is queued on the connection that asked for it. -/
theorem response_isolation_oneClient : ∃ s, smallServer.system.ReachesBy (fun r l => freshAccept r l = true) (.ok s) ∧
    s.consumed.length = 1 ∧ ∀ u ∈ s.consumed, ∃ job, s.jobs u.event.job = some job ∧ job.owner = u.conn := by
  obtain ⟨r, hr, hp⟩ := Lts.exists_of_execBy (M := smallServer.system) (fun r l => freshAccept r l = true)
    (List.flatten [accept5, toWait (node5 1), request5 71, answer0 [1, 2], [.popDone {}]])
    (fun r => r.toOption.any fun s : Sys Bytes => decide (s.consumed.length = 1)) ⟨0, rfl⟩ (by decide)
  obtain ⟨s, rfl, hs⟩ := response_isolation smallServer r hr
  exact ⟨s, hr, of_decide_eq_true hp, hs⟩

/-- A client on descriptor 5 sends a request and hangs up; while its job is queued, the next client is given
descriptor 5; then the job answers. -/
def reusedDescriptor : List Label :=
  List.flatten [accept5, toWait (node5 1), request5 71, toWait (node5 2),
    [.waited (some [(5, epollIn ||| epollRdhup)]), .event {}, .event {}],
    [.tickTop (node5 2), .tickTop (node5 1), .tickTop none], accept5, toWait (node5 1),
    [.start 0 0, .push 0 ⟨true, [1], 0⟩, .notify 0],
    [.waited (some [(4, epollIn)]), .event {}, .readEventFd, .readEventFd, .popDone {}]]

/-- The response to the first client's request is queued on the second client's connection. -/
theorem response_isolation_false : ∃ s, smallServer.system.Reachable (.ok s) ∧ ∃ u ∈ s.consumed, u.queued = [1] ∧
    ∃ job, s.jobs u.event.job = some job ∧ job.owner = 0 ∧ u.conn = 1 := by
  obtain ⟨s, hs, hp⟩ := Config.exists_of_exec (c := smallServer) 0 reusedDescriptor
    (fun s => s.consumed.any fun u => decide (u.queued = [1]) &&
      ((s.jobs u.event.job).any fun job : Job => decide (job.owner = 0 ∧ u.conn = 1))) (by decide)
  simp only [List.any_eq_true, Bool.and_eq_true, decide_eq_true_eq, Option.any_eq_true] at hp
  obtain ⟨u, hu, hq, job, hj, howner, hconn⟩ := hp
  exact ⟨s, hs, u, hu, hq, job, hj, howner, hconn⟩

end HpServer
