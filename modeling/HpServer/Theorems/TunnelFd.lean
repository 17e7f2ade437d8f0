import HpServer.Lemmas.SystemJobs
import HpServer.Theorems.Lifecycle

/-!
# The descriptor of a tunnel

A worker that runs a tunnel uses the client's descriptor by its number. The flag of a request in flight keeps the
reactor from reading the descriptor and not from closing it: a hang-up, an idle deadline, the end of a flush or
another job's done event closes it under the tunnel, and the next client may get its number. In runs without these
(`undisturbed`), the connection of a tunnel stays on its descriptor.
-/

namespace HpServer

open EpollMask

variable {π : Type}

/-- The job is a `CONNECT` that waits for a worker or whose tunnel runs. -/
def Job.tunnels (job : Job) : Bool :=
  match job.stage with
  | .queued => job.req.isConnect
  | .tunnelling _ => true
  | _ => false

namespace Sys

/-- A tunnel for the descriptor waits for a worker or runs. -/
def tunnelOn (s : Sys π) (fd : Int) : Bool :=
  (List.range s.nextJob).any fun j => (s.jobs j).any fun job => job.fd = fd && job.tunnels

theorem tunnelOn_of_job {s : Sys π} (hs : s.JobsOk) {j : Nat} {job : Job} (hj : s.jobs j = some job)
    (ht : job.tunnels = true) : s.tunnelOn job.fd = true := by
  have hlt : j < s.nextJob := by
    by_contra hle
    simp [(hs.known j).mpr (Nat.le_of_not_lt hle)] at hj
  refine List.any_eq_true.mpr ⟨j, List.mem_range.mpr hlt, ?_⟩
  rw [hj, Option.any_some, decide_eq_true rfl, Bool.true_and, ht]

end Sys

/-- A step that leaves the descriptors of tunnels alone: for none of them does an idle deadline expire, an event other
than `EPOLLIN` come, or a done event leave the queue. -/
def undisturbed : Except Fault (Sys π) → Label → Bool
  | .ok s, .tickTop (some n) =>
    match s.server.connectionTimer.tickTop s.now n with
    | .fired _ _ => !s.tunnelOn n.id
    | _ => true
  | .ok s, .event _ =>
    match s.pc with
    | .batch ((fd, ev) :: _) => !s.tunnelOn fd || ev &&& (epollErr ||| epollHup ||| epollRdhup ||| epollOut) = 0
    | _ => true
  | .ok s, .popDone _ =>
    match s.doneQueue with
    | ev :: _ => !s.tunnelOn ev.clientFd
    | [] => true
  | _, _ => true

namespace Sys

/-- The connection of a tunnel is on its descriptor, with its request in flight. -/
def Holds (s : Sys π) (job : Job) : Prop :=
  job.tunnels = true → s.connId job.fd = some job.owner ∧ s.inflight job.fd = true

/-- A step that changes one slot leaves the others' tunnels alone. -/
theorem Holds.of_update {s s' : Sys π} {fd : Int} {x : Slot π} {job : Job} (h : s.Holds job)
    (hslot : s'.server.slot = Function.update s.server.slot fd x)
    (hfd : job.fd = fd → job.tunnels = true → s.connId fd = some job.owner → s.inflight fd = true →
      x.connId = some job.owner ∧ x.inflight = true) : s'.Holds job := by
  intro ht
  obtain ⟨hid, hinf⟩ := h ht
  rw [connId, inflight, hslot]
  by_cases hi : job.fd = fd
  · subst hi
    rw [Function.update_self]
    exact hfd rfl ht hid hinf
  · rw [Function.update_of_ne hi]
    exact ⟨hid, hinf⟩

/-- Every undisturbed step keeps the tunnels' connections on their descriptors. -/
theorem Moves.holds {c : Config π} {s s' : Sys π} {l : Label} (hok : s.Ok) (hjobs : s.JobsOk)
    (hs : ∀ j job, s.jobs j = some job → s.Holds job) (hp : undisturbed (.ok s) l = true) (h : s.Moves c l s') :
    ∀ j job, s'.jobs j = some job → s'.Holds job := by
  cases h with
  | stale _ hslot =>
    intro j job hj
    simp only [Holds, Sys.connId, Sys.inflight, hslot]
    exact hs j job hj
  | expired _ hfired hslot =>
    refine fun j job hj => (hs j job hj).of_update hslot fun hfd ht _ _ => ?_
    have hon := tunnelOn_of_job hjobs hj ht
    simp [undisturbed, hfired, ← hfd, hon] at hp
  | @client fd ev rest io server record x hpc _ heq hslot _ _ _ =>
    refine fun j job hj => (hs j job hj).of_update hslot fun hfd ht hid hinf => ?_
    subst hfd
    have hon := tunnelOn_of_job hjobs hj ht
    have hev : ev &&& (epollErr ||| epollHup ||| epollRdhup ||| epollOut) = 0 := by
      simpa [undisturbed, hpc, hon] using hp
    obtain ⟨conn, hconn, -⟩ := slot_connId_some hid
    obtain ⟨hid', hinf', -⟩ := Server.clientEvent_inflight (hok.slots job.fd) (by simp [hconn]) hinf hev heq
    rw [hslot, Function.update_self] at hid' hinf'
    exact ⟨hid'.trans hid, hinf'⟩
  | @submit fd ev rest io server record x id req _ _ hslot _ _ hid hinf hinf' _ =>
    have hserver := server_submitProxyJob (s.served server rest record) fd id req io.admitted
    have hold : ∀ j job, s.jobs j = some job →
        Holds ((s.served server rest record).submitProxyJob fd id req io.admitted) job := by
      refine fun j job hj => (hs j job hj).of_update (by rw [hserver]; exact hslot) fun _ _ _ hbusy => ?_
      exact absurd (hinf.symm.trans hbusy) Bool.false_ne_true
    have hnew : ∀ stage, Holds ((s.served server rest record).submitProxyJob fd id req io.admitted)
        { owner := id, fd := fd, req := req, stage := stage } := by
      intro stage _
      rw [Sys.connId, Sys.inflight, hserver]
      change (server.slot fd).connId = some id ∧ (server.slot fd).inflight = true
      rw [hslot, Function.update_self]
      exact ⟨hid, hinf'⟩
    rw [jobs_submitProxyJob]
    exact forall_jobs_update hold _ (hnew _)
  | accept _ hfree hslot _ _ _ =>
    refine fun j job hj => (hs j job hj).of_update hslot fun _ _ hid _ => ?_
    exact absurd (hid.symm.trans hfree) (Option.some_ne_none _)
  | popUsed _ hq _ hslot _ _ _ _ =>
    refine fun j job hj => (hs j job hj).of_update hslot fun hfd ht _ _ => ?_
    have hon := tunnelOn_of_job hjobs hj ht
    simp [undisturbed, hq, ← hfd, hon] at hp
  | @start j errno job hj hst =>
    refine forall_jobs_update hs j fun ht => hs j job hj ?_
    simp only [Job.tunnels, Job.begun] at ht
    rw [Job.tunnels, hst]
    by_contra hconn
    simp [hconn] at ht
  | @tunnel j ans job t t' hj hst _ =>
    exact forall_jobs_update hs j fun _ => hs j job hj (by rw [Job.tunnels, hst])
  | forwarded => exact forall_jobs_update hs _ fun ht => absurd ht Bool.false_ne_true
  | tunnelled => exact forall_jobs_update hs _ fun ht => absurd ht Bool.false_ne_true
  | notify => exact forall_jobs_update hs _ fun ht => absurd ht Bool.false_ne_true
  | _ => exact hs

end Sys

/-- In an undisturbed run, while a worker runs the tunnel of a job, the connection that submitted the job is in the
table on the job's descriptor, which is open. -/
theorem tunnel_fd_exclusive (c : Config π) (r : Except Fault (Sys π))
    (h : c.system.ReachesBy (fun r l => undisturbed r l = true) r) :
    ∃ s, r = .ok s ∧ ∀ j job t, s.jobs j = some job → job.stage = .tunnelling t →
      ∃ conn, s.server.connections job.fd = some conn ∧ conn.id = job.owner ∧ s.server.isOpen job.fd = true := by
  obtain ⟨s, rfl, hok, -, hholds⟩ := Config.reachesBy_invariant
    (I := fun s => s.JobsOk ∧ ∀ j job, s.jobs j = some job → s.Holds job)
    (fun now => ⟨Sys.jobsOk_init c now, fun _ _ hj => by cases hj⟩)
    (fun s s' l hok hI hp hm => ⟨(hm.jobStep hok).jobsOk hI.1, hm.holds hok hI.1 hI.2 hp⟩) h
  refine ⟨s, rfl, fun j job t hj hst => ?_⟩
  obtain ⟨hid, -⟩ := hholds j job hj (by rw [Job.tunnels, hst])
  obtain ⟨conn, hconn, hconnId⟩ := Sys.slot_connId_some hid
  refine ⟨conn, hconn, hconnId, ?_⟩
  cases (hok.slots job.fd).tracked with
  | free hfree => simp [hfree] at hconn
  | live _ _ _ _ _ hopen => exact hopen

/-- A tunnel at its first `poll`. -/
theorem tunnel_fd_exclusive_opened :
    ∃ s job t conn, smallServer.system.ReachesBy (fun r l => undisturbed r l = true) (.ok s) ∧ s.jobs 0 = some job ∧
      job.stage = .tunnelling t ∧ t.established = true ∧ s.server.connections job.fd = some conn ∧ conn.id = job.owner ∧
      s.server.isOpen job.fd = true := by
  obtain ⟨r, hr, hp⟩ := Lts.exists_of_execBy (M := smallServer.system) (fun r l => undisturbed r l = true) tunnel5
    (fun r => r.toOption.any fun s : Sys Bytes => (s.jobs 0).any fun job : Job =>
      job.stage.tunnel.any fun t => t.established) ⟨0, rfl⟩ (by decide)
  obtain ⟨s, rfl, hs⟩ := tunnel_fd_exclusive smallServer r hr
  simp only [Except.toOption, Option.any_some, Option.any_eq_true] at hp
  obtain ⟨job, hj, hp⟩ := hp
  cases hst : job.stage with
  | tunnelling t =>
    obtain ⟨conn, hconn, hid, hopen⟩ := hs 0 job t hj hst
    exact ⟨s, job, t, conn, hr, hj, hst, by simpa [hst, Stage.tunnel] using hp, hconn, hid, hopen⟩
  | _ => simp [hst, Stage.tunnel] at hp

/-- Nothing happens in the tunnel for fifteen seconds; the idle deadline of descriptor 5 expires, the next client is
given the descriptor, and a byte comes from upstream. -/
def idleTunnel : List Label :=
  List.flatten [tunnel5, [.advance 15000000000, .waited (some []), .event {}],
    [.tickTop (node5 2), .tickTop (node5 1), .tickTop none], accept5,
    tunnelled0 [[.polled 0 PollMask.pollIn, .compute, .data [9], .failed Errno.eagain 0, .compute, .sent 1]]]

/-- The worker sends the byte from the first client's tunnel on a descriptor that is the second client's. -/
theorem tunnel_fd_exclusive_false :
    ∃ s job t conn, smallServer.system.Reachable (.ok s) ∧ s.jobs 0 = some job ∧ job.stage = .tunnelling t ∧
      (t.dir .u2c).log = [.recv [9], .send [9]] ∧ s.server.connections job.fd = some conn ∧ job.owner = 0 ∧
        conn.id = 1 := by
  obtain ⟨s, hs, hp⟩ := Config.exists_of_exec (c := smallServer) 0 idleTunnel
    (fun s => (s.jobs 0).any fun job : Job =>
      (s.server.connections job.fd).any fun conn : HttpConn Bytes => decide (job.owner = 0 ∧ conn.id = 1) &&
        job.stage.tunnel.any fun t : Tunnel.State => decide ((t.dir .u2c).log = [.recv [9], .send [9]]))
          (by decide +kernel)
  simp only [Option.any_eq_true, Bool.and_eq_true, decide_eq_true_eq] at hp
  obtain ⟨job, hj, conn, hconn, ⟨howner, hid⟩, hp⟩ := hp
  cases hst : job.stage with
  | tunnelling t => exact ⟨s, job, t, conn, hs, hj, hst, by simpa [hst, Stage.tunnel] using hp, hconn, howner, hid⟩
  | _ => simp [hst, Stage.tunnel] at hp

end HpServer
