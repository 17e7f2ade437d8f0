import HpServer.Lemmas.SystemJobs
import HpServer.Lemmas.TunnelRelay
import HpServer.Theorems.Lifecycle

/-!
# What the reactor adds to a tunnel

When a tunnel ends, the reactor sees only whether it succeeded and an error number. It takes four error numbers for
the end of a tunnel and answers any other with a 503, although the same error numbers are left by calls that fail long
after the client was told that the tunnel is open. What counts is the number in `errno` when the relay looks at it,
which for a call on the upstream socket is the one that `perror` left. As long as the relay finds none but the
expected ones (`calmTunnel`), nothing is queued after a tunnel.
-/

namespace HpServer

namespace Tunnel

open Errno

/-- An error number that does not end the tunnel, or is one the reactor expects. -/
def isCalmErrno (e : Nat) : Bool := e = eintr || e = eagain || isExpectedConnectShutdownErrno e

/-- An answer in the relay loop that does not end the tunnel with an error the reactor does not expect. The error
number is the one the relay finds, after a `perror` if there is one; a `send` that answers zero leaves the error
number of an earlier call. -/
def State.calm (t : State) (ans : Answer) : Bool :=
  match t.pc with
  | .flush w =>
    match ans.ofSend w with
    | .failed e _ => isCalmErrno e
    | .zero => isExpectedConnectShutdownErrno t.errno
    | _ => true
  | .read w _ _ =>
    match ans.ofRecv w with
    | .failed e _ => isCalmErrno e
    | _ => true
  | .poll _ _ =>
    match ans with
    | .failed e _ => e = eintr || isExpectedConnectShutdownErrno e
    | .timedOut => false
    | _ => true
  | _ => true

/-- A calm step that ends the tunnel without success does so before the relay loop, or with an expected error. -/
theorem step_exit {a : Args} {t t' : State} {ans : Answer} (h : t.step a ans = some t') (hret : t'.pc = .returned false)
    (hcalm : t.calm ans = true) : t.pc.phase = .before ∨ isExpectedConnectShutdownErrno t'.outErrno = true := by
  cases hpc : t.pc with
  | start | connect | sendEstablished _ | waitWritable _ => exact .inl rfl
  | flush w =>
    right
    simp only [State.step, hpc, State.stepFlush] at h
    simp only [State.calm, hpc] at hcalm
    repeat' split at h
    all_goals cases h
    · simp [State.setDir, hpc] at hret
    · simp [State.error, hpc] at hret
    · cases w <;> simp [State.goto, Pc.afterFlush] at hret
    · rename_i hans hintr hagain
      simpa [hans, isCalmErrno, hintr, hagain, State.fail, State.error] using hcalm
    · rename_i hans
      simpa [hans, State.fail] using hcalm
    · cases w <;> simp [State.goto, Pc.afterFlush] at hret
  | shutdown w =>
    simp only [State.step, hpc] at h
    unfold State.stepShutdown at h
    repeat' split at h
    all_goals cases h
    all_goals cases w <;> simp [State.goto, Pc.afterShutdown] at hret
  | finish =>
    simp only [State.step, hpc] at h
    unfold State.stepFinish at h
    repeat' split at h
    all_goals cases h
    all_goals simp [State.goto] at hret
  | interests =>
    simp only [State.step, hpc] at h
    unfold State.stepInterests at h
    repeat' split at h
    all_goals cases h
    all_goals simp [State.loop] at hret
  | poll client upstream =>
    right
    simp only [State.step, hpc] at h
    unfold State.stepPoll at h
    repeat' split at h
    all_goals cases h
    · simp [State.calm, hpc] at hcalm
    · simp [State.loop] at hret
    · rename_i e left hintr
      simpa [State.calm, hpc, hintr, State.fail, State.error] using hcalm
    · rfl
    · simp [State.goto] at hret
  | read w client upstream =>
    right
    simp only [State.step, hpc] at h
    unfold State.stepRead at h
    repeat' split at h
    all_goals cases h
    · simp [State.setDir, hpc] at hret
    · cases w <;> simp [State.afterRead, State.goto, State.loop] at hret
    · simp [State.error, hpc] at hret
    · cases w <;> simp [State.afterRead, State.goto, State.loop] at hret
    · rename_i hans hintr hagain
      simpa [State.calm, hpc, hans, isCalmErrno, hintr, hagain, State.fail, State.error] using hcalm
    · cases w <;> simp [State.afterRead, State.goto, State.loop] at hret
  | returned ok => simp [State.step, hpc] at h

/-- A tunnel that was opened and whose steps were calm has not ended, or ended with success or with an expected error. -/
theorem calm_exit {a : Args} {t : State} (h : (system a).ReachesBy (fun t ans => t.calm ans = true) t)
    (hret : t.pc = .returned false) (hest : t.established = true) : isExpectedConnectShutdownErrno t.outErrno = true := by
  have hiter : t.iterations ≠ 0 := by
    simpa [State.established, hret, Nat.pos_iff_ne_zero] using hest
  refine h.invariant (I := fun t => t.pc = .returned false → t.iterations ≠ 0 →
    isExpectedConnectShutdownErrno t.outErrno = true)
    ?_ ?_ hret hiter
  · rintro s ⟨errno, rfl⟩ hr
    cases hr
  · intro s s' ans hs _ hcalm hstep hr hi
    have hok := reachable_tunnelOk hs.reachable
    rcases step_exit hstep hr hcalm with hbefore | hexp
    · have hzero := hok.polls.counted
      rw [hbefore] at hzero
      cases step_turn hok.pc hstep with
      | stay hph =>
        rw [hr, hbefore] at hph
        cases hph
      | loop _ hpc => simp [hr] at hpc
      | poll hph => simp [hbefore] at hph
      | exit _ _ hsame => exact absurd (hsame.trans hzero.1) hi
    · exact hexp

end Tunnel

open EpollMask

variable {π : Type}

/-- A step in which no tunnel gets an answer that ends it with an error the reactor does not expect. -/
def calmTunnel : Except Fault (Sys π) → Label → Bool
  | .ok s, .tunnel j ans => (s.jobs j).all fun job => job.stage.tunnel.all fun t => t.calm ans
  | _, _ => true

/-- A done event that puts nothing into an open tunnel: it is a `CONNECT` job's, and ended with success or an expected
error. -/
def DoneEvent.Silent (ev : DoneEvent) : Prop :=
  ev.established = true → ev.response = [] ∧
    (ev.ok = true ∨ (ev.isConnect = true ∧ isExpectedConnectShutdownErrno ev.err = true))

theorem DoneEvent.Silent.output {ev : DoneEvent} (h : ev.Silent) (hest : ev.established = true) (env : Env π) :
    ev.output env = [] := by
  obtain ⟨hresp, hok | ⟨hconn, hexp⟩⟩ := h hest
  · simp [DoneEvent.output, hok, hresp]
  · simp [DoneEvent.output, hconn, hexp, hresp]

/-- The tunnel of a job, while it runs, is a run of `Tunnel.system` with calm steps, and the job is a `CONNECT`. -/
def Job.Calm (job : Job) : Prop :=
  ∀ t, job.stage = .tunnelling t → job.req.isConnect = true ∧
    (Tunnel.system ⟨job.fd, job.req.host⟩).ReachesBy (fun t ans => t.calm ans = true) t

theorem Job.calm_of_stage {job : Job} (h : ∀ t, job.stage ≠ .tunnelling t) : job.Calm := fun t ht => absurd ht (h t)

theorem Job.calm_begun (job : Job) (errno : Nat) : Calm { job with stage := job.begun errno } := by
  intro t ht
  simp only [Job.begun] at ht
  split at ht
  · rename_i hconn
    cases ht
    exact ⟨hconn, .init ⟨errno, rfl⟩⟩
  · cases ht

/-- The done event of a tunnel that has returned after calm steps. -/
theorem Sys.silent_doneEvent {j : Nat} {job : Job} {t : Tunnel.State} {ok : Bool} (hjob : job.Calm)
    (hst : job.stage = .tunnelling t) (hret : t.pc = .returned ok) :
    (doneEvent j job ok [] t.outErrno t.established).Silent := by
  intro hest
  refine ⟨rfl, ?_⟩
  obtain ⟨hconn, hrun⟩ := hjob t hst
  cases ok with
  | true => exact .inl rfl
  | false =>
    have hexp := Tunnel.calm_exit hrun hret hest
    have hne : t.outErrno ≠ 0 := by
      intro hz
      rw [hz] at hexp
      exact absurd hexp (by decide)
    refine .inr ⟨hconn, ?_⟩
    simpa [doneEvent, hne] using hexp

namespace Sys

/-- Every job is calm, and the done events, in the queue or used, put nothing into an open tunnel. -/
structure Silent (s : Sys π) : Prop where
  jobs : ∀ j job, s.jobs j = some job → job.Calm
  queued : ∀ ev ∈ s.doneQueue, ev.Silent
  consumed : ∀ u ∈ s.consumed, u.event.established = true → u.queued = [] ∧ u.closing ≠ .kept

theorem queued_append {s : Sys π} (hs : s.Silent) {ev : DoneEvent} (hev : ev.Silent) :
    ∀ ev' ∈ s.doneQueue ++ [ev], ev'.Silent := by
  intro ev' hmem
  rcases List.mem_append.mp hmem with h | h
  · exact hs.queued ev' h
  · rwa [List.mem_singleton.mp h]

theorem Moves.silent {c : Config π} {s s' : Sys π} {l : Label} (hs : s.Silent) (hp : calmTunnel (.ok s) l = true)
    (h : s.Moves c l s') : s'.Silent := by
  cases h with
  | @submit fd ev rest io server record x id req =>
    unfold submitProxyJob
    cases io.admitted with
    | true => exact ⟨forall_jobs_update hs.jobs _ (Job.calm_of_stage (by simp)), hs.queued, hs.consumed⟩
    | false => exact ⟨forall_jobs_update hs.jobs _ (Job.calm_of_stage (by simp)), queued_append hs nofun, hs.consumed⟩
  | popFree _ hq _ => exact ⟨hs.jobs, fun ev hev => hs.queued ev (hq ▸ List.mem_cons_of_mem _ hev), hs.consumed⟩
  | @popUsed rest io ev queue server x id closing _ hq _ _ _ _ _ hcl =>
    refine ⟨hs.jobs, fun ev' hev => hs.queued ev' (hq ▸ List.mem_cons_of_mem _ hev), ?_⟩
    intro u hu hest
    rcases List.mem_append.mp hu with hu | hu
    · exact hs.consumed u hu hest
    · obtain rfl := List.mem_singleton.mp hu
      exact ⟨(hs.queued ev (by simp [hq])).output hest c.toEnv, hcl⟩
  | start => exact ⟨forall_jobs_update hs.jobs _ (Job.calm_begun _ _), hs.queued, hs.consumed⟩
  | @tunnel j ans job t t' hj hst hstep =>
    refine ⟨forall_jobs_update hs.jobs _ ?_, hs.queued, hs.consumed⟩
    rintro t'' ⟨⟩
    obtain ⟨hconn, hrun⟩ := hs.jobs j job hj t hst
    simp only [calmTunnel, hj, Option.all_some, hst, Stage.tunnel] at hp
    exact ⟨hconn, .step hrun hp hstep⟩
  | forwarded => exact ⟨forall_jobs_update hs.jobs _ (Job.calm_of_stage (by simp)), queued_append hs nofun, hs.consumed⟩
  | @tunnelled j r job t ok hj hst hret =>
    exact ⟨forall_jobs_update hs.jobs _ (Job.calm_of_stage (by simp)),
      queued_append hs (silent_doneEvent (hs.jobs j job hj) hst hret), hs.consumed⟩
  | notify => exact ⟨forall_jobs_update hs.jobs _ (Job.calm_of_stage (by simp)), hs.queued, hs.consumed⟩
  | _ => exact ⟨hs.jobs, hs.queued, hs.consumed⟩

end Sys

/-- In a run in which no tunnel gets an answer that ends it with an error the reactor does not expect: when the
reactor uses the done event of a job whose tunnel had been opened, it queues nothing on the connection, and closes it.
-/
theorem established_tunnel_silent (c : Config π) (r : Except Fault (Sys π))
    (h : c.system.ReachesBy (fun r l => calmTunnel r l = true) r) :
    ∃ s, r = .ok s ∧ ∀ u ∈ s.consumed, u.event.established = true → u.queued = [] ∧ u.closing ≠ .kept := by
  obtain ⟨s, rfl, -, hsilent⟩ := Config.reachesBy_invariant (I := Sys.Silent) (fun _ => ⟨nofun, nofun, nofun⟩)
    (fun s s' l _ hI hp hm => hm.silent hI hp) h
  exact ⟨s, rfl, hsilent.consumed⟩

/-- The tunnel has ended, and the reactor uses its done event. -/
def tunnelEnd0 : List Label :=
  [.push 0 ⟨false, [], 0⟩, .notify 0, .waited (some [(4, epollIn)]), .event {}, .readEventFd, .readEventFd, .popDone {}]

/-- A run in which the tunnel ends because the other side has gone. -/
theorem established_tunnel_silent_reset :
    ∃ s, smallServer.system.ReachesBy (fun r l => calmTunnel r l = true) (.ok s) ∧
      (∃ u ∈ s.consumed, u.event.established = true) ∧
      ∀ u ∈ s.consumed, u.event.established = true → u.queued = [] ∧ u.closing ≠ .kept := by
  obtain ⟨r, hr, hp⟩ := Lts.exists_of_execBy (M := smallServer.system) (fun r l => calmTunnel r l = true)
    (List.flatten [tunnel5, tunnelled0 [[.polled 0 PollMask.pollHup]], tunnelEnd0])
    (fun r => r.toOption.any fun s : Sys Bytes => s.consumed.any fun u => u.event.established) ⟨0, rfl⟩ (by decide)
  obtain ⟨s, rfl, hs⟩ := established_tunnel_silent smallServer r hr
  exact ⟨s, hr, List.any_eq_true.mp hp, hs⟩

/-- Once the tunnel is open, the client sends a byte that upstream does not take, and ten seconds later more, which
renews its deadline; another ten seconds later the relay's `poll` times out. -/
def stalledUpstream : List Label :=
  List.flatten [tunnel5, [.waited (some [(5, epollIn)]), .event {}], toWait (node5 3),
    tunnelled0 [[.polled PollMask.pollIn 0, .data [1], .failed Errno.eagain 0, .compute, .failed Errno.eagain 0],
      List.replicate 5 .compute],
    [.advance 10000000000, .waited (some [(5, epollIn)]), .event {}, .event {}],
    [.tickTop (node5 3), .tickTop (node5 2), .tickTop (node5 1)],
    [.tickTop (some ⟨5, 25000000000, 4⟩), .tickTop (some ⟨5, 25000000000, 4⟩), .advance 10000000000, .tunnel 0 .timedOut]]

/-- The tunnel was open, and the reactor queues a 503 in it. -/
theorem established_tunnel_silent_false : ∃ s, smallServer.system.Reachable (.ok s) ∧ ∃ u ∈ s.consumed,
    u.event.established = true ∧ u.event.err = Errno.etimedout ∧
      u.queued = MessageBuilder.buildServiceUnavailableResponse (smallServer.strerror Errno.etimedout) := by
  obtain ⟨s, hs, hp⟩ := Config.exists_of_exec (c := smallServer) 0 (List.flatten [stalledUpstream, tunnelEnd0])
    (fun s => s.consumed.any fun u => u.event.established &&
      decide (u.event.err = Errno.etimedout ∧
        u.queued = MessageBuilder.buildServiceUnavailableResponse (smallServer.strerror Errno.etimedout)))
    (by decide +kernel)
  simp only [List.any_eq_true, Bool.and_eq_true, decide_eq_true_eq] at hp
  exact ⟨s, hs, hp⟩

end HpServer
