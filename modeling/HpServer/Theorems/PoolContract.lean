import HpServer.Lemmas.PoolTasks
import HpServer.Lemmas.SystemJobs
import HpServer.TaskBoard

/-!
# The pool and the server's jobs keep the contract of tasks

The server's model has no pool in it: a job that is admitted waits until it is started. What it relies on is the
contract of `TaskBoard`, and both sides of the border keep it: seen through the places of its tasks, the pool with its
threads runs as the board does, and so do the server's jobs, seen through their stages.
-/

namespace HpServer

namespace ThreadPool

variable {T : Type}

/-- The phase of a task that is queued `q` times, in `h` hands and settled `d` times. -/
def phaseOf (q h d : Nat) : Phase :=
  if 0 < d then .settled else if 0 < h then .working else if 0 < q then .waiting else .absent

variable [Fintype T]

/-- The tasks of the pool as a board. -/
def State.board (s : State T) (k : Nat) : Phase :=
  phaseOf (s.shared.queue.count k) (total (Pc.holds k) s.pc) (s.shared.settled k)

variable [DecidableEq T]

/-- What a step does with tasks, and whose hands they are in after it. -/
theorem step_handles {c : Config T} {s s' : State T} {a : Act T} (h : (system c).step s a = some s') :
    Handles s.shared (s.pc a.thread) s'.shared (s'.pc a.thread) ∧
      ∀ k, total (Pc.holds k) s'.pc + (s.pc a.thread).holds k = total (Pc.holds k) s.pc + (s'.pc a.thread).holds k := by
  obtain ⟨pc, p', sh', hmk, hpc, hmv, rfl⟩ := step_move h
  refine ⟨by simpa only [Function.update_self] using hmv.handles, fun k => ?_⟩
  have htot := total_update (Pc.holds k) pc a.thread p'
  rw [hpc, total_congr (Pc.holds k) fun u => (hmk.tasks k u).2] at htot
  simp only [Function.update_self]
  omega

/-- A task that is still offered is nowhere yet. -/
theorem Conserved.nowhere {s : State T} (hc : Conserved s) {t : T} {k : Nat} (h : (s.pc t).offers k = 1) :
    s.shared.queue.count k = 0 ∧ total (Pc.holds k) s.pc = 0 ∧ s.shared.settled k = 0 := by
  have hacc := hc.accepted k
  have hoff := hc.offered k
  rw [total_eq_add (Pc.offers k) s.pc t, h] at hoff
  simp only [Shared.places] at hacc
  simp only [Shared.settled]
  split_ifs at hoff <;> omega

omit [DecidableEq T] in
/-- A task is in one place at most. -/
theorem Conserved.once {s : State T} (hc : Conserved s) (k : Nat) :
    s.shared.queue.count k + total (Pc.holds k) s.pc + s.shared.settled k ≤ 1 := by
  have hacc := hc.accepted k
  have hoff := hc.offered k
  simp only [Shared.places] at hacc
  simp only [Shared.settled]
  split_ifs at hoff <;> omega

omit [DecidableEq T] in
/-- Two boards that differ in one task. -/
theorem board_eq_update {s s' : State T} {k : Nat} {new : Phase} (hk : s'.board k = new)
    (hne : ∀ j, j ≠ k → s'.board j = s.board j) : s'.board = Function.update s.board k new := by
  funext j
  by_cases hj : j = k
  · rw [hj, Function.update_self, hk]
  · rw [Function.update_of_ne hj, hne j hj]

/-- Every step of the pool moves one task on the board, or none. -/
theorem step_board {c : Config T} {s s' : State T} {a : Act T} (hc : Conserved s) (h : (system c).step s a = some s') :
    s'.board = s.board ∨ ∃ b, TaskBoard.system.step s.board b = some s'.board := by
  obtain ⟨hh, hhands⟩ := step_handles h
  have hcount : ∀ {j k : Nat}, j ≠ k → [k].count j = 0 := fun hj => List.count_eq_zero.mpr (by simpa using hj)
  cases hh with
  | nothing hacc hq hset hheld =>
    left
    funext k
    have hk := hhands k
    rw [Pc.holds, Pc.holds, hheld] at hk
    simp only [State.board, hq, hset.eq, Nat.add_right_cancel hk]
  | queues k hp hacc hq hset hheld =>
    right
    have hheld' : (s.pc a.thread).held = [] := by rw [hp]; rfl
    have hsame : ∀ j, total (Pc.holds j) s'.pc = total (Pc.holds j) s.pc := by
      intro j
      have hj := hhands j
      rw [Pc.holds, Pc.holds, hheld, hheld'] at hj
      exact Nat.add_right_cancel hj
    obtain ⟨hq0, hh0, hd0⟩ := hc.nowhere (t := a.thread) (k := k) (by rw [hp]; simp [Pc.offers, Pc.offered])
    refine ⟨.enter k, TaskBoard.move_eq_some ?_ (board_eq_update ?_ ?_)⟩
    · rw [State.board, hq0, hh0, hd0]
      rfl
    · simp [State.board, phaseOf, hq, hset.eq, hsame, hh0, hd0]
    · intro j hj
      simp only [State.board, hq, hset.eq, hsame, List.count_append, hcount hj, Nat.add_zero]
  | takes k hacc hq hset hheld hheld' =>
    right
    have hmoved : ∀ j, total (Pc.holds j) s'.pc = total (Pc.holds j) s.pc + [k].count j := by
      intro j
      have hj := hhands j
      rw [Pc.holds, Pc.holds, hheld, hheld', List.count_nil] at hj
      exact hj
    have honce := hc.once k
    rw [hq, List.count_cons_self] at honce
    have hh0 : total (Pc.holds k) s.pc = 0 := by omega
    have hd0 : s.shared.settled k = 0 := by omega
    refine ⟨.begin k, TaskBoard.move_eq_some ?_ (board_eq_update ?_ ?_)⟩
    · simp [State.board, phaseOf, hq, hh0, hd0]
    · simp [State.board, phaseOf, hset.eq, hmoved, hd0]
    · intro j hj
      simp only [State.board, hq, hset.eq, hmoved, hcount hj, List.count_cons_of_ne hj.symm, Nat.add_zero]
  | settles k hacc hq hset hheld hheld' =>
    right
    have hmoved : ∀ j, total (Pc.holds j) s'.pc + [k].count j = total (Pc.holds j) s.pc := by
      intro j
      have hj := hhands j
      rw [Pc.holds, Pc.holds, hheld, hheld', List.count_nil] at hj
      exact hj
    have honce := hc.once k
    have hhand := hmoved k
    rw [List.count_singleton_self] at hhand
    have hd0 : s.shared.settled k = 0 := by omega
    have hpos : 0 < total (Pc.holds k) s.pc := by omega
    refine ⟨.settle k, TaskBoard.move_eq_some ?_ (board_eq_update ?_ ?_)⟩
    · simp [State.board, phaseOf, hd0, hpos]
    · simp [State.board, phaseOf, hset]
    · intro j hj
      have hjm := hmoved j
      rw [hcount hj, Nat.add_zero] at hjm
      simp only [State.board, hq, hset, hjm, hcount hj, Nat.add_zero]

/-- The pool keeps the contract, whatever its clients call. -/
theorem system_refines_taskBoard (c : Config T) :
    (system c).Refines (fun _ _ => True) TaskBoard.system State.board where
  init := by
    rintro s rfl
    funext k
    have hhands : 0 = total (Pc.holds k) (initState c).pc := by
      simpa [Shared.places, initState] using (conserved_init c).accepted k
    rw [State.board, ← hhands]
    rfl
  step := fun s t i hr _ hst => step_board (reachable_conserved hr) hst

/-- What the pool does from any state it reaches is a run of the board: no task goes back to a place it has left, and
each is taken out of the queue at most once. -/
theorem tasks_once (c : Config T) {s t : State T} {as : List (Act T)} (hs : (system c).Reachable s)
    (h : (system c).Path (fun _ _ => True) s as t) :
    ∃ bs, TaskBoard.system.Path (fun _ _ => True) s.board bs t.board ∧
      ∀ k, (s.board k).rank ≤ (t.board k).rank ∧ bs.count (.begin k) ≤ 1 := by
  obtain ⟨bs, hbs⟩ := (system_refines_taskBoard c).path hs h
  exact ⟨bs, hbs, fun k => ⟨(TaskBoard.path_forward hbs k).1, TaskBoard.path_begin_le_one hbs k⟩⟩

end ThreadPool

variable {π : Type}

/-- The phase of a job, by its stage: its task is settled once its worker has written the eventfd, or when it was
refused. -/
def Stage.phase : Stage → Phase
  | .queued => .waiting
  | .forwarding | .tunnelling _ | .pushed => .working
  | .finished => .settled

/-- The jobs of the server as a board. -/
def Sys.board (s : Sys π) (j : Nat) : Phase := (s.jobs j).elim .absent fun job => job.stage.phase

/-- The board of a state of the server; a fault has none. -/
def boardOf (r : Except Fault (Sys π)) : Nat → Phase := r.toOption.elim (fun _ => .absent) Sys.board

namespace Sys

theorem board_update {s s' : Sys π} {j : Nat} (job : Job) (h : s'.jobs = Function.update s.jobs j (some job)) :
    s'.board = Function.update s.board j job.stage.phase := by
  funext i
  rw [board, h]
  by_cases hi : i = j
  · subst hi
    simp
  · simp [hi, board]

/-- A step of the server moves one job on the board, or none. -/
theorem Moves.board {c : Config π} {s s' : Sys π} {l : Label} (hs : s.JobsOk) (h : s.Moves c l s') :
    s'.board = s.board ∨ ∃ b, TaskBoard.system.step s.board b = some s'.board := by
  have hstay : ∀ {s' : Sys π} {j : Nat} {job : Job} {stage : Stage}, s.jobs j = some job → stage.phase = job.stage.phase →
      s'.jobs = Function.update s.jobs j (some { job with stage := stage }) → s'.board = s.board := by
    intro s' j job stage hj hph hjobs
    rw [board_update _ hjobs, hph, ← Function.update_eq_self j s.board]
    simp [Sys.board, hj]
  have hgo : ∀ {j : Nat} {job : Job}, s.jobs j = some job → s.board j = job.stage.phase := by
    intro j job hj
    rw [Sys.board, hj, Option.elim_some]
  cases h with
  | @submit fd ev rest io server record x id req _ _ hslot hok hid hid' hinf hinf' _ =>
    right
    have hnew : s.board s.nextJob = .absent := by rw [Sys.board, (hs.known _).mpr (Nat.le_refl _), Option.elim_none]
    have hjobs := board_update (s := s) _ (jobs_submitProxyJob (s.served server rest record) fd id req io.admitted)
    cases hadm : io.admitted with
    | true =>
      rw [hadm] at hjobs
      exact ⟨.enter s.nextJob, TaskBoard.move_eq_some hnew hjobs⟩
    | false =>
      rw [hadm] at hjobs
      exact ⟨.refuse s.nextJob, TaskBoard.move_eq_some hnew hjobs⟩
  | @start j errno job hj hst =>
    right
    have hph : (job.begun errno).phase = .working := by
      unfold Job.begun
      split <;> rfl
    have hupd : (s.setStage j job (job.begun errno)).board = Function.update s.board j (job.begun errno).phase :=
      board_update { job with stage := job.begun errno } rfl
    rw [hph] at hupd
    exact ⟨.begin j, TaskBoard.move_eq_some (by rw [hgo hj, hst]; rfl) hupd⟩
  | tunnel hj hst _ => exact .inl (hstay hj (by rw [hst]; rfl) rfl)
  | forwarded hj hst => exact .inl (hstay hj (by rw [hst]; rfl) rfl)
  | tunnelled hj hst _ => exact .inl (hstay hj (by rw [hst]; rfl) rfl)
  | @notify j job hj hst =>
    right
    exact ⟨.settle j, TaskBoard.move_eq_some (by rw [hgo hj, hst]; rfl)
      (board_update (s := s) { job with stage := .finished } rfl)⟩
  | _ => exact .inl rfl

end Sys

/-- The server keeps the contract with its pools. -/
theorem Config.system_refines_taskBoard (c : Config π) :
    c.system.Refines (fun _ _ => True) TaskBoard.system boardOf where
  init := by
    rintro r ⟨now, rfl⟩
    rfl
  step := by
    intro r r' l hr _ hst
    obtain ⟨s, rfl, hok, hjobs⟩ := Sys.reachable_jobsOk hr
    obtain ⟨s', rfl, hm⟩ := Sys.step_moves hok hst
    exact hm.board hjobs

/-- What the server does from any state it reaches is a run of the board: no job goes back, and each is started at
most once. -/
theorem jobs_once (c : Config π) {r r' : Except Fault (Sys π)} {ls : List Label} (hr : c.system.Reachable r)
    (h : c.system.Path (fun _ _ => True) r ls r') :
    ∃ bs, TaskBoard.system.Path (fun _ _ => True) (boardOf r) bs (boardOf r') ∧
      ∀ j, (boardOf r j).rank ≤ (boardOf r' j).rank ∧ bs.count (.begin j) ≤ 1 := by
  obtain ⟨bs, hbs⟩ := c.system_refines_taskBoard.path hr h
  exact ⟨bs, hbs, fun j => ⟨(TaskBoard.path_forward hbs j).1, TaskBoard.path_begin_le_one hbs j⟩⟩

end HpServer
