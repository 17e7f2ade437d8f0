import HpServer.Lemmas.PoolMoves
import HpServer.Lib.Count

/-!
# Where the pool's tasks are

Every task a call makes is in one place: in the hands of the call until it is queued or refused, then in `task_queue`,
in the hands of the thread that took it out, and at last executed or discarded. `Conserved` says so by counting each
task's occurrences, so that no task is executed twice.
-/

namespace HpServer
namespace ThreadPool

variable {T : Type}

/-- The task a thread's call of `push` or `try_push` has made and not yet queued. -/
def Pc.offered : Pc T → List Nat
  | .pushLock k | .pushCount k | .pushStopped k | .pushDone k | .pushSleep k | .pushAsleep k _ | .pushCheckStopped k
  | .pushCheckDone k | .tryLock k | .tryCount k | .tryStopped k | .tryDone k | .enqueue k => [k]
  | _ => []

/-- The task a thread has taken out of the queue and not yet executed or let go. -/
def Pc.held : Pc T → List Nat
  | .fetchSub _ k | .storeZero _ k | .notifyNotFull _ k | .runTask k | .gotUnlock k => [k]
  | _ => []

/-- How often a thread offers task `k`. -/
def Pc.offers (k : Nat) (p : Pc T) : Nat := p.offered.count k

/-- How often a thread holds task `k`. -/
def Pc.holds (k : Nat) (p : Pc T) : Nat := p.held.count k

theorem count_cons_eq_add (k j : Nat) (l : List Nat) : (j :: l).count k = [j].count k + l.count k := by
  rw [← List.count_append, List.singleton_append]

@[simp] theorem offered_afterClear (f : ClearFrom) : (Shared.afterClear f : Pc T).offered = [] := by
  cases f <;> rfl

@[simp] theorem held_afterClear (f : ClearFrom) : (Shared.afterClear f : Pc T).held = [] := by
  cases f <;> rfl

theorem Pc.held_wake (p : Pc T) : p.wake.held = p.held := by
  cases p <;> rfl

/-- Marking sleeping threads moves no task. -/
theorem Pc.wake_tasks (k : Nat) {p : Pc T} (h : p.sleepsOnCv = true ∨ p.sleepsOnNotFull = true) :
    p.wake.offers k = p.offers k ∧ p.wake.holds k = p.holds k := by
  cases p <;> simp_all [Pc.sleepsOnCv, Pc.sleepsOnNotFull, Pc.wake, Pc.offers, Pc.holds, Pc.offered, Pc.held]

/-- Marking a sleeper moves no task. -/
theorem Marked.tasks (k : Nat) {pc pc' : T → Pc T} (h : Marked pc pc') (u : T) :
    (pc' u).offers k = (pc u).offers k ∧ (pc' u).holds k = (pc u).holds k := by
  rcases h u with he | ⟨hs, he⟩
  · rw [he]
    exact ⟨rfl, rfl⟩
  · rw [he]
    exact Pc.wake_tasks k hs

/-- How often task `k` is queued, executed or discarded. -/
def Shared.places (sh : Shared T) (k : Nat) : Nat := sh.queue.count k + sh.executed.count k + sh.discarded.count k

/-- How often task `k` is executed or discarded. -/
def Shared.settled (sh : Shared T) (k : Nat) : Nat := sh.executed.count k + sh.discarded.count k

/-- Nothing is executed or discarded. -/
def Shared.Unsettled (sh sh' : Shared T) : Prop := sh'.executed = sh.executed ∧ sh'.discarded = sh.discarded

/-- As long as none is settled, the tally stays. -/
theorem Shared.Unsettled.eq {sh sh' : Shared T} (h : sh.Unsettled sh') (k : Nat) : sh'.settled k = sh.settled k := by
  rw [Shared.settled, Shared.settled, h.1, h.2]

/-- What a move does with tasks: nothing; it queues the task its call has made; it takes the oldest task out of the
queue; or it is done with the task in its hands. -/
inductive Handles (sh : Shared T) (p : Pc T) (sh' : Shared T) (p' : Pc T) : Prop where
  | nothing : sh'.accepted = sh.accepted → sh'.queue = sh.queue → sh.Unsettled sh' → p'.held = p.held →
    Handles sh p sh' p'
  | queues (k : Nat) : p = .enqueue k → sh'.accepted = sh.accepted ++ [k] → sh'.queue = sh.queue ++ [k] →
    sh.Unsettled sh' →
      p'.held = [] → Handles sh p sh' p'
  | takes (k : Nat) : sh'.accepted = sh.accepted → sh.queue = k :: sh'.queue → sh.Unsettled sh' → p.held = [] →
    p'.held = [k] →
      Handles sh p sh' p'
  | settles (k : Nat) : sh'.accepted = sh.accepted → sh'.queue = sh.queue →
      (∀ j, sh'.settled j = sh.settled j + [k].count j) → p.held = [k] → p'.held = [] → Handles sh p sh' p'

variable [DecidableEq T]

/-- What a move does with a task. -/
theorem Move.handles {c : Config T} {a : Act T} {sh sh' : Shared T} {p p' : Pc T} (h : Move c a sh p sh' p') :
    Handles sh p sh' p' := by
  cases h with
  | own h =>
    unfold Shared.step at h
    split at h <;> try simp only [Shared.branch, Shared.lock, Shared.unlock, Shared.tryPop] at h
    all_goals (repeat' split at h)
    all_goals cases h
    all_goals first
      | exact .nothing rfl rfl ⟨rfl, rfl⟩ rfl
      | exact .nothing rfl rfl ⟨rfl, rfl⟩ (held_afterClear _)
      | exact .queues _ rfl rfl rfl ⟨rfl, rfl⟩ rfl
      | exact .takes _ rfl ‹sh.queue = _› ⟨rfl, rfl⟩ rfl rfl
      | exact .settles _ rfl rfl (fun j => by simp only [Shared.settled, List.count_append]; omega) rfl rfl
  | notifyNotFull d k =>
    cases d with
    | worker => exact .nothing rfl rfl ⟨rfl, rfl⟩ rfl
    | popTask | clear _ =>
      refine .settles k rfl rfl (fun j => ?_) rfl rfl
      simp only [Shared.afterDequeued, Shared.settled, List.count_append]
      omega
  | call op _ _ =>
    cases op with
    | stop b => cases b <;> exact .nothing rfl rfl ⟨rfl, rfl⟩ rfl
    | _ => exact .nothing rfl rfl ⟨rfl, rfl⟩ rfl
  | spurious hp => exact .nothing rfl rfl ⟨rfl, rfl⟩ (Pc.held_wake _)
  | _ => exact .nothing rfl rfl ⟨rfl, rfl⟩ rfl

omit [DecidableEq T] in
/-- A move hands its tasks on: what was queued, done with or in the mover's hands still is, with the tasks newly
accepted. -/
theorem Handles.holds (k : Nat) {sh sh' : Shared T} {p p' : Pc T} (h : Handles sh p sh' p') :
    sh'.places k + p'.holds k + sh.accepted.count k = sh.places k + p.holds k + sh'.accepted.count k := by
  have hplaces : ∀ x : Shared T, x.places k = x.queue.count k + x.settled k := fun x => Nat.add_assoc ..
  rw [hplaces, hplaces, Pc.holds, Pc.holds]
  cases h with
  | nothing hacc hq hset hheld => rw [hacc, hq, hset.eq, hheld]
  | queues j hp hacc hq hset hheld =>
    have hnil : p.held = [] := by rw [hp]; rfl
    rw [hacc, hq, hset.eq, hheld, hnil, List.count_append, List.count_append]
    omega
  | takes j hacc hq hset hp hheld =>
    have hcons := count_cons_eq_add k j sh'.queue
    rw [hacc, hq, hset.eq, hp, hheld, List.count_nil]
    omega
  | settles j hacc hq hset hp hheld =>
    rw [hacc, hq, hset, hp, hheld, List.count_nil]
    omega

/-- A move that begins no call only takes offers away: a task offered is queued, still offered or refused. -/
theorem Move.offers (k : Nat) {c : Config T} {a : Act T} {sh sh' : Shared T} {p p' : Pc T} (h : Move c a sh p sh' p') :
    (sh'.nextTask = sh.nextTask ∧ p'.offers k + sh'.accepted.count k ≤ p.offers k + sh.accepted.count k) ∨
      (sh'.nextTask = sh.nextTask + 1 ∧ sh'.accepted = sh.accepted ∧ p'.offers k ≤ if sh.nextTask = k then 1 else 0) := by
  cases h with
  | own h =>
    left
    unfold Shared.step at h
    split at h <;> try simp only [Shared.branch, Shared.lock, Shared.unlock, Shared.tryPop] at h
    all_goals (repeat' split at h)
    all_goals cases h
    all_goals refine ⟨rfl, ?_⟩
    all_goals simp only [Pc.offers, offered_afterClear, List.count_append]
    all_goals first
      | exact Nat.le_refl _
      | (simp only [Pc.offered, List.count_nil]; omega)
  | notifyNotFull d j => cases d <;> simp [Shared.afterDequeued, Pc.offers, Pc.offered]
  | call op _ _ =>
    right
    cases op with
    | stop b => cases b <;> simp [Shared.begin, Pc.start, Pc.offers, Pc.offered]
    | _ => simp [Shared.begin, Pc.start, Pc.offers, Pc.offered, List.count_singleton]
  | spurious hp => exact .inl ⟨rfl, by rw [(Pc.wake_tasks k hp).1]⟩
  | _ => exact .inl ⟨rfl, by simp [Pc.offers, Pc.offered]⟩

variable [Fintype T]

/-- Each accepted task is queued, in a thread's hands, executed or discarded, once; and each task was offered once. -/
structure Conserved (s : State T) : Prop where
  accepted : ∀ k, s.shared.accepted.count k = s.shared.places k + total (Pc.holds k) s.pc
  offered : ∀ k, total (Pc.offers k) s.pc + s.shared.accepted.count k ≤ if k < s.shared.nextTask then 1 else 0

/-- At the beginning there is no task. -/
theorem conserved_init (c : Config T) : Conserved (initState c) := by
  have hpc : ∀ t, (initState c).pc t = .loopPop ∨ (initState c).pc t = .idle := by
    intro t
    by_cases hw : t ∈ c.workers <;> simp [initState, hw]
  constructor
  · intro k
    rw [total_eq_zero (Pc.holds k) _ fun t => by rcases hpc t with h | h <;> rw [h] <;> rfl]
    rfl
  · intro k
    rw [total_eq_zero (Pc.offers k) _ fun t => by rcases hpc t with h | h <;> rw [h] <;> rfl]
    exact Nat.zero_le _

/-- Every step keeps the tasks' places. -/
theorem step_conserved {c : Config T} {s s' : State T} {a : Act T} (hc : Conserved s)
    (h : (system c).step s a = some s') : Conserved s' := by
  obtain ⟨pc, p', sh', hmk, hpc, hmv, rfl⟩ := step_move h
  constructor
  · intro k
    have htot := total_update (Pc.holds k) pc a.thread p'
    rw [hpc, total_congr (Pc.holds k) fun u => (hmk.tasks k u).2] at htot
    have hmove := hmv.handles.holds k
    have hacc := hc.accepted k
    simp only
    omega
  · intro k
    have htot := total_update (Pc.offers k) pc a.thread p'
    rw [hpc, total_congr (Pc.offers k) fun u => (hmk.tasks k u).1] at htot
    have hoff := hc.offered k
    simp only
    rcases hmv.offers k with ⟨hn, hle⟩ | ⟨hn, hacc, hle⟩
    · rw [hn]
      omega
    · rw [hn, hacc]
      split_ifs at hoff hle ⊢ <;> omega

/-- By induction it holds in every state. -/
theorem reachable_conserved {c : Config T} {s : State T} (h : (system c).Reachable s) : Conserved s := by
  refine h.invariant ?_ fun s t i _ hi hs => step_conserved hi hs
  rintro s rfl
  exact conserved_init c

end ThreadPool
end HpServer
