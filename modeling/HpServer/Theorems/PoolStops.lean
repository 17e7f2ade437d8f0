import HpServer.Lemmas.PoolQuiescence
import HpServer.Theorems.QueueAccounting
import Mathlib.Algebra.Order.BigOperators.Group.Finset
import Mathlib.Data.Fintype.Card

/-!
# A stop of the pool comes to an end

When a `stop`, of either kind, has made its notifications, nobody sleeps any more. If no further call is begun, the
pool then comes to rest within a number of operations that is known beforehand, whatever the order, and where nothing
more can happen every worker has returned and so has every call: no producer is left waiting, and no `stop` in `join`.
This is about runs in which no two calls of `stop` overlap, and tasks that return: a task is one operation here.
-/

namespace HpServer
namespace ThreadPool

variable {T : Type}

/-! ## What is left to do -/

/-- The operations left where `clear_queue` has found the queue empty; `n` is the number of workers. -/
def ClearFrom.rank (n : Nat) : ClearFrom → Nat
  | .stopFirst => n + 6
  | .client | .stopLast => 0

/-- The operations left after `on_task_dequeued`. -/
def Dequeuer.rank (n : Nat) : Dequeuer → Nat
  | .worker => 8
  | .popTask => 0
  | .clear f => f.rank n + 1

/-- A bound on the operations left in a call or in the worker's loop, where a task that is queued counts for nine. -/
def Pc.rank (n : Nat) : Pc T → Nat
  | .idle | .exited | .pushSleep _ | .workerSleep => 0
  | .pushLock _ | .pushAsleep _ _ => 19
  | .pushCount _ => 18
  | .pushStopped _ => 17
  | .pushDone _ => 16
  | .pushCheckStopped _ => 15
  | .pushCheckDone _ => 14
  | .pushThrow | .tryRefuse | .accept | .popTask | .exitUnlock => 1
  | .tryLock _ => 17
  | .tryCount _ => 16
  | .tryStopped _ => 15
  | .tryDone _ => 14
  | .enqueue _ => 13
  | .fetchAdd => 3
  | .notify => 2
  | .clearPop f => f.rank n + 1
  | .fetchSub d _ => d.rank n + 3
  | .storeZero d _ => d.rank n + 2
  | .notifyNotFull d _ => d.rank n + 1
  | .gotUnlock _ => 12
  | .runTask _ => 8
  | .readFlag => 7
  | .loopPop => 6
  | .workerLock | .workerAsleep _ => 5
  | .predPop => 4
  | .predDone => 3
  | .predFlag => 2
  | .stopLoadDone => n + 9
  | .stopLoadStopped true => n + 8
  | .stopLoadStopped false => 2 * n + 10
  | .stopStoreDone => n + 7
  | .stopStoreStopped => 2 * n + 9
  | .stopStoreFlags rest => n + 8 + rest.length
  | .stopLock => n + 6
  | .stopNotifyAll => n + 5
  | .stopNotifyAllNotFull => n + 4
  | .stopUnlock => n + 3
  | .stopJoin rest => rest.length + 2

/-- An action that begins a call. -/
def Act.begins : Act T → Bool
  | .call _ _ => true
  | _ => false

/-- The program points of `stop`. -/
def Pc.inStop : Pc T → Bool
  | .stopLoadDone | .stopLoadStopped _ | .stopStoreDone | .stopStoreStopped | .stopStoreFlags _ => true
  | .stopLock | .stopNotifyAll | .stopNotifyAllNotFull | .stopUnlock | .stopJoin _ => true
  | .clearPop f | .fetchSub (.clear f) _ | .storeZero (.clear f) _ | .notifyNotFull (.clear f) _ => f ≠ .client
  | _ => false

/-- A call of `stop`. -/
def Act.callsStop : Act T → Bool
  | .call _ (.stop _) => true
  | _ => false

/-- `stop` is called only while no call of it is under way. -/
def stopsApart (s : State T) (a : Act T) : Prop := a.callsStop = true → ∀ u, (s.pc u).inStop = false

instance [Fintype T] (s : State T) (a : Act T) : Decidable (stopsApart s a) :=
  inferInstanceAs (Decidable (_ → ∀ _, _))

/-- Whoever heeds the flags is awake. -/
theorem Pc.awake_of_heeds {sh : Shared T} {t : T} {p : Pc T} (h : p.heedless sh t = false) :
    p.sleepsOnCv = false ∧ p.sleepsOnNotFull = false := by
  cases p with
  | workerAsleep notified => cases notified <;> simp_all [heedless, sleepsOnCv, sleepsOnNotFull]
  | pushAsleep k notified => cases notified <;> simp_all [heedless, sleepsOnCv, sleepsOnNotFull]
  | _ => exact ⟨rfl, rfl⟩

variable [DecidableEq T]

/-- A move that begins no call leaves less to do. -/
theorem Move.rank_lt {c : Config T} {a : Act T} {sh sh' : Shared T} {p p' : Pc T} (h : Move c a sh p sh' p')
    (ha : a.begins = false) (hheeds : p.heedless sh a.thread = false) :
    p'.rank c.workers.length + 9 * sh'.queue.length < p.rank c.workers.length + 9 * sh.queue.length := by
  cases h with
  | own h =>
    unfold Shared.step at h
    split at h <;> try simp only [Shared.branch, Shared.lock, Shared.unlock, Shared.tryPop] at h
    all_goals (repeat' split at h)
    all_goals cases h
    all_goals try cases ‹ClearFrom›
    all_goals simp_all [Pc.heedless]
    all_goals simp only [Shared.afterClear, Pc.rank, Dequeuer.rank, ClearFrom.rank, List.length_cons, List.length_nil]
    all_goals omega
  | notifyNotFull d k => rcases d with _ | _ | _ | _ | _ <;> simp only [Shared.afterDequeued, Pc.rank,
    Dequeuer.rank] <;> omega
  | call op hcall _ =>
    rw [hcall] at ha
    cases ha
  | spurious hp =>
    obtain ⟨hcv, hnotFull⟩ := Pc.awake_of_heeds hheeds
    rw [hcv, hnotFull] at hp
    rcases hp with hp | hp <;> cases hp
  | notify | notifyAll | notifyAllNotFull => simp only [Pc.rank]; omega

variable [Fintype T]

/-- A bound on the operations left in the whole pool. -/
def State.work (c : Config T) (s : State T) : Nat := total (Pc.rank c.workers.length) s.pc + 9 * s.shared.queue.length

/-- A `stop` has notified everybody; none of this is undone. -/
structure Settling (c : Config T) (s : State T) : Prop where
  held : MutexHeld s
  stopping : Stopping c s
  told : Told c s.shared
  roused : Roused s

/-- It is kept by every step. -/
theorem Settling.step {c : Config T} {s s' : State T} {a : Act T} (hs : Settling c s)
    (h : (system c).step s a = some s') : Settling c s' := by
  have hstep := courseStep_of_step hs.held hs.stopping h
  exact ⟨step_mutexHeld hs.held h, step_stopping hs.held hs.stopping h, hstep.told_mono hs.told,
    hstep.roused_mono hs.stopping hs.told hs.roused⟩

/-- Every operation leaves less to do. -/
theorem Settling.work_lt {c : Config T} {s s' : State T} {a : Act T} (hs : Settling c s) (ha : a.begins = false)
    (h : (system c).step s a = some s') : s'.work c < s.work c := by
  obtain ⟨pc, p', sh', hmarked, -, hmove, rfl⟩ := step_move h
  -- nobody is marked, because nobody sleeps
  have hpc : pc = s.pc := funext fun u => hmarked.eq_of_awake (Pc.awake_of_heeds (hs.roused u)).1
    (Pc.awake_of_heeds (hs.roused u)).2
  have hless := hmove.rank_lt ha (hs.roused a.thread)
  have htotal := total_update (Pc.rank c.workers.length) s.pc a.thread p'
  rw [hpc]
  simp only [State.work]
  omega

omit [DecidableEq T] [Fintype T] in
/-- What is to be done behind a task taken out. -/
theorem Dequeuer.rank_le (n : Nat) (d : Dequeuer) : d.rank n ≤ n + 8 := by
  rcases d with _ | _ | _ | _ | _ <;> simp only [rank, ClearFrom.rank] <;> omega

omit [DecidableEq T] [Fintype T] in
/-- What a thread has to do, at most. -/
theorem Stopping.rank_le {c : Config T} {s : State T} (h : Stopping c s) (t : T) :
    (s.pc t).rank c.workers.length ≤ 2 * c.workers.length + 19 := by
  cases hpc : s.pc t with
  | stopStoreFlags rest =>
    have hlen := (h.flagging t rest hpc).2.1.length_le
    simp only [Pc.rank]
    omega
  | stopJoin rest =>
    have hlen := (h.joining t rest hpc).length_le
    simp only [Pc.rank]
    omega
  | fetchSub d k | storeZero d k | notifyNotFull d k =>
    have hd := d.rank_le c.workers.length
    simp only [Pc.rank]
    omega
  | clearPop f => cases f <;> simp only [Pc.rank, ClearFrom.rank] <;> omega
  | stopLoadStopped b => cases b <;> simp only [Pc.rank] <;> omega
  | _ =>
    simp only [Pc.rank]
    omega

omit [DecidableEq T] in
/-- What all have to do, at most. -/
theorem Stopping.work_le {c : Config T} {s : State T} (h : Stopping c s) :
    s.work c ≤ Fintype.card T * (2 * c.workers.length + 19) + 9 * s.shared.queue.length := by
  have hsum : total (Pc.rank c.workers.length) s.pc ≤ Fintype.card T * (2 * c.workers.length + 19) := by
    rw [total, ← Nat.nsmul_eq_mul, Fintype.card]
    exact Finset.sum_le_card_nsmul _ _ _ fun t _ => h.rank_le t
  rw [State.work]
  omega

/-! ## Where it comes to rest -/

/-- The program points that wait for `mtx`. -/
def Pc.wantsMtx : Pc T → Bool
  | .pushLock _ | .pushAsleep _ _ | .tryLock _ | .workerLock | .workerAsleep _ | .stopLock => true
  | _ => false

omit [DecidableEq T] [Fintype T] in
/-- Who holds `mtx` waits for nothing. -/
theorem Pc.of_locked {p : Pc T} (h : p.locked = true) :
    p ≠ .idle ∧ p ≠ .exited ∧ p.wantsMtx = false ∧ ∀ rest, p ≠ .stopJoin rest := by
  cases p <;> simp_all [locked, wantsMtx]

/-- A thread can go on, unless it is at rest or waits for `mtx` or for a worker. -/
theorem Settling.enabled {c : Config T} {s : State T} (hs : Settling c s) {t : T} (hidle : s.pc t ≠ .idle)
    (hexited : s.pc t ≠ .exited)
    (hmtx : (s.pc t).wantsMtx = true → s.shared.mtx = none)
    (hjoin : ∀ w rest, s.pc t = .stopJoin (w :: rest) → s.shared.returned w = true) :
    ∃ a, a.begins = false ∧ ((system c).step s a).isSome = true := by
  have hroused := hs.roused t
  have hnobody : (∀ u, (s.pc u).sleepsOnCv = false) ∧ ∀ u, (s.pc u).sleepsOnNotFull = false :=
    ⟨fun u => (Pc.awake_of_heeds (hs.roused u)).1, fun u => (Pc.awake_of_heeds (hs.roused u)).2⟩
  cases hpc : s.pc t with
  | notify => exact ⟨.notifyOne t none, rfl, by simp [system, State.step, State.notifyOne, State.marks, hpc, hnobody.1]⟩
  | notifyNotFull d k => exact ⟨.notifyOne t none,
    rfl, by simp [system, State.step, State.notifyOne, State.marks, hpc, hnobody.2]⟩
  | idle => exact absurd hpc hidle
  | exited => exact absurd hpc hexited
  | pushAsleep k notified | workerAsleep notified =>
    rw [hpc] at hroused
    cases notified with
    | false => cases hroused
    | true =>
      have hfree := hmtx (by rw [hpc]; rfl)
      exact ⟨.step t, rfl, by simp [system, State.step, State.stepThread, Shared.step, Shared.lock, hpc, hfree]⟩
  | pushLock _ | tryLock _ | workerLock | stopLock =>
    have hfree := hmtx (by rw [hpc]; rfl)
    exact ⟨.step t, rfl, by simp [system, State.step, State.stepThread, Shared.step, Shared.lock, hpc, hfree]⟩
  | stopJoin rest =>
    cases rest with
    | nil => exact ⟨.step t, rfl, by simp [system, State.step, State.stepThread, Shared.step, hpc]⟩
    | cons w rest =>
      have hexit := hjoin w rest hpc
      exact ⟨.step t, rfl, by simp [system, State.step, State.stepThread, Shared.step, hpc, hexit]⟩
  | stopStoreFlags rest =>
    refine ⟨.step t, rfl, ?_⟩
    cases rest <;> simp [system, State.step, State.stepThread, Shared.step, hpc]
  | stopLoadStopped b =>
    refine ⟨.step t, rfl, ?_⟩
    cases b <;> simp only [system, State.step, State.stepThread, Shared.step, Shared.branch, hpc] <;> split <;> rfl
  | popTask | clearPop _ | loopPop | predPop =>
    refine ⟨.step t, rfl, ?_⟩
    simp only [system, State.step, State.stepThread, Shared.step, Shared.tryPop, hpc]
    split <;> rfl
  | pushCount _ | pushStopped _ | pushDone _ | pushCheckStopped _ | pushCheckDone _ | tryCount _ | tryStopped _
  | tryDone _ | fetchSub _ _ |
      readFlag | predDone | predFlag | stopLoadDone =>
    refine ⟨.step t, rfl, ?_⟩
    simp only [system, State.step, State.stepThread, Shared.step, Shared.branch, hpc]
    split <;> rfl
  | _ => exact ⟨.step t, rfl, by simp [system, State.step, State.stepThread, Shared.step, Shared.unlock, hpc]⟩

/-- Where nothing can go on, everybody is at rest. -/
theorem Settling.at_rest {c : Config T} {s : State T} (hs : Settling c s)
    (hstuck : ∀ a, a.begins = false → (system c).step s a = none) (t : T) :
    s.pc t = .idle ∨ s.pc t = .exited := by
  have hnot : ∀ {u}, s.pc u ≠ .idle → s.pc u ≠ .exited → ((s.pc u).wantsMtx = true → s.shared.mtx = none) →
      ∃ w rest, s.pc u = .stopJoin (w :: rest) ∧ s.shared.returned w = false := by
    intro u hidle hexited hmtx
    by_contra hnone
    push Not at hnone
    obtain ⟨a, ha, hsome⟩ := hs.enabled hidle hexited hmtx fun w rest hpc => Bool.eq_true_of_not_eq_false
      (hnone w rest hpc)
    rw [hstuck a ha] at hsome
    cases hsome
  -- nobody holds `mtx`, since its holder could go on
  have hfree : s.shared.mtx = none := by
    cases hmtx : s.shared.mtx with
    | none => rfl
    | some u =>
      obtain ⟨hidle, hexited, hwants, hnoJoin⟩ := Pc.of_locked (hs.stopping.mtx u hmtx)
      obtain ⟨w, rest, hjoin, -⟩ := hnot hidle hexited fun hwants' => by cases hwants.symm.trans hwants'
      exact absurd hjoin (hnoJoin _)
  -- so every worker has returned
  have hworkers : ∀ w ∈ c.workers, s.pc w = .exited := by
    intro w hw
    have hloop := (hs.stopping.roles w).mp hw
    by_contra hexited
    have hidle : s.pc w ≠ .idle := by
      intro hpc
      rw [hpc] at hloop
      cases hloop
    obtain ⟨v, rest, hjoin, -⟩ := hnot hidle hexited fun _ => hfree
    rw [hjoin] at hloop
    cases hloop
  by_contra hother
  push Not at hother
  obtain ⟨w, rest, hjoin, hreturned⟩ := hnot hother.1 hother.2 fun _ => hfree
  have hw := (hs.stopping.joining t _ hjoin).subset List.mem_cons_self
  cases (hs.stopping.exited w (hworkers w hw)).symm.trans hreturned

/-- From a state in which a `stop` of either kind waits for the workers, whatever was called before and is being
called, if no two calls of `stop` overlapped: without further calls only so many operations can follow, in any order,
a task that is run to its end being one of them; and where none can, every worker has returned and every call too. -/
theorem stop_ends (c : Config T) {s : State T} (h : (system c).ReachesBy stopsApart s) {t : T} {rest : List T}
    (ht : s.pc t = .stopJoin rest)
    {as : List (Act T)} {s' : State T} (hpath : (system c).Path (fun _ a => a.begins = false) s as s') :
    as.length ≤ Fintype.card T * (2 * c.workers.length + 19) + 9 * s.shared.queue.length ∧
      ((∀ a, a.begins = false → (system c).step s' a = none) →
        (∀ w ∈ c.workers, s'.pc w = .exited ∧ s'.shared.returned w = true) ∧ ∀ u, u ∉ c.workers → s'.pc u = .idle) := by
  have hstopping := reachable_stopping h.reachable
  have hsettling : Settling c s :=
    ⟨reachable_mutexHeld h.reachable, hstopping, hstopping.told t (by rw [ht]; rfl), hstopping.roused t (by rw [ht]; rfl)⟩
  have hsettling' : Settling c s' := hpath.invariant (fun _ _ _ hs _ hstep => hs.step hstep) hsettling
  refine ⟨?_, fun hstuck => ⟨fun w hw => ?_, fun u hu => ?_⟩⟩
  · refine Nat.le_trans ?_ hstopping.work_le
    exact hpath.length_le (State.work c) (fun _ _ _ hs ha hstep => ⟨hs.step hstep, hs.work_lt ha hstep⟩) hsettling
  · have hloop := (hsettling'.stopping.roles w).mp hw
    rcases hsettling'.at_rest hstuck w with hidle | hexited
    · rw [hidle] at hloop
      cases hloop
    · exact ⟨hexited, hsettling'.stopping.exited w hexited⟩
  · rcases hsettling'.at_rest hstuck u with hidle | hexited
    · exact hidle
    · exact absurd ((hsettling'.stopping.roles u).mpr (by rw [hexited]; rfl)) hu

/-- The worker falls asleep, and a client calls `stop(false)`. -/
def sleepThenStop : List (Act Bool) :=
  List.flatten [List.replicate 6 (.step false), [.call true (.stop false)], List.replicate 9 (.step true)]

/-- The worker returns and the client joins it. -/
def returnAndJoin : List (Act Bool) := List.flatten [List.replicate 5 (.step false), List.replicate 3 (.step true)]

theorem stop_ends_poolOne :
    ∃ s s' : State Bool, (system poolOne).ReachesBy stopsApart s ∧ s.pc true = .stopJoin [false] ∧
      (system poolOne).Path (fun _ a => a.begins = false) s returnAndJoin s' ∧ s'.pc false = .exited ∧
        s'.pc true = .idle := by
  obtain ⟨s, hs, htest⟩ := Lts.exists_of_execBy (M := system poolOne) stopsApart sleepThenStop
    (fun s => s.pc true = .stopJoin [false] ∧
      ((system poolOne).execBy (fun _ a => a.begins = false) s returnAndJoin).map (fun s' => (s'.pc false, s'.pc true)) =
        some (.exited, .idle)) rfl (by decide +kernel)
  obtain ⟨hjoin, hrun⟩ := of_decide_eq_true htest
  obtain ⟨s', hexec, hpcs⟩ := Option.map_eq_some_iff.mp hrun
  obtain ⟨hworker, hclient⟩ := Prod.mk.inj hpcs
  have hpath := Lts.path_of_execBy hexec
  have hstuck : ∀ a, a.begins = false → (system poolOne).step s' a = none := by
    intro a ha
    cases a with
    | call t op => cases ha
    | step t => cases t <;> simp [system, State.step, State.stepThread, Shared.step, hworker, hclient]
    | notifyOne t w => cases t <;> simp [system, State.step, State.notifyOne, hworker, hclient]
    | spurious t => cases t <;> simp [system, State.step, Pc.sleepsOnCv, Pc.sleepsOnNotFull, hworker, hclient]
  obtain ⟨-, hrest⟩ := stop_ends poolOne hs hjoin hpath
  obtain ⟨hreturned, hidle⟩ := hrest hstuck
  exact ⟨s, s', hs, hjoin, hpath, (hreturned false (by decide)).1, hidle true (by decide)⟩

end ThreadPool
end HpServer
