import HpServer.Lemmas.PoolMoves

/-!
# The queue, its counter, and the threads in between

A thread that has put a task into `task_queue` and not yet counted it is at `fetchAdd`; one that has taken a task out
and not yet discounted it is on the way to `fetchSub`. `Ledger` lists what a move does to the four numbers: the
queue's length, the counter, and the mover's two shares. `Balanced` is the invariant they keep, as long as the repair
of `on_task_dequeued` (the store of zero after a `fetch_sub` past zero) runs only when the true count is zero
(`RepairExact`).
-/

namespace HpServer
namespace ThreadPool

variable {T : Type} [DecidableEq T]

/-- One for a producer between its `task_queue.push` and its `fetch_add`. -/
def Pc.adding : Pc T → Nat
  | .fetchAdd => 1
  | _ => 0

/-- One for a thread between its `try_pop` of a task and its `fetch_sub`. -/
def Pc.subbing : Pc T → Nat
  | .gotUnlock _ | .fetchSub _ _ => 1
  | _ => 0

/-- About to store zero, after a `fetch_sub` that found zero. -/
def Pc.repairing : Pc T → Bool
  | .storeZero _ _ => true
  | _ => false

/-- About to put a task into the queue. -/
def Pc.enqueuing : Pc T → Bool
  | .enqueue _ => true
  | _ => false

/-- What a move does to the queue's length `q`, the counter `n`, and the mover's shares `a` of the threads that add
and `b` of those that subtract; `e` says whether it queues a task and `z` whether it is the repair. -/
inductive Ledger (e z : Bool) : Nat → Nat → Nat → Nat → Nat → Nat → Nat → Nat → Prop where
  | same {q n a b : Nat} : Ledger e z q n a b q n a b
  | enqueue {q n : Nat} : e = true → Ledger e z q n 0 0 (q + 1) n 1 0
  | add {q n : Nat} : Ledger e z q n 1 0 q ((n + 1) % sizeRange) 0 0
  | pop {q n : Nat} : Ledger e z (q + 1) n 0 0 q n 0 1
  | sub {q n : Nat} : Ledger e z q n 0 1 q ((n + (sizeRange - 1)) % sizeRange) 0 0
  | repair {q n : Nat} : z = true → Ledger e z q n 0 0 q 0 0 0

/-- Over the sums `A` and `B` of the shares, a move whose repair is exact keeps the counter in balance with the tasks
queued or taken out, and adds to these only by queueing a task. -/
theorem Ledger.numbers {e z : Bool} {q n a b q' n' a' b' A B A' B' : Nat} (h : Ledger e z q n a b q' n' a' b')
    (hA : A' + a = A + a') (hB : B' + b = B + b') (hn : n < sizeRange) (hbal : (n + A) % sizeRange = (q + B) % sizeRange)
    (hz : z = true → q + B = A) :
    n' < sizeRange ∧ (n' + A') % sizeRange = (q' + B') % sizeRange ∧
      (q' + B' ≤ q + B ∨ e = true ∧ q' + B' = q + B + 1) := by
  have hR : 0 < sizeRange := by decide
  cases h with
  | same =>
    obtain rfl : A' = A := by omega
    obtain rfl : B' = B := by omega
    exact ⟨hn, hbal, .inl (Nat.le_refl _)⟩
  | enqueue he =>
    obtain rfl : A' = A + 1 := by omega
    obtain rfl : B' = B := by omega
    refine ⟨hn, ?_, .inr ⟨he, by omega⟩⟩
    rw [← Nat.add_assoc, Nat.add_right_comm q 1 B', Nat.add_mod, hbal, ← Nat.add_mod]
  | add =>
    obtain rfl : A = A' + 1 := by omega
    obtain rfl : B' = B := by omega
    refine ⟨Nat.mod_lt _ hR, ?_, .inl (Nat.le_refl _)⟩
    rw [Nat.mod_add_mod, Nat.add_assoc, Nat.add_comm 1 A', hbal]
  | pop =>
    obtain rfl : A' = A := by omega
    obtain rfl : B' = B + 1 := by omega
    refine ⟨hn, ?_, .inl (by omega)⟩
    rw [hbal, Nat.add_right_comm, Nat.add_assoc]
  | sub =>
    obtain rfl : A' = A := by omega
    obtain rfl : B = B' + 1 := by omega
    refine ⟨Nat.mod_lt _ hR, ?_, .inl (by omega)⟩
    have hsum : q + (B' + 1) + (sizeRange - 1) = q + B' + sizeRange := by omega
    rw [Nat.mod_add_mod, Nat.add_right_comm, Nat.add_mod, hbal, ← Nat.add_mod, hsum, Nat.add_mod_right]
  | repair hr =>
    obtain rfl : A' = A := by omega
    obtain rfl : B' = B := by omega
    exact ⟨hR, by rw [hz hr, Nat.zero_add], .inl (Nat.le_refl _)⟩

/-- The ledger of a move. -/
theorem Move.ledger {c : Config T} {a : Act T} {sh sh' : Shared T} {p p' : Pc T} (h : Move c a sh p sh' p') :
    Ledger p.enqueuing p.repairing sh.queue.length sh.queuedTaskCount p.adding p.subbing sh'.queue.length
      sh'.queuedTaskCount
      p'.adding p'.subbing := by
  cases h with
  | own h =>
    unfold Shared.step at h
    split at h <;> try simp only [Shared.branch, Shared.lock, Shared.unlock, Shared.tryPop] at h
    all_goals (repeat' split at h)
    all_goals cases h
    all_goals simp only [Pc.adding, Pc.subbing, Pc.repairing, Pc.enqueuing]
    all_goals first
      | with_reducible exact .same
      | with_reducible exact .add
      | with_reducible exact .sub
      | exact .repair rfl
      | (rw [List.length_append]; exact .enqueue rfl)
      | (rw [‹sh.queue = _›, List.length_cons]; exact .pop)
      | (cases ‹ClearFrom› <;> exact .same)
  | notify => exact .same
  | notifyNotFull d k => cases d <;> exact .same
  | notifyAll => exact .same
  | notifyAllNotFull => exact .same
  | call op _ _ =>
    cases op with
    | stop b => cases b <;> exact .same
    | _ => exact .same
  | spurious hp => cases p <;> simp_all [Pc.sleepsOnCv, Pc.sleepsOnNotFull, Pc.wake] <;> exact .same

/-! ## Sums over the threads -/

omit [DecidableEq T] in
/-- Marking sleeping threads changes no thread's share. -/
theorem Marked.shares {pc pc' : T → Pc T} (h : Marked pc pc') (u : T) :
    (pc' u).adding = (pc u).adding ∧ (pc' u).subbing = (pc u).subbing := by
  refine ⟨h.keeps ?_ u, h.keeps ?_ u⟩
  · intro p
    cases p <;> rfl
  · intro p
    cases p <;> rfl

variable [Fintype T]

/-- The tasks in the queue, with those taken out and not yet discounted. -/
def State.uncounted (s : State T) : Nat := s.shared.queue.length + total Pc.subbing s.pc

/-- The producers that have queued a task and not yet counted it. -/
def State.adders (s : State T) : Nat := total Pc.adding s.pc

/-- The condition on the repair: a thread stores zero only when the tasks queued or taken out and not discounted are
as many as the producers that have not yet counted theirs, so that the true count is zero. -/
def RepairExact (s : State T) (a : Act T) : Prop := (s.pc a.thread).repairing = true → s.uncounted = s.adders

/-- A step changes the sums as its ledger says. -/
theorem step_ledger {c : Config T} {s s' : State T} {a : Act T} (h : (system c).step s a = some s') :
    Ledger (s.pc a.thread).enqueuing (s.pc a.thread).repairing s.shared.queue.length s.shared.queuedTaskCount
        (s.pc a.thread).adding (s.pc a.thread).subbing s'.shared.queue.length s'.shared.queuedTaskCount
          (s'.pc a.thread).adding
        (s'.pc a.thread).subbing ∧
      s'.adders + (s.pc a.thread).adding = s.adders + (s'.pc a.thread).adding ∧
      total Pc.subbing s'.pc + (s.pc a.thread).subbing = total Pc.subbing s.pc + (s'.pc a.thread).subbing := by
  obtain ⟨pc, p', sh', hmk, hpc, hmv, rfl⟩ := step_move h
  have hadd := total_update Pc.adding pc a.thread p'
  have hsub := total_update Pc.subbing pc a.thread p'
  rw [hpc, total_congr Pc.adding fun u => (hmk.shares u).1] at hadd
  rw [hpc, total_congr Pc.subbing fun u => (hmk.shares u).2] at hsub
  simp only [Function.update_self]
  exact ⟨hmv.ledger, hadd, hsub⟩

omit [DecidableEq T] in
/-- A thread that holds `mtx` and is not counting keeps every producer from counting. -/
theorem adders_eq_zero {s : State T} (hm : MutexHeld s) {t : T} (ht : (s.pc t).locked = true)
    (ha : (s.pc t).adding = 0) : s.adders = 0 := by
  refine total_eq_zero _ _ fun u => ?_
  by_cases hu : (s.pc u).locked = true
  · have hut : t = u := Option.some.inj ((hm t ht).symm.trans (hm u hu))
    rw [← hut, ha]
  · cases hp : s.pc u <;> simp_all [Pc.locked, Pc.adding]

omit [DecidableEq T] [Fintype T] in
/-- Only the holder of `mtx` puts a task into the queue. -/
theorem Pc.locked_of_enqueuing {p : Pc T} (h : p.enqueuing = true) : p.locked = true := by
  cases p <;> simp_all [Pc.enqueuing, Pc.locked]

/-! ## Admission -/

omit [DecidableEq T] [Fintype T] in
/-- What a caller has seen of the queue when it has passed part of its admission check, in terms of the number `n` of
tasks queued or taken out and not discounted. -/
def Pc.Admits (limit n : Nat) (sh : Shared T) : Pc T → Prop
  | .tryStopped _ | .tryDone _ | .enqueue _ => n < limit
  | .pushCheckStopped _ => n < limit ∨ sh.isStopped = true ∨ sh.isDone = true
  | .pushCheckDone _ => n < limit ∨ sh.isDone = true
  | _ => True

omit [DecidableEq T] [Fintype T] in
/-- What a caller has seen stays true when tasks leave the queue and flags are set. -/
theorem Pc.Admits.mono {limit n n' : Nat} {sh sh' : Shared T} {p : Pc T} (h : p.Admits limit n sh) (hn : n' ≤ n)
    (hs : sh.isStopped = true → sh'.isStopped = true) (hd : sh.isDone = true → sh'.isDone = true) :
    p.Admits limit n' sh' := by
  cases p <;> simp only [Pc.Admits] at h ⊢
  case pushCheckStopped k =>
    rcases h with h | h | h
    · exact .inl (by omega)
    · exact .inr (.inl (hs h))
    · exact .inr (.inr (hd h))
  case pushCheckDone k =>
    rcases h with h | h
    · exact .inl (by omega)
    · exact .inr (hd h)
  all_goals omega

omit [DecidableEq T] [Fintype T] in
/-- A caller outside the mutex has seen nothing. -/
theorem Pc.admits_of_not_locked {limit n : Nat} {sh : Shared T} {p : Pc T} (h : p.locked = false) :
    p.Admits limit n sh := by
  cases p <;> simp_all [Pc.locked, Pc.Admits]

omit [Fintype T] in
/-- The flags of the pool are never reset. -/
theorem Move.flags {c : Config T} {a : Act T} {sh sh' : Shared T} {p p' : Pc T} (h : Move c a sh p sh' p') :
    (sh.isStopped = true → sh'.isStopped = true) ∧ (sh.isDone = true → sh'.isDone = true) := by
  cases h with
  | own h =>
    unfold Shared.step at h
    split at h <;> try simp only [Shared.branch, Shared.lock, Shared.unlock, Shared.tryPop] at h
    all_goals (repeat' split at h)
    all_goals cases h
    all_goals simp
  | notifyNotFull d k => cases d <;> simp [Shared.afterDequeued]
  | _ => exact ⟨id, id⟩

omit [Fintype T] in
/-- A caller's own move keeps what it has seen, when the counter it may read is the number of tasks. -/
theorem Move.admits {c : Config T} {a : Act T} {sh sh' : Shared T} {p p' : Pc T} {n : Nat} (h : Move c a sh p sh' p')
    (hp : p.Admits c.limit n sh) (hn : p.locked = true → p.adding = 0 → sh.queuedTaskCount = n) :
    p'.Admits c.limit n sh' := by
  cases h with
  | own h =>
    unfold Shared.step at h
    split at h <;> try simp only [Shared.branch, Shared.lock, Shared.unlock, Shared.tryPop] at h
    all_goals (repeat' split at h)
    all_goals cases h
    all_goals simp_all [Pc.Admits, Pc.locked, Pc.adding]
    cases ‹ClearFrom› <;> simp [Shared.afterClear]
  | notifyNotFull d k => cases d <;> trivial
  | call op _ _ =>
    cases op with
    | stop b => cases b <;> trivial
    | _ => trivial
  | spurious hp => exact Pc.admits_of_not_locked (Pc.wake_not_locked hp).1
  | _ => trivial

omit [Fintype T] in
/-- After queueing its task a caller has nothing left to check. -/
theorem Move.admits_of_enqueuing {c : Config T} {a : Act T} {sh sh' : Shared T} {p p' : Pc T} {n : Nat}
    (h : Move c a sh p sh' p') (he : p.enqueuing = true) : p'.Admits c.limit n sh' := by
  cases p <;> simp only [Pc.enqueuing, Bool.false_eq_true] at he
  cases h with
  | own h => cases h; trivial
  | spurious hp => simp [Pc.sleepsOnCv, Pc.sleepsOnNotFull] at hp

end ThreadPool
end HpServer
