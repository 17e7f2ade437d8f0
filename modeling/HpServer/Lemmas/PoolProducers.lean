import HpServer.Lemmas.PoolLedger

/-!
# Producers that are held back

A caller of `push` that has found the queue full is sure of a notification as long as the counter is at the limit, a
task is queued, or a thread is between taking a task out and notifying: `Relieved`. A `fetch_add` cannot take the
counter from the limit past its range, since a caller that gets there had room, unless a store of zero is due
(`Roomy`). A notification keeps `Relieved` if others are to follow it or if it leaves no producer behind (`Heeded`).
-/

namespace HpServer
namespace ThreadPool

variable {T : Type}

namespace Pc

/-- Between taking a task out and `cv_not_full.notify_one`. -/
def dequeuing : Pc T → Bool
  | .gotUnlock _ | .fetchSub _ _ | .storeZero _ _ | .notifyNotFull _ _ => true
  | _ => false

/-- A caller of `push` that has found the queue full and sleeps unmarked, or is about to. -/
def heldBack : Pc T → Bool
  | .pushStopped _ | .pushDone _ | .pushSleep _ | .pushAsleep _ false => true
  | _ => false

/-- About to notify the producers. -/
def relieving : Pc T → Bool
  | .notifyNotFull _ _ => true
  | _ => false

/-- The repair is made on the way to the notification. -/
theorem dequeuing_of_repairing {p : Pc T} (h : p.repairing = true) : p.dequeuing = true := by
  cases p with
  | storeZero d k => rfl
  | _ => cases h

/-- A producer sleeps only where it is held back. -/
theorem heldBack_of_sleeps {p : Pc T} (h : p.sleepsOnNotFull = true) : p.heldBack = true := by
  cases p with
  | pushAsleep k notified =>
    cases notified with
    | false => rfl
    | true => cases h
  | _ => cases h

/-- Whoever is woken looks again. -/
theorem not_heldBack_wake (p : Pc T) (h : p.sleepsOnCv = true ∨ p.sleepsOnNotFull = true) : p.wake.heldBack = false := by
  cases p with
  | workerAsleep notified | pushAsleep k notified => rfl
  | _ => simp [sleepsOnCv, sleepsOnNotFull] at h

theorem dequeuing_wake (p : Pc T) : p.wake.dequeuing = p.dequeuing := by
  cases p <;> rfl

theorem repairing_wake (p : Pc T) : p.wake.repairing = p.repairing := by
  cases p <;> rfl

/-- With the counter at zero there is room. -/
theorem admits_zero {limit : Nat} (h : 0 < limit) (sh : Shared T) (p : Pc T) : p.Admits limit 0 sh := by
  cases p <;> simp only [Admits] <;> first | exact h | exact .inl h

end Pc

/-- The limit is at least one. -/
theorem Config.limit_pos (c : Config T) : 0 < c.limit := by
  rw [Config.limit]
  split
  · exact Nat.one_pos
  · exact Nat.pos_of_ne_zero ‹_›

variable [DecidableEq T]

/-- What a move other than the notification of the producers does to the data of `Relieved`. -/
structure Relief (c : Config T) (sh : Shared T) (p : Pc T) (sh' : Shared T) (p' : Pc T) : Prop where
  heldBack : p'.heldBack = true → p.heldBack = true ∨ c.limit ≤ sh'.queuedTaskCount
  dequeuing : p.dequeuing = true → p'.dequeuing = true
  queue : sh.queue ≠ [] → sh'.queue ≠ [] ∨ p'.dequeuing = true
  full : c.limit ≤ sh.queuedTaskCount → c.limit ≤ sh'.queuedTaskCount ∨ p'.dequeuing = true ∨ p = .fetchAdd

omit [DecidableEq T] in
/-- A move that leaves the queue and its counter alone, between points that take no part in this. -/
theorem Relief.quiet {c : Config T} {sh sh' : Shared T} {p p' : Pc T} (hqueue : sh'.queue = sh.queue)
    (hcount : sh'.queuedTaskCount = sh.queuedTaskCount) (hdeq : p.dequeuing = false) (hheld : p'.heldBack = false) :
    Relief c sh p sh' p' := by
  refine ⟨?_, ?_, ?_, ?_⟩
  · intro h
    rw [hheld] at h
    cases h
  · intro h
    rw [hdeq] at h
    cases h
  · intro h
    exact .inl (hqueue ▸ h)
  · intro h
    exact .inl (hcount ▸ h)

/-- Every move but the notification does no more than that. -/
theorem Move.relief {c : Config T} {a : Act T} {sh sh' : Shared T} {p p' : Pc T} (h : Move c a sh p sh' p')
    (hp : p.relieving = false) : Relief c sh p sh' p' := by
  cases h with
  | own h =>
    unfold Shared.step at h
    split at h <;> try simp only [Shared.branch, Shared.lock, Shared.unlock, Shared.tryPop] at h
    all_goals (repeat' split at h)
    all_goals cases h
    all_goals constructor <;> simp_all [Pc.heldBack, Pc.dequeuing]
    all_goals cases ‹ClearFrom› <;> simp [Shared.afterClear] at *
  | notifyNotFull d k => cases hp
  | call op _ _ =>
    cases op with
    | stop wait => cases wait <;> exact .quiet rfl rfl rfl rfl
    | _ => exact .quiet rfl rfl rfl rfl
  | spurious hs =>
    refine ⟨?_, ?_, .inl, .inl⟩
    · intro hheld
      rw [Pc.not_heldBack_wake p hs] at hheld
      cases hheld
    · intro hdeq
      rwa [Pc.dequeuing_wake]
  | _ => exact .quiet rfl rfl rfl rfl

/-! ## Callers past their admission check -/

/-- The `fetch_sub` of a counter that is not zero. -/
theorem pred_mod_le {n : Nat} (hn : n ≠ 0) : (n + (sizeRange - 1)) % sizeRange ≤ n := by
  have hsum : n + (sizeRange - 1) = n - 1 + sizeRange := by
    have hR : 0 < sizeRange := Nat.two_pow_pos 64
    omega
  rw [hsum, Nat.add_mod_right]
  exact Nat.le_trans (Nat.mod_le _ _) (Nat.sub_le _ _)

/-- A move lowers the counter or leaves it, unless it is the `fetch_add` of a producer, or a `fetch_sub` that found
zero. -/
theorem Move.count {c : Config T} {a : Act T} {sh sh' : Shared T} {p p' : Pc T} (h : Move c a sh p sh' p') :
    p'.repairing = true ∨ p = .fetchAdd ∧ p' = .notify ∨ sh'.queuedTaskCount ≤ sh.queuedTaskCount := by
  cases h with
  | own h =>
    cases p with
    | fetchSub d k =>
      simp only [Shared.step, Shared.branch] at h
      split at h
      · cases h
        exact .inl rfl
      · rename_i hne
        cases h
        exact .inr (.inr (pred_mod_le hne))
    | fetchAdd =>
      cases h
      exact .inr (.inl ⟨rfl, rfl⟩)
    | storeZero d k =>
      cases h
      exact .inr (.inr (Nat.zero_le _))
    | stopLoadStopped wait =>
      cases wait <;> simp only [Shared.step, Shared.branch] at h <;> split at h <;> cases h <;>
        exact .inr (.inr (Nat.le_refl _))
    | stopStoreFlags rest => cases rest <;> cases h <;> exact .inr (.inr (Nat.le_refl _))
    | stopJoin rest =>
      cases rest with
      | nil => cases h; exact .inr (.inr (Nat.le_refl _))
      | cons w rest =>
        obtain ⟨-, heq⟩ := Option.ite_none_right_eq_some.mp h
        cases heq
        exact .inr (.inr (Nat.le_refl _))
    | _ =>
      refine .inr (.inr (Nat.le_of_eq ?_))
      unfold Shared.step at h
      try simp only [Shared.branch, Shared.lock, Shared.unlock, Shared.tryPop] at h
      repeat' split at h
      all_goals cases h
      all_goals rfl
  | notifyNotFull d k => cases d <;> exact .inr (.inr (Nat.le_refl _))
  | _ => exact .inr (.inr (Nat.le_refl _))

/-- A caller of `push` or `try_push` that is admitted has room, while no thread is about to store zero. -/
def Roomy (c : Config T) (s : State T) : Prop :=
  (∃ u, (s.pc u).repairing = true) ∨
    ∀ t, (s.pc t).Admits c.limit s.shared.queuedTaskCount s.shared ∧
      (s.pc t = .fetchAdd → s.shared.queuedTaskCount < c.limit)

/-- Only a caller that was admitted gets to its `fetch_add`. -/
theorem Move.admitted_of_fetchAdd {c : Config T} {a : Act T} {sh sh' : Shared T} {p p' : Pc T} {limit n : Nat}
    (h : Move c a sh p sh' p') (hp' : p' = .fetchAdd) (hp : p.Admits limit n sh) : n < limit := by
  subst hp'
  generalize hend : (Pc.fetchAdd : Pc T) = p' at h
  cases h with
  | own h =>
    unfold Shared.step at h
    split at h <;> try simp only [Shared.branch, Shared.lock, Shared.unlock, Shared.tryPop] at h
    all_goals (repeat' split at h)
    all_goals cases h
    all_goals first
      | exact hp
      | cases hend
      | (cases ‹ClearFrom› <;> cases hend)
  | notifyNotFull d k => cases d <;> cases hend
  | call op _ _ =>
    cases op with
    | stop wait => cases wait <;> cases hend
    | _ => cases hend
  | spurious hs =>
    cases p with
    | workerAsleep notified | pushAsleep k notified => cases hend
    | _ => simp [Pc.sleepsOnCv, Pc.sleepsOnNotFull] at hs
  | _ => cases hend

/-- The store of zero. -/
theorem Move.count_of_repairing {c : Config T} {a : Act T} {sh sh' : Shared T} {p p' : Pc T} (h : Move c a sh p sh' p')
    (hp : p.repairing = true) : sh'.queuedTaskCount = 0 := by
  cases p with
  | storeZero d k =>
    cases h with
    | own h => cases h; rfl
    | spurious hs => simp [Pc.sleepsOnCv, Pc.sleepsOnNotFull] at hs
  | _ => cases hp

/-- It is kept by every step. -/
theorem step_roomy [Fintype T] {c : Config T} {s s' : State T} {a : Act T} (hm : MutexHeld s) (hr : Roomy c s)
    (h : (system c).step s a = some s') : Roomy c s' := by
  obtain ⟨pc, p', sh', hmk, hpc, hmv, rfl⟩ := step_move h
  by_cases hrep : (s.pc a.thread).repairing = true
  · -- after the store of zero there is room for everyone
    have hzero := hmv.count_of_repairing hrep
    refine .inr fun t => ?_
    simp only [hzero]
    exact ⟨Pc.admits_zero c.limit_pos _ _, fun _ => c.limit_pos⟩
  · rcases hr with ⟨u, hu⟩ | hroom
    · have hut : u ≠ a.thread := by
        rintro rfl
        exact hrep hu
      refine .inl ⟨u, ?_⟩
      simp only [Function.update_of_ne hut]
      rwa [hmk.keeps Pc.repairing_wake u]
    · rcases hmv.count with hzero | hcases
      · refine .inl ⟨a.thread, ?_⟩
        simp only [Function.update_self]
        exact hzero
      · refine .inr fun t => ?_
        by_cases ht : t = a.thread
        · subst ht
          simp only [Function.update_self]
          rcases hcases with ⟨-, rfl⟩ | hle
          · exact ⟨trivial, fun hend => by cases hend⟩
          · have hadm := hmv.admits (hroom a.thread).1 fun _ _ => rfl
            refine ⟨hadm.mono hle id id, fun hend => ?_⟩
            exact Nat.lt_of_le_of_lt hle (hmv.admitted_of_fetchAdd hend (hroom a.thread).1)
        · simp only [Function.update_of_ne ht]
          by_cases hlk : (pc t).locked = true
          · have heq := hmk.eq_of_locked hlk
            rw [heq] at hlk ⊢
            rcases hcases with ⟨hadd, -⟩ | hle
            · -- a producer that counts its task keeps the others out of the mutex
              have hown := hm a.thread (by rw [hadd]; rfl)
              exact absurd (Option.some.inj ((hm t hlk).symm.trans hown)) ht
            · obtain ⟨hadm, hfetch⟩ := hroom t
              exact ⟨hadm.mono hle hmv.flags.1 hmv.flags.2, fun hp => Nat.lt_of_le_of_lt hle (hfetch hp)⟩
          · refine ⟨Pc.admits_of_not_locked (by simpa using hlk), fun hp => ?_⟩
            rw [hp] at hlk
            exact absurd rfl hlk

/-- By induction it holds in every state. -/
theorem reachable_roomy [Fintype T] {c : Config T} {s : State T} (h : (system c).Reachable s) : Roomy c s := by
  refine h.invariant ?_ fun s t a hr hs hstep => step_roomy (reachable_mutexHeld hr) hs hstep
  rintro s rfl
  refine .inr fun t => ⟨Pc.admits_zero c.limit_pos _ _, fun _ => c.limit_pos⟩

/-! ## Producers that are held back -/

variable [Fintype T]

/-- While a producer is held back, the counter is at the limit, a task is queued, or a thread has taken a task out and
will notify. -/
def Relieved (c : Config T) (s : State T) : Prop :=
  (∃ t, (s.pc t).heldBack = true) → c.limit ≤ s.shared.queuedTaskCount ∨ s.shared.queue ≠ [] ∨
    ∃ u, (s.pc u).dequeuing = true

/-- The condition on the `notify_one` of `on_task_dequeued`: if the counter is below the limit, the queue is empty and
no other thread is between taking a task out and notifying, then no producer has found the queue full and does not
sleep yet, and at most one producer sleeps unmarked. -/
def Heeded (c : Config T) (s : State T) (a : Act T) : Prop :=
  (s.pc a.thread).relieving = true → s.shared.queuedTaskCount < c.limit → s.shared.queue = [] →
    (∀ u, u ≠ a.thread → (s.pc u).dequeuing = false) →
    ∀ u, (s.pc u).heldBack = true → (s.pc u).sleepsOnNotFull = true ∧ ∀ v, (s.pc v).heldBack = true → v = u

/-- The notification of the producers, taken apart. -/
theorem step_relieving {c : Config T} {s s' : State T} {a : Act T} (hp : (s.pc a.thread).relieving = true)
    (h : (system c).step s a = some s') :
    ∃ waiter pc, State.marks Pc.sleepsOnNotFull s.pc waiter = some pc ∧ s'.shared.queue = s.shared.queue ∧
      s'.shared.queuedTaskCount = s.shared.queuedTaskCount ∧ (s'.pc a.thread).heldBack = false ∧
      ∀ u, u ≠ a.thread → s'.pc u = pc u := by
  cases hpc : s.pc a.thread with
  | notifyNotFull d k =>
    obtain ⟨waiter, ha⟩ := act_of_notifiesOne (by rw [hpc]; rfl) h
    rw [ha] at h
    change s.notifyOne a.thread waiter = some s' at h
    simp only [State.notifyOne, hpc] at h
    obtain ⟨pc, hmarks, rfl⟩ := Option.map_eq_some_iff.mp h
    refine ⟨waiter, pc, hmarks, ?_, ?_, ?_, ?_⟩
    · cases d <;> rfl
    · cases d <;> rfl
    · simp only [Function.update_self]
      cases d <;> rfl
    · intro u hu
      exact Function.update_of_ne hu ..
  | _ =>
    rw [hpc] at hp
    cases hp

/-- The waiter that is marked is no longer held back, and the others are where they were. -/
theorem heldBack_of_marks {pc pc' : T → Pc T} {waiter : Option T}
    (h : State.marks Pc.sleepsOnNotFull pc waiter = some pc') {u : T} (hu : (pc' u).heldBack = true) :
    (pc u).heldBack = true ∧ ((pc u).sleepsOnNotFull = true → ∃ v, v ≠ u ∧ (pc v).heldBack = true) := by
  cases waiter with
  | none =>
    obtain ⟨hawake, heq⟩ := Option.ite_none_right_eq_some.mp h
    cases heq
    refine ⟨hu, fun hsleep => ?_⟩
    rw [hawake u] at hsleep
    cases hsleep
  | some w =>
    obtain ⟨hw, heq⟩ := Option.ite_none_right_eq_some.mp h
    cases heq
    by_cases huw : u = w
    · rw [huw, Function.update_self, Pc.not_heldBack_wake _ (.inr hw)] at hu
      cases hu
    · rw [Function.update_of_ne huw] at hu
      exact ⟨hu, fun _ => ⟨w, Ne.symm huw, Pc.heldBack_of_sleeps hw⟩⟩

/-- A notification that is heeded leaves nobody to wait in vain. -/
theorem step_relieved_notify {c : Config T} {s s' : State T} {a : Act T} (hp : (s.pc a.thread).relieving = true)
    (hheed : Heeded c s a) (h : (system c).step s a = some s') : Relieved c s' := by
  obtain ⟨waiter, pc, hmarks, hqueue, hcount, hself, hothers⟩ := step_relieving hp h
  rintro ⟨t, ht⟩
  rw [hqueue, hcount]
  by_contra hnone
  simp only [not_or, not_le, not_not, not_exists] at hnone
  obtain ⟨hroom, hempty, hdeq⟩ := hnone
  have hne : t ≠ a.thread := by
    rintro rfl
    rw [hself] at ht
    cases ht
  rw [hothers t hne] at ht
  obtain ⟨hheld, hsole⟩ := heldBack_of_marks hmarks ht
  have hmk : Marked s.pc pc := marks_marked (fun _ hs => .inr hs) hmarks
  -- no other thread is on its way to notify, so this one had to reach everyone
  obtain ⟨hsleeps, honly⟩ := hheed hp hroom hempty (fun u hu => by
    rw [← hmk.keeps Pc.dequeuing_wake u, ← hothers u hu]
    simpa using hdeq u) t hheld
  obtain ⟨v, hvt, hv⟩ := hsole hsleeps
  exact hvt (honly v hv)

/-- Every step keeps it, if notifications are heeded. -/
theorem step_relieved {c : Config T} {s s' : State T} {a : Act T} (hroomy : Roomy c s) (hr : Relieved c s)
    (hheed : Heeded c s a) (h : (system c).step s a = some s') : Relieved c s' := by
  by_cases hp : (s.pc a.thread).relieving = true
  · exact step_relieved_notify hp hheed h
  · obtain ⟨pc, p', sh', hmk, hpc, hmv, rfl⟩ := step_move h
    have hrel := hmv.relief (by simpa using hp)
    -- another thread on its way to notify still is
    have hother : ∀ v, v ≠ a.thread → (s.pc v).dequeuing = true →
        ∃ u, (Function.update pc a.thread p' u).dequeuing = true := by
      intro v hv hdeq
      refine ⟨v, ?_⟩
      rwa [Function.update_of_ne hv, hmk.keeps Pc.dequeuing_wake v]
    have hown : p'.dequeuing = true → ∃ u, (Function.update pc a.thread p' u).dequeuing = true := by
      intro hdeq
      refine ⟨a.thread, ?_⟩
      rwa [Function.update_self]
    rintro ⟨t, ht⟩
    have hbefore : (∃ u, (s.pc u).heldBack = true) ∨ c.limit ≤ sh'.queuedTaskCount := by
      by_cases hta : t = a.thread
      · simp only [hta, Function.update_self] at ht
        exact (hrel.heldBack ht).imp_left fun hheld => ⟨a.thread, hheld⟩
      · simp only [Function.update_of_ne hta] at ht
        rcases hmk t with heq | ⟨hs, heq⟩
        · exact .inl ⟨t, heq ▸ ht⟩
        · rw [heq, Pc.not_heldBack_wake _ hs] at ht
          cases ht
    rcases hbefore with hheld | hfull
    · rcases hr hheld with hfull | hqueue | ⟨v, hv⟩
      · rcases hrel.full hfull with hfull' | hdeq | hadd
        · exact .inl hfull'
        · exact .inr (.inr (hown hdeq))
        · -- a producer that counts its task had room, unless a store of zero is due
          rcases hroomy with ⟨v, hv⟩ | hroom
          · refine .inr (.inr (hother v ?_ (Pc.dequeuing_of_repairing hv)))
            rintro rfl
            rw [hadd] at hv
            cases hv
          · exact absurd ((hroom a.thread).2 hadd) (Nat.not_lt.mpr hfull)
      · rcases hrel.queue hqueue with hqueue' | hdeq
        · exact .inr (.inl hqueue')
        · exact .inr (.inr (hown hdeq))
      · by_cases hva : v = a.thread
        · exact .inr (.inr (hown (hrel.dequeuing (hva ▸ hv))))
        · exact .inr (.inr (hother v hva hv))
    · exact .inl hfull

end ThreadPool
end HpServer
