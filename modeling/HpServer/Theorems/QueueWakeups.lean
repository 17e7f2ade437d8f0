import HpServer.Lemmas.QueueList
import HpServer.Lib.Count

/-!
# Waits on the queue

`wait_pop` decides to sleep under `head_mtx`, on a tail it read under `tail_mtx`; `push` moves `tail` under `tail_mtx`
and notifies under no mutex. So a notification can come after a waiter has found the queue empty and before it sleeps,
and finds nobody to wake. Where no notification is lost that way, every value in the queue that a waiter could sleep
on has a thread that will look at the queue or notify.
-/

namespace HpServer
namespace ThreadsafeQueue

variable {T α : Type}

namespace Pc

/-- A caller of `wait_pop` that has read the tail of an empty queue and does not sleep yet. -/
def aboutToSleep : Pc α → Bool
  | .tailUnlock .waitPop _ [] | .waitSleep => true
  | _ => false

/-- One for a caller of `wait_pop` that will still read the tail or has found a value, and for a `push` between its
update of `tail` and its `notify_one`. -/
def attends : Pc α → Nat
  | .headLock .waitPop | .tailLock .waitPop | .tailRead .waitPop | .tailUnlock .waitPop _ (_ :: _) => 1
  | .popData .waitPop | .popHead .waitPop _ | .waitAsleep true => 1
  | .pushUnlock | .pushNotify => 1
  | _ => 0

/-- Inside a call of `wait_pop`. -/
def inWaitPop : Pc α → Bool
  | .headLock c | .tailLock c | .tailRead c | .tailUnlock c _ _ | .popData c | .popHead c _ | .popUnlock c _
  | .popFree c _ =>
    c = .waitPop
  | .waitSleep | .waitAsleep _ => true
  | _ => false

/-- A `push` between its update of `tail` and its `notify_one`. -/
def notifying : Pc α → Bool
  | .pushUnlock | .pushNotify => true
  | _ => false

/-- A caller of `wait_pop` that sleeps unmarked, or is about to. -/
def rests (p : Pc α) : Bool := p.asleep || p.aboutToSleep

/-- A thread that neither notifies nor is awake in `wait_pop` attends to nothing. -/
theorem attends_eq_zero {p : Pc α} (hnotify : p.notifying = false) (hwait : p.inWaitPop = true → p.asleep = true) :
    p.attends = 0 := by
  cases p with
  | tailUnlock c seen held => cases c <;> cases held <;> simp_all [notifying, inWaitPop, asleep, attends]
  | headLock c | tailLock c | tailRead c | popData c => cases c <;> simp_all [inWaitPop, asleep, attends]
  | popHead c v => cases c <;> simp_all [inWaitPop, asleep, attends]
  | waitAsleep notified => cases notified <;> simp_all [inWaitPop, asleep, attends]
  | pushUnlock | pushNotify => cases hnotify
  | _ => rfl

end Pc

/-- How many elements there are. -/
theorem Chain.length_contents (c : Chain α) : c.contents.length = c.pushed.length - c.popped.length := List.length_drop ..

theorem Shared.pushed_store (sh : Shared T α) (a : Nat) (n : Option (Node α)) : (sh.store a n).pushed = sh.pushed := rfl

/-- A move lets the values in the queue grow only with the threads that attend to them, and sends no thread to rest. -/
structure Covers (sh : Shared T α) (p : Pc α) (sh' : Shared T α) (p' : Pc α) : Prop where
  attends : sh'.contents.length + p.attends ≤ sh.contents.length + p'.attends
  rests : p'.rests = true → p.rests = true

/-- A thread that ends awake was not sent to rest. -/
theorem Covers.awake {sh sh' : Shared T α} {p p' : Pc α}
    (hle : sh'.contents.length + p.attends ≤ sh.contents.length + p'.attends)
    (hawake : p'.rests = false) : Covers sh p sh' p' := by
  refine ⟨hle, ?_⟩
  intro hrest
  rw [hawake] at hrest
  cases hrest

/-- Every move covers the values, or leaves none. -/
theorem Move.covers {t : T} {sh sh' : Shared T α} {p p' : Pc α} {cells : List (Nat × α)} (h : Move t sh p sh' p')
    (hseen : p.Seen sh.toChain cells) : sh'.contents.length = 0 ∨ Covers sh p sh' p' := by
  cases h with
  | call op =>
    cases op with
    | push v => exact .inr (.awake (Nat.le_refl _) rfl)
    | look c => cases c <;> exact .inr (.awake (by simp [Pc.start, Pc.attends]) rfl)
  | setTail v a =>
    refine .inr (.awake ?_ rfl)
    simp only [Chain.length_contents, List.length_append, List.length_singleton, Pc.attends]
    omega
  | tailRead c =>
    cases c with
    | waitPop =>
      cases hcontents : sh.contents with
      | nil => exact .inl rfl
      | cons v rest => exact .inr (.awake (Nat.le_refl _) rfl)
    | tryPop | empty => exact .inr (.awake (Nat.le_refl _) rfl)
  | foundEmpty c held hhead =>
    -- what was in the queue when the tail was read
    obtain rfl : held = [] := hseen.1.mpr hhead
    cases c with
    | waitPop => exact .inr ⟨Nat.le_refl _, fun _ => rfl⟩
    | tryPop | empty => exact .inr (.awake (Nat.le_refl _) rfl)
  | foundData c held hhead =>
    have hne : held ≠ [] := fun hnil => hhead (hseen.1.mp hnil)
    cases held with
    | nil => exact absurd rfl hne
    | cons v rest => cases c <;> exact .inr (.awake (Nat.le_refl _) rfl)
  | popHead c v ha hn =>
    by_cases hlast : sh.pushed.length ≤ sh.popped.length + 1
    · refine .inl ?_
      simp only [Chain.length_contents, List.length_append, List.length_singleton, Shared.pushed_store]
      omega
    · refine .inr (.awake ?_ rfl)
      simp only [Chain.length_contents, List.length_append, List.length_singleton, Shared.pushed_store]
      cases c <;> simp only [Pc.attends] <;> omega
  | waitSleep => exact .inr ⟨Nat.le_refl _, fun _ => rfl⟩
  | spurious => exact .inr ⟨Nat.le_succ _, fun _ => rfl⟩
  | headLock c | tailLock c | popData c =>
    cases c <;> exact .inr (.awake (Nat.le_refl _) rfl)
  | _ => exact .inr (.awake (Nat.le_refl _) rfl)

/-! ## Runs -/

variable [DecidableEq T] [Fintype T]

/-- While a caller of `wait_pop` sleeps unmarked or is about to, every value in the queue has a thread that attends to
it. -/
def Attended (s : State T α) : Prop := (∃ t, (s.pc t).rests = true) → s.shared.contents.length ≤ total Pc.attends s.pc

/-- The condition on a `notify_one` that wakes nobody: no caller of `wait_pop` has read the tail of an empty queue and
does not sleep yet, or the notifying thread is not needed, since others attend to every value. -/
def Heard (s : State T α) : Act T α → Prop
  | .notifyOne _ none => (∀ u, (s.pc u).aboutToSleep = false) ∨ s.shared.contents.length < total Pc.attends s.pc
  | _ => True

/-- After a notification no thread rests that did not rest before. -/
theorem exists_rests_of_notified {pc pc' : T → Pc α} {waiter : Option T} {t : T} (h : State.marks pc waiter = some pc')
    (hrest : ∃ u, (Function.update pc' t .idle u).rests = true) : ∃ u, (pc u).rests = true := by
  obtain ⟨u, hu⟩ := hrest
  have hcases := notified (Q := fun p => p.rests = true → (pc u).rests = true) h t u id
  refine ⟨u, hcases ?_ ?_ hu⟩
  · intro hidle
    cases hidle
  · intro hwake
    cases hwake

/-- It is kept by every step in which notifications are heard. -/
theorem step_attended {s s' : State T α} {a : Act T α} (hs : Sound s) (ha : Attended s) (hheard : Heard s a)
    (h : (system T α).step s a = some s') : Attended s' := by
  obtain ⟨cells, -, hseen⟩ := hs
  rcases step_cases h with ⟨p', sh', hmove, rfl⟩ | ⟨waiter, pc, hact, hpc, hmarks, rfl⟩
  · rintro ⟨u, hu⟩
    have htotal : total Pc.attends (s.move a.thread (p', sh')).pc + (s.pc a.thread).attends =
        total Pc.attends s.pc + p'.attends :=
      total_update Pc.attends s.pc a.thread p'
    change sh'.contents.length ≤ _
    rcases hmove.covers (hseen a.thread) with hnone | ⟨hle, hrests⟩
    · rw [hnone]
      exact Nat.zero_le _
    · have hrest : ∃ v, (s.pc v).rests = true := by
        by_cases hut : u = a.thread
        · subst hut
          rw [State.move_pc_self] at hu
          exact ⟨_, hrests hu⟩
        · rw [State.move_pc_of_ne s hut] at hu
          exact ⟨u, hu⟩
      have hbefore := ha hrest
      omega
  · intro hrest
    have htotal := total_update Pc.attends pc a.thread .idle
    have hbefore := ha (exists_rests_of_notified hmarks hrest)
    cases waiter with
    | some w =>
      obtain ⟨hasleep, heq⟩ := Option.ite_none_right_eq_some.mp hmarks
      cases heq
      have hw := Pc.eq_of_asleep hasleep
      -- the notifier's share goes to the thread it marks
      have hne : a.thread ≠ w := by
        rintro rfl
        rw [hpc] at hw
        cases hw
      have hmarked := total_update Pc.attends s.pc w (.waitAsleep true)
      rw [Function.update_of_ne hne, hpc] at htotal
      rw [hw] at hmarked
      simp only [Pc.attends] at htotal hmarked
      change s.shared.contents.length ≤ total Pc.attends (Function.update _ a.thread .idle)
      omega
    | none =>
      obtain ⟨hawake, heq⟩ := Option.ite_none_right_eq_some.mp hmarks
      cases heq
      obtain ⟨u, hu⟩ := exists_rests_of_notified hmarks hrest
      rw [Pc.rests, hawake u, Bool.false_or] at hu
      rw [hact] at hheard
      rw [hpc] at htotal
      simp only [Pc.attends] at htotal
      change s.shared.contents.length ≤ total Pc.attends (Function.update _ a.thread .idle)
      rcases hheard with hnobody | hlt
      · rw [hnobody u] at hu
        cases hu
      · omega

/-- By induction it holds throughout the run. -/
theorem attended_of_reachesBy {s : State T α} (h : (system T α).ReachesBy Heard s) : Attended s := by
  refine h.invariant ?_ fun s t a hr hs hheard hstep => step_attended (reachable_sound hr.reachable) hs hheard hstep
  rintro s rfl ⟨u, hu⟩
  cases hu

/-- Values lie in the queue, and nobody will take them: a caller of `wait_pop` sleeps, each that has not returned
sleeps, none of them is marked, and no `push` is between its update of `tail` and its `notify_one`. -/
structure Forgotten (s : State T α) : Prop where
  values : s.shared.contents ≠ []
  sleeper : ∃ t, (s.pc t).asleep = true
  waiters : ∀ t, (s.pc t).inWaitPop = true → (s.pc t).asleep = true
  pushes : ∀ t, (s.pc t).notifying = false

/-- In every run in which no notification is lost, whatever else the threads call, no value in the queue is forgotten. -/
theorem wait_pop_not_forgotten {s : State T α} (h : (system T α).ReachesBy Heard s) : ¬Forgotten s := by
  intro hforgotten
  obtain ⟨t, ht⟩ := hforgotten.sleeper
  have hle := attended_of_reachesBy h ⟨t, by rw [Pc.rests, ht, Bool.true_or]⟩
  rw [total_eq_zero _ _ fun u => Pc.attends_eq_zero (hforgotten.pushes u) (hforgotten.waiters u)] at hle
  exact hforgotten.values (List.length_eq_zero_iff.mp (Nat.le_zero.mp hle))

instance (s : State T α) : (a : Act T α) → Decidable (Heard s a)
  | .notifyOne _ none =>
    inferInstanceAs (Decidable ((∀ u, (s.pc u).aboutToSleep = false) ∨ s.shared.contents.length < total Pc.attends s.pc))
  | .notifyOne _ (some _) | .call _ _ | .step _ | .make _ _ | .spurious _ => .isTrue trivial

/-- One thread falls asleep on the empty queue before the other pushes. -/
def asleepInTime : List (Act Bool Nat) :=
  List.flatten
    [[.call true (.look .waitPop)], List.replicate 5 (.step true), [.call false (.push 7), .make false 1],
      List.replicate 5 (.step false)]

/-- The thread sleeps on a queue with a value, and the `push` is about to notify it. -/
theorem wait_pop_not_forgotten_asleep :
    ∃ s : State Bool Nat, (system Bool Nat).ReachesBy Heard s ∧ s.shared.contents = [7] ∧ (s.pc true).asleep = true ∧
      ¬Forgotten s := by
  obtain ⟨s, hs, htest⟩ := Lts.exists_of_execBy (M := system Bool Nat) Heard asleepInTime
    (fun s => s.shared.contents = [7] ∧ (s.pc true).asleep = true) rfl (by decide +kernel)
  obtain ⟨hvalues, hsleeper⟩ := of_decide_eq_true htest
  exact ⟨s, hs, hvalues, hsleeper, wait_pop_not_forgotten hs⟩

/-- The calls are calls of `push` and `wait_pop`. -/
def PushesAndWaits (_ : State T α) : Act T α → Prop
  | .call _ (.look .tryPop) | .call _ (.look .empty) => False
  | _ => True

instance (s : State T α) : (a : Act T α) → Decidable (PushesAndWaits s a)
  | .call _ (.look .tryPop) | .call _ (.look .empty) => .isFalse id
  | .call _ (.look .waitPop) | .call _ (.push _) | .step _ | .make _ _ | .notifyOne _ _ | .spurious _ => .isTrue trivial

/-- One thread finds the queue empty, the other pushes a value and notifies nobody, and then the first falls asleep. -/
def notifiedTooEarly : List (Act Bool Nat) :=
  List.flatten
    [[.call true (.look .waitPop)], List.replicate 4 (.step true), [.call false (.push 7), .make false 1],
      List.replicate 5 (.step false), [.notifyOne false none, .step true]]

/-- One value, one thread asleep and nobody else in a call: the value is forgotten. -/
theorem wait_pop_forgotten :
    ¬∀ s : State Bool Nat, (system Bool Nat).ReachesBy PushesAndWaits s → ¬Forgotten s := by
  intro hnever
  obtain ⟨s, hs, htest⟩ := Lts.exists_of_execBy (M := system Bool Nat) PushesAndWaits notifiedTooEarly
    (fun s => s.shared.contents ≠ [] ∧ (s.pc true).asleep = true ∧
      (∀ t, (s.pc t).inWaitPop = true → (s.pc t).asleep = true) ∧ ∀ t, (s.pc t).notifying = false) rfl (by decide +kernel)
  obtain ⟨hvalues, hsleeper, hwaiters, hpushes⟩ := of_decide_eq_true htest
  exact hnever s hs ⟨hvalues, ⟨true, hsleeper⟩, hwaiters, hpushes⟩

end ThreadsafeQueue
end HpServer
