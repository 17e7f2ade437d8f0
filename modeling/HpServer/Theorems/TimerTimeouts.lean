import HpServer.Theorems.TimerDeadlines
import Mathlib.Data.Finset.Max

/-!
# What `epoll_wait` is told to wait

Under a clock that never goes back, `get_next_timeout_ms` returns, unless the callbacks give deadlines without end,
and what it returns is the time to the earliest deadline in whole milliseconds. It fits into an `int` because no
deadline is further away than the timeout it was given with.
-/

namespace HpServer

open DeadlineMap

variable {κ : Type}

/-- A heap with a node has one that `heap_.top()` may give. -/
theorem Timer.exists_isTop {t : Timer κ} (h : t.heap ≠ []) : ∃ n, t.IsTop n := by
  obtain ⟨m, hm⟩ := List.exists_mem_of_ne_nil _ h
  obtain ⟨n, hn, hmin⟩ := t.heap.toFinset.exists_min_image Timer.Node.expiresAt ⟨m, List.mem_toFinset.mpr hm⟩
  exact ⟨n, List.mem_toFinset.mp hn, fun m hm => hmin m (List.mem_toFinset.mpr hm)⟩

namespace TimerRun

/-! ## The call returns -/

/-- `get_next_timeout_ms` is being served. -/
def Serving (s : TimerRun κ) : Prop := s.pc = .next ∨ ∃ calling, s.pc = .tick true calling

/-- How many steps of its own the timer can make at most. -/
def stepsLeft (s : TimerRun κ) : Nat :=
  s.timer.heap.length +
    match s.pc with
    | .idle => 0
    | .next => 1
    | .tick _ _ => 2

theorem stepsLeft_back (s : TimerRun κ) (forNext : Bool) (history : List (Event Int Int κ)) :
    stepsLeft { s with pc := .back forNext, history := history } ≤ s.timer.heap.length + 1 := by
  cases forNext with
  | false => exact Nat.le_succ _
  | true => exact Nat.le_refl _

/-- A node that is taken from the heap makes it shorter. -/
theorem length_heap_erase {t : Timer κ} {n : Timer.Node} (h : t.IsTop n) :
    (t.heap.erase n).length + 1 = t.heap.length := by
  rw [List.length_erase_of_mem h.1]
  exact Nat.sub_add_cancel (List.length_pos_of_mem h.1)

/-- Each of its own steps takes a node from the heap or goes on to the next part of the call. -/
theorem stepsLeft_lt {s t : TimerRun κ} {a : TimerAction κ} (ha : a.Own) (hmoves : s.Moves a t) :
    t.stepsLeft < s.stepsLeft := by
  cases hmoves with
  | ignored | set | move | clear | tick | getNextTimeoutMs => exact ha.elim
  | dropped hpc htop | fired hpc htop =>
    have hlength := length_heap_erase htop
    rw [stepsLeft, stepsLeft, hpc]
    simp only [Timer.pop]
    omega
  | stopped hpc | emptied hpc =>
    have hleft : s.stepsLeft = s.timer.heap.length + 2 := by rw [stepsLeft, hpc]
    exact hleft ▸ Nat.lt_succ_of_le (stepsLeft_back s _ _)
  | discarded hpc htop =>
    have hlength := length_heap_erase htop
    rw [stepsLeft, stepsLeft, hpc]
    simp only [Timer.pop]
    omega
  | nothing hpc | wait hpc =>
    rw [stepsLeft, stepsLeft, hpc]
    exact Nat.lt_succ_self _

/-- While the call is served, the timer either can return or has another step to make, whatever the clock shows. -/
theorem Serving.progress {s : TimerRun κ} (h : s.Serving) (now : Int) :
    (∃ n t, s.step (.timeout now n) = some t) ∨
      ∃ (a : TimerAction κ) (t : TimerRun κ), a.Own ∧ (∀ clock ≤ now, a.Fits clock ∧ a.clockAfter clock ≤ now) ∧
        s.step a = some t ∧ t.Serving := by
  by_cases hheap : s.timer.heap = []
  · rcases h with hpc | ⟨calling, hpc⟩
    · exact .inl ⟨none, _, if_pos ⟨hpc, hheap⟩⟩
    · refine .inr ⟨.empty, { s with pc := .next, history := .settle none :: s.history }, trivial, ?_, ?_, .inl rfl⟩
      · intro clock hclock
        exact ⟨trivial, hclock⟩
      · simp only [TimerRun.step, hpc, if_pos hheap]
        rfl
  · obtain ⟨n, htop⟩ := Timer.exists_isTop hheap
    rcases h with hpc | ⟨calling, hpc⟩
    · cases hlive : s.timer.live n with
      | true => exact .inl ⟨some n, _, if_pos ⟨hpc, htop, hlive⟩⟩
      | false =>
        refine .inr ⟨.discard n, { s with timer := s.timer.pop n }, trivial, ?_, if_pos ⟨hpc, htop, hlive⟩, .inl hpc⟩
        intro clock hclock
        exact ⟨trivial, hclock⟩
    · refine .inr ⟨.top now n, ?_⟩
      simp only [TimerRun.step, hpc, if_pos htop]
      rcases Timer.tickTop_cases s.timer now n with ⟨heq, -⟩ | ⟨heq, -⟩ | ⟨callback, heq, -⟩
      · rw [heq]
        exact ⟨_, trivial, fun clock hclock => ⟨hclock, Int.le_refl now⟩, rfl, .inr ⟨false, rfl⟩⟩
      · rw [heq]
        exact ⟨_, trivial, fun clock hclock => ⟨hclock, Int.le_refl now⟩, rfl, .inl rfl⟩
      · rw [heq]
        exact ⟨_, trivial, fun clock hclock => ⟨hclock, Int.le_refl now⟩, rfl, .inr ⟨true, rfl⟩⟩

end TimerRun

namespace ClockedRun

/-- A step under the clock is a step of the timer. -/
theorem step_eq_some {s t : ClockedRun κ} {a : TimerAction κ} (h : (clockedRuns κ).step s a = some t) :
    a.Fits s.clock ∧ s.run.step a = some t.run ∧ t.clock = a.clockAfter s.clock := by
  simp only [clockedRuns] at h
  split_ifs at h with hfits
  obtain ⟨run, hrun, rfl⟩ := Option.map_eq_some_iff.mp h
  exact ⟨hfits, hrun, rfl⟩

theorem step_of_fits {s : ClockedRun κ} {a : TimerAction κ} {run : TimerRun κ} (hfits : a.Fits s.clock)
    (hrun : s.run.step a = some run) :
    (clockedRuns κ).step s a = some ⟨run, a.clockAfter s.clock⟩ := by
  simp only [clockedRuns, if_pos hfits, hrun, Option.map_some]

/-- The runs under the clock are runs, so every invariant of the runs holds of them. -/
theorem reachable_run {s : ClockedRun κ} (h : (clockedRuns κ).Reachable s) : (timerRuns κ).Reachable s.run := by
  refine h.invariant (I := fun s => (timerRuns κ).Reachable s.run) (fun s hs => .init hs) ?_
  intro s t a _ hs hstep
  exact .step hs trivial (step_eq_some hstep).2.1

/-- The timer's own steps come to an end. -/
theorem length_le_stepsLeft {s t : ClockedRun κ} {acts : List (TimerAction κ)}
    (h : (clockedRuns κ).Path (fun _ a => a.Own) s acts t) : acts.length ≤ s.run.stepsLeft := by
  refine h.length_le (I := fun _ => True) (fun s => s.run.stepsLeft) ?_ trivial
  intro s t a _ ha hstep
  exact ⟨trivial, TimerRun.stepsLeft_lt ha (TimerRun.step_moves (step_eq_some hstep).2.1)⟩

/-- A call that is being served returns once the callbacks call nothing any more. -/
theorem exists_return {now : Int} {s : ClockedRun κ} (hs : s.run.Serving) (hclock : s.clock ≤ now) :
    ∃ acts t n u, (clockedRuns κ).Path (fun _ a => a.Own) s acts t ∧
      (clockedRuns κ).step t (.timeout now n) = some u := by
  -- by induction on the steps that are left
  generalize hk : s.run.stepsLeft = k
  induction k using Nat.strong_induction_on generalizing s with
  | _ k ih =>
    rcases hs.progress now with ⟨n, t, hstep⟩ | ⟨a, t, hown, hfits, hstep, hserving⟩
    · exact ⟨[], s, n, _, .nil s, step_of_fits (a := .timeout now n) hclock hstep⟩
    · obtain ⟨hfit, hclock'⟩ := hfits s.clock hclock
      have hlt := TimerRun.stepsLeft_lt hown (TimerRun.step_moves hstep)
      obtain ⟨acts, u, n, v, hpath, hreturn⟩ := ih _ (hk ▸ hlt) (s := ⟨t, a.clockAfter s.clock⟩) hserving hclock' rfl
      exact ⟨a :: acts, u, n, v, .cons hown (step_of_fits hfit hstep) hpath, hreturn⟩

/-! ## How far away a deadline is -/

/-- What a step adds to the history gives a deadline only for a timeout it was called with. -/
theorem history_moves {s t : TimerRun κ} {a : TimerAction κ} (hmoves : s.Moves a t) :
    t.history = s.history ∨ ∃ e, t.history = e :: s.history ∧
      ∀ clock, a.Fits clock → ∀ id d, e.ArmsFor id d → d ≤ a.clockAfter clock + Timer.milliseconds 2147483647 := by
  cases hmoves with
  | ignored | tick | getNextTimeoutMs | dropped | discarded | nothing | wait => exact .inl rfl
  | clear | stopped | fired | emptied => exact .inr ⟨_, rfl, fun _ _ _ _ harms => harms.elim⟩
  | set | move =>
    refine .inr ⟨_, rfl, ?_⟩
    rintro clock ⟨-, -, hmax⟩ _ _ ⟨-, rfl⟩
    simp only [Timer.milliseconds, TimerAction.clockAfter]
    omega

theorem le_clockAfter {a : TimerAction κ} {clock : Int} (h : a.Fits clock) : clock ≤ a.clockAfter clock := by
  cases a with
  | add now id timeoutMs callback | adjust now id timeoutMs => exact h.1
  | top now n | timeout now n => exact h
  | remove id | tick | getNextTimeoutMs | empty | discard n => exact Int.le_refl clock

/-- No deadline is further away than the longest timeout there is. -/
def Near (s : ClockedRun κ) : Prop :=
  ∀ id d callback, after s.run.history id = some (d, callback) → d ≤ s.clock + Timer.milliseconds 2147483647

theorem near_of_reachable {s : ClockedRun κ} (h : (clockedRuns κ).Reachable s) : s.Near := by
  refine h.invariant (I := Near) ?_ ?_
  · intro s hs id d callback hd
    rw [show s.run = _ from hs] at hd
    cases hd
  · intro s t a _ hs hstep id d callback hd
    obtain ⟨hfits, hrun, hclock⟩ := step_eq_some hstep
    have hle := le_clockAfter hfits
    rw [hclock]
    rcases history_moves (TimerRun.step_moves hrun) with heq | ⟨e, heq, harms⟩
    · have hold := hs id d callback (heq ▸ hd)
      omega
    · rw [heq, ← List.singleton_append] at hd
      rcases exists_armsFor_or_after hd with ⟨e', he', harm⟩ | hold
      · rw [List.mem_singleton.mp he'] at harm
        exact harms s.clock hfits id d harm
      · have hold := hs id d callback hold
        omega

end ClockedRun

/-! ## The answer -/

/-- Cutting off towards zero is rounding down where it matters. -/
theorem max_zero_tdiv (x : Int) : max 0 (x.tdiv 1000000) = max 0 (x / 1000000) := by
  rw [Int.tdiv_eq_ediv]
  split
  · omega
  · have hsign : (1000000 : Int).sign = 1 := rfl
    omega

namespace ClockedRun

/-- What `get_next_timeout_ms` returns, by the entries there are after its `tick`. -/
theorem timeout_eq {s t : ClockedRun κ} (h : (clockedRuns κ).Reachable s) {now : Int} {n : Option Timer.Node}
    (hstep : (clockedRuns κ).step s (.timeout now n) = some t) :
    (Timer.nextTimeoutMs now n = -1 ∧ ∀ id, s.run.timer.deadlines id = none) ∨
      ∃ id d callback, s.run.timer.deadlines id = some (d, callback) ∧ Earliest s.run.timer.deadlines d ∧
        Timer.nextTimeoutMs now n = max 0 ((d - now) / 1000000) := by
  have hs := TimerRun.faithful_of_reachable (reachable_run h)
  have htimeout := hs.timeout (step_eq_some hstep).2.1
  rw [← hs.map] at htimeout
  refine htimeout.imp_right ?_
  rintro ⟨id, d, callback, hd, hearliest, heq⟩
  exact ⟨id, d, callback, hd, hearliest, heq.trans (max_zero_tdiv _)⟩

/-- The answer is an `int`. -/
theorem timeout_le {s t : ClockedRun κ} (h : (clockedRuns κ).Reachable s) {now : Int} {n : Option Timer.Node}
    (hstep : (clockedRuns κ).step s (.timeout now n) = some t) : Timer.nextTimeoutMs now n ≤ 2147483647 := by
  rcases timeout_eq h hstep with ⟨heq, -⟩ | ⟨id, d, callback, hd, -, heq⟩
  · omega
  · have hclock : s.clock ≤ now := (step_eq_some hstep).1
    rw [(TimerRun.faithful_of_reachable (reachable_run h)).map] at hd
    have hnear := near_of_reachable h id d callback hd
    rw [Timer.milliseconds] at hnear
    omega

/-- The heap has no part in the answer: it is the same in any two states with the same entries. -/
theorem timeout_congr {s t s' t' : ClockedRun κ} (h : (clockedRuns κ).Reachable s) (h' : (clockedRuns κ).Reachable s')
    (hsame : s'.run.timer.deadlines = s.run.timer.deadlines) {now : Int} {n n' : Option Timer.Node}
    (hstep : (clockedRuns κ).step s (.timeout now n) = some t)
    (hstep' : (clockedRuns κ).step s' (.timeout now n') = some t') :
    Timer.nextTimeoutMs now n' = Timer.nextTimeoutMs now n := by
  have hanswer' := timeout_eq h' hstep'
  rw [hsame] at hanswer'
  rcases timeout_eq h hstep with ⟨heq, hnone⟩ | ⟨id, d, callback, hd, hearliest, heq⟩
  · rcases hanswer' with ⟨heq', -⟩ | ⟨id, d, callback, hd, -⟩
    · rw [heq, heq']
    · rw [hnone] at hd
      cases hd
  · rcases hanswer' with ⟨-, hnone⟩ | ⟨id', d', callback', hd', hearliest', heq'⟩
    · rw [hnone] at hd
      cases hd
    · have hdd : d = d' := Int.le_antisymm (hearliest id' d' callback' hd') (hearliest' id d callback hd)
      rw [heq, heq', hdd]

end ClockedRun

/-- Under a clock that never goes back, `get_next_timeout_ms` returns once the callbacks call the timer no more, after
no more steps than the heap has nodes and two. What it returns is -1 if no entry is left after its `tick`; otherwise
it is the time to the earliest deadline in whole milliseconds, rounded down, and zero if the deadline has passed. It
is an `int`, waiting that long passes no deadline, and it is the same whatever stale nodes the heap has. -/
theorem timeout_by_earliest_deadline {s : ClockedRun κ} (h : (clockedRuns κ).Reachable s) :
    (∀ now, s.run.Serving → s.clock ≤ now → ∃ acts t n u,
      (clockedRuns κ).Path (fun _ a => a.Own) s acts t ∧ (clockedRuns κ).step t (.timeout now n) = some u) ∧
    (∀ acts t, (clockedRuns κ).Path (fun _ a => a.Own) s acts t → acts.length ≤ s.run.timer.heap.length + 2) ∧
    ∀ now n t, (clockedRuns κ).step s (.timeout now n) = some t →
      (Timer.nextTimeoutMs now n = -1 ↔ ∀ id, s.run.timer.deadlines id = none) ∧
      (Timer.nextTimeoutMs now n ≠ -1 → ∃ id d callback, s.run.timer.deadlines id = some (d, callback) ∧
        Earliest s.run.timer.deadlines d ∧ Timer.nextTimeoutMs now n = max 0 ((d - now) / 1000000)) ∧
      (-1 ≤ Timer.nextTimeoutMs now n ∧ Timer.nextTimeoutMs now n ≤ 2147483647) ∧
      (∀ id d callback, s.run.timer.deadlines id = some (d, callback) → 0 ≤ Timer.nextTimeoutMs now n ∧
        (0 < Timer.nextTimeoutMs now n → now + Timer.milliseconds (Timer.nextTimeoutMs now n) ≤ d)) ∧
      ∀ s' n' t', (clockedRuns κ).Reachable s' → s'.run.timer.deadlines = s.run.timer.deadlines →
        (clockedRuns κ).step s' (.timeout now n') = some t' → Timer.nextTimeoutMs now n' = Timer.nextTimeoutMs now n := by
  refine ⟨fun now hs hclock => ClockedRun.exists_return hs hclock, ?_, ?_⟩
  · intro acts t hpath
    refine Nat.le_trans (ClockedRun.length_le_stepsLeft hpath) ?_
    rw [TimerRun.stepsLeft]
    cases s.run.pc <;> simp
  · intro now n t hstep
    have hle := ClockedRun.timeout_le h hstep
    have hsame : ∀ s' n' t', (clockedRuns κ).Reachable s' → s'.run.timer.deadlines = s.run.timer.deadlines →
        (clockedRuns κ).step s' (.timeout now n') = some t' → Timer.nextTimeoutMs now n' = Timer.nextTimeoutMs now n :=
      fun s' n' t' hs' heq hstep' => ClockedRun.timeout_congr h hs' heq hstep hstep'
    rcases ClockedRun.timeout_eq h hstep with ⟨heq, hnone⟩ | ⟨id, d, callback, hd, hearliest, heq⟩
    · refine ⟨⟨fun _ => hnone, fun _ => heq⟩, fun hne => absurd heq hne, ⟨Int.le_of_eq heq.symm, hle⟩, ?_, hsame⟩
      intro id d callback hd
      rw [hnone] at hd
      cases hd
    · have hnonneg : 0 ≤ Timer.nextTimeoutMs now n := by omega
      refine ⟨⟨fun hminus => by omega, ?_⟩, fun _ => ⟨id, d, callback, hd, hearliest, heq⟩, ⟨by omega, hle⟩, ?_, hsame⟩
      · intro hnone
        rw [hnone] at hd
        cases hd
      · intro id' d' callback' hd'
        have hearlier := hearliest id' d' callback' hd'
        refine ⟨hnonneg, fun hpos => ?_⟩
        rw [Timer.milliseconds]
        omega

/-- An id gets a later deadline, and the node of the earlier one is still in the heap when the call begins. -/
def adjustedId : List (TimerAction Nat) :=
  [.add 0 3 1 7, .adjust 0 3 5, .getNextTimeoutMs, .top 2000000 ⟨3, 1000000, 1⟩, .top 2000000 ⟨3, 5000000, 2⟩]

theorem timeout_after_adjust :
    ∃ s t, (clockedRuns Nat).Reachable s ∧ (clockedRuns Nat).step s (.timeout 2500000 (some ⟨3, 5000000, 2⟩)) = some t ∧
      Timer.nextTimeoutMs 2500000 (some ⟨3, 5000000, 2⟩) = 2 ∧
      ∀ id d callback, s.run.timer.deadlines id = some (d, callback) → 2500000 + Timer.milliseconds 2 ≤ d := by
  obtain ⟨s, hs, htest⟩ := Lts.exists_of_exec (M := clockedRuns Nat) adjustedId
    (fun s => ((clockedRuns Nat).step s (.timeout 2500000 (some ⟨3, 5000000, 2⟩))).isSome)
    (s := ⟨⟨.empty, .idle, []⟩, 0⟩) rfl (by decide +kernel)
  obtain ⟨t, hstep⟩ := Option.isSome_iff_exists.mp htest
  have hvalue : Timer.nextTimeoutMs 2500000 (some ⟨3, 5000000, 2⟩) = 2 := by decide
  obtain ⟨-, -, hanswer⟩ := timeout_by_earliest_deadline hs
  obtain ⟨-, -, -, hwait, -⟩ := hanswer _ _ t hstep
  refine ⟨s, t, hs, hstep, hvalue, ?_⟩
  intro id d callback hd
  have hle := (hwait id d callback hd).2 (by decide)
  rwa [hvalue] at hle

end HpServer
