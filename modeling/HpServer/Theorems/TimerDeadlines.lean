import HpServer.TimerRuns

/-!
# The timer is a map of deadlines

Every entry has its own node in the heap (`Covered`), whatever stale nodes lie around it and whenever the heap was
built anew. So the top of the heap, once it is not stale, is the earliest deadline, and the history of every run is
one a map of deadlines allows.
-/

namespace HpServer

open DeadlineMap

namespace Timer

variable {κ : Type}

/-- The map the entries are. -/
def deadlines (t : Timer κ) (id : Int) : Option (Int × κ) := (t.entries.lookup id).map fun e => (e.expiresAt, e.callback)

/-- Every entry has its present node in the heap. -/
def Covered (t : Timer κ) : Prop := ∀ id e, t.entries.lookup id = some e → (⟨id, e.expiresAt, e.version⟩ : Node) ∈ t.heap

/-! ## What the operations do to the map -/

/-- `arm` sets the deadline of the id. -/
theorem deadlines_arm (t : Timer κ) (id expire : Int) (callback : κ) (version : Nat) :
    (t.arm id expire callback version).deadlines = Function.update t.deadlines id (some (expire, callback)) := by
  funext i
  rw [deadlines, lookup_arm]
  by_cases hi : i = id
  · rw [if_pos hi, hi, Function.update_self]
    rfl
  · rw [if_neg hi, Function.update_of_ne hi]
    rfl

/-- Without its entry an id has no deadline, whatever nodes are left. -/
theorem deadlines_erase (t : Timer κ) (id : Int) (heap : List Node) :
    Timer.deadlines ⟨t.entries.erase id, heap⟩ = Function.update t.deadlines id none := by
  funext i
  by_cases hi : i = id
  · rw [hi, Function.update_self, deadlines, AList.lookup_erase]
    rfl
  · rw [Function.update_of_ne hi, deadlines, AList.lookup_erase_ne hi]
    rfl

/-- Compacting the heap changes no deadline. -/
theorem deadlines_maybeCompactHeap (t : Timer κ) : t.maybeCompactHeap.deadlines = t.deadlines := by
  funext i
  rw [deadlines, entries_maybeCompactHeap]
  rfl

/-- `remove` takes the deadline away. -/
theorem deadlines_remove (t : Timer κ) (id : Int) : (t.remove id).deadlines = Function.update t.deadlines id none := by
  rw [remove, deadlines_maybeCompactHeap]
  exact deadlines_erase t id t.heap

/-- `adjust` moves the deadline of an id that has one. -/
theorem deadlines_adjust (t : Timer κ) (now id timeoutMs : Int) :
    (t.adjust now id timeoutMs).deadlines =
      Function.update t.deadlines id ((t.deadlines id).map fun e => (now + milliseconds timeoutMs, e.2)) := by
  cases he : t.entries.lookup id with
  | none =>
    have hnone : t.deadlines id = none := by rw [deadlines, he]; rfl
    rw [hnone, Option.map_none, ← hnone, Function.update_eq_self, adjust, he]
  | some e =>
    have hsome : t.deadlines id = some (e.expiresAt, e.callback) := by rw [deadlines, he]; rfl
    rw [hsome, adjust, he]
    exact deadlines_arm ..

/-! ## Every entry keeps its node -/

/-- Building the heap anew gives every entry its node. -/
theorem Covered.maybeCompactHeap {t : Timer κ} (h : t.Covered) : t.maybeCompactHeap.Covered := by
  unfold Timer.maybeCompactHeap
  split
  · exact h
  split
  · next hempty =>
    intro id e he
    have hmem := AList.mem_lookup_iff.mp he
    rw [List.length_eq_zero_iff.mp hempty] at hmem
    cases hmem
  split
  · exact h
  · intro id e he
    exact List.mem_map.mpr ⟨⟨id, e⟩, AList.mem_lookup_iff.mp he, rfl⟩

/-- A new entry comes with its node. -/
theorem Covered.arm {t : Timer κ} (h : t.Covered) (id expire : Int) (callback : κ) (version : Nat) :
    (t.arm id expire callback version).Covered := by
  unfold Timer.arm
  refine Covered.maybeCompactHeap ?_
  intro i e he
  by_cases hi : i = id
  · subst hi
    rw [AList.lookup_insert] at he
    cases he
    exact List.mem_cons_self
  · rw [AList.lookup_insert_ne hi] at he
    exact List.mem_cons_of_mem _ (h i e he)

/-- `add` refuses the id or arms it. -/
theorem Covered.add {t : Timer κ} (h : t.Covered) (now id timeoutMs : Int) (callback : κ) :
    (t.add now id timeoutMs callback).Covered := by
  unfold Timer.add
  split
  · exact h
  · exact h.arm _ _ _ _

/-- `adjust` arms an id that has an entry. -/
theorem Covered.adjust {t : Timer κ} (h : t.Covered) (now id timeoutMs : Int) : (t.adjust now id timeoutMs).Covered := by
  unfold Timer.adjust
  split
  · exact h
  · exact h.arm _ _ _ _

/-- An entry that is taken out needs no node. -/
theorem Covered.erase {t : Timer κ} (h : t.Covered) (id : Int) : Covered ⟨t.entries.erase id, t.heap⟩ := by
  intro i e he
  by_cases hi : i = id
  · rw [hi, AList.lookup_erase] at he
    cases he
  · rw [AList.lookup_erase_ne hi] at he
    exact h i e he

/-- `remove` leaves the nodes of the other entries, compaction included. -/
theorem Covered.remove {t : Timer κ} (h : t.Covered) (id : Int) : (t.remove id).Covered :=
  (h.erase id).maybeCompactHeap

/-- A node that is not live is no entry's. -/
theorem Covered.pop {t : Timer κ} (h : t.Covered) {n : Node} (hn : t.live n = false) : (t.pop n).Covered := by
  intro id e he
  have hne : (⟨id, e.expiresAt, e.version⟩ : Node) ≠ n := by
    rintro rfl
    have hlookup : t.entries.lookup id = some e := he
    simp [live, hlookup] at hn
  exact (List.mem_erase_of_ne hne).mpr (h id e he)

/-! ## The top of the heap -/

/-- A node is live if its entry has the same version and deadline. -/
theorem live_iff {t : Timer κ} {n : Node} :
    t.live n = true ↔ ∃ e, t.entries.lookup n.id = some e ∧ e.version = n.version ∧ e.expiresAt = n.expiresAt := by
  unfold live
  cases t.entries.lookup n.id with
  | none => simp
  | some e => simp

/-- The top of a heap that has a node for every entry is no later than any deadline. -/
theorem Covered.earliest {t : Timer κ} (h : t.Covered) {n : Node} (hn : t.IsTop n) :
    Earliest t.deadlines n.expiresAt := by
  intro id d callback hd
  obtain ⟨e, he, hde⟩ := Option.map_eq_some_iff.mp hd
  obtain ⟨rfl, rfl⟩ := Prod.mk.inj hde
  exact hn.2 _ (h id e he)

/-- Without a node there is no entry. -/
theorem Covered.deadlines_eq_none {t : Timer κ} (h : t.Covered) (hheap : t.heap = []) (id : Int) :
    t.deadlines id = none := by
  rw [deadlines, Option.map_eq_none_iff, Option.eq_none_iff_forall_not_mem]
  intro e he
  have hmem := h id e he
  rw [hheap] at hmem
  cases hmem

/-- A turn of the loop drops a stale node, or stops at a deadline that is still to come, or takes out an entry that is
due. -/
theorem tickTop_cases (t : Timer κ) (now : Int) (n : Node) :
    (t.tickTop now n = .dropped (t.pop n) ∧ t.live n = false) ∨
    (t.tickTop now n = .stopped ∧ now < n.expiresAt) ∨
    ∃ callback, t.tickTop now n = .fired ⟨t.entries.erase n.id, t.heap.erase n⟩ callback ∧
      t.deadlines n.id = some (n.expiresAt, callback) ∧ n.expiresAt ≤ now := by
  cases hlive : t.live n with
  | false => exact Or.inl ⟨by rw [tickTop, if_pos hlive], rfl⟩
  | true =>
    obtain ⟨e, he, -, hexpires⟩ := live_iff.mp hlive
    by_cases hdue : now < n.expiresAt
    · exact Or.inr (Or.inl ⟨by rw [tickTop, if_neg (by simp [hlive]), if_pos hdue], hdue⟩)
    · refine Or.inr (Or.inr ⟨e.callback, ?_, ?_, Int.not_lt.mp hdue⟩)
      · rw [tickTop, if_neg (by simp [hlive]), if_neg hdue, he]
        rfl
      · rw [deadlines, he, ← hexpires]
        rfl

/-- Once an entry is taken out, its node may go. -/
theorem Covered.fired {t : Timer κ} (h : t.Covered) (n : Node) : Covered ⟨t.entries.erase n.id, t.heap.erase n⟩ := by
  refine (h.erase n.id).pop (n := n) ?_
  rw [live, AList.lookup_erase]

end Timer

/-! ## Runs -/

namespace TimerRun

variable {κ : Type}

/-- The timer is the map its history leaves, every entry has its node, and the history is one a map of deadlines
allows. -/
structure Faithful (s : TimerRun κ) : Prop where
  map : s.timer.deadlines = after s.history
  covered : s.timer.Covered
  conforms : Conforms s.history

/-- It holds of a new timer. -/
theorem faithful_init : Faithful (⟨.empty, .idle, []⟩ : TimerRun κ) where
  map := rfl
  covered := by
    intro id e he
    cases he
  conforms := trivial

/-- A step and what it found. -/
inductive Moves (s : TimerRun κ) : TimerAction κ → TimerRun κ → Prop
  | ignored {now id timeoutMs : Int} {callback : κ} : Moves s (.add now id timeoutMs callback) s
  | set {now id timeoutMs : Int} {callback : κ} {version : Nat} :
      Moves s (.add now id timeoutMs callback)
        { s with
          timer := s.timer.arm id (now + Timer.milliseconds timeoutMs) callback version
          history := .set id (now + Timer.milliseconds timeoutMs) callback :: s.history }
  | move {now id timeoutMs : Int} :
      Moves s (.adjust now id timeoutMs)
        { s with timer := s.timer.adjust now id timeoutMs,
                 history := .move id (now + Timer.milliseconds timeoutMs) :: s.history }
  | clear {id : Int} : Moves s (.remove id) { s with timer := s.timer.remove id, history := .clear id :: s.history }
  | tick : Moves s .tick { s with pc := .tick false false }
  | getNextTimeoutMs : Moves s .getNextTimeoutMs { s with pc := .tick true false }
  | dropped {forNext calling : Bool} {now : Int} {n : Timer.Node} (hpc : s.pc = .tick forNext calling)
    (htop : s.timer.IsTop n)
      (hlive : s.timer.live n = false) : Moves s (.top now n) { s with timer := s.timer.pop n, pc := .tick forNext false }
  | stopped {forNext calling : Bool} {now : Int} {n : Timer.Node} (hpc : s.pc = .tick forNext calling)
    (htop : s.timer.IsTop n)
      (hlater : now < n.expiresAt) :
      Moves s (.top now n) { s with pc := .back forNext, history := .settle (some now) :: s.history }
  | fired {forNext calling : Bool} {now : Int} {n : Timer.Node} {callback : κ} (hpc : s.pc = .tick forNext calling)
      (htop : s.timer.IsTop n) (hdeadline : s.timer.deadlines n.id = some (n.expiresAt, callback))
        (hdue : n.expiresAt ≤ now) :
      Moves s (.top now n)
        { s with
          timer := ⟨s.timer.entries.erase n.id, s.timer.heap.erase n⟩
          pc := .tick forNext true
          history := .fire n.id n.expiresAt callback now :: s.history }
  | emptied {forNext calling : Bool} (hpc : s.pc = .tick forNext calling) (hheap : s.timer.heap = []) :
      Moves s .empty { s with pc := .back forNext, history := .settle none :: s.history }
  | discarded {n : Timer.Node} (hpc : s.pc = .next) (htop : s.timer.IsTop n) (hlive : s.timer.live n = false) :
      Moves s (.discard n) { s with timer := s.timer.pop n }
  | nothing {now : Int} (hpc : s.pc = .next) (hheap : s.timer.heap = []) : Moves s (.timeout now none)
    { s with pc := .idle }
  | wait {now : Int} {n : Timer.Node} (hpc : s.pc = .next) (htop : s.timer.IsTop n) (hlive : s.timer.live n = true) :
      Moves s (.timeout now (some n)) { s with pc := .idle }

/-- What one turn of `tick` or `get_next_tick` does with the top of the heap. -/
theorem moves_top {s t : TimerRun κ} {now : Int} {n : Timer.Node} (hstep : s.step (.top now n) = some t) :
    s.Moves (.top now n) t := by
  cases hpc : s.pc with
  | idle | next => simp [TimerRun.step, hpc] at hstep
  | tick forNext calling =>
    simp only [TimerRun.step, hpc] at hstep
    split_ifs at hstep with htop
    rcases Timer.tickTop_cases s.timer now n with ⟨heq, hlive⟩ | ⟨heq, hlater⟩ | ⟨callback, heq, hdeadline, hdue⟩
    · rw [heq] at hstep
      cases hstep
      exact .dropped hpc htop hlive
    · rw [heq] at hstep
      cases hstep
      exact .stopped hpc htop hlater
    · rw [heq] at hstep
      cases hstep
      exact .fired hpc htop hdeadline hdue

/-- What a step does, said once. -/
theorem step_moves {s t : TimerRun κ} {a : TimerAction κ} (hstep : s.step a = some t) : s.Moves a t := by
  cases a with
  | add now id timeoutMs callback =>
    simp only [TimerRun.step] at hstep
    split_ifs at hstep with hpc hid <;> cases hstep
    · rw [Timer.add, if_pos hid]
      exact .ignored
    · rw [Timer.add, if_neg hid]
      exact .set
  | adjust now id timeoutMs =>
    simp only [TimerRun.step] at hstep
    split_ifs at hstep
    cases hstep
    exact .move
  | remove id =>
    simp only [TimerRun.step] at hstep
    split_ifs at hstep
    cases hstep
    exact .clear
  | tick =>
    simp only [TimerRun.step] at hstep
    split_ifs at hstep
    cases hstep
    exact .tick
  | getNextTimeoutMs =>
    simp only [TimerRun.step] at hstep
    split_ifs at hstep
    cases hstep
    exact .getNextTimeoutMs
  | top now n => exact moves_top hstep
  | empty =>
    cases hpc : s.pc with
    | idle | next => simp [TimerRun.step, hpc] at hstep
    | tick forNext calling =>
      simp only [TimerRun.step, hpc] at hstep
      split_ifs at hstep with hheap
      cases hstep
      exact .emptied hpc hheap
  | discard n =>
    simp only [TimerRun.step] at hstep
    split_ifs at hstep with h
    cases hstep
    exact .discarded h.1 h.2.1 h.2.2
  | timeout now n =>
    cases n with
    | none =>
      simp only [TimerRun.step] at hstep
      split_ifs at hstep with h
      cases hstep
      exact .nothing h.1 h.2
    | some n =>
      simp only [TimerRun.step] at hstep
      split_ifs at hstep with h
      cases hstep
      exact .wait h.1 h.2.1 h.2.2

/-- The timer's own steps and those of its callers keep it faithful: what fires is the earliest deadline, and where a
sweep ends all are later. -/
theorem Faithful.moves {s t : TimerRun κ} {a : TimerAction κ} (h : s.Faithful) (hmoves : s.Moves a t) : t.Faithful := by
  cases hmoves with
  | ignored => exact h
  | set =>
    refine ⟨?_, h.covered.arm _ _ _ _, trivial, h.conforms⟩
    rw [Timer.deadlines_arm, h.map]
    rfl
  | move =>
    refine ⟨?_, h.covered.adjust _ _ _, trivial, h.conforms⟩
    rw [Timer.deadlines_adjust, h.map]
    rfl
  | clear =>
    refine ⟨?_, h.covered.remove _, trivial, h.conforms⟩
    rw [Timer.deadlines_remove, h.map]
    rfl
  | tick | getNextTimeoutMs | nothing | wait => exact ⟨h.map, h.covered, h.conforms⟩
  | dropped hpc htop hlive | discarded hpc htop hlive => exact ⟨h.map, h.covered.pop hlive, h.conforms⟩
  | stopped hpc htop hlater =>
    refine ⟨h.map, h.covered, ?_, h.conforms⟩
    intro id d callback hd
    rw [← h.map] at hd
    exact ⟨_, rfl, Int.lt_of_lt_of_le hlater (h.covered.earliest htop id d callback hd)⟩
  | @fired _ _ _ n _ hpc htop hdeadline hdue =>
    refine ⟨?_, h.covered.fired n, ⟨h.map ▸ hdeadline, hdue, h.map ▸ h.covered.earliest htop⟩, h.conforms⟩
    rw [Timer.deadlines_erase, h.map]
    rfl
  | emptied hpc hheap =>
    refine ⟨h.map, h.covered, ?_, h.conforms⟩
    intro id d callback hd
    rw [← h.map, h.covered.deadlines_eq_none hheap] at hd
    cases hd

/-- Every step keeps it, so it holds throughout. -/
theorem faithful_of_reachable {s : TimerRun κ} (h : (timerRuns κ).Reachable s) : s.Faithful :=
  h.invariant (fun _ hs => hs ▸ faithful_init) fun _ _ _ _ hs hstep => hs.moves (step_moves hstep)

/-- What `get_next_timeout_ms` returns, by the map: nothing to wait for, or the time to the earliest deadline. -/
theorem Faithful.timeout {s t : TimerRun κ} (h : s.Faithful) {now : Int} {n : Option Timer.Node}
    (hstep : s.step (.timeout now n) = some t) :
    (Timer.nextTimeoutMs now n = -1 ∧ ∀ id, after s.history id = none) ∨
      ∃ id d callback, after s.history id = some (d, callback) ∧ Earliest (after s.history) d ∧
        Timer.nextTimeoutMs now n = max 0 ((d - now).tdiv 1000000) := by
  rw [← h.map]
  cases step_moves hstep with
  | nothing hpc hheap => exact Or.inl ⟨rfl, h.covered.deadlines_eq_none hheap⟩
  | @wait _ n hpc htop hlive =>
    obtain ⟨e, he, -, hexpires⟩ := Timer.live_iff.mp hlive
    refine Or.inr ⟨n.id, n.expiresAt, e.callback, ?_, h.covered.earliest htop, rfl⟩
    rw [Timer.deadlines, he, ← hexpires]
    rfl

end TimerRun

/-- In every run of the timer, whatever its callbacks call: the timer is the map that the latest events about each id
leave; what fires is live, with the deadline it fires for, which has passed, and is gone when its callback runs;
nothing has happened to it since it was given that deadline, so no deadline fires twice; deadlines fire in order as
long as none is given; `tick` returns when every deadline left is later than its last clock reading; and
`get_next_timeout_ms` answers by the earliest deadline. -/
theorem timer_is_deadline_map {κ : Type} {s : TimerRun κ} (h : (timerRuns κ).Reachable s) :
    (∀ id, s.timer.deadlines id = after s.history id) ∧
    (∀ later earlier id d callback now, s.history = later ++ .fire id d callback now :: earlier →
      after earlier id = some (d, callback) ∧ d ≤ now ∧ (later = [] → s.timer.contains id = false) ∧
      ∃ mid arm older, earlier = mid ++ arm :: older ∧ arm.ArmsFor id d ∧ ∀ e ∈ mid, e.about ≠ some id) ∧
    (∀ later mid earlier id d callback now d' callback' now',
      s.history = later ++ .fire id d' callback' now' :: (mid ++ .fire id d callback now :: earlier) →
        ∃ e ∈ mid, e.ArmsFor id d') ∧
    (∀ later mid earlier id d callback now id' d' callback' now',
      s.history = later ++ .fire id' d' callback' now' :: (mid ++ .fire id d callback now :: earlier) →
        (∀ e ∈ mid, ¬ e.Arms) → d ≤ d') ∧
    (∀ later earlier now, s.history = later ++ .settle now :: earlier →
      ∀ id d callback, after earlier id = some (d, callback) → ∃ reading, now = some reading ∧ reading < d) ∧
    ∀ now n t, s.step (.timeout now n) = some t →
      (Timer.nextTimeoutMs now n = -1 ∧ ∀ id, after s.history id = none) ∨
        ∃ id d callback, after s.history id = some (d, callback) ∧ Earliest (after s.history) d ∧
          Timer.nextTimeoutMs now n = max 0 ((d - now).tdiv 1000000) := by
  have hs := TimerRun.faithful_of_reachable h
  refine ⟨congrFun hs.map, ?_, ?_, ?_, ?_, fun now n t hstep => hs.timeout hstep⟩
  · intro later earlier id d callback now hhistory
    obtain ⟨⟨hlive, hdue, -⟩, -⟩ := (hhistory ▸ hs.conforms).of_append
    refine ⟨hlive, hdue, ?_, exists_arms_of_after hlive⟩
    rintro rfl
    have hgone : s.timer.deadlines id = none := by
      rw [hs.map, hhistory, List.nil_append, after, Function.update_self]
    rw [Timer.contains, Option.map_eq_none_iff.mp hgone]
    rfl
  · intro later mid earlier id d callback now d' callback' now' hhistory
    exact (hhistory ▸ hs.conforms).of_append.exists_armsFor
  · intro later mid earlier id d callback now id' d' callback' now' hhistory hmid
    exact (hhistory ▸ hs.conforms).of_append.fire_le hmid
  · intro later earlier now hhistory
    exact (hhistory ▸ hs.conforms).of_append.1

/-- Two ids; the first is removed and added anew with the deadline and the version it had, so that its stale node
looks like its present one. -/
def readdedId : List (TimerAction Nat) :=
  [.add 0 3 1 7, .add 0 4 2 8, .remove 3, .add 0 3 1 9, .tick, .top 2000000 ⟨3, 1000000, 1⟩, .top 2000000 ⟨3, 1000000, 1⟩,
    .top 2000000 ⟨4, 2000000, 1⟩, .empty]

theorem timer_is_deadline_map_readded :
    ∃ s, (timerRuns Nat).Reachable s ∧ ∃ earlier,
      s.history = [.settle none, .fire 4 2000000 8 2000000, .fire 3 1000000 9 2000000] ++ earlier ∧
        after earlier 3 = some (1000000, 9) ∧ (1000000 : Int) ≤ 2000000 ∧ s.timer.deadlines 4 = after s.history 4 := by
  obtain ⟨s, hs, hhistory⟩ := Lts.exists_of_exec (M := timerRuns Nat) readdedId
    (fun s => decide (s.history = [.settle none, .fire 4 2000000 8 2000000, .fire 3 1000000 9 2000000] ++
      [.set 3 1000000 9, .clear 3, .set 4 2000000 8, .set 3 1000000 7])) rfl (by decide +kernel)
  have hhistory := of_decide_eq_true hhistory
  obtain ⟨hmap, hfire, -⟩ := timer_is_deadline_map hs
  obtain ⟨hlive, hdue, -⟩ := hfire [_, _] _ _ _ _ _ hhistory
  exact ⟨s, hs, _, hhistory, hlive, hdue, hmap 4⟩

end HpServer
