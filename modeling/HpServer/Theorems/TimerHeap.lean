import HpServer.Theorems.TimerDeadlines

/-!
# How many stale nodes the timer keeps

Every `adjust` leaves a node behind, and `tick` takes entries out without building the heap anew. The bound of
`maybe_compact_heap` holds right after an operation that calls it (`Trimmed`) and may be lost in a `tick`; the heap
does not grow there, so over a whole run it is bounded by the largest number of entries there has been.
-/

namespace HpServer
namespace Timer

variable {κ : Type}

/-- `size`. -/
def size (t : Timer κ) : Nat := t.entries.entries.length

/-- The heap is small, or at most four times as large as the entries are many. -/
def Trimmed (t : Timer κ) : Prop := t.heap.length < 4096 ∨ t.heap.length ≤ 4 * t.size

/-- `maybe_compact_heap` leaves a heap that need not be compacted. -/
theorem trimmed_maybeCompactHeap (t : Timer κ) : t.maybeCompactHeap.Trimmed := by
  unfold maybeCompactHeap
  split
  · next hsmall => exact .inl hsmall
  split
  · exact .inl (show 0 < 4096 by decide)
  split
  · next hratio =>
    rw [Nat.mul_comm] at hratio
    exact .inr hratio
  · -- each entry has one node now
    refine .inr ?_
    simp only [List.length_map, size]
    omega

/-- `arm` ends with that, so it leaves a heap within the bounds. -/
theorem trimmed_arm (t : Timer κ) (id expire : Int) (callback : κ) (version : Nat) :
    (t.arm id expire callback version).Trimmed :=
  trimmed_maybeCompactHeap _

/-- So does `add`, unless it refuses the id. -/
theorem trimmed_add (t : Timer κ) (now : Int) {id : Int} (timeoutMs : Int) (callback : κ) (hid : 0 ≤ id) :
    (t.add now id timeoutMs callback).Trimmed := by
  rw [add, if_neg (by omega)]
  exact trimmed_arm ..

/-- `adjust` of an id without an entry does nothing, so the heap may be as large as before. -/
theorem adjust_eq_or_trimmed (t : Timer κ) (now id timeoutMs : Int) :
    (t.contains id = false ∧ t.adjust now id timeoutMs = t) ∨ (t.adjust now id timeoutMs).Trimmed := by
  rw [adjust, contains]
  cases t.entries.lookup id with
  | none => exact .inl ⟨rfl, rfl⟩
  | some e => exact .inr (trimmed_arm ..)

/-- `remove` ends with the compaction too. -/
theorem trimmed_remove (t : Timer κ) (id : Int) : (t.remove id).Trimmed := trimmed_maybeCompactHeap _

/-- The two limits of the compaction in one. -/
theorem Trimmed.le {t : Timer κ} (h : t.Trimmed) : t.heap.length ≤ max 4095 (4 * t.size) := by
  rcases h with h | h
  · omega
  · omega

end Timer

/-- A step lets the heap shrink, or leaves it trimmed. -/
theorem TimerRun.Moves.heap {κ : Type} {s t : TimerRun κ} {a : TimerAction κ} (h : s.Moves a t) :
    t.timer.heap.length ≤ s.timer.heap.length ∨ t.timer.Trimmed := by
  cases h with
  | ignored | tick | getNextTimeoutMs | stopped | emptied | nothing | wait => exact .inl (Nat.le_refl _)
  | set => exact .inr (Timer.trimmed_arm ..)
  | move =>
    rcases Timer.adjust_eq_or_trimmed s.timer _ _ _ with ⟨-, heq⟩ | htrimmed
    · exact .inl (Nat.le_of_eq (congrArg (fun t : Timer κ => t.heap.length) heq))
    · exact .inr htrimmed
  | clear => exact .inr (Timer.trimmed_remove ..)
  | dropped | fired | discarded => exact .inl (List.length_erase_le)

/-- After an `add` of an id that is not negative, an `adjust` of an id with an entry and a `remove`, the heap has
fewer than 4096 nodes or at most four times as many as there are entries. In every run, whatever the callbacks of
`tick` call, it has at most 4095 nodes or four times as many as there have been entries at once. -/
theorem stale_nodes_bounded {κ : Type} :
    (∀ t : Timer κ, (∀ now id timeoutMs callback, 0 ≤ id → (t.add now id timeoutMs callback).Trimmed) ∧
      (∀ now id timeoutMs, t.contains id = true → (t.adjust now id timeoutMs).Trimmed) ∧ ∀ id, (t.remove id).Trimmed) ∧
    ∀ s peak, ((timerRuns κ).withPeak fun s => s.timer.size).Reachable (s, peak) →
      s.timer.heap.length ≤ max 4095 (4 * peak) := by
  refine ⟨fun t => ⟨?_, ?_, t.trimmed_remove⟩, ?_⟩
  · intro now id timeoutMs callback hid
    exact t.trimmed_add now timeoutMs callback hid
  · intro now id timeoutMs hlive
    rcases t.adjust_eq_or_trimmed now id timeoutMs with ⟨hgone, -⟩ | htrimmed
    · rw [hlive] at hgone
      cases hgone
    · exact htrimmed
  · intro s peak h
    refine Lts.Reachable.le_of_peak (f := fun s => s.timer.heap.length) (fun n => max 4095 (4 * n)) ?_ ?_ ?_ h
    · intro m n hmn
      omega
    · rintro s rfl
      exact Nat.zero_le _
    · intro s t a hstep
      exact (TimerRun.step_moves hstep).heap.imp_right Timer.Trimmed.le

/-- Two ids, of which one is adjusted and the other removed; three nodes are left for one entry. -/
def adjustedAndRemoved : List (TimerAction Nat) := [.add 0 3 1 7, .add 0 4 2 8, .adjust 0 3 5, .remove 4]

theorem stale_nodes_bounded_adjusted :
    ∃ s, ((timerRuns Nat).withPeak fun s => s.timer.size).Reachable (s, 2) ∧ s.timer.size = 1 ∧ s.timer.heap.length = 3 ∧
      s.timer.heap.length ≤ max 4095 (4 * 2) ∧ (s.timer.add 0 5 1 9).Trimmed ∧ (s.timer.adjust 0 3 7).Trimmed := by
  obtain ⟨⟨s, peak⟩, hs, htest⟩ := Lts.exists_of_exec
    (M := (timerRuns Nat).withPeak fun s => s.timer.size) adjustedAndRemoved
    (fun p => decide (p.2 = 2 ∧ p.1.timer.size = 1 ∧ p.1.timer.heap.length = 3 ∧ p.1.timer.contains 3 = true))
    (s := (⟨.empty, .idle, []⟩, 0)) ⟨rfl, rfl⟩ (by decide +kernel)
  obtain ⟨rfl, hsize, hheap, hlive⟩ := of_decide_eq_true htest
  obtain ⟨hops, hbound⟩ := stale_nodes_bounded (κ := Nat)
  obtain ⟨hadd, hadjust, -⟩ := hops s.timer
  exact ⟨s, hs, hsize, hheap, hbound s 2 hs, hadd 0 5 1 9 (by omega), hadjust 0 3 7 hlive⟩

end HpServer
