import HpServer.Lib.Mutex
import HpServer.RingThreads
import HpServer.Theorems.LogQueue

/-!
# What one step of the ring buffer does

Every step of `RingThreads.system` is a move of one thread (`Move`). `Kept` is what the buffer looks like between two
moves: its slots from `head_` on hold the items, except that the first may have been moved out by a `pop` that has not
stored `head_` yet. `Pc.Seen` is what a thread may rely on while it holds its mutex: a `push` that nobody else moves
`tail_`, and that there will be no less room; a `pop` that nobody else moves `head_`, and that the first item stays.
-/

namespace HpServer
namespace RingThreads

variable {T α : Type} [Inhabited α] {moved : α → α}

/-- The thread an action is an action of. -/
def Act.thread : Act T α → T
  | .call t _ => t
  | .step t => t

/-- The moves of a thread: what it found, what it leaves, and where it goes on. -/
inductive Move (moved : α → α) (t : T) (sh : Shared T α) : Pc α → Shared T α → Pc α → Prop where
  | call (op : Op α) : Move moved t sh .idle sh (.start op)
  | pushLock (item : α) : sh.tailMtx = none →
    Move moved t sh (.pushLock item) { sh with tailMtx := some t } (.pushIndex item)
  | pushIndex (item : α) : Move moved t sh (.pushIndex item) sh (.pushHead item (sh.ring.next sh.ring.tail))
  | full (item : α) {nextTail : Nat} : nextTail = sh.ring.head →
    Move moved t sh (.pushHead item nextTail) sh (.pushUnlock false)
  | room (item : α) {nextTail : Nat} : nextTail ≠ sh.ring.head →
    Move moved t sh (.pushHead item nextTail) sh (.pushWrite item nextTail)
  | write (item : α) (nextTail : Nat) :
      Move moved t sh (.pushWrite item nextTail)
        { sh with ring := { sh.ring with data := sh.ring.data.set sh.ring.tail item } }
        (.pushStore item nextTail)
  | store (item : α) (nextTail : Nat) :
      Move moved t sh (.pushStore item nextTail)
        { sh with ring := { sh.ring with tail := nextTail }, items := sh.items ++ [item] }
        (.pushUnlock true)
  | pushUnlock (ok : Bool) : Move moved t sh (.pushUnlock ok) { sh with tailMtx := none } .idle
  | popLock : sh.headMtx = none → Move moved t sh .popLock { sh with headMtx := some t } .popHead
  | popHead : Move moved t sh .popHead sh (.popTail sh.ring.head)
  | nothing {head : Nat} : head = sh.ring.tail → Move moved t sh (.popTail head) sh (.popUnlock none)
  | something {head : Nat} : head ≠ sh.ring.tail → Move moved t sh (.popTail head) sh .popIndex
  | popIndex : Move moved t sh .popIndex sh (.popTake sh.ring.head)
  | take (currentHead : Nat) :
      Move moved t sh (.popTake currentHead)
        { sh with
          ring := { sh.ring with data := sh.ring.data.set currentHead (moved (sh.ring.data.getD currentHead default)) } }
        (.popStore currentHead (sh.ring.data.getD currentHead default))
  | popStore (currentHead : Nat) (item : α) :
      Move moved t sh (.popStore currentHead item)
        { sh with ring := { sh.ring with head := sh.ring.next currentHead }, items := sh.items.tail }
          (.popUnlock (some item))
  | popUnlock (item : Option α) : Move moved t sh (.popUnlock item) { sh with headMtx := none } .idle
  | emptyHead : Move moved t sh .emptyHead sh (.emptyTail sh.ring.head)
  | emptyTail (head : Nat) : Move moved t sh (.emptyTail head) sh .idle
  | sizeHead : Move moved t sh .sizeHead sh (.sizeTail sh.ring.head)
  | sizeTail (head : Nat) : Move moved t sh (.sizeTail head) sh .idle

/-- A thread's own operation is a move. -/
theorem move_of_step {t : T} {sh sh' : Shared T α} {p p' : Pc α} (h : sh.step moved t p = some (p', sh')) :
    Move moved t sh p sh' p' := by
  cases p with
  | idle => cases h
  | pushLock item =>
    obtain ⟨hfree, heq⟩ := Option.ite_none_right_eq_some.mp h
    cases heq
    exact .pushLock item hfree
  | popLock =>
    obtain ⟨hfree, heq⟩ := Option.ite_none_right_eq_some.mp h
    cases heq
    exact .popLock hfree
  | pushHead item nextTail =>
    rw [Shared.step] at h
    cases h
    split
    · exact .full item ‹_›
    · exact .room item ‹_›
  | popTail head =>
    rw [Shared.step] at h
    cases h
    split
    · exact .nothing ‹_›
    · exact .something ‹_›
  | pushIndex item => cases h; exact .pushIndex item
  | pushWrite item nextTail => cases h; exact .write item nextTail
  | pushStore item nextTail => cases h; exact .store item nextTail
  | pushUnlock ok => cases h; exact .pushUnlock ok
  | popHead => cases h; exact .popHead
  | popIndex => cases h; exact .popIndex
  | popTake currentHead => cases h; exact .take currentHead
  | popStore currentHead item => cases h; exact .popStore currentHead item
  | popUnlock item => cases h; exact .popUnlock item
  | emptyHead => cases h; exact .emptyHead
  | emptyTail head => cases h; exact .emptyTail head
  | sizeHead => cases h; exact .sizeHead
  | sizeTail head => cases h; exact .sizeTail head

variable [DecidableEq T]

omit [Inhabited α] in
/-- Where the mover is. -/
theorem State.move_pc_self (s : State T α) (t : T) (r : Pc α × Shared T α) : (s.move t r).pc t = r.1 :=
  Function.update_self ..

omit [Inhabited α] in
/-- The others stay where they are. -/
theorem State.move_pc_of_ne (s : State T α) {t u : T} (h : u ≠ t) (r : Pc α × Shared T α) : (s.move t r).pc u = s.pc u :=
  Function.update_of_ne h ..

/-- Every step is a move of the acting thread. -/
theorem step_move {capacity : Nat} {s s' : State T α} {a : Act T α} (h : (system T moved capacity).step s a = some s') :
    ∃ p' sh', Move moved a.thread s.shared (s.pc a.thread) sh' p' ∧ s' = s.move a.thread (p', sh') := by
  change s.step moved a = some s' at h
  cases a with
  | call t op =>
    simp only [State.step] at h
    split at h
    · rename_i hpc
      cases h
      exact ⟨_, _, hpc ▸ .call op, rfl⟩
    · cases h
  | step t =>
    obtain ⟨⟨p', sh'⟩, hstep, rfl⟩ := Option.map_eq_some_iff.mp h
    exact ⟨p', sh', move_of_step hstep, rfl⟩

/-- Every move that a thread can make is a step. -/
theorem exists_step_of_move (capacity : Nat) {s : State T α} {t : T} {sh' : Shared T α} {p' : Pc α}
    (h : Move moved t s.shared (s.pc t) sh' p') :
    ∃ a, (system T moved capacity).step s a = some (s.move t (p', sh')) := by
  generalize hp : s.pc t = p at h
  have hown : s.shared.step moved t p = some (p', sh') →
      ∃ a, (system T moved capacity).step s a = some (s.move t (p', sh')) := by
    intro hstep
    refine ⟨.step t, ?_⟩
    change (s.shared.step moved t (s.pc t)).map (s.move t) = _
    rw [hp, hstep]
    rfl
  cases h with
  | call op =>
    refine ⟨.call t op, ?_⟩
    change s.step moved (.call t op) = _
    rw [State.step, hp]
  | pushLock item hfree => exact hown (if_pos hfree)
  | popLock hfree => exact hown (if_pos hfree)
  | full item hfull => exact hown (by rw [Shared.step, if_pos hfull])
  | room item hroom => exact hown (by rw [Shared.step, if_neg hroom])
  | nothing hnone => exact hown (by rw [Shared.step, if_pos hnone])
  | something hsome => exact hown (by rw [Shared.step, if_neg hsome])
  | _ => exact hown rfl

/-! ## The mutexes -/

/-- The program points inside `head_mutex_`. -/
def Pc.holdsHead : Pc α → Bool
  | .popHead | .popTail _ | .popIndex | .popTake _ | .popStore _ _ | .popUnlock _ => true
  | _ => false

/-- The program points inside `tail_mutex_`. -/
def Pc.holdsTail : Pc α → Bool
  | .pushIndex _ | .pushHead _ _ | .pushWrite _ _ | .pushStore _ _ | .pushUnlock _ => true
  | _ => false

/-- Only the holder of a mutex is at a program point inside it. -/
structure MutexesHeld (s : State T α) : Prop where
  head : Mutex.Held s.shared.headMtx fun t => (s.pc t).holdsHead
  tail : Mutex.Held s.shared.tailMtx fun t => (s.pc t).holdsTail

omit [DecidableEq T] in
/-- What a move does to `head_mtx_`. -/
theorem Move.headMtx {t : T} {sh sh' : Shared T α} {p p' : Pc α} (h : Move moved t sh p sh' p') :
    (p'.holdsHead = true → p.holdsHead = true ∧ sh'.headMtx = sh.headMtx ∨ sh'.headMtx = some t) ∧
      (p.holdsHead = false → sh'.headMtx = sh.headMtx ∨ sh.headMtx = none) := by
  cases h with
  | call op => cases op <;> simp [Pc.start, Pc.holdsHead]
  | _ => simp_all [Pc.holdsHead]

omit [DecidableEq T] in
/-- What a move does to `tail_mtx_`. -/
theorem Move.tailMtx {t : T} {sh sh' : Shared T α} {p p' : Pc α} (h : Move moved t sh p sh' p') :
    (p'.holdsTail = true → p.holdsTail = true ∧ sh'.tailMtx = sh.tailMtx ∨ sh'.tailMtx = some t) ∧
      (p.holdsTail = false → sh'.tailMtx = sh.tailMtx ∨ sh.tailMtx = none) := by
  cases h with
  | call op => cases op <;> simp [Pc.start, Pc.holdsTail]
  | _ => simp_all [Pc.holdsTail]

omit [DecidableEq T] in
/-- A move leaves `head_mutex_` as it is, takes it or frees it. -/
theorem Move.headMtx_cases {t : T} {sh sh' : Shared T α} {p p' : Pc α} (h : Move moved t sh p sh' p') :
    sh'.headMtx = sh.headMtx ∧ p'.holdsHead = p.holdsHead ∨ sh'.headMtx = some t ∧ p'.holdsHead = true ∨
      sh'.headMtx = none := by
  cases h with
  | call op => cases op <;> exact .inl ⟨rfl, rfl⟩
  | popLock _ => exact .inr (.inl ⟨rfl, rfl⟩)
  | popUnlock item => exact .inr (.inr rfl)
  | _ => exact .inl ⟨rfl, rfl⟩

/-- Who has taken `head_mutex_` is inside it. -/
theorem reachable_holdsHead {capacity : Nat} {s : State T α} (h : (system T moved capacity).Reachable s) {t : T}
    (ht : s.shared.headMtx = some t) : (s.pc t).holdsHead = true := by
  refine h.invariant (I := fun s => ∀ t, s.shared.headMtx = some t → (s.pc t).holdsHead = true) ?_ ?_ t ht
  · rintro s rfl t ht
    cases ht
  · intro s s' a _ hs hstep t ht
    obtain ⟨p', sh', hmove, rfl⟩ := step_move hstep
    rcases hmove.headMtx_cases with ⟨hsame, hpc⟩ | ⟨hown, hpc⟩ | hnone
    · have hin := hs t (hsame.symm.trans ht)
      by_cases hta : t = a.thread
      · rw [hta, State.move_pc_self, hpc, ← hta]
        exact hin
      · rwa [State.move_pc_of_ne s hta]
    · obtain rfl : a.thread = t := Option.some.inj (hown.symm.trans ht)
      rwa [State.move_pc_self]
    · cases hnone.symm.trans ht

/-- By induction it holds in every state. -/
theorem reachable_mutexesHeld {capacity : Nat} {s : State T α} (h : (system T moved capacity).Reachable s) :
    MutexesHeld s := by
  refine h.invariant ?_ ?_
  · rintro s rfl
    exact ⟨fun t ht => Bool.noConfusion ht, fun t ht => Bool.noConfusion ht⟩
  · intro s s' a _ hm hstep
    obtain ⟨p', sh', hmove, rfl⟩ := step_move hstep
    refine ⟨hm.head.step (t := a.thread) ?_ ?_ hmove.headMtx.2, hm.tail.step (t := a.thread) ?_ ?_ hmove.tailMtx.2⟩
    · intro u hu
      rw [State.move_pc_of_ne s hu]
      exact id
    · rw [State.move_pc_self]
      exact hmove.headMtx.1
    · intro u hu
      rw [State.move_pc_of_ne s hu]
      exact id
    · rw [State.move_pc_self]
      exact hmove.tailMtx.1

end RingThreads

/-! ## The buffer between two operations of a call -/

namespace RingBuffer

variable {α : Type}

/-- Writing what a slot has changes nothing. -/
theorem set_eq_self {data : List α} {i : Nat} {item : α} (h : data[i]? = some item) : data.set i item = data := by
  obtain ⟨hi, rfl⟩ := List.getElem?_eq_some_iff.mp h
  exact List.set_getElem_self hi

/-- What the slots hold is of no account for the indices. -/
theorem Valid.set {capacity : Nat} {b : RingBuffer α} (h : b.Valid capacity) (i : Nat) (item : α) :
    Valid capacity { b with data := b.data.set i item } :=
  ⟨h.range, by rw [List.length_set, h.slots], h.head, h.tail⟩

theorem size_set (b : RingBuffer α) (i : Nat) (item : α) : size { b with data := b.data.set i item } = b.size := by
  simp only [size, List.length_set]

/-- The slot at `tail_` is outside the window. -/
theorem Valid.contents_set_tail {capacity : Nat} {b : RingBuffer α} (h : b.Valid capacity) (item : α) :
    contents { b with data := b.data.set b.tail item } = b.contents := by
  have hlt : b.size < b.data.length := by
    rw [h.slots]
    exact Nat.lt_succ_of_le h.size_le
  have htail : b.tail = (b.size + b.head) % b.data.length := by rw [h.slots, h.tail_eq]
  rw [contents, contents, size_set]
  have hset := Fifo.window_set b.head (Nat.le_refl b.size) hlt item
  rwa [← htail] at hset

/-- Storing `tail_` adds what stands in its slot. -/
theorem Valid.store_tail {capacity : Nat} {b : RingBuffer α} (h : b.Valid capacity) (hroom : b.size < capacity) {item : α}
    (hslot : b.data[b.tail]? = some item) :
    Valid capacity { b with tail := b.next b.tail } ∧
      contents { b with tail := b.next b.tail } = b.contents ++ [item] := by
  rw [← h.length_contents] at hroom
  have hne : b.next b.tail ≠ b.head := by
    intro heq
    have := h.next_tail_eq_head_iff.mp heq
    omega
  have hpush := h.push_of_room hroom item
  rw [push, if_neg hne, set_eq_self hslot] at hpush
  exact ⟨hpush.1, hpush.2.1⟩

variable [Inhabited α]

/-- The first slot is there. -/
theorem Valid.slot_head {capacity : Nat} {b : RingBuffer α} (h : b.Valid capacity) :
    b.data[b.head]? = some (b.data.getD b.head default) := by
  have hlt : b.head < b.data.length := by
    rw [h.slots]
    exact h.head
  rw [List.getD_eq_getElem?_getD, List.getElem?_eq_getElem hlt]
  rfl

/-- Storing `head_` takes the first element away. -/
theorem Valid.store_head {capacity : Nat} {b : RingBuffer α} (h : b.Valid capacity) (hne : b.contents ≠ []) :
    Valid capacity { b with head := b.next b.head } ∧
      b.contents = b.data.getD b.head default :: contents { b with head := b.next b.head } := by
  obtain ⟨hvalid, item, hcontents, hitem⟩ := h.pop_of_ne_nil hne id
  rw [pop, if_neg (mt h.head_eq_tail_iff.mp hne)] at hvalid hcontents hitem
  simp only [id, set_eq_self h.slot_head] at hvalid hcontents hitem
  rw [Option.some.inj hitem]
  exact ⟨hvalid, hcontents⟩

/-- Moving the first element out leaves the others. -/
theorem Valid.tail_contents_set_head {capacity : Nat} {b : RingBuffer α} (h : b.Valid capacity)
    (hne : b.contents ≠ []) (item : α) :
    (contents { b with data := b.data.set b.head item }).tail = b.contents.tail := by
  have hne' : contents { b with data := b.data.set b.head item } ≠ [] := by
    rwa [Ne, ← List.length_eq_zero_iff, (h.set b.head item).length_contents, size_set, ← h.length_contents,
      List.length_eq_zero_iff]
  obtain ⟨-, first, hcontents, -⟩ := h.pop_of_ne_nil hne fun _ => item
  have hset := ((h.set b.head item).store_head hne').2
  rw [pop, if_neg (mt h.head_eq_tail_iff.mp hne)] at hcontents
  rw [hset, hcontents, List.tail_cons, List.tail_cons]
  simp only [next, List.length_set]

end RingBuffer

/-! ## What holds between two moves -/

namespace RingThreads

variable {T α : Type} [Inhabited α] {moved : α → α} {capacity : Nat}

/-- An element is moved out, and `head_` is not stored yet. -/
def Pc.emptied : Pc α → Bool
  | .popStore _ _ => true
  | _ => false

/-- The buffer holds the items, the first perhaps moved out. -/
structure Kept (capacity : Nat) (sh : Shared T α) (emptied : Prop) : Prop where
  valid : sh.ring.Valid capacity
  size : sh.ring.size = sh.items.length
  rest : sh.ring.contents.tail = sh.items.tail
  first : ¬emptied → sh.ring.contents = sh.items

/-- What a thread has seen or written and no other thread changes while it holds its mutex. -/
def Pc.Seen (capacity : Nat) (sh : Shared T α) : Pc α → Prop
  | .pushHead _ nextTail => nextTail = sh.ring.next sh.ring.tail
  | .pushWrite _ nextTail => nextTail = sh.ring.next sh.ring.tail ∧ sh.items.length < capacity
  | .pushStore item nextTail =>
    nextTail = sh.ring.next sh.ring.tail ∧ sh.items.length < capacity ∧ sh.ring.data[sh.ring.tail]? = some item
  | .popTail head => head = sh.ring.head
  | .popIndex => sh.items ≠ []
  | .popTake currentHead => currentHead = sh.ring.head ∧ sh.items ≠ []
  | .popStore currentHead item => currentHead = sh.ring.head ∧ sh.items.head? = some item
  | _ => True

/-- What a mover leaves to the others: the number of slots, the front if it is outside `head_mutex_`, and the end if
it is outside `tail_mutex_`. -/
structure Frame (p : Pc α) (sh sh' : Shared T α) : Prop where
  slots : sh'.ring.data.length = sh.ring.data.length
  front : p.holdsHead = false → sh'.ring.head = sh.ring.head ∧ sh.items <+: sh'.items
  back : p.holdsTail = false → sh'.ring.tail = sh.ring.tail ∧ sh'.ring.data[sh.ring.tail]? = sh.ring.data[sh.ring.tail]? ∧
    sh'.items.length ≤ sh.items.length

omit [Inhabited α] in
theorem Frame.refl (p : Pc α) (sh : Shared T α) : Frame p sh sh :=
  ⟨rfl, fun _ => ⟨rfl, List.prefix_refl _⟩, fun _ => ⟨rfl, rfl, Nat.le_refl _⟩⟩

omit [Inhabited α] in
/-- There are as many filled slots as items. -/
theorem Kept.length_contents {sh : Shared T α} {e : Prop} (h : Kept capacity sh e) :
    sh.ring.contents.length = sh.items.length := by
  rw [h.valid.length_contents, h.size]

omit [Inhabited α] in
theorem Kept.contents_ne_nil {sh : Shared T α} {e : Prop} (h : Kept capacity sh e) (hne : sh.items ≠ []) :
    sh.ring.contents ≠ [] := by
  rwa [Ne, ← List.length_eq_zero_iff, h.length_contents, List.length_eq_zero_iff]

omit [Inhabited α] in
/-- The indices are apart when there are items. -/
theorem Kept.head_ne_tail {sh : Shared T α} {e : Prop} (h : Kept capacity sh e) (hne : sh.items ≠ []) :
    sh.ring.head ≠ sh.ring.tail :=
  fun heq => h.contents_ne_nil hne (h.valid.head_eq_tail_iff.mp heq)

omit [Inhabited α] in
/-- With the index at which the items begin, `empty` answers whether there are none. -/
theorem Kept.answerEmpty_iff {sh : Shared T α} {e : Prop} (h : Kept capacity sh e) :
    answerEmpty sh.ring sh.ring.head = true ↔ sh.items = [] := by
  have hempty : answerEmpty sh.ring sh.ring.head = true ↔ sh.ring.head = sh.ring.tail := decide_eq_true_iff
  rw [hempty, h.valid.head_eq_tail_iff, ← List.length_eq_zero_iff, h.length_contents, List.length_eq_zero_iff]

omit [Inhabited α] in
/-- A thread that the mover leaves its part of the buffer to has seen what it has seen. -/
theorem Pc.Seen.frame {sh sh' : Shared T α} {p q : Pc α} (h : q.Seen capacity sh) (hframe : Frame p sh sh')
    (hfront : q.holdsHead = true → p.holdsHead = false) (hback : q.holdsTail = true → p.holdsTail = false) :
    q.Seen capacity sh' := by
  have hnext : ∀ i, sh'.ring.next i = sh.ring.next i := fun i => by rw [RingBuffer.next, RingBuffer.next, hframe.slots]
  have hfirst : ∀ {x : α}, sh.items <+: sh'.items → sh.items.head? = some x → sh'.items.head? = some x := by
    rintro x ⟨more, hmore⟩ hx
    rw [← hmore, List.head?_append, hx]
    rfl
  have hnil : sh.items <+: sh'.items → sh.items ≠ [] → sh'.items ≠ [] :=
    fun hpre hne hempty => hne (List.prefix_nil.mp (hempty ▸ hpre))
  cases q with
  | pushHead item nextTail =>
    obtain ⟨htail, -, -⟩ := hframe.back (hback rfl)
    rw [Pc.Seen, hnext, htail]
    exact h
  | pushWrite item nextTail =>
    obtain ⟨htail, -, hlen⟩ := hframe.back (hback rfl)
    rw [Pc.Seen, hnext, htail]
    exact ⟨h.1, Nat.lt_of_le_of_lt hlen h.2⟩
  | pushStore item nextTail =>
    obtain ⟨htail, hslot, hlen⟩ := hframe.back (hback rfl)
    rw [Pc.Seen, hnext, htail, hslot]
    exact ⟨h.1, Nat.lt_of_le_of_lt hlen h.2.1, h.2.2⟩
  | popTail head => exact h.trans (hframe.front (hfront rfl)).1.symm
  | popIndex => exact hnil (hframe.front (hfront rfl)).2 h
  | popTake currentHead =>
    obtain ⟨hhead, hpre⟩ := hframe.front (hfront rfl)
    exact ⟨h.1.trans hhead.symm, hnil hpre h.2⟩
  | popStore currentHead item =>
    obtain ⟨hhead, hpre⟩ := hframe.front (hfront rfl)
    exact ⟨h.1.trans hhead.symm, hfirst hpre h.2⟩
  | _ => trivial

/-- What a move does: the buffer holds the items, the mover has seen what it goes on with, and the others keep their
part. -/
theorem Move.kept {t : T} {sh sh' : Shared T α} {p p' : Pc α} {e : Prop} (h : Move moved t sh p sh' p')
    (hk : Kept capacity sh (e ∨ p.emptied = true)) (hout : p.holdsHead = true → ¬e) (hseen : p.Seen capacity sh) :
    Kept capacity sh' (e ∨ p'.emptied = true) ∧ p'.Seen capacity sh' ∧ Frame p sh sh' := by
  cases h with
  | call op => exact ⟨by cases op <;> exact hk, by cases op <;> trivial, .refl _ _⟩
  | pushIndex item => exact ⟨hk, rfl, .refl _ _⟩
  | room item hne =>
    have hle := hk.valid.size_le
    have hfull := hk.valid.next_tail_eq_head_iff
    rw [hk.length_contents, ← show _ = sh.ring.next sh.ring.tail from hseen] at hfull
    refine ⟨hk, ⟨hseen, ?_⟩, .refl _ _⟩
    exact Nat.lt_of_le_of_ne (hk.size ▸ hle) (mt hfull.mpr hne)
  | write item nextTail =>
    have hcontents := hk.valid.contents_set_tail item
    have hslot : sh.ring.tail < sh.ring.data.length := by
      rw [hk.valid.slots]
      exact hk.valid.tail
    refine ⟨⟨hk.valid.set _ _, ?_, ?_, ?_⟩, ⟨?_, hseen.2, List.getElem?_set_self hslot⟩, ⟨List.length_set, ?_, ?_⟩⟩
    · exact (RingBuffer.size_set ..).trans hk.size
    · rw [hcontents]
      exact hk.rest
    · intro hnot
      rw [hcontents]
      exact hk.first hnot
    · simpa only [RingBuffer.next, List.length_set] using hseen.1
    · exact fun _ => ⟨rfl, List.prefix_refl _⟩
    · intro hin
      cases hin
  | store item nextTail =>
    obtain ⟨rfl, hroom, hslot⟩ := hseen
    obtain ⟨hvalid, hcontents⟩ := hk.valid.store_tail (hk.size ▸ hroom) hslot
    refine ⟨⟨hvalid, ?_, ?_, ?_⟩, trivial, ⟨rfl, fun _ => ⟨rfl, List.prefix_append _ _⟩, ?_⟩⟩
    · rw [← hvalid.length_contents, hcontents, List.length_append, hk.length_contents, List.length_append]
    · rw [hcontents]
      by_cases hnil : sh.items = []
      · have hnil' : sh.ring.contents = [] := by rw [← List.length_eq_zero_iff, hk.length_contents, hnil, List.length_nil]
        rw [hnil, hnil']
      · rw [List.tail_append_of_ne_nil hnil, List.tail_append_of_ne_nil (hk.contents_ne_nil hnil), hk.rest]
    · intro hnot
      rw [hcontents, hk.first hnot]
    · intro hin
      cases hin
  | popHead => exact ⟨hk, rfl, .refl _ _⟩
  | something hne =>
    refine ⟨hk, ?_, .refl _ _⟩
    intro hnil
    refine hne (hseen.trans (hk.valid.head_eq_tail_iff.mpr ?_))
    rw [← List.length_eq_zero_iff, hk.length_contents, hnil, List.length_nil]
  | popIndex => exact ⟨hk, ⟨rfl, hseen⟩, .refl _ _⟩
  | take currentHead =>
    obtain ⟨rfl, hne⟩ := hseen
    have hfirst : sh.ring.contents = sh.items := hk.first (not_or_intro (hout rfl) Bool.false_ne_true)
    have hne' := hk.contents_ne_nil hne
    refine ⟨⟨hk.valid.set _ _, ?_, ?_, ?_⟩, ⟨rfl, ?_⟩, ⟨List.length_set, ?_, ?_⟩⟩
    · exact (RingBuffer.size_set ..).trans hk.size
    · rw [hk.valid.tail_contents_set_head hne']
      exact hk.rest
    · intro hnot
      exact absurd (.inr rfl) hnot
    · rw [← hfirst, (hk.valid.store_head hne').2]
      rfl
    · intro hin
      cases hin
    · exact fun _ => ⟨rfl, List.getElem?_set_ne (hk.head_ne_tail hne), Nat.le_refl _⟩
  | popStore currentHead item =>
    obtain ⟨rfl, hitem⟩ := hseen
    have hne : sh.items ≠ [] := by
      intro hnil
      rw [hnil] at hitem
      cases hitem
    obtain ⟨hvalid, hcontents⟩ := hk.valid.store_head (hk.contents_ne_nil hne)
    have hrest : RingBuffer.contents { sh.ring with head := sh.ring.next sh.ring.head } = sh.items.tail := by
      rw [← hk.rest, hcontents]
      rfl
    refine ⟨⟨hvalid, ?_, ?_, fun _ => hrest⟩, trivial, ⟨rfl, ?_, fun _ => ⟨rfl, rfl, ?_⟩⟩⟩
    · rw [← hvalid.length_contents, hrest]
    · rw [hrest]
    · intro hin
      cases hin
    · rw [List.length_tail]
      exact Nat.sub_le _ _
  | _ => exact ⟨⟨hk.valid, hk.size, hk.rest, hk.first⟩, trivial,
    ⟨rfl, fun _ => ⟨rfl, List.prefix_refl _⟩, fun _ => ⟨rfl, rfl, Nat.le_refl _⟩⟩⟩

/-! ## Runs -/

variable [DecidableEq T]

/-- The buffer holds the items, and every thread has seen what it has seen. -/
structure Sound (capacity : Nat) (s : State T α) : Prop where
  kept : Kept capacity s.shared (∃ t, (s.pc t).emptied = true)
  seen : ∀ t, (s.pc t).Seen capacity s.shared

omit [Inhabited α] [DecidableEq T] in
theorem Pc.holdsHead_of_emptied {p : Pc α} (h : p.emptied = true) : p.holdsHead = true := by
  cases p with
  | popStore currentHead item => rfl
  | _ => cases h

/-- By induction it holds in every state. -/
theorem reachable_sound {s : State T α} (hcapacity : capacity + 1 < UInt64.size)
    (h : (system T moved capacity).Reachable s) :
    Sound capacity s := by
  refine h.invariant ?_ ?_
  · rintro s rfl
    refine ⟨⟨RingBuffer.valid_new hcapacity, rfl, rfl, fun _ => rfl⟩, fun t => trivial⟩
  · intro s s' a hr hs hstep
    have hm := reachable_mutexesHeld hr
    obtain ⟨p', sh', hmove, rfl⟩ := step_move hstep
    -- whether another thread has moved an element out
    have hothers : ∀ (q : Pc α), (∃ u, (Function.update s.pc a.thread q u).emptied = true) ↔
        (∃ u, u ≠ a.thread ∧ (s.pc u).emptied = true) ∨ q.emptied = true := by
      intro q
      constructor
      · rintro ⟨u, hu⟩
        by_cases hua : u = a.thread
        · rw [hua, Function.update_self] at hu
          exact .inr hu
        · rw [Function.update_of_ne hua] at hu
          exact .inl ⟨u, hua, hu⟩
      · rintro (⟨u, hua, hu⟩ | hq)
        · exact ⟨u, by rwa [Function.update_of_ne hua]⟩
        · exact ⟨a.thread, by rwa [Function.update_self]⟩
    have hkept := hs.kept
    rw [← Function.update_eq_self a.thread s.pc, hothers] at hkept
    have hout : (s.pc a.thread).holdsHead = true → ¬∃ u, u ≠ a.thread ∧ (s.pc u).emptied = true := by
      rintro hin ⟨u, hu, hemptied⟩
      exact hu (hm.head.unique (Pc.holdsHead_of_emptied hemptied) hin)
    obtain ⟨hkept', hseen', hframe⟩ := hmove.kept hkept hout (hs.seen a.thread)
    rw [← hothers] at hkept'
    refine ⟨hkept', ?_⟩
    intro u
    by_cases hu : u = a.thread
    · rw [hu, State.move_pc_self]
      exact hseen'
    · rw [State.move_pc_of_ne s hu]
      refine (hs.seen u).frame hframe (fun hin => ?_) fun hin => ?_
      · exact Bool.eq_false_iff.mpr fun hin' => hu (hm.head.unique hin hin')
      · exact Bool.eq_false_iff.mpr fun hin' => hu (hm.tail.unique hin hin')

end RingThreads
end HpServer
