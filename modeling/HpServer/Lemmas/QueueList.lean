import HpServer.Lemmas.QueueMoves
import HpServer.Lib.Segment

/-!
# The list under the queue

`Wired` is what the memory looks like between two moves: a segment leads from `head` to `tail` through the nodes of
the values in the queue, and the nodes that some thread owns, because it made them and has not passed `tail` on to
them or moved them out and has not destroyed them, lie apart from it and from each other. `Pc.Seen` is what a thread
may rely on that holds a mutex: the front of the list under `head_mtx`, its end under `tail_mtx`. A mover from outside
a mutex leaves what that mutex guards (`Moved`).
-/

namespace HpServer
namespace ThreadsafeQueue

open Segment

variable {T α : Type}

/-- The value and the successor of a node that has both. -/
def Chain.link (c : Chain α) (a : Nat) : Option (α × Nat) := do
  let n ← c.mem a
  let v ← n.data
  let b ← n.next
  return (v, b)

theorem Chain.link_eq_some {c : Chain α} {a b : Nat} {v : α} :
    c.link a = some (v, b) ↔ c.mem a = some ⟨some v, some b⟩ := by
  rw [Chain.link]
  constructor
  · intro h
    obtain ⟨⟨data, next⟩, hn, h⟩ := Option.bind_eq_some_iff.mp h
    obtain ⟨w, hw, h⟩ := Option.bind_eq_some_iff.mp h
    obtain ⟨d, hd, h⟩ := Option.bind_eq_some_iff.mp h
    cases h
    rw [hn, show data = some v from hw, show next = some b from hd]
  · intro h
    rw [h]
    rfl

@[simp] theorem Chain.mem_store_self (c : Chain α) (x : Nat) (n : Option (Node α)) : (c.store x n).mem x = n :=
  Function.update_self ..

theorem Chain.mem_store_of_ne (c : Chain α) {a x : Nat} (h : a ≠ x) (n : Option (Node α)) :
    (c.store x n).mem a = c.mem a :=
  Function.update_of_ne h ..

theorem Chain.link_store_of_ne (c : Chain α) {a x : Nat} (h : a ≠ x) (n : Option (Node α)) :
    (c.store x n).link a = c.link a := by
  rw [Chain.link, Chain.link, c.mem_store_of_ne h]

/-- The cells are the list from `head` to `tail`, and the nodes that threads own lie apart. -/
structure Wired (c : Chain α) (owned : T → Option Nat) (cells : List (Nat × α)) : Prop where
  path : ∃ a, c.head = some a ∧ Leads c.link a cells c.tail
  nodup : (addresses cells).Nodup
  tail_not_mem : c.tail ∉ addresses cells
  reserve : (c.mem c.tail).isSome = true
  record : c.pushed = c.popped ++ values cells
  made : ∀ t a, owned t = some a → (c.mem a).isSome = true
  apart : ∀ t a, owned t = some a → a ∉ addresses cells ∧ a ≠ c.tail
  sole : ∀ t u a, owned t = some a → owned u = some a → t = u

namespace Wired

variable {c : Chain α} {owned : T → Option Nat} {cells : List (Nat × α)}

theorem contents_eq (h : Wired c owned cells) : c.contents = values cells := by
  rw [Chain.contents, h.record, List.drop_left]

/-- A node in the list is in the memory. -/
theorem isSome_of_mem (h : Wired c owned cells) {x : Nat} (hx : x ∈ addresses cells) : (c.mem x).isSome = true := by
  obtain ⟨a, -, hpath⟩ := h.path
  have hlink := hpath.isSome_of_mem hx
  cases hmem : c.mem x with
  | none => simp [Chain.link, hmem] at hlink
  | some n => rfl

/-- The queue is empty just when `head` is `tail`. -/
theorem nil_iff (h : Wired c owned cells) : cells = [] ↔ c.head = some c.tail := by
  obtain ⟨a, ha, hpath⟩ := h.path
  rw [hpath.nil_iff h.tail_not_mem, ha, Option.some.injEq]

/-- The first node of a queue that is not empty holds the first value and has a successor. -/
theorem front (h : Wired c owned cells) (hne : cells ≠ []) :
    ∃ a v b rest, cells = (a, v) :: rest ∧ c.head = some a ∧ c.mem a = some ⟨some v,
      some b⟩ ∧ Leads c.link b rest c.tail := by
  obtain ⟨a, ha, hpath⟩ := h.path
  cases cells with
  | nil => exact absurd rfl hne
  | cons cell rest =>
    obtain ⟨rfl, b, hlink, hrest⟩ := hpath
    exact ⟨cell.1, cell.2, b, rest, rfl, ha, Chain.link_eq_some.mp hlink, hrest⟩

/-- Fewer nodes owned. -/
theorem mono (h : Wired c owned cells) {owned' : T → Option Nat} (hsub : ∀ t a, owned' t = some a → owned t = some a) :
    Wired c owned' cells :=
  { h with
    made := fun t a ha => h.made t a (hsub t a ha)
    apart := fun t a ha => h.apart t a (hsub t a ha)
    sole := fun t u a ht hu => h.sole t u a (hsub t a ht) (hsub u a hu) }

/-- The list after a change of a node that is not in it. -/
theorem path_store (h : Wired c owned cells) {x : Nat} (hx : x ∉ addresses cells) (n : Option (Node α)) :
    ∃ a, (c.store x n).head = some a ∧ Leads (c.store x n).link a cells (c.store x n).tail := by
  obtain ⟨a, ha, hpath⟩ := h.path
  refine ⟨a, ha, hpath.congr ?_⟩
  intro y hy
  refine c.link_store_of_ne ?_ n
  rintro rfl
  exact hx hy

theorem isSome_store {x y : Nat} (h : (c.mem y).isSome = true) (n : Node α) :
    ((c.store x (some n)).mem y).isSome = true := by
  by_cases hyx : y = x
  · rw [hyx, Chain.mem_store_self]
    rfl
  · rwa [c.mem_store_of_ne hyx]

/-- A write to the reserve. -/
theorem write (h : Wired c owned cells) (n : Node α) : Wired (c.store c.tail (some n)) owned cells :=
  { h with
    path := h.path_store h.tail_not_mem _
    reserve := isSome_store h.reserve n
    made := fun t a ha => isSome_store (h.made t a ha) n }

variable [DecidableEq T]

omit [DecidableEq T] in
/-- An address without a node is nobody's. -/
theorem fresh (h : Wired c owned cells) {x : Nat} (hx : c.mem x = none) :
    x ∉ addresses cells ∧ x ≠ c.tail ∧ ∀ t, owned t ≠ some x := by
  have hnot : ¬(c.mem x).isSome = true := by rw [hx]; exact Bool.false_ne_true
  refine ⟨fun hmem => hnot (h.isSome_of_mem hmem), ?_, fun t ht => hnot (h.made t x ht)⟩
  rintro rfl
  exact hnot h.reserve

/-- One more node is owned, which is in the memory, apart from the list, and nobody else's. -/
theorem own (h : Wired c owned cells) {x : Nat} (t : T) (hmade : (c.mem x).isSome = true) (hlist : x ∉ addresses cells)
    (htail : x ≠ c.tail) (hothers : ∀ u, u ≠ t → owned u ≠ some x) :
    Wired c (Function.update owned t (some x)) cells := by
  have hcases : ∀ u a, Function.update owned t (some x) u = some a → u = t ∧ a = x ∨ u ≠ t ∧ owned u = some a := by
    intro u a hu
    by_cases hut : u = t
    · rw [hut, Function.update_self] at hu
      exact .inl ⟨hut, (Option.some.inj hu).symm⟩
    · rw [Function.update_of_ne hut] at hu
      exact .inr ⟨hut, hu⟩
  refine { h with made := ?_, apart := ?_, sole := ?_ }
  · intro u a hu
    rcases hcases u a hu with ⟨-, rfl⟩ | ⟨-, hu⟩
    · exact hmade
    · exact h.made u a hu
  · intro u a hu
    rcases hcases u a hu with ⟨-, rfl⟩ | ⟨-, hu⟩
    · exact ⟨hlist, htail⟩
    · exact h.apart u a hu
  · intro u w a hu hw
    rcases hcases u a hu with ⟨hut, hax⟩ | ⟨hut, hu'⟩
    · rcases hcases w a hw with ⟨hwt, -⟩ | ⟨hwt, hw'⟩
      · exact hut.trans hwt.symm
      · exact absurd (hax ▸ hw') (hothers w hwt)
    · rcases hcases w a hw with ⟨-, hax⟩ | ⟨-, hw'⟩
      · exact absurd (hax ▸ hu') (hothers u hut)
      · exact h.sole u w a hu' hw'

/-- A node is made where there was none. -/
theorem make (h : Wired c owned cells) {x : Nat} (t : T) (hx : c.mem x = none) (n : Node α) :
    Wired (c.store x (some n)) (Function.update owned t (some x)) cells := by
  obtain ⟨hlist, htail, hothers⟩ := h.fresh hx
  have hstored : Wired (c.store x (some n)) owned cells :=
    { h with
      path := h.path_store hlist _
      reserve := isSome_store h.reserve n
      made := fun u a ha => isSome_store (h.made u a ha) n }
  refine hstored.own t ?_ hlist htail fun u _ => hothers u
  rw [Chain.mem_store_self]
  rfl

/-- What the others own when one thread owns nothing any more. -/
theorem released {t u : T} {b : Nat} (h : Function.update owned t none u = some b) : u ≠ t ∧ owned u = some b := by
  by_cases hut : u = t
  · rw [hut, Function.update_self] at h
    cases h
  · rw [Function.update_of_ne hut] at h
    exact ⟨hut, h⟩

/-- `tail` moves on to the node that its successor is. -/
theorem advance (h : Wired c owned cells) {t : T} {x : Nat} {v : α} (hx : owned t = some x)
    (htail : c.mem c.tail = some ⟨some v, some x⟩) :
    Wired { c with tail := x, pushed := c.pushed ++ [v] } (Function.update owned t none) (cells ++ [(c.tail, v)]) := by
  obtain ⟨a, ha, hpath⟩ := h.path
  obtain ⟨hlist, hne⟩ := h.apart t x hx
  have hcells : addresses (cells ++ [(c.tail, v)]) = addresses cells ++ [c.tail] := addresses_append ..
  refine ⟨⟨a, ha, hpath.snoc (Chain.link_eq_some.mpr htail)⟩, ?_, ?_, h.made t x hx, ?_, ?_, ?_, ?_⟩
  · rw [hcells, List.nodup_append_comm]
    exact List.nodup_cons.mpr ⟨h.tail_not_mem, h.nodup⟩
  · rw [hcells, List.mem_append, List.mem_singleton, not_or]
    exact ⟨hlist, hne⟩
  · rw [values_append, ← List.append_assoc, ← h.record]
    rfl
  · intro u b hu
    exact h.made u b (released hu).2
  · intro u b hu
    obtain ⟨hut, hub⟩ := released hu
    obtain ⟨hb, hbt⟩ := h.apart u b hub
    rw [hcells, List.mem_append, List.mem_singleton, not_or]
    refine ⟨⟨hb, hbt⟩, ?_⟩
    rintro rfl
    exact hut (h.sole u t b hub hx)
  · intro u w b hu hw
    exact h.sole u w b (released hu).2 (released hw).2

/-- The first node is moved out of the list. -/
theorem take {x b : Nat} {v : α} {rest : List (Nat × α)} (h : Wired c owned ((x, v) :: rest)) (t : T)
    (hrest : Leads c.link b rest c.tail) (n : Node α) :
    Wired { c.store x (some n) with head := some b, popped := c.popped ++ [v] }
      (Function.update owned t (some x)) rest := by
  obtain ⟨hx, hnodup⟩ := List.nodup_cons.mp h.nodup
  have htail : x ≠ c.tail := fun heq => h.tail_not_mem (heq ▸ List.mem_cons_self)
  have hwired : Wired { c.store x (some n) with head := some b, popped := c.popped ++ [v] } owned rest := by
    refine ⟨⟨b, rfl, hrest.congr ?_⟩, hnodup, ?_, isSome_store h.reserve n, ?_, ?_, ?_, h.sole⟩
    · intro y hy
      refine c.link_store_of_ne ?_ (some n)
      rintro rfl
      exact hx hy
    · exact fun hmem => h.tail_not_mem (List.mem_cons_of_mem _ hmem)
    · exact h.record.trans (List.append_assoc c.popped [v] (values rest)).symm
    · intro u a ha
      exact isSome_store (h.made u a ha) n
    · intro u a ha
      obtain ⟨hlist, hne⟩ := h.apart u a ha
      exact ⟨fun hmem => hlist (List.mem_cons_of_mem _ hmem), hne⟩
  refine hwired.own t ?_ hx htail ?_
  · exact congrArg Option.isSome (c.mem_store_self x (some n))
  · intro u _ hu
    exact (h.apart u x hu).1 List.mem_cons_self

/-- A node that a thread owns is destroyed. -/
theorem free (h : Wired c owned cells) {t : T} {x : Nat} (hx : owned t = some x) :
    Wired (c.store x none) (Function.update owned t none) cells := by
  obtain ⟨hlist, htail⟩ := h.apart t x hx
  refine { h with path := h.path_store hlist none, reserve := ?_, made := ?_, apart := ?_, sole := ?_ }
  · exact (congrArg Option.isSome (c.mem_store_of_ne htail.symm none)).trans h.reserve
  · intro u b hu
    obtain ⟨hut, hub⟩ := released hu
    have hbx : b ≠ x := by
      rintro rfl
      exact hut (h.sole u t b hub hx)
    rw [c.mem_store_of_ne hbx]
    exact h.made u b hub
  · intro u b hu
    exact h.apart u b (released hu).2
  · intro u w b hu hw
    exact h.sole u w b (released hu).2 (released hw).2

end Wired

/-! ## What a thread may rely on -/

/-- The node a thread owns: the new one of a `push` until `tail` has moved on to it, the old one of a pop until it is
destroyed. -/
def Pc.owned : Pc α → Option Nat
  | .pushLock _ a | .pushData _ a | .pushNext _ a | .pushTail _ a | .popUnlock _ a | .popFree _ a => some a
  | _ => none

/-- What a thread has seen or written of the list and no other thread changes while it holds its mutex. -/
def Pc.Seen (c : Chain α) (cells : List (Nat × α)) : Pc α → Prop
  | .tailUnlock _ seen held => (held = [] ↔ c.head = some seen) ∧ (held ≠ [] → cells ≠ [])
  | .popData _ => cells ≠ []
  | .popHead _ v => (values cells).head? = some v
  | .tryRefuse held => held = []
  | .pushNext v _ => ∃ next, c.mem c.tail = some ⟨some v, next⟩
  | .pushTail v a => c.mem c.tail = some ⟨some v, some a⟩
  | _ => True

/-- What a mover leaves: what it has seen itself, the front of the list if it is outside `head_mtx`, and its end if it
is outside `tail_mtx`. -/
structure Moved (p : Pc α) (c : Chain α) (cells : List (Nat × α)) (p' : Pc α) (c' : Chain α)
    (cells' : List (Nat × α)) : Prop where
  own : p'.Seen c' cells'
  front : p.holdsHead = false → c'.head = c.head ∧ cells <+: cells'
  back : p.holdsTail = false → c'.tail = c.tail ∧ c'.mem c.tail = c.mem c.tail

/-- A thread that the mover leaves its part of the list to has seen what it has seen. -/
theorem Pc.Seen.frame {c c' : Chain α} {cells cells' : List (Nat × α)} {p : Pc α} (h : p.Seen c cells)
    (hfront : p.holdsHead = true → c'.head = c.head ∧ cells <+: cells')
    (hback : p.holdsTail = true → c'.tail = c.tail ∧ c'.mem c.tail = c.mem c.tail) : p.Seen c' cells' := by
  cases p with
  | tailUnlock caller seen held =>
    obtain ⟨hhead, hcells⟩ := hfront rfl
    obtain ⟨hiff, hne⟩ := h
    refine ⟨hhead ▸ hiff, fun hheld hnil => hne hheld ?_⟩
    exact List.prefix_nil.mp (hnil ▸ hcells)
  | popData caller =>
    intro hnil
    exact h (List.prefix_nil.mp (hnil ▸ (hfront rfl).2))
  | popHead caller v =>
    obtain ⟨-, new, rfl⟩ := hfront rfl
    rw [Pc.Seen, values_append, List.head?_append, show (values cells).head? = some v from h]
    rfl
  | tryRefuse held => exact h
  | pushNext v a =>
    obtain ⟨htail, hmem⟩ := hback rfl
    rw [Pc.Seen, htail, hmem]
    exact h
  | pushTail v a =>
    obtain ⟨htail, hmem⟩ := hback rfl
    rw [Pc.Seen, htail, hmem]
    exact h
  | _ => trivial

/-- A move that leaves the list as it is. -/
theorem Moved.same {p p' : Pc α} {c : Chain α} {cells : List (Nat × α)} (h : p'.Seen c cells) :
    Moved p c cells p' c cells :=
  ⟨h, fun _ => ⟨rfl, List.prefix_refl _⟩, fun _ => ⟨rfl, rfl⟩⟩

variable [DecidableEq T]

/-- The mover owns what it owned. -/
theorem Wired.keep {c : Chain α} {owned : T → Option Nat} {cells : List (Nat × α)} {t : T} {p p' : Pc α}
    (h : Wired c owned cells)
    (howned : owned t = p.owned) (hsame : p'.owned = p.owned) : Wired c (Function.update owned t p'.owned) cells := by
  rwa [hsame, ← howned, Function.update_eq_self]

/-- What a move does to the list. -/
theorem Move.wired {t : T} {sh sh' : Shared T α} {p p' : Pc α} {owned : T → Option Nat} {cells : List (Nat × α)}
    (h : Move t sh p sh' p') (hw : Wired sh.toChain owned cells) (howned : owned t = p.owned)
    (hseen : p.Seen sh.toChain cells) :
    ∃ cells', Wired sh'.toChain (Function.update owned t p'.owned) cells' ∧
      Moved p sh.toChain cells p' sh'.toChain cells' := by
  cases h with
  | call op =>
    refine ⟨cells, hw.keep howned ?_, .same ?_⟩
    · cases op <;> rfl
    · cases op <;> trivial
  | make v hfree =>
    refine ⟨cells, hw.make t hfree _, trivial, fun _ => ⟨rfl, List.prefix_refl _⟩, fun _ => ⟨rfl, ?_⟩⟩
    exact Chain.mem_store_of_ne _ (hw.fresh hfree).2.1.symm _
  | setData v a hn =>
    refine ⟨cells, (hw.write _).keep howned rfl, ⟨_, Chain.mem_store_self ..⟩, fun _ => ⟨rfl, List.prefix_refl _⟩, ?_⟩
    intro hout
    cases hout
  | setNext v a hn =>
    obtain ⟨next, htail⟩ := hseen
    cases htail.symm.trans hn
    refine ⟨cells, (hw.write _).keep howned rfl, Chain.mem_store_self .., fun _ => ⟨rfl, List.prefix_refl _⟩, ?_⟩
    intro hout
    cases hout
  | setTail v a =>
    refine ⟨_, hw.advance howned hseen, trivial, fun _ => ⟨rfl, List.prefix_append _ _⟩, ?_⟩
    intro hout
    cases hout
  | tailRead c =>
    refine ⟨cells, hw.keep howned rfl, .same ⟨?_, ?_⟩⟩
    · rw [hw.contents_eq, values_eq_nil]
      exact hw.nil_iff
    · rw [hw.contents_eq, Ne, values_eq_nil]
      exact id
  | foundEmpty c held hhead =>
    refine ⟨cells, hw.keep howned ?_, .same ?_⟩
    · cases c <;> rfl
    · cases c with
      | tryPop => exact hseen.1.mpr hhead
      | waitPop | empty => trivial
  | foundData c held hhead =>
    have hne : cells ≠ [] := hseen.2 fun hnil => hhead (hseen.1.mp hnil)
    refine ⟨cells, hw.keep howned ?_, .same ?_⟩
    · cases c <;> rfl
    · cases c with
      | tryPop | waitPop => exact hne
      | empty => trivial
  | popData c ha hn hv =>
    obtain ⟨a, v, b, rest, rfl, ha', hmem, -⟩ := hw.front hseen
    cases ha'.symm.trans ha
    cases hmem.symm.trans hn
    exact ⟨_, hw.keep howned rfl, .same hv⟩
  | popHead c v ha hn =>
    have hne : cells ≠ [] := by
      rintro rfl
      cases hseen
    obtain ⟨a, w, b, rest, rfl, ha', hmem, hrest⟩ := hw.front hne
    cases ha'.symm.trans ha
    cases hmem.symm.trans hn
    cases hseen
    refine ⟨rest, hw.take t hrest _, trivial, ?_, fun _ => ⟨rfl, ?_⟩⟩
    · intro hout
      cases hout
    · refine Chain.mem_store_of_ne _ ?_ _
      intro heq
      rw [← heq] at hw
      exact hw.tail_not_mem List.mem_cons_self
  | popFree c a =>
    refine ⟨cells, hw.free howned, trivial, fun _ => ⟨rfl, List.prefix_refl _⟩, fun _ => ⟨rfl, ?_⟩⟩
    exact Chain.mem_store_of_ne _ (hw.apart t a howned).2.symm _
  | _ => exact ⟨cells, hw.keep howned rfl, .same trivial⟩

/-! ## Runs -/

/-- The list is wired, and every thread has seen what it has seen. -/
def Sound (s : State T α) : Prop :=
  ∃ cells, Wired s.shared.toChain (fun t => (s.pc t).owned) cells ∧ ∀ t, (s.pc t).Seen s.shared.toChain cells

theorem step_sound [Fintype T] {s s' : State T α} {a : Act T α} (hm : MutexesHeld s) (hs : Sound s)
    (h : (system T α).step s a = some s') : Sound s' := by
  obtain ⟨cells, hw, hseen⟩ := hs
  rcases step_cases h with ⟨p', sh', hmove, rfl⟩ | ⟨waiter, pc, -, -, hmarks, rfl⟩
  · obtain ⟨cells', hw', hmoved⟩ := hmove.wired hw rfl (hseen a.thread)
    refine ⟨cells', ?_, ?_⟩
    · have hpc : (fun u => ((s.move a.thread (p', sh')).pc u).owned) =
          Function.update (fun u => (s.pc u).owned) a.thread p'.owned := by
        funext u
        exact Function.apply_update (fun _ => Pc.owned) s.pc a.thread p' u
      rw [hpc]
      exact hw'
    · intro u
      by_cases hu : u = a.thread
      · subst hu
        rw [State.move_pc_self]
        exact hmoved.own
      · rw [State.move_pc_of_ne s hu]
        -- the mover is outside the mutexes that this thread holds
        refine (hseen u).frame (fun hin => hmoved.front ?_) fun hin => hmoved.back ?_
        · exact Bool.eq_false_iff.mpr fun hin' => hu (hm.head.unique hin hin')
        · exact Bool.eq_false_iff.mpr fun hin' => hu (hm.tail.unique hin hin')
  · refine ⟨cells, hw.mono ?_, ?_⟩
    · intro u b
      refine notified (Q := fun p => p.owned = some b → (s.pc u).owned = some b) hmarks a.thread u id ?_ ?_
      · intro hidle
        cases hidle
      · intro hwake
        cases hwake
    · intro u
      exact notified (Q := Pc.Seen s.shared.toChain cells) hmarks a.thread u (hseen u) trivial trivial

theorem reachable_sound [Fintype T] {s : State T α} (h : (system T α).Reachable s) : Sound s := by
  refine h.invariant ?_ fun s t a hr hs hstep => step_sound (reachable_mutexesHeld hr) hs hstep
  rintro s rfl
  refine ⟨[], ⟨⟨0, rfl, rfl⟩, List.nodup_nil, List.not_mem_nil, rfl, rfl, ?_, ?_, ?_⟩, fun t => trivial⟩
  · intro t a ha
    cases ha
  · intro t a ha
    cases ha
  · intro t u a ha
    cases ha

end ThreadsafeQueue
end HpServer
