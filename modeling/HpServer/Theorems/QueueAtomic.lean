import HpServer.Lemmas.QueueList
import HpServer.Lib.Atomic

/-!
# The queue is an atomic object

Every call of `push`, `try_pop`, `wait_pop` and `empty` has its effect at one moment between its begin and its end: a
`push` when it moves `tail`, a pop when it moves `head`, and a `try_pop` that refuses, as well as `empty`, when it
reads `tail`. Seen so, the threads with their two mutexes, nodes and pointers do what threads do that share a list
(`queue_is_atomic`). It is what lets the pool and the server treat the operations of their queues as single steps.
-/

namespace HpServer
namespace ThreadsafeQueue

open Segment

variable {T α : Type}

/-- What a call answers. -/
inductive Answer (α : Type) where
  | pushed
  | popped (v : Option α)
  | isEmpty (answer : Bool)
  deriving DecidableEq, Repr

/-- The operations on a list of values; `wait_pop` waits for one. -/
def applyOp (items : List α) : Op α → Option (List α × Answer α)
  | .push v => some (items ++ [v], .pushed)
  | .look .tryPop =>
    match items with
    | [] => some ([], .popped none)
    | v :: rest => some (rest, .popped (some v))
  | .look .waitPop =>
    match items with
    | [] => none
    | v :: rest => some (rest, .popped (some v))
  | .look .empty => some (items, .isEmpty items.isEmpty)

/-- Where a thread is with its call; `got` is the value it has popped last. -/
def Pc.stage (got : Option α) : Pc α → Atomic.Stage (Op α) (Answer α)
  | .idle => .idle
  | .pushMake v | .pushLock v _ | .pushData v _ | .pushNext v _ | .pushTail v _ => .calling (.push v)
  | .pushUnlock | .pushNotify => .returning .pushed
  | .headLock c | .tailLock c | .tailRead c | .popData c | .popHead c _ => .calling (.look c)
  | .tailUnlock .tryPop _ [] => .returning (.popped none)
  | .tailUnlock .empty _ held => .returning (.isEmpty held.isEmpty)
  | .tailUnlock c _ _ => .calling (.look c)
  | .popUnlock _ _ | .popFree _ _ => .returning (.popped got)
  | .tryRefuse _ => .returning (.popped none)
  | .emptyUnlock answer => .returning (.isEmpty answer)
  | .waitSleep | .waitAsleep _ => .calling (.look .waitPop)

/-- The value a thread has popped last, once it has made its next move: `pop_head` hands one over. -/
def Pc.handed (got : Option α) : Pc α → Option α
  | .popHead _ v => some v
  | _ => got

/-- The values the threads have popped last, after an action. -/
def handOver [DecidableEq T] (s : State T α) (a : Act T α) (got : T → Option α) : T → Option α :=
  Function.update got a.thread ((s.pc a.thread).handed (got a.thread))

/-- The atomic queue that a state stands for. -/
def atomicQueue (p : State T α × (T → Option α)) : Atomic.State T (List α) (Op α) (Answer α) where
  object := p.1.shared.contents
  stage t := (p.1.pc t).stage (p.2 t)

/-- A pop is one of `try_pop` or `wait_pop`. -/
def Pc.Pops : Pc α → Prop
  | .popData c | .popHead c _ => c ≠ .empty
  | _ => True

variable [DecidableEq T]

omit [DecidableEq T] in
theorem Move.pops {t : T} {sh sh' : Shared T α} {p p' : Pc α} (h : Move t sh p sh' p') (hp : p.Pops) : p'.Pops := by
  cases h with
  | call op => cases op <;> trivial
  | foundEmpty c held hhead => cases c <;> trivial
  | foundData c held hhead => cases c <;> simp [Caller.onData, Pc.Pops]
  | popData c => exact hp
  | _ => trivial

theorem reachable_pops [Fintype T] {s : State T α} (h : (system T α).Reachable s) (t : T) : (s.pc t).Pops := by
  refine h.invariant (I := fun s => ∀ t, (s.pc t).Pops) ?_ ?_ t
  · rintro s rfl t
    trivial
  · intro s s' a _ hs hstep t
    rcases step_cases hstep with ⟨p', sh', hmove, rfl⟩ | ⟨waiter, pc, -, -, hmarks, rfl⟩
    · by_cases ht : t = a.thread
      · subst ht
        rw [State.move_pc_self]
        exact hmove.pops (hs _)
      · rw [State.move_pc_of_ne s ht]
        exact hs t
    · exact notified (Q := Pc.Pops) hmarks a.thread t (hs t) trivial trivial

omit [DecidableEq T] in
/-- A move is a step of the atomic queue, or none. -/
theorem Move.progress {t : T} {sh sh' : Shared T α} {p p' : Pc α} {owned : T → Option Nat} {cells : List (Nat × α)}
    (h : Move t sh p sh' p') (hw : Wired sh.toChain owned cells) (hseen : p.Seen sh.toChain cells) (hpops : p.Pops)
    (got : Option α) :
    Atomic.Progress applyOp sh.contents (p.stage got) sh'.contents (p'.stage (p.handed got)) := by
  cases h with
  | call op => cases op <;> exact .call _
  | setTail v a =>
    have hle : sh.popped.length ≤ sh.pushed.length := by
      rw [hw.record, List.length_append]
      exact Nat.le_add_right _ _
    have hcontents : ({ sh with tail := a, pushed := sh.pushed ++ [v] } : Shared T α).contents = sh.contents ++ [v] :=
      List.drop_append_of_le_length hle
    exact .effect (congrArg (fun items => some (items, Answer.pushed)) hcontents.symm)
  | tailRead c =>
    cases c with
    | tryPop =>
      cases hcontents : sh.contents with
      | nil => exact .effect rfl
      | cons v rest => exact .stutter _
    | waitPop => cases hcontents : sh.contents <;> exact .stutter _
    | empty => exact .effect rfl
  | foundEmpty c held hhead =>
    obtain rfl : held = [] := hseen.1.mpr hhead
    cases c <;> exact .stutter _
  | foundData c held hhead =>
    cases held with
    | nil => exact absurd (hseen.1.mp rfl) hhead
    | cons v rest => cases c <;> exact .stutter _
  | popHead c v ha hn =>
    have hfront : sh.contents.head? = some v := hw.contents_eq ▸ hseen
    obtain ⟨rest, hcontents⟩ := List.head?_eq_some_iff.mp hfront
    have hrest : sh.pushed.drop (sh.popped ++ [v]).length = rest := by
      rw [List.length_append, List.length_singleton, ← List.drop_drop]
      exact congrArg (List.drop 1) hcontents
    cases c with
    | empty => exact absurd rfl hpops
    | tryPop | waitPop =>
      refine .effect ?_
      rw [hcontents]
      exact congrArg (fun items => some (items, Answer.popped (some v))) hrest.symm
  | popUnlock c a => exact .stutter _
  | popFree c a => exact .ret _
  | tryRefuse held => exact .ret _
  | emptyUnlock answer => exact .ret _
  | _ => exact .stutter _

variable [Fintype T]

/-- A notification leaves every thread where it is with its call. -/
theorem stage_of_marks {pc pc' : T → Pc α} {waiter : Option T} (h : State.marks pc waiter = some pc') (u : T)
    (got : Option α) :
    (pc' u).stage got = (pc u).stage got := by
  cases waiter with
  | none =>
    obtain ⟨-, heq⟩ := Option.ite_none_right_eq_some.mp h
    cases heq
    rfl
  | some w =>
    obtain ⟨hasleep, heq⟩ := Option.ite_none_right_eq_some.mp h
    cases heq
    by_cases huw : u = w
    · rw [huw, Function.update_self, Pc.eq_of_asleep hasleep]
      rfl
    · rw [Function.update_of_ne huw]

/-- Threads that use the queue do what threads do that share a list, whatever their number and however their
operations interleave. -/
theorem queue_is_atomic :
    ((system T α).withRecord (fun _ => none) handOver).Refines (fun _ _ => True)
      (Atomic.system applyOp T []) atomicQueue where
  init := by
    rintro ⟨s, got⟩ ⟨rfl, rfl⟩
    rfl
  step := by
    rintro ⟨s, got⟩ q a hr - hstep
    obtain ⟨s', hs', rfl⟩ := Option.map_eq_some_iff.mp hstep
    have hreach : (system T α).Reachable s := Lts.Reachable.of_withRecord hr
    obtain ⟨cells, hw, hseen⟩ := reachable_sound hreach
    have hgot : ∀ u, u ≠ a.thread → handOver s a got u = got u := fun u hu => Function.update_of_ne hu ..
    rcases step_cases hs' with ⟨p', sh', hmove, rfl⟩ | ⟨waiter, pc, -, hpc, hmarks, rfl⟩
    · refine Atomic.step_of_progress a.thread ?_ ?_
      · have hprogress := hmove.progress hw (hseen a.thread) (reachable_pops hreach a.thread) (got a.thread)
        simpa only [atomicQueue, State.move, handOver, Function.update_self] using hprogress
      · intro u hu
        simp only [atomicQueue, State.move_pc_of_ne s hu, hgot u hu]
    · refine Atomic.step_of_progress a.thread ?_ ?_
      · have hstage : (s.pc a.thread).stage (got a.thread) = .returning .pushed := by rw [hpc]; rfl
        simp only [atomicQueue, hstage, Function.update_self]
        exact .ret _
      · intro u hu
        simp only [atomicQueue, Function.update_of_ne hu, hgot u hu]
        exact stage_of_marks hmarks u _

end ThreadsafeQueue
end HpServer
