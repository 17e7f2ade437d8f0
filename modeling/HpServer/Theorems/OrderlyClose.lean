import HpServer.Lemmas.OrderlyProgress

/-!
# The close of a tunnel between orderly peers

Both peers send their bytes and close. The relay delivers everything and returns true exactly when no poll reports
while one of the two sockets has both directions shut: such a poll reports `POLLHUP`, which the loop takes for a reset
before it reads.
-/

namespace HpServer
namespace Tunnel

open Errno

namespace CloseAux

/-- The loop ends with false exactly at a poll that reports a socket with both directions shut. -/
theorem poll_hangup {a : Args} {cap : Nat} {s s' : Net} {client upstream : PollMask} {ans : Answer}
    (hpc : s.tunnel.pc = .poll client upstream) (h : s.step a cap (.call ans) = some s') :
    s'.tunnel.pc = .returned false ↔ ¬s.NoHangup (.call ans) := by
  obtain ⟨t, hk, hmap⟩ := Option.bind_eq_some_iff.mp h
  obtain ⟨u, hu, rfl⟩ := Option.map_eq_some_iff.mp hmap
  simp only [Net.kernel, hpc] at hk
  simp only [State.step, hpc] at hu
  unfold Net.kernelPoll at hk
  split at hk
  · split at hk <;> cases hk
    rename_i hr
    obtain ⟨rfl, rfl⟩ := hr
    simp only [State.stepPoll] at hu
    split at hu
    · split at hu <;> cases hu
      · rename_i hw
        simp only [Net.NoHangup, State.fail, true_iff, not_forall, Bool.not_eq_false]
        exact (Net.reports_hangup ..).mp hw
      · rename_i hw
        simp only [Net.NoHangup, State.goto, reduceCtorEq, false_iff, not_not]
        intro w
        by_contra hne
        exact hw ((Net.reports_hangup ..).mpr ⟨w, by simpa using hne⟩)
    · cases hu
  · split at hk
    · rename_i e he
      simp only [State.stepPoll, if_pos he] at hu
      cases hu
      simp [Net.NoHangup, State.loop]
    · cases hk
  · cases hk

/-- Nowhere else does the relay between orderly peers give up. -/
theorem not_returned_of_called {cap : Nat} {s s' : Net} (h : Called cap s s') (hpc : s.tunnel.pc ≠ .returned false)
    (hpoll : ∀ client upstream, s.tunnel.pc ≠ .poll client upstream) : s'.tunnel.pc ≠ .returned false := by
  cases h with
  | control hc _ _ _ =>
    generalize hp' : s'.tunnel.pc = p' at hc
    generalize hp : s.tunnel.pc = p at hc hpc hpoll
    cases hc with
    | blocked w => cases w <;> nofun
    | notDue w => cases w <;> nofun
    | drained w => cases w <;> nofun
    | skipped w => cases w <;> nofun
    | hangup client upstream => exact absurd rfl (hpoll client upstream)
    | _ => nofun
  | interrupt hp _ _ _ =>
    rcases hp with hp | hp <;> rw [hp]
    · exact hpc
    · nofun
  | send w n _ hp => rw [hp]; nofun
  | clear w _ hp => rw [hp]; cases w <;> nofun
  | shut w _ hp => rw [hp]; cases w <;> nofun
  | data w client upstream bytes _ hp => rw [hp]; nofun
  | ended w client upstream _ hp => rw [hp]; cases w <;> nofun

/-- The loop ends with false exactly at a step that does not meet the condition. -/
theorem step_hangup {a : Args} {cap : Nat} {script : Way → Bytes} {s s' : Net} {act : NetAct} (ho : NetOk script s)
    (hpc : s.tunnel.pc ≠ .returned false) (h : s.step a cap act = some s') :
    s'.tunnel.pc = .returned false ↔ ¬s.NoHangup act := by
  cases act with
  | call ans =>
    by_cases hpoll : ∃ client upstream, s.tunnel.pc = .poll client upstream
    · obtain ⟨client, upstream, hp⟩ := hpoll
      exact poll_hangup hp h
    · have hne : ∀ client upstream, s.tunnel.pc ≠ .poll client upstream :=
        fun client upstream hp => hpoll ⟨client, upstream, hp⟩
      have hgo : s.NoHangup (.call ans) := by
        unfold Net.NoHangup
        split
        · rename_i heq
          cases heq
          obtain ⟨t, hk, -⟩ := Option.bind_eq_some_iff.mp h
          unfold Net.kernel at hk
          split at hk
          case h_5 => exact absurd ‹_› (hne _ _)
          all_goals cases hk
        · trivial
      have hret := not_returned_of_called (call_called ho.tunnel.pc h) hpc hne
      exact ⟨fun hc => absurd hc hret, fun hc => absurd hgo hc⟩
  | _ =>
    simp only [Net.step] at h
    split at h <;> cases h
    exact ⟨fun hc => absurd hc hpc, fun hc => absurd trivial hc⟩

/-- A relay that has given up does nothing more. -/
theorem step_returned {a : Args} {cap : Nat} {s s' : Net} {act : NetAct} {ok : Bool} (hpc : s.tunnel.pc = .returned ok)
    (h : s.step a cap act = some s') : s'.tunnel.pc = .returned ok := by
  rcases step_cases h with ⟨ans, rfl⟩ | ⟨w, k, hk, rfl⟩
  · obtain ⟨t, hk, -⟩ := Option.bind_eq_some_iff.mp h
    simp [Net.kernel, hpc] at hk
  · exact hpc

section
variable {a : Args} {cap : Nat} {script : Way → Bytes}

/-- A run meets the condition throughout unless the relay gave up. -/
theorem path_or_returned {s t : Net} {acts : List NetAct} (h : (net a cap script).Path (fun _ _ => True) s acts t)
    (ho : NetOk script s) (hpc : s.tunnel.pc ≠ .returned false) :
    (net a cap script).Path Net.NoHangup s acts t ∨ t.tunnel.pc = .returned false := by
  induction h with
  | nil s => exact .inl (.nil s)
  | @cons s u t act acts _ hst hrest ih =>
    by_cases hgo : s.NoHangup act
    · have hu : u.tunnel.pc ≠ .returned false := fun hc => (step_hangup ho hpc hst).mp hc hgo
      rcases ih (step_netOk ho hst) hu with hp | hret
      · exact .inl (.cons hgo hst hp)
      · exact .inr hret
    · have hu : u.tunnel.pc = .returned false := (step_hangup ho hpc hst).mpr hgo
      exact .inr (hrest.invariant (I := fun v => v.tunnel.pc = .returned false)
        (fun _ _ _ hv _ hs => step_returned hv hs) hu)

/-- In a run that meets the condition the relay does not give up. -/
theorem not_returned_of_path {s t : Net} {acts : List NetAct} (h : (net a cap script).Path Net.NoHangup s acts t)
    (ho : NetOk script s) (hpc : s.tunnel.pc ≠ .returned false) : t.tunnel.pc ≠ .returned false := by
  have hinv : NetOk script t ∧ t.tunnel.pc ≠ .returned false := by
    refine h.invariant (I := fun v => NetOk script v ∧ v.tunnel.pc ≠ .returned false) ?_ ⟨ho, hpc⟩
    rintro u v act ⟨hu, hup⟩ hgo hst
    exact ⟨step_netOk hu hst, fun hc => (step_hangup hu hup hst).mp hc hgo⟩
  exact hinv.2

/-- When nothing more can happen after a return with success, each peer has read all that the other sent. -/
theorem delivered_of_returned {s : Net} (ho : NetOk script s) (hpc : s.tunnel.pc = .returned true)
    (hend : ∀ act, s.step a cap act = none) (w : Way) : (s.sock w.other).delivered = script w := by
  have hdone := ho.tunnel.pc
  simp only [PcOk, hpc] at hdone
  have hc := (hdone w).1
  simp only [Dir.complete, Bool.and_eq_true, List.isEmpty_iff] at hc
  have hread : (s.sock w).finRead = true := (ho.source w).eof.symm.trans hc.1
  obtain ⟨hfin, hun⟩ := (ho.source w).finRead hread
  have hcome := (ho.source w).fin hfin
  have hqueue : (s.sock w.other).queued = [] := by
    by_contra hq
    have hstep := hend (.drain w.other 1)
    rw [Net.step, if_pos ⟨Nat.one_pos, List.length_pos_of_ne_nil hq⟩] at hstep
    cases hstep
  have hflow := ho.flow w
  unfold Net.flow Net.dest Sock.taken Dir.unsent at hflow
  rw [hqueue, hun, hcome, hc.2] at hflow
  simpa using hflow

end

end CloseAux

/-- Every run of the relay between two peers that send `script` and close is finite, and when nothing more can happen,
the function has returned true and each peer has read all the other sent if and only if no poll of the run reported
while one of the sockets had both directions shut. -/
theorem orderly_close (a : Args) (cap : Nat) (hcap : 0 < cap) (script : Way → Bytes) (errno signals : Nat)
    (acts : List NetAct) (s : Net)
    (h : (net a cap script).Path (fun _ _ => True) (Net.start errno script signals) acts s) :
    acts.length ≤ (Net.start errno script signals).budget cap ∧
      ((∀ act, s.step a cap act = none) →
        ((s.tunnel.pc = .returned true ∧ ∀ w, (s.sock w.other).delivered = script w) ↔
          (net a cap script).Path Net.NoHangup (Net.start errno script signals) acts s)) := by
  have hstart := netOk_start errno script signals
  have hpc : (Net.start errno script signals).tunnel.pc ≠ .returned false := nofun
  have ho : NetOk script s := h.invariant (I := NetOk script) (fun _ _ _ hs _ hst => step_netOk hs hst) hstart
  constructor
  · exact h.length_le (I := NetOk script) (Net.budget cap)
      (fun _ _ _ hs _ hst => ⟨step_netOk hs hst, step_budget_lt hs hst⟩) hstart
  · intro hend
    constructor
    · rintro ⟨hret, -⟩
      rcases CloseAux.path_or_returned h hstart hpc with hp | hf
      · exact hp
      · rw [hret] at hf
        cases hf
    · intro hp
      have hnot := CloseAux.not_returned_of_path hp hstart hpc
      have hret : s.tunnel.pc = .returned true := by
        by_contra hne
        have hall : ∀ ok, s.tunnel.pc ≠ .returned ok := by
          intro ok
          cases ok with
          | false => exact hnot
          | true => exact hne
        obtain ⟨act, s', hst⟩ := exists_step (a := a) hcap ho hall
        rw [hend act] at hst
        cases hst
      exact ⟨hret, CloseAux.delivered_of_returned ho hret hend⟩

/-- One byte from the client, and another from upstream. -/
def oneByte : Way → Bytes
  | .c2u => [1]
  | .u2c => [2]

/-- A turn of the loop from its head to its poll, with nothing to send. -/
def idleTurn : List NetAct := List.replicate 6 (.call .compute)

/-- Both peers have sent and closed before the first poll. -/
def closeTogether : List NetAct :=
  List.flatten [[.arrive .c2u 1, .finish .c2u, .arrive .u2c 1, .finish .u2c], idleTurn,
    [.call (.polled 1 1), .call (.data [1]), .call .zero, .call (.data [2]), .call .zero],
    [.call (.sent 1), .call .compute, .call (.sent 1), .call .compute, .call .compute, .call .compute, .call .compute],
    [.drain .u2c 1, .drain .c2u 1]]

/-- The client sends and closes; upstream answers and closes after the relay has passed the close on. -/
def closeInTurn : List NetAct :=
  List.flatten [[.arrive .c2u 1, .finish .c2u], idleTurn,
    [.call (.polled 1 0), .call (.data [1]), .call .zero, .call .compute, .call (.sent 1)], idleTurn,
    [.arrive .u2c 1, .finish .u2c, .call (.polled 0 0x11)]]

theorem CloseAux.forall_way {p : Way → Prop} : (∀ w, p w) ↔ p .c2u ∧ p .u2c := by
  constructor
  · intro h
    exact ⟨h .c2u, h .u2c⟩
  · rintro ⟨hc, hu⟩ w
    cases w with
    | c2u => exact hc
    | u2c => exact hu

instance (s : Net) : (act : NetAct) → Decidable (s.NoHangup act)
  | .call (.polled _ _) => decidable_of_iff' _ CloseAux.forall_way
  | .call .compute | .call .connected | .call (.failed _ _) | .call (.sent _) | .call .zero | .call (.data _)
  | .call .writable
  | .call .timedOut | .arrive _ _ | .finish _ | .drain _ _ => .isTrue trivial

/-- After a return, with everything sent, closed and read, nothing more can happen. -/
theorem CloseAux.ended_of_returned {a : Args} {cap : Nat} {s : Net} {ok : Bool} (hpc : s.tunnel.pc = .returned ok)
    (h : ∀ w, (s.sock w).toCome = [] ∧ (s.sock w).fin = true ∧ (s.sock w).queued = []) (act : NetAct) :
    s.step a cap act = none := by
  cases act with
  | arrive w n =>
    simp only [Net.step, (h w).1, List.length_nil]
    exact if_neg (by omega)
  | finish w => simp [Net.step, (h w).2.1]
  | drain w n =>
    simp only [Net.step, (h w).2.2, List.length_nil]
    exact if_neg (by omega)
  | call ans => simp [Net.step, Net.kernel, hpc]

/-- The run in which both peers close before the first poll meets the condition. -/
theorem orderly_close_together :
    ∃ s, (net ⟨5, [104]⟩ 8 oneByte).Path Net.NoHangup (Net.start 0 oneByte 0) closeTogether s ∧
      s.tunnel.pc = .returned true ∧ ∀ w, (s.sock w.other).delivered = oneByte w := by
  obtain ⟨s, hp, hs⟩ := Lts.exists_path (M := net ⟨5, [104]⟩ 8 oneByte) (s := Net.start 0 oneByte 0) Net.NoHangup
    closeTogether (fun s => decide (s.tunnel.pc = .returned true ∧
      ((s.sock .c2u).toCome = [] ∧ (s.sock .c2u).fin = true ∧ (s.sock .c2u).queued = []) ∧
      ((s.sock .u2c).toCome = [] ∧ (s.sock .u2c).fin = true ∧ (s.sock .u2c).queued = []))) (by decide)
  obtain ⟨hpc, hc, hu⟩ := of_decide_eq_true hs
  have hend : ∀ act, s.step ⟨5, [104]⟩ 8 act = none := CloseAux.ended_of_returned hpc fun w => by cases w; exacts [hc, hu]
  have hall := hp.mono fun _ _ _ => trivial
  exact ⟨s, hp, ((orderly_close ⟨5, [104]⟩ 8 (by decide) oneByte 0 0 closeTogether s hall).2 hend).mpr hp⟩

/-- When upstream answers a client that has closed, and closes as well, its answer is lost: the poll that finds the
answer also reports the hang-up, and the function returns false with the byte unread. -/
theorem orderly_close_false : ¬∀ s, (net ⟨5, [104]⟩ 8 oneByte).Reachable s → ∀ ok, s.tunnel.pc = .returned ok →
    ok = true ∧ ∀ w, (s.sock w.other).taken = oneByte w := by
  intro h
  obtain ⟨s, hr, hs⟩ := Lts.exists_of_exec (M := net ⟨5, [104]⟩ 8 oneByte) closeInTurn
    (fun s => decide (s.tunnel.pc = .returned false ∧ (s.sock .c2u).taken = [] ∧ (s.sock .u2c).unread = [2]))
    ⟨0, 0, rfl⟩ (by decide)
  have hret := (of_decide_eq_true hs).1
  exact Bool.false_ne_true (h s hr false hret).1

end Tunnel
end HpServer
