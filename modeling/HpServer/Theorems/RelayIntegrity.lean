import HpServer.Lemmas.TunnelRelay

/-!
# The relay of a tunnel

Over every run of `forward_connect_tunnel`, whatever the two sockets do: no byte is lost, added or reordered; a
half-close comes last; success means both directions are complete; and no iteration of the loop goes by without a
poll.
-/

namespace HpServer
namespace Tunnel

/-- In each direction the bytes sent to the destination, followed by the unsent part of the buffer, are the bytes
received; a half-close of the destination is made once, after the end of the source was read and everything sent, and
nothing happens in that direction after it. The function returns true only when both sources are at their end, both
buffers are empty and both half-closes are made. At the point where the events to poll for are known there is at least
one, every `poll` is called with at least one, and every iteration but the one going on has called it. -/
theorem relay_integrity (a : Args) (s : State) (h : (system a).Reachable s) :
    (∀ w, sentBytes (s.dir w).log ++ (s.dir w).unsent = receivedBytes (s.dir w).log ∧ ClosesLast (s.dir w).log) ∧
      (s.pc = .returned true → ∀ w, .eof ∈ (s.dir w).log ∧ (s.dir w).buf = [] ∧ .shutdown ∈ (s.dir w).log) ∧
      (s.pc = .interests → s.clientEvents ≠ 0 ∨ s.upstreamEvents ≠ 0) ∧
      (∀ p ∈ s.polls, p.1 ≠ 0 ∨ p.2 ≠ 0) ∧ s.polls.length ≤ s.iterations ∧ s.iterations ≤ s.polls.length + 1 := by
  obtain ⟨hdirs, hpc, hpolls⟩ := reachable_tunnelOk h
  refine ⟨fun w => ⟨(hdirs w).bytes, (hdirs w).last⟩, fun hret w => ?_, fun hint => ?_, hpolls.asked, ?_⟩
  · simp only [PcOk, hret] at hpc
    obtain ⟨hc, hdue⟩ := hpc w
    simp only [Dir.complete, Bool.and_eq_true, List.isEmpty_iff] at hc
    have hshut : (s.dir w).shut = true := by
      by_contra hs
      simp [Dir.shutDue, hc.1, hc.2, hs] at hdue
    exact ⟨(hdirs w).eof.mp hc.1, hc.2, (hdirs w).shut.mp hshut⟩
  · simp only [PcOk, hint] at hpc
    exact Decidable.not_and_iff_or_not.mp (events_ne_zero hpc)
  · have hcount := hpolls.counted
    cases hph : s.pc.phase <;> rw [hph] at hcount
    · rw [hcount.1, hcount.2]
      exact ⟨Nat.le_refl _, Nat.zero_le _⟩
    · exact ⟨by omega, by omega⟩
    · exact ⟨by omega, by omega⟩
    · exact hcount

/-- A tunnel in which each side sends one byte and closes, and the relay returns true after one poll. -/
def oneByteEach : List Answer :=
  List.flatten [[.compute, .connected, .sent 62, .compute], List.replicate 6 .compute,
    [.polled 1 1, .data [1], .zero, .data [2], .zero, .sent 1, .compute, .sent 1, .compute, .compute, .compute, .compute]]

/-- The relay at the end of such a run. -/
theorem relay_integrity_oneByteEach : ∃ s, (system ⟨5, [104]⟩).Reachable s ∧ s.pc = .returned true ∧
    (∀ w, .eof ∈ (s.dir w).log ∧ (s.dir w).buf = [] ∧ .shutdown ∈ (s.dir w).log) ∧
    sentBytes (s.dir .c2u).log = [1] ∧ sentBytes (s.dir .u2c).log = [2] := by
  obtain ⟨s, hr, hs⟩ := Lts.exists_of_exec (M := system ⟨5, [104]⟩) oneByteEach
    (fun s => decide (s.pc = .returned true ∧ sentBytes (s.dir .c2u).log = [1] ∧ sentBytes (s.dir .u2c).log = [2]))
    ⟨0, rfl⟩ (by decide)
  obtain ⟨hpc, h1, h2⟩ := of_decide_eq_true hs
  exact ⟨s, hr, hpc, (relay_integrity _ s hr).2.1 hpc, h1, h2⟩

end Tunnel
end HpServer
