import HpServer.Lemmas.SystemJobs
import HpServer.Theorems.Lifecycle

/-!
# Whose events a batch has

An event of `epoll_wait` carries a descriptor and not a connection. While a batch is processed, the reactor may close
a connection whose event is still to come and accept a client on its descriptor, which then gets the event of the
connection that is gone. In batches in which no accepted client gets a descriptor with an event still to come
(`unreportedAccept`), every event acts on the connection it was reported for.
-/

namespace HpServer

open EpollMask

variable {π : Type}

/-- The events of the batch that are still to come. -/
def ReactorPc.pending : ReactorPc → List (Int × EpollMask)
  | .tick _ | .wait _ => []
  | .batch rest | .accepting rest | .drainRead rest | .drainPop rest => rest

/-- `epoll_wait` returns. -/
def Label.isWaited : Label → Bool
  | .waited _ => true
  | _ => false

/-- Every client that is admitted gets a descriptor for which the batch has no event left. -/
def unreportedAccept : Except Fault (Sys π) → Label → Bool
  | .ok s, .accept (.client fd .admitted) => s.pc.pending.all fun e => e.1 ≠ fd
  | _, _ => true

/-- `epoll_wait` returns `events` in `s₀`, and the steps `ls`, in which it does not return again, lead to `s`. -/
def Config.DuringBatch (c : Config π) (P : Except Fault (Sys π) → Label → Prop) (s₀ : Sys π)
    (events : List (Int × EpollMask)) (ls : List Label) (s : Sys π) : Prop :=
  (∀ l ∈ ls, l.isWaited = false) ∧ c.system.Path P (.ok s₀) (.waited (some events) :: ls) (.ok s)

namespace Sys

theorem pc_submitProxyJob (s : Sys π) (fd : Int) (owner : Nat) (req : RequestInfo) (admitted : Bool) :
    (s.submitProxyJob fd owner req admitted).pc = s.pc := by
  unfold submitProxyJob
  split <;> rfl

/-- Until `epoll_wait` returns again, no event joins those still to come. -/
theorem Moves.pending_subset {c : Config π} {s s' : Sys π} {l : Label} (h : s.Moves c l s') (hl : l.isWaited = false) :
    s'.pc.pending ⊆ s.pc.pending := by
  cases h with
  | waitFailed | waited | woken => cases hl
  | tickEnd hpc hpc' =>
    rcases hpc' with rfl | ⟨ms, rfl⟩ <;> exact List.nil_subset _
  | batchEnd hpc => exact List.nil_subset _
  | listen hpc | wake hpc | client hpc =>
    rw [hpc]
    exact List.subset_cons_self _ _
  | submit hpc =>
    rw [pc_submitProxyJob, hpc]
    exact List.subset_cons_self _ _
  | acceptEnd hpc | readEnd hpc | popEnd hpc =>
    rw [hpc]
    exact List.Subset.refl _
  | _ => exact List.Subset.refl _

/-- Of the descriptors with an event still to come, each has no connection or the one it had in `s₀`. -/
def Reported (s₀ s : Sys π) : Prop := ∀ e ∈ s.pc.pending, ∀ id, s.connId e.1 = some id → s₀.connId e.1 = some id

theorem Moves.reported {c : Config π} {s₀ s s' : Sys π} {l : Label} (hs : Reported s₀ s) (hl : l.isWaited = false)
    (hp : unreportedAccept (.ok s) l = true) (h : s.Moves c l s') : Reported s₀ s' := by
  intro e he id hid
  have hmem := h.pending_subset hl he
  rcases h.connId hid with hid | ⟨-, rfl, -⟩
  · exact hs e hmem id hid
  · -- The step accepts a client on a descriptor with an event still to come.
    have hne := List.all_eq_true.mp hp e hmem
    exact absurd rfl (of_decide_eq_true hne)

/-- What a client's event does, it does to the slot of its descriptor. -/
theorem Moves.event_slot {c : Config π} {s s' : Sys π} {io : Io} (h : s.Moves c (.event io) s') {fd : Int}
    {ev : EpollMask}
    {rest : List (Int × EpollMask)} (hpc : s.pc = .batch ((fd, ev) :: rest)) (i : Int) (hi : i ≠ fd) :
    s'.server.slot i = s.server.slot i := by
  have hupdate : ∀ {fd' : Int} {ev' : EpollMask} {rest' : List (Int × EpollMask)} {server : Server π} {x : Slot π},
      s.pc = .batch ((fd', ev') :: rest') → server.slot = Function.update s.server.slot fd' x →
        server.slot i = s.server.slot i := by
    intro fd' ev' rest' server x hpc' hslot
    rw [hpc] at hpc'
    cases hpc'
    rw [hslot, Function.update_of_ne hi]
  cases h with
  | client hpc' _ _ hslot => exact hupdate hpc' hslot
  | submit hpc' _ hslot =>
    rw [server_submitProxyJob]
    exact hupdate hpc' hslot
  | batchEnd | listen | wake => rfl

end Sys

/-- The steps of a batch keep the state in order and what is reported. -/
theorem Config.path_reported {c : Config π} {s₀ : Sys π} {r r' : Except Fault (Sys π)} {ls : List Label}
    (h : c.system.Path (fun r l => unreportedAccept r l = true) r ls r') (hls : ∀ l ∈ ls, l.isWaited = false)
    (hr : ∃ s, r = .ok s ∧ s.Ok ∧ s₀.Reported s) : ∃ s, r' = .ok s ∧ s.Ok ∧ s₀.Reported s := by
  induction h with
  | nil r => exact hr
  | cons hp hstep _ ih =>
    obtain ⟨s, rfl, hok, hs⟩ := hr
    obtain ⟨s', rfl, hmoves⟩ := Sys.step_moves hok hstep
    refine ih (fun l hl => hls l (List.mem_cons_of_mem _ hl)) ⟨s', rfl, hmoves.ok hok, ?_⟩
    exact hmoves.reported hs (hls _ List.mem_cons_self) hp

/-- In a batch whose accepts meet the condition, the state is in order, and each event still to come is of a
descriptor without a connection or with the one it had when the batch was returned. -/
theorem Config.DuringBatch.reported {c : Config π} {s₀ s : Sys π} {events : List (Int × EpollMask)} {ls : List Label}
    (h : c.DuringBatch (fun r l => unreportedAccept r l = true) s₀ events ls s) (h₀ : s₀.Ok) : s.Ok ∧ s₀.Reported s := by
  obtain ⟨hls, hpath⟩ := h
  cases hpath with
  | cons hp hstep hpath =>
    obtain ⟨s₁, rfl, hmoves⟩ := Sys.step_moves (c := c) (l := .waited (some events)) h₀ hstep
    have hreported : s₀.Reported s₁ := by
      intro e _ id hid
      rcases hmoves.connId hid with hid | ⟨-, hl, -⟩
      · exact hid
      · cases hl
    obtain ⟨t, ht, hok, hs⟩ := Config.path_reported hpath hls ⟨s₁, rfl, hmoves.ok h₀, hreported⟩
    cases ht
    exact ⟨hok, hs⟩

/-- While a batch is processed in which every admitted client gets a descriptor for which the batch has no event left,
a client's event is applied to the connection that its descriptor had when the batch was returned, if to any, and to
nothing else. -/
theorem event_acts_on_reported (c : Config π) {s₀ s : Sys π} {events : List (Int × EpollMask)} {ls : List Label}
    (h₀ : c.system.Reachable (.ok s₀)) (h : c.DuringBatch (fun r l => unreportedAccept r l = true) s₀ events ls s)
    {fd : Int} {ev : EpollMask} {rest : List (Int × EpollMask)} (hpc : s.pc = .batch ((fd, ev) :: rest)) :
    (∀ id, s.connId fd = some id → s₀.connId fd = some id) ∧
      ∀ io r, c.system.step (.ok s) (.event io) = some r →
        ∃ s', r = .ok s' ∧ ∀ i, i ≠ fd → s'.server.slot i = s.server.slot i := by
  obtain ⟨t, ht, hok₀, -⟩ := Config.reachesBy_invariant (I := fun _ => True) (fun _ => trivial)
    (fun _ _ _ _ _ _ _ => trivial) h₀
  cases ht
  obtain ⟨hok, hreported⟩ := h.reported hok₀
  constructor
  · intro id hid
    have hmem : (fd, ev) ∈ s.pc.pending := by
      rw [hpc]
      exact List.mem_cons_self
    exact hreported (fd, ev) hmem id hid
  · intro io r hr
    obtain ⟨s', rfl, hmoves⟩ := Sys.step_moves (c := c) (l := .event io) hok hr
    exact ⟨s', rfl, fun i hi => hmoves.event_slot hpc i hi⟩

/-- A run to a batch, and steps of the batch, whose first and last state pass a test. -/
theorem exists_duringBatch {c : Config π} (P : Except Fault (Sys π) → Label → Prop) [∀ r l, Decidable (P r l)] (now : Int)
    (before : List Label) (events : List (Int × EpollMask)) (ls : List Label) (p : Sys π → Sys π → Bool)
    (hls : ∀ l ∈ ls, l.isWaited = false)
    (h : (c.system.exec (.ok (c.initSys now)) before).map (fun r => r.toOption.any fun s₀ =>
      (c.system.execBy P (.ok s₀) (.waited (some events) :: ls)).any fun r' => r'.toOption.any (p s₀)) = some true) :
    ∃ s₀ s, c.system.Reachable (.ok s₀) ∧ c.DuringBatch P s₀ events ls s ∧ p s₀ s = true := by
  obtain ⟨s₀, h₀, hp⟩ := Config.exists_of_exec now before _ h
  rw [Option.any_eq_true] at hp
  obtain ⟨r, hexec, hp⟩ := hp
  cases r with
  | error f => cases hp
  | ok s => exact ⟨s₀, s, h₀, ⟨hls, Lts.path_of_execBy hexec⟩, hp⟩

/-- A batch in which a client is accepted before descriptor 5 is read. -/
theorem event_acts_on_reported_read : ∃ s₀ s, smallServer.system.Reachable (.ok s₀) ∧
    smallServer.DuringBatch (fun r l => unreportedAccept r l = true) s₀ [(3, epollIn), (5, epollIn)]
      [.event {}, .accept (.client 6 .admitted), .accept .none] s ∧
    s.pc = .batch [(5, epollIn)] ∧ s.connId 5 = some 0 ∧ s₀.connId 5 = some 0 := by
  obtain ⟨s₀, s, h₀, h, hp⟩ := exists_duringBatch (c := smallServer) (fun r l => unreportedAccept r l = true) 0
    (accept5 ++ toWait (node5 1)) [(3, epollIn), (5, epollIn)] [.event {}, .accept (.client 6 .admitted), .accept .none]
    (fun _ s => decide (s.pc = .batch [(5, epollIn)] ∧ s.connId 5 = some 0)) (by decide) (by decide +kernel)
  obtain ⟨hpc, hid⟩ := of_decide_eq_true hp
  exact ⟨s₀, s, h₀, h, hpc, hid, (event_acts_on_reported smallServer h₀ h hpc).1 0 hid⟩

/-- Job 0 of the client on descriptor 5 has answered, and the reactor waits. -/
def answered5 : List Label :=
  List.flatten [accept5, toWait (node5 1), request5 71, [.start 0 0, .push 0 ⟨true, [1], 0⟩, .notify 0], toWait (node5 2)]

/-- A batch with the eventfd, the listening socket and descriptor 5, whose client has hung up. -/
def mixedBatch : List (Int × EpollMask) := [(4, epollIn), (3, epollIn), (5, epollIn ||| epollRdhup)]

/-- The reactor sends the response and closes descriptor 5, and accepts a client on descriptor `fd`. -/
def drainThenAccept (fd : Int) : List Label :=
  [.event {}, .readEventFd, .readEventFd, .popDone { sends := [.accepted 0] }, .popDone {}, .event {},
    .accept (.client fd .admitted), .accept .none]

/-- The response is sent, descriptor 5 is closed and given to a new client; then the event that the first client hung
up closes the new client's connection. -/
theorem event_acts_on_reported_false : ∃ s₀ s s' : Sys Bytes, smallServer.system.Reachable (.ok s₀) ∧
    smallServer.DuringBatch (fun _ _ => True) s₀ mixedBatch (drainThenAccept 5) s ∧
      s.pc = .batch [(5, epollIn ||| epollRdhup)] ∧
    s₀.connId 5 = some 0 ∧ s.connId 5 = some 1 ∧ smallServer.system.step (.ok s) (.event {}) = some (.ok s') ∧
    s'.connId 5 = none := by
  obtain ⟨s₀, s, h₀, h, hp⟩ := exists_duringBatch (c := smallServer) (fun _ _ => True) 0 answered5 mixedBatch
    (drainThenAccept 5)
    (fun s₀ s => decide (s.pc = .batch [(5, epollIn ||| epollRdhup)] ∧ s₀.connId 5 = some 0 ∧ s.connId 5 = some 1) &&
      (smallServer.system.step (.ok s) (.event {})).any fun r => r.toOption.any fun s' => decide (s'.connId 5 = none))
    (by decide) (by decide +kernel)
  obtain ⟨hstates, hstep⟩ := Bool.and_eq_true_iff.mp hp
  obtain ⟨hpc, hid₀, hid⟩ := of_decide_eq_true hstates
  rw [Option.any_eq_true] at hstep
  obtain ⟨r, hr, hp⟩ := hstep
  cases r with
  | error f => cases hp
  | ok s' => exact ⟨s₀, s, s', h₀, h, hpc, hid₀, hid, hr, of_decide_eq_true hp⟩

end HpServer
