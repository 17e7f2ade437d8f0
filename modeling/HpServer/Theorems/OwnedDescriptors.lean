import HpServer.Upstream

/-!
# Descriptors of the proxy's own

Which objects own a descriptor depends only on where `connect_upstream`, `wait_fd` and their caller are (`Shape`): one
for `upstream` while it is connected, one for the candidate between `socket` and its end, one for the epoll instance
within `wait_fd`. So no call is made with a descriptor that is closed or that was never opened, none is closed twice,
which in a server with many threads might be the descriptor of another one by then, and none is left when the function
returns.
-/

namespace HpServer
namespace Upstream

/-! ## What is owned where -/

/-- Which objects own a descriptor, and whether the list of addresses is there. -/
structure Local.Shape (l : Local) (owns : Var → Bool) (listed : Bool) : Prop where
  valid : l.fds.Valid
  owns : ∀ v, (l.fds.var v).isSome = owns v
  listed : l.addresses.isSome = listed

namespace Local.Shape

variable {l l' : Local} {owns owns' : Var → Bool} {listed : Bool}

/-- Setting `errno` owns nothing. -/
theorem error (h : l.Shape owns listed) (n : Nat) : (l.error n).Shape owns listed := ⟨h.valid, h.owns, h.listed⟩

/-- An object gets a descriptor. -/
theorem acquire (h : l.Shape owns listed) {v : Var} (hv : owns v = false) {fd : Nat} (hl : l.acquire v fd = some l')
    (howns : ∀ w, owns' w = if w = v then true else owns w) : l'.Shape owns' listed := by
  obtain ⟨hfd, heq⟩ := Option.ite_none_left_eq_some.mp hl
  cases heq
  have hnone : l.fds.var v = none := Option.not_isSome_iff_eq_none.mp (by rw [h.owns v, hv]; decide)
  refine ⟨h.valid.acquire hnone hfd, fun w => ?_, h.listed⟩
  rw [howns w]
  by_cases hw : w = v
  · rw [if_pos hw, hw, Owners.var_acquire_self]
    rfl
  · rw [if_neg hw, Owners.var_acquire_of_ne _ hw, h.owns]

/-- An object closes its descriptor. -/
theorem release (h : l.Shape owns listed) (v : Var) (howns : ∀ w, owns' w = if w = v then false else owns w) :
    (l.release v).Shape owns' listed := by
  refine ⟨h.valid.release v, fun w => ?_, h.listed⟩
  rw [howns w, Local.release]
  by_cases hw : w = v
  · rw [if_pos hw, hw, Owners.var_release_self]
    rfl
  · rw [if_neg hw, Owners.var_release_of_ne _ hw, h.owns]

/-- The candidate becomes the upstream socket. -/
theorem takeCandidate (h : l.Shape owns listed)
    (howns : ∀ w, owns' w = if w = .candidate then false else if w = .upstream then owns .candidate else owns w) :
    l.takeCandidate.Shape owns' listed := by
  refine ⟨h.valid.move (by decide), fun w => ?_, h.listed⟩
  rw [howns w, Local.takeCandidate]
  cases w with
  | candidate => rw [Owners.var_move_right]; rfl
  | upstream => rw [Owners.var_move_left _ (by decide), h.owns]; rfl
  | epoll => rw [Owners.var_move_of_ne _ (by decide) (by decide), h.owns]; rfl

end Local.Shape

/-- The epoll instance is there. -/
def WaitPc.polls : WaitPc → Bool
  | .create => false
  | _ => true

/-- What is owned within `connect_upstream`. -/
def ConnectPc.owns : ConnectPc → Var → Bool
  | .free connected, .upstream => connected
  | .connect, .candidate | .waiting _, .candidate | .soError, .candidate | .drop, .candidate => true
  | .waiting w, .epoll => w.polls
  | _, _ => false

/-- The list of addresses is there. -/
def ConnectPc.listed : ConnectPc → Bool
  | .reset | .resolve => false
  | _ => true

/-- `wait_fd` opens the epoll instance and closes it, and does nothing else to the objects. -/
theorem stepWait_shape {l l' : Local} {w : WaitPc} {r : Result} {next : WaitPc ⊕ Bool} {owns : Var → Bool} {listed : Bool}
    (h : l.stepWait w r = some (next, l')) (hl : l.Shape owns listed) (hepoll : owns .epoll = w.polls) :
    l'.Shape (Function.update owns .epoll (next.elim WaitPc.polls fun _ => false)) listed := by
  -- where nothing is opened or closed
  have hsame : ∀ {owns' : Var → Bool}, owns' .epoll = w.polls → (∀ v, v ≠ .epoll → owns' v = owns v) →
      l.Shape owns' listed := by
    intro owns' he ho
    refine ⟨hl.valid, fun v => ?_, hl.listed⟩
    rw [hl.owns v]
    by_cases hv : v = .epoll
    · rw [hv, hepoll, he]
    · rw [ho v hv]
  have hothers : ∀ b, ∀ v, v ≠ Var.epoll → Function.update owns .epoll b v = owns v :=
    fun b v hv => Function.update_of_ne hv ..
  cases w with
  | create =>
    cases r with
    | value fd =>
      obtain ⟨l₁, hl₁, heq⟩ := Option.map_eq_some_iff.mp h
      cases heq
      exact hl.acquire hepoll hl₁ fun v => Function.update_apply ..
    | failed e =>
      cases h
      exact (hsame (Function.update_self ..) (hothers _)).error e
    | ok => cases h
  | wait =>
    cases r with
    | failed e =>
      rw [Local.stepWait] at h
      split at h <;> cases h <;> exact (hsame (Function.update_self ..) (hothers _)).error e
    | ok =>
      cases h
      exact (hsame (Function.update_self ..) (hothers _)).error _
    | value events =>
      cases h
      exact hsame (Function.update_self ..) (hothers _)
  | close ready =>
    cases r with
    | ok =>
      cases h
      exact hl.release .epoll fun v => Function.update_apply ..
    | _ => cases h
  | add | remove ready =>
    cases r with
    | value n => cases h
    | ok =>
      cases h
      exact hsame (Function.update_self ..) (hothers _)
    | failed e =>
      cases h
      first
        | exact hsame (Function.update_self ..) (hothers _)
        | exact (hsame (Function.update_self ..) (hothers _)).error e

/-- What is owned where `connect_upstream` goes on, or when it has returned. -/
def ownsNext : ConnectPc ⊕ Bool → Var → Bool
  | .inl c, v => c.owns v
  | .inr connected, .upstream => connected
  | .inr _, _ => false

/-- Whether the address list is there, where `connect_upstream` goes on. -/
def listedNext : ConnectPc ⊕ Bool → Bool
  | .inl c => c.listed
  | .inr _ => false

/-- A step of `connect_upstream` opens and closes as its next point says. -/
theorem stepConnect_shape {l l' : Local} {c : ConnectPc} {r : Result} {next : ConnectPc ⊕ Bool}
    (h : l.stepConnect c r = some (next, l')) (hl : l.Shape c.owns c.listed) :
    l'.Shape (ownsNext next) (listedNext next) := by
  cases c with
  | reset =>
    cases r with
    | ok =>
      cases h
      exact hl.release .upstream fun v => by cases v <;> rfl
    | _ => cases h
  | resolve =>
    cases r with
    | value n =>
      rw [Local.stepConnect] at h
      obtain ⟨-, heq⟩ := Option.ite_none_left_eq_some.mp h
      cases heq
      exact ⟨hl.valid, hl.owns, rfl⟩
    | failed e =>
      cases h
      refine ⟨hl.valid, fun v => (hl.owns v).trans ?_, hl.listed⟩
      cases v <;> rfl
    | ok => cases h
  | address =>
    simp only [Local.stepConnect] at h
    split at h
    · rename_i n fd _
      obtain ⟨l₁, hl₁, heq⟩ := Option.map_eq_some_iff.mp h
      cases heq
      have hless : Local.Shape { l with addresses := some n } (ConnectPc.owns .address) true := ⟨hl.valid, hl.owns, rfl⟩
      exact hless.acquire rfl hl₁ fun v => by cases v <;> rfl
    · cases h
      exact ⟨hl.valid, hl.owns, rfl⟩
    · cases h
      refine ⟨hl.valid, fun v => (hl.owns v).trans ?_, hl.listed⟩
      cases v <;> rfl
    · cases h
  | connect =>
    cases r with
    | ok =>
      cases h
      exact hl.takeCandidate fun v => by cases v <;> rfl
    | failed e =>
      cases h
      refine ⟨hl.valid, fun v => (hl.owns v).trans ?_, hl.listed.trans ?_⟩
      · split <;> cases v <;> rfl
      · split <;> rfl
    | value n => cases h
  | waiting w =>
    obtain ⟨⟨next', l₁⟩, hwait, heq⟩ := Option.map_eq_some_iff.mp h
    cases heq
    have hshape := stepWait_shape hwait hl rfl
    refine ⟨hshape.valid, fun v => (hshape.owns v).trans ?_, hshape.listed.trans ?_⟩
    · rcases next' with w' | _ | _ <;> cases v <;> rfl
    · rcases next' with w' | _ | _ <;> rfl
  | soError =>
    cases r with
    | value soError =>
      rw [Local.stepConnect] at h
      split at h <;> cases h
      · exact hl.takeCandidate fun v => by cases v <;> rfl
      · refine ⟨hl.valid, fun v => (hl.owns v).trans ?_, hl.listed⟩
        cases v <;> rfl
    | failed e =>
      cases h
      refine ⟨hl.valid, fun v => (hl.owns v).trans ?_, hl.listed⟩
      cases v <;> rfl
    | ok => cases h
  | drop =>
    cases r with
    | ok =>
      cases h
      exact hl.release .candidate fun v => by cases v <;> rfl
    | _ => cases h
  | free connected =>
    cases r with
    | ok =>
      cases h
      refine ⟨hl.valid, fun v => (hl.owns v).trans ?_, rfl⟩
      cases v <;> rfl
    | _ => cases h

/-! ## Runs -/

section

variable {σ ι : Type} {C : Caller σ ι}

/-- What is owned where the whole is. -/
def Pc.owns (linked : Bool) : Pc → Var → Bool
  | .own, .upstream => linked
  | .connecting c, v => c.owns v
  | .waiting _, .upstream | .closing, .upstream => true
  | .waiting w, .epoll => w.polls
  | _, _ => false

/-- Whether the address list is there. -/
def Pc.listed : Pc → Bool
  | .connecting c => c.listed
  | _ => false

/-- The caller is at the call that is being run through. -/
def Pc.At (C : Caller σ ι) (c : σ) : Pc → Prop
  | .own => True
  | .connecting _ => C.connects c = true
  | .waiting _ => (C.waits c).isSome = true
  | .closing => C.linked c = false

/-- What a function owns is what its point says. -/
structure Owned (C : Caller σ ι) (s : State σ) : Prop where
  shape : s.vars.Shape (s.pc.owns (C.linked s.caller)) s.pc.listed
  site : s.pc.At C s.caller

/-- A caller that goes on keeps `upstream` if it still needs it. -/
theorem owned_arrive {l : Local} {c : σ} {up : Bool} (hl : l.Shape (ownsNext (.inr up)) false)
    (hup : C.linked c = true → up = true) : Owned C (State.arrive C l c) := by
  have hupstream : (l.fds.var .upstream).isSome = up := hl.owns .upstream
  unfold State.arrive
  split
  · rename_i hclose
    refine ⟨⟨hl.valid, fun v => (hl.owns v).trans ?_, hl.listed⟩, hclose.2⟩
    cases v with
    | upstream => exact hupstream.symm.trans hclose.1
    | _ => rfl
  · rename_i hkeep
    refine ⟨⟨hl.valid, fun v => (hl.owns v).trans ?_, hl.listed⟩, trivial⟩
    cases v with
    | upstream =>
      change up = C.linked c
      cases hlink : C.linked c with
      | true => exact hup hlink
      | false =>
        cases up with
        | false => rfl
        | true => exact absurd ⟨hupstream, hlink⟩ hkeep
    | _ => rfl

/-- It is kept by every step. -/
theorem step_owned {s s' : State σ} {ans : Answer ι} (h : s.step C ans = some s') (hs : Owned C s) : Owned C s' := by
  obtain ⟨caller, pc, vars⟩ := s
  obtain ⟨hshape, hsite⟩ := hs
  cases pc with
  | own =>
    have hup : vars.Shape (ownsNext (.inr (C.linked caller))) false :=
      ⟨hshape.valid, fun v => (hshape.owns v).trans (by cases v <;> rfl), hshape.listed⟩
    cases ans with
    | own a =>
      obtain ⟨hnot, heq⟩ := Option.ite_none_left_eq_some.mp h
      obtain ⟨c', hc', rfl⟩ := Option.map_eq_some_iff.mp heq
      have hnot' : C.connects caller = false := Bool.eq_false_iff.mpr fun hc => hnot (.inl hc)
      exact owned_arrive hup (C.linked_of_step hnot' hc')
    | call r =>
      cases r with
      | ok =>
        simp only [State.step] at h
        split at h
        · rename_i hconnects
          cases h
          refine ⟨⟨hshape.valid, fun v => (hup.owns v).trans ?_, hshape.listed⟩, hconnects⟩
          rw [C.not_linked_of_connects hconnects]
          cases v <;> rfl
        · obtain ⟨hwaits, heq⟩ := Option.ite_none_right_eq_some.mp h
          cases heq
          refine ⟨⟨hshape.valid, fun v => (hup.owns v).trans ?_, hshape.listed⟩, hwaits⟩
          rw [C.linked_of_waits hwaits]
          cases v <;> rfl
      | _ => cases h
  | connecting c =>
    cases ans with
    | own a => cases h
    | call r =>
      obtain ⟨⟨next, l'⟩, hnext, hgo⟩ := Option.bind_eq_some_iff.mp h
      have hshape' := stepConnect_shape hnext hshape
      cases next with
      | inl c' =>
        cases hgo
        exact ⟨hshape', hsite⟩
      | inr ok =>
        obtain ⟨caller', hcaller, rfl⟩ := Option.map_eq_some_iff.mp hgo
        refine owned_arrive hshape' fun hlinked => ?_
        cases ok with
        | true => rfl
        | false => cases (C.not_linked_of_failed hsite hcaller).symm.trans hlinked
  | waiting w =>
    cases ans with
    | own a => cases h
    | call r =>
      obtain ⟨⟨next, l'⟩, hnext, hgo⟩ := Option.bind_eq_some_iff.mp h
      have hshape' := stepWait_shape hnext hshape rfl
      cases next with
      | inl w' =>
        cases hgo
        refine ⟨⟨hshape'.valid, fun v => (hshape'.owns v).trans ?_, hshape'.listed⟩, hsite⟩
        cases v <;> rfl
      | inr ready =>
        obtain ⟨caller', -, rfl⟩ := Option.map_eq_some_iff.mp hgo
        have hkept : l'.Shape (ownsNext (.inr true)) false := by
          refine ⟨hshape'.valid, fun v => (hshape'.owns v).trans ?_, hshape'.listed⟩
          cases v <;> rfl
        exact owned_arrive hkept fun _ => rfl
  | closing =>
    cases ans with
    | own a => cases h
    | call r =>
      cases r with
      | ok =>
        cases h
        refine ⟨hshape.release .upstream fun v => ?_, trivial⟩
        rw [show C.linked caller = false from hsite]
        cases v <;> rfl
      | _ => cases h

/-- By induction it holds in every state. -/
theorem reachable_owned {s : State σ} (h : (system C).Reachable s) : Owned C s := by
  refine h.invariant ?_ ?_
  · rintro s ⟨hinit, hpc, hfds, haddr⟩
    refine ⟨⟨?_, fun v => ?_, ?_⟩, ?_⟩
    · rw [hfds]
      exact Owners.valid_empty
    · rw [hfds, hpc, C.not_linked_init hinit]
      cases v <;> rfl
    · rw [haddr, hpc]
      rfl
    · rw [hpc]
      trivial
  · intro s s' a _ hs hstep
    exact step_owned hstep hs

/-! ## What it means -/

/-- The objects whose descriptor `wait_fd` passes on: the epoll instance and the one it waits for. -/
def WaitPc.uses (watched : List Var) : WaitPc → List Var
  | .create => []
  | .add | .remove _ => .epoll :: watched
  | .wait | .close _ => [.epoll]

/-- The descriptors a point uses. -/
def ConnectPc.uses : ConnectPc → List Var
  | .connect | .soError | .drop => [.candidate]
  | .waiting w => w.uses [.candidate]
  | .reset | .resolve | .address | .free _ => []

/-- The objects whose descriptor the next call gets. -/
def State.uses (C : Caller σ ι) (s : State σ) : List Var :=
  match s.pc with
  | .own => if C.linked s.caller then [.upstream] else []
  | .connecting c => c.uses
  | .waiting w => w.uses (if C.waits s.caller = some .upstream then [.upstream] else [])
  | .closing => [.upstream]

/-- What is open is owned by one object, what the next call uses is open, there are never more than two descriptors,
and none is left where the caller does not have `upstream`, nor the list of addresses. -/
structure Clean (C : Caller σ ι) (s : State σ) : Prop where
  nodup : s.vars.fds.opened.Nodup
  owned : ∀ fd ∈ s.vars.fds.opened, ∃ v, s.vars.fds.var v = some fd ∧ ∀ w, s.vars.fds.var w = some fd → w = v
  uses : ∀ v ∈ s.uses C, ∃ fd, s.vars.fds.var v = some fd ∧ fd ∈ s.vars.fds.opened
  few : s.vars.fds.opened.length ≤ 2
  returned : s.pc = .own → s.vars.addresses = none ∧ (C.linked s.caller = false → s.vars.fds.opened = [])

/-- A point of `wait` uses the epoll descriptor, or one that is watched. -/
theorem WaitPc.of_uses {w : WaitPc} {watched : List Var} {v : Var} (h : v ∈ w.uses watched) :
    v = .epoll ∧ w.polls = true ∨ v ∈ watched := by
  cases w with
  | create => cases h
  | add | remove _ =>
    rcases List.mem_cons.mp h with rfl | hwatched
    · exact .inl ⟨rfl, rfl⟩
    · exact .inr hwatched
  | wait | close _ => exact .inl ⟨List.mem_singleton.mp h, rfl⟩

/-- An object that the next call uses owns a descriptor there. -/
theorem owns_of_uses {s : State σ} {v : Var} (hv : v ∈ s.uses C) : s.pc.owns (C.linked s.caller) v = true := by
  unfold State.uses at hv
  cases hpc : s.pc with
  | own =>
    simp only [hpc] at hv
    split at hv
    · rename_i hlinked
      rw [List.mem_singleton.mp hv, hlinked]
      rfl
    · cases hv
  | connecting c =>
    simp only [hpc] at hv
    cases c with
    | connect | soError | drop =>
      rw [List.mem_singleton.mp hv]
      rfl
    | waiting w =>
      rcases WaitPc.of_uses hv with ⟨rfl, hpolls⟩ | hcandidate
      · exact hpolls
      · rw [List.mem_singleton.mp hcandidate]
        rfl
    | reset | resolve | address | free _ => cases hv
  | waiting w =>
    simp only [hpc] at hv
    rcases WaitPc.of_uses hv with ⟨rfl, hpolls⟩ | hwatched
    · exact hpolls
    · split at hwatched
      · rw [List.mem_singleton.mp hwatched]
        rfl
      · cases hwatched
  | closing =>
    simp only [hpc] at hv
    rw [List.mem_singleton.mp hv]
    rfl

/-- Two objects at most own a descriptor at a time. -/
theorem exists_owners (linked : Bool) (pc : Pc) :
    ∃ vs : List Var, vs.length ≤ 2 ∧ ∀ v, pc.owns linked v = true → v ∈ vs := by
  cases pc with
  | connecting c =>
    cases c with
    | free connected =>
      refine ⟨[.upstream], by decide, fun v hv => ?_⟩
      cases v <;> first | exact List.mem_singleton_self _ | cases hv
    | _ =>
      refine ⟨[.candidate, .epoll], by decide, fun v hv => ?_⟩
      cases v <;> first | decide | cases hv
  | _ =>
    refine ⟨[.upstream, .epoll], by decide, fun v hv => ?_⟩
    cases v <;> first | decide | cases hv

/-- By induction it holds in every state. -/
theorem reachable_clean {s : State σ} (h : (system C).Reachable s) : Clean C s := by
  obtain ⟨hshape, -⟩ := reachable_owned h
  refine ⟨hshape.valid.nodup, ?_, ?_, ?_, ?_⟩
  · intro fd hfd
    obtain ⟨v, hv⟩ := hshape.valid.owned hfd
    exact ⟨v, hv, fun w hw => hshape.valid.unique hw hv⟩
  · intro v hv
    obtain ⟨fd, hfd⟩ := Option.isSome_iff_exists.mp ((hshape.owns v).trans (owns_of_uses hv))
    exact ⟨fd, hfd, hshape.valid.live hfd⟩
  · obtain ⟨vs, hvs, hmem⟩ := exists_owners (C.linked s.caller) s.pc
    exact Nat.le_trans (hshape.valid.length_le fun v hv => hmem v ((hshape.owns v).symm.trans hv)) hvs
  · intro hpc
    have hlisted := hshape.listed
    rw [hpc] at hlisted
    refine ⟨Option.not_isSome_iff_eq_none.mp (by rw [hlisted]; decide),
      fun hlinked => hshape.valid.opened_eq_nil fun v => ?_⟩
    have howns := hshape.owns v
    rw [hpc, hlinked] at howns
    refine Option.not_isSome_iff_eq_none.mp ?_
    rw [howns]
    cases v <;> decide

/-- What the caller does with the calls run through, it does with them as one step. -/
theorem reachable_caller {s : State σ} (h : (system C).Reachable s) : C.toLts.Reachable s.caller := by
  refine h.invariant (I := fun s => C.toLts.Reachable s.caller) ?_ ?_
  · rintro s ⟨hinit, -⟩
    exact .init hinit
  · intro s s' ans _ hs hstep
    change s.step C ans = some s' at hstep
    unfold State.step at hstep
    split at hstep
    · obtain ⟨-, heq⟩ := Option.ite_none_left_eq_some.mp hstep
      obtain ⟨c', hc', rfl⟩ := Option.map_eq_some_iff.mp heq
      exact .step hs trivial hc'
    · split at hstep
      · cases hstep
        exact hs
      · obtain ⟨-, heq⟩ := Option.ite_none_right_eq_some.mp hstep
        cases heq
        exact hs
    · obtain ⟨next, -, hgo⟩ := Option.bind_eq_some_iff.mp hstep
      split at hgo
      · cases hgo
        exact hs
      · obtain ⟨c', hc', rfl⟩ := Option.map_eq_some_iff.mp hgo
        exact .step hs trivial hc'
    · obtain ⟨next, -, hgo⟩ := Option.bind_eq_some_iff.mp hstep
      split at hgo
      · cases hgo
        exact hs
      · obtain ⟨c', hc', rfl⟩ := Option.map_eq_some_iff.mp hgo
        exact .step hs trivial hc'
    · cases hstep
      exact hs
    · cases hstep

end

/-- Whatever the system calls of `connect_upstream` and `wait_fd` answer: `forward_request` and
`forward_connect_tunnel` do what they do with the two functions as one step, and with that they use only descriptors
of their own that are open, close each once, and have none left, nor a list of addresses, when they return. -/
theorem proxy_descriptors {τ : Type} (lexer : Llhttp.Lexer τ) (req : RequestInfo) (args : Tunnel.Args) :
    (∀ s, (system (forwardCaller lexer req)).Reachable s →
      (Forward.lts lexer req).Reachable s.caller ∧ Clean (forwardCaller lexer req) s) ∧
    ∀ s, (system (tunnelCaller args)).Reachable s → (Tunnel.system args).Reachable s.caller ∧
      Clean (tunnelCaller args) s :=
  ⟨fun _ h => ⟨reachable_caller h, reachable_clean h⟩, fun _ h => ⟨reachable_caller h, reachable_clean h⟩⟩

/-- A tunnel to a host with two addresses: the first is refused, the second, which gets the same descriptor, takes a
while. -/
def secondAddress : List (Answer Tunnel.Answer) :=
  [.own .compute, .call .ok, .call .ok, .call (.value 2), .call (.value 7), .call (.failed 111), .call .ok,
    .call (.value 7),
    .call (.failed einprogress), .call (.value 8), .call .ok, .call (.value 4), .call .ok, .call .ok,
      .call (.value 0), .call .ok]

example : ((system (tunnelCaller ⟨5, [104]⟩)).exec ⟨Tunnel.initState 0, .own, {}⟩ secondAddress).map
    (fun s => (s.caller.pc, s.pc, s.vars.fds.opened)) = some (.sendEstablished 0, .own, [7]) := by
  decide +kernel

end Upstream
end HpServer
