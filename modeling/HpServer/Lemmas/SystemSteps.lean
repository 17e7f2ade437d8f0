import HpServer.Lemmas.ServerHandlers
import HpServer.System

/-!
# What one step of the server does

`Sys.Moves` lists what a step does, with the handlers replaced by what they do to the slot of their descriptor;
`step_moves` says that every step from a state in order is one of them, and so never a fault. The invariants of the
server use `Moves` and never unfold the step.
-/

namespace HpServer

open EpollMask Errno

variable {π : Type}

/-- The stage in which a worker begins a job. -/
def Job.begun (job : Job) (errno : Nat) : Stage :=
  if job.req.isConnect then .tunnelling (Tunnel.initState errno) else .forwarding

namespace Sys

/-- The state after a client's event, before a request is submitted. -/
def served (s : Sys π) (server : Server π) (rest : List (Int × EpollMask)) (record : Option OutClose) : Sys π :=
  { s with server := server, pc := .batch rest, outCloses := s.outCloses ++ record.toList }

/-- Submitting a job leaves the server alone. -/
@[simp] theorem server_submitProxyJob (s : Sys π) (fd : Int) (owner : Nat) (req : RequestInfo) (admitted : Bool) :
    (s.submitProxyJob fd owner req admitted).server = s.server := by
  unfold submitProxyJob
  split <;> rfl

/-- The new job is queued, or finished at once if the pool does not admit it. -/
theorem jobs_submitProxyJob (s : Sys π) (fd : Int) (owner : Nat) (req : RequestInfo) (admitted : Bool) :
    (s.submitProxyJob fd owner req admitted).jobs = Function.update s.jobs s.nextJob
      (some { owner := owner, fd := fd, req := req, stage := if admitted then .queued else .finished }) := by
  unfold submitProxyJob
  split <;> rfl

/-- What a step does. -/
inductive Moves (c : Config π) (s : Sys π) : Label → Sys π → Prop where
  | advance (d : Nat) : Moves c s (.advance d) { s with now := s.now + d }
  | stale {atEnd : Bool} {n : Timer.Node} {server : Server π} : s.pc = .tick atEnd → server.slot = s.server.slot →
      Moves c s (.tickTop (some n)) { s with server := server }
  | tickEnd {atEnd : Bool} {top : Option Timer.Node} {pc : ReactorPc} : s.pc = .tick atEnd →
      (pc = .tick false ∨ ∃ ms, pc = .wait ms) → Moves c s (.tickTop top) { s with pc := pc }
  | expired {atEnd : Bool} {n : Timer.Node} {t : Timer Int} {server : Server π} : s.pc = .tick atEnd →
      s.server.connectionTimer.tickTop s.now n = .fired t n.id →
      server.slot = Function.update s.server.slot n.id (s.server.slot n.id).closed →
      Moves c s (.tickTop (some n)) { s with server := server }
  | waitFailed {ms : Int} : s.pc = .wait ms → Moves c s (.waited none) { s with pc := .tick false }
  | waited {ms : Int} {events : List (Int × EpollMask)} : s.pc = .wait ms → (∀ e ∈ events, e.1 ≠ c.eventFd) →
      Moves c s (.waited (some events)) { s with pc := .batch events }
  | woken {ms : Int} {events : List (Int × EpollMask)} : s.pc = .wait ms → (∃ e ∈ events, e.1 = c.eventFd) →
      Moves c s (.waited (some events)) { s with pc := .batch events, edge := false }
  | batchEnd {io : Io} : s.pc = .batch [] → Moves c s (.event io) { s with pc := .tick true }
  | listen {ev : EpollMask} {rest : List (Int × EpollMask)} {io : Io} : s.pc = .batch ((c.serverFd, ev) :: rest) →
      Moves c s (.event io) { s with pc := .accepting rest }
  | wake {ev : EpollMask} {rest : List (Int × EpollMask)} {io : Io} : s.pc = .batch ((c.eventFd, ev) :: rest) →
      Moves c s (.event io) { s with pc := .drainRead rest }
  | client {fd : Int} {ev : EpollMask} {rest : List (Int × EpollMask)} {io : Io} {server : Server π}
    {record : Option OutClose}
      {x : Slot π} : s.pc = .batch ((fd, ev) :: rest) → fd ≠ c.eventFd →
      s.server.clientEvent c.toEnv s.now fd ev io = .ok (server, .nothing, record) →
      server.slot = Function.update s.server.slot fd x → x.Ok fd → (s.server.slot fd).Served x .nothing →
      (∀ r, record = some r → r.Sound) → Moves c s (.event io) (s.served server rest record)
  | submit {fd : Int} {ev : EpollMask} {rest : List (Int × EpollMask)} {io : Io} {server : Server π}
    {record : Option OutClose}
      {x : Slot π} {id : Nat} {req : RequestInfo} : s.pc = .batch ((fd, ev) :: rest) → fd ≠ c.eventFd →
      server.slot = Function.update s.server.slot fd x → x.Ok fd → (s.server.slot fd).connId = some id →
        x.connId = some id →
      (s.server.slot fd).inflight = false → x.inflight = true → (∀ r, record = some r → r.Sound) → ev.Readable →
      Moves c s (.event io) ((s.served server rest record).submitProxyJob fd id req io.admitted)
  | accept {fd : Int} {adm : Server.Admission} {rest : List (Int × EpollMask)} {server : Server π} {x : Slot π} :
      s.pc = .accepting rest → (s.server.slot fd).connId = none →
        server.slot = Function.update s.server.slot fd x → x.Ok fd →
      x.inflight = false → (x.connId = some s.nextConn ∧ adm = .admitted ∨ x.connId = none) →
      Moves c s (.accept (.client fd adm)) { s with server := server, nextConn := s.nextConn + 1 }
  | acceptAgain {rest : List (Int × EpollMask)} : s.pc = .accepting rest → Moves c s (.accept .interrupted) s
  | acceptEnd {rest : List (Int × EpollMask)} : s.pc = .accepting rest →
    Moves c s (.accept .none) { s with pc := .batch rest }
  | readCounter {rest : List (Int × EpollMask)} : s.pc = .drainRead rest →
    Moves c s .readEventFd { s with eventCounter := 0 }
  | readEnd {rest : List (Int × EpollMask)} : s.pc = .drainRead rest →
    Moves c s .readEventFd { s with pc := .drainPop rest }
  | popEnd {rest : List (Int × EpollMask)} {io : Io} : s.pc = .drainPop rest → s.doneQueue = [] →
      Moves c s (.popDone io) { s with pc := .batch rest }
  | popFree {rest : List (Int × EpollMask)} {io : Io} {ev : DoneEvent} {queue : List DoneEvent} : s.pc = .drainPop rest →
      s.doneQueue = ev :: queue → (s.server.slot ev.clientFd).connId = none →
      Moves c s (.popDone io) { s with doneQueue := queue }
  | popUsed {rest : List (Int × EpollMask)} {io : Io} {ev : DoneEvent} {queue : List DoneEvent} {server : Server π}
      {x : Slot π} {id : Nat} {closing : Closing} : s.pc = .drainPop rest → s.doneQueue = ev :: queue →
      (s.server.slot ev.clientFd).connId = some id → server.slot = Function.update s.server.slot ev.clientFd x →
      x.Ok ev.clientFd → x.inflight = false → (x.connId = none ∨ x.connId = some id ∧ x.closeAfterFlush = true) →
        closing ≠ .kept →
      Moves c s (.popDone io) { s with
        server := server, doneQueue := queue, consumed := s.consumed ++ [⟨ev, id, ev.output c.toEnv, closing⟩] }
  | start {j errno : Nat} {job : Job} : s.jobs j = some job → job.stage = .queued →
      Moves c s (.start j errno) (s.setStage j job (job.begun errno))
  | tunnel {j : Nat} {ans : Tunnel.Answer} {job : Job} {t t' : Tunnel.State} : s.jobs j = some job →
    job.stage = .tunnelling t →
      t.step ⟨job.fd, job.req.host⟩ ans = some t' → Moves c s (.tunnel j ans) (s.setStage j job (.tunnelling t'))
  | forwarded {j : Nat} {r : Forwarded} {job : Job} : s.jobs j = some job → job.stage = .forwarding →
      Moves c s (.push j r) ((s.setStage j job .pushed).pushDone (doneEvent j job r.ok r.response r.err false))
  | tunnelled {j : Nat} {r : Forwarded} {job : Job} {t : Tunnel.State} {ok : Bool} : s.jobs j = some job →
      job.stage = .tunnelling t → t.pc = .returned ok →
      Moves c s (.push j r) ((s.setStage j job .pushed).pushDone (doneEvent j job ok [] t.outErrno t.established))
  | notify {j : Nat} {job : Job} : s.jobs j = some job → job.stage = .pushed →
      Moves c s (.notify j) (s.setStage j job .finished).writeEventFd

/-- A state in order: every slot is, done events ask for the close, and the `EPOLLOUT` branch has closed for a reason. -/
structure Ok (s : Sys π) : Prop where
  slots : ∀ fd, (s.server.slot fd).Ok fd
  done : ∀ ev ∈ s.doneQueue, ev.closeAfterDone = true
  outs : ∀ r ∈ s.outCloses, r.Sound

theorem slot_connId_some {x : Slot π} {id : Nat} (h : x.connId = some id) : ∃ conn, x.conn = some conn ∧ conn.id = id :=
  Option.map_eq_some_iff.mp h

theorem slot_connId_none {x : Slot π} : x.connId = none ↔ x.conn = none := Option.map_eq_none_iff

/-- A turn of `tick` drops a stale node, ends, or closes an idle connection. -/
theorem stepTick_moves {c : Config π} {s s' : Sys π} {atEnd : Bool} {top : Option Timer.Node} (hs : s.Ok)
    (hpc : s.pc = .tick atEnd) (h : s.stepTick atEnd top = some s') : s.Moves c (.tickTop top) s' := by
  have hend : ∀ top', s.Moves c (.tickTop top') { s with
      pc := if atEnd then .tick false else .wait (Timer.nextTimeoutMs s.now top) } := by
    intro top'
    refine .tickEnd hpc ?_
    cases atEnd with
    | false => exact .inr ⟨_, rfl⟩
    | true => exact .inl rfl
  cases top with
  | none =>
    simp only [stepTick, Option.ite_none_right_eq_some, Option.some.injEq] at h
    obtain ⟨-, rfl⟩ := h
    exact hend none
  | some n =>
    simp only [stepTick, Option.ite_none_right_eq_some] at h
    obtain ⟨-, h⟩ := h
    cases htick : s.server.connectionTimer.tickTop s.now n with
    | dropped t =>
      rw [htick] at h
      cases h
      refine .stale hpc ?_
      funext i
      simp [Server.slot, Timer.entries_of_dropped htick]
    | stopped =>
      rw [htick] at h
      cases h
      exact hend (some n)
    | fired t fd =>
      rw [htick] at h
      cases h
      obtain ⟨-, hentries, e, he, rfl⟩ := Timer.entries_of_fired htick
      have hentry : (s.server.slot n.id).entry = some e := he
      cases (hs.slots n.id).tracked with
      | free _ _ _ hn => simp [hn] at hentry
      | live conn e' hconn hin hfd ho he' hcb =>
        obtain rfl : e = e' := Option.some.inj (hentry.symm.trans he')
        rw [hcb] at htick ⊢
        refine .expired hpc htick (Server.onTimeout_closed (hs.slots n.id).tracked hconn ?_)
        funext i
        by_cases hi : i = n.id
        · subst hi
          simp [Server.slot, hentries]
        · simp [Server.slot, hentries, hi]

/-- What waiting does. -/
theorem stepWait_moves {c : Config π} {s s' : Sys π} {ms : Int} {events : Option (List (Int × EpollMask))}
    (hpc : s.pc = .wait ms) (h : s.stepWait c events = some s') : s.Moves c (.waited events) s' := by
  cases events with
  | none =>
    cases h
    exact .waitFailed hpc
  | some events =>
    simp only [stepWait, Option.ite_none_right_eq_some] at h
    obtain ⟨-, h⟩ := h
    split at h
    · rename_i hev
      simp only [Option.ite_none_right_eq_some, Option.some.injEq] at h
      obtain ⟨-, rfl⟩ := h
      exact .woken hpc (by simpa using hev)
    · rename_i hev
      cases h
      exact .waited hpc fun e he hfd => hev (List.any_eq_true.mpr ⟨e, he, decide_eq_true hfd⟩)

/-- The next event of a batch: no fault, and what its branch does. -/
theorem stepEvent_moves {c : Config π} {s : Sys π} {rest : List (Int × EpollMask)} {io : Io} (hs : s.Ok)
    (hpc : s.pc = .batch rest) : ∃ s', s.stepEvent c rest io = .ok s' ∧ s.Moves c (.event io) s' := by
  match rest with
  | [] => exact ⟨_, rfl, .batchEnd hpc⟩
  | (fd, ev) :: rest =>
    rw [stepEvent]
    split
    · rename_i hfd
      subst hfd
      exact ⟨_, rfl, .listen hpc⟩
    · split
      · rename_i hfd
        subst hfd
        exact ⟨_, rfl, .wake hpc⟩
      · rename_i hne
        obtain ⟨server, handled, record, x, heq, hslot, hok, hserved, hsound, hreadable⟩ :=
          Server.clientEvent_served c.toEnv s.now (hs.slots fd) ev io
        simp only [heq, ok_bind]
        cases hserved with
        | closed hx => exact ⟨_, rfl, .client hpc hne heq hslot hok (.closed hx) hsound⟩
        | kept hkept => exact ⟨_, rfl, .client hpc hne heq hslot hok (.kept hkept) hsound⟩
        | submit id req hid hid' hinf hinf' =>
          obtain ⟨conn, hconn, rfl⟩ := slot_connId_some hid
          have howner : (s.server.connections fd).elim 0 HttpConn.id = conn.id := by
            have hconn' : s.server.connections fd = some conn := hconn
            rw [hconn']
            rfl
          rw [howner]
          exact ⟨_, rfl, .submit hpc hne hslot hok hid hid' hinf hinf' hsound (hreadable req rfl)⟩

/-- What accepting does. -/
theorem stepAccept_moves {c : Config π} {s s' : Sys π} {rest : List (Int × EpollMask)} {a : Accepted} (hs : s.Ok)
    (hpc : s.pc = .accepting rest) (h : s.stepAccept c rest a = some s') : s.Moves c (.accept a) s' := by
  cases a with
  | client fd adm =>
    simp only [stepAccept, Option.ite_none_right_eq_some, Option.some.injEq] at h
    obtain ⟨⟨-, ho⟩, rfl⟩ := h
    have hfree := slot_connId_none.mpr (Server.free_of_not_open (hs.slots fd).tracked ho)
    obtain ⟨x, hslot, hok, hinf, hid⟩ := Server.acceptClient_accepted c.toEnv s.now s.nextConn (hs.slots fd) ho adm
    exact .accept hpc hfree hslot hok hinf (hid.imp_right And.right)
  | interrupted =>
    cases h
    exact .acceptAgain hpc
  | none =>
    cases h
    exact .acceptEnd hpc

/-- What taking a done event does; it never faults. -/
theorem stepPopDone_moves {c : Config π} {s : Sys π} {rest : List (Int × EpollMask)} {io : Io} (hs : s.Ok)
    (hpc : s.pc = .drainPop rest) : ∃ s', s.stepPopDone c rest io = .ok s' ∧ s.Moves c (.popDone io) s' := by
  rw [stepPopDone]
  split
  · rename_i hq
    exact ⟨_, rfl, .popEnd hpc hq⟩
  · rename_i ev queue hq
    cases hconn : (s.server.slot ev.clientFd).conn with
    | none =>
      refine ⟨_, ?_, .popFree hpc hq (slot_connId_none.mpr hconn)⟩
      rw [Server.drainEvent_free c.toEnv s.now hconn io, ok_bind]
      simp [pure, Except.pure]
    | some conn =>
      obtain ⟨server, closing, x, heq, hslot, hok, hinf, hid, hcl⟩ := Server.drainEvent_live c.toEnv s.now
        (hs.slots ev.clientFd).tracked hconn (hs.done ev (by simp [hq])) io
      rw [heq, ok_bind]
      exact ⟨_, rfl, .popUsed hpc hq (by simp [Slot.connId, hconn]) hslot hok hinf hid hcl⟩

/-- Every step from a state in order is one of `Moves`, and no fault. -/
theorem step_moves {c : Config π} {s : Sys π} {l : Label} {r : Except Fault (Sys π)} (hs : s.Ok)
    (h : s.step c l = some r) :
    ∃ s', r = .ok s' ∧ s.Moves c l s' := by
  cases l with
  | advance d =>
    cases h
    exact ⟨_, rfl, .advance d⟩
  | tickTop top =>
    cases hpc : s.pc with
    | tick atEnd =>
      simp only [step, hpc, Option.map_eq_some_iff] at h
      obtain ⟨s', hstep, rfl⟩ := h
      exact ⟨s', rfl, stepTick_moves hs hpc hstep⟩
    | _ => simp [step, hpc] at h
  | waited events =>
    cases hpc : s.pc with
    | wait ms =>
      simp only [step, hpc, Option.map_eq_some_iff] at h
      obtain ⟨s', hstep, rfl⟩ := h
      exact ⟨s', rfl, stepWait_moves hpc hstep⟩
    | _ => simp [step, hpc] at h
  | event io =>
    cases hpc : s.pc with
    | batch rest =>
      simp only [step, hpc, Option.some.injEq] at h
      obtain ⟨s', hstep, hmoves⟩ := stepEvent_moves hs hpc
      exact ⟨s', h.symm.trans hstep, hmoves⟩
    | _ => simp [step, hpc] at h
  | accept a =>
    cases hpc : s.pc with
    | accepting rest =>
      simp only [step, hpc, Option.map_eq_some_iff] at h
      obtain ⟨s', hstep, rfl⟩ := h
      exact ⟨s', rfl, stepAccept_moves hs hpc hstep⟩
    | _ => simp [step, hpc] at h
  | readEventFd =>
    cases hpc : s.pc with
    | drainRead rest =>
      simp only [step, hpc, Option.some.injEq] at h
      refine ⟨_, h.symm, ?_⟩
      unfold stepReadEventFd
      split
      · exact .readCounter hpc
      · exact .readEnd hpc
    | _ => simp [step, hpc] at h
  | popDone io =>
    cases hpc : s.pc with
    | drainPop rest =>
      simp only [step, hpc, Option.some.injEq] at h
      obtain ⟨s', hstep, hmoves⟩ := stepPopDone_moves hs hpc
      exact ⟨s', h.symm.trans hstep, hmoves⟩
    | _ => simp [step, hpc] at h
  | start j errno =>
    obtain ⟨s', hstep, rfl⟩ := Option.map_eq_some_iff.mp h
    refine ⟨s', rfl, ?_⟩
    unfold stepStart at hstep
    split at hstep
    · split at hstep <;> cases hstep
      exact .start ‹_› ‹_›
    · cases hstep
  | tunnel j ans =>
    obtain ⟨s', hstep, rfl⟩ := Option.map_eq_some_iff.mp h
    refine ⟨s', rfl, ?_⟩
    unfold stepTunnel at hstep
    repeat' split at hstep
    all_goals try cases hstep
    obtain ⟨t', ht, rfl⟩ := Option.map_eq_some_iff.mp hstep
    exact .tunnel ‹_› ‹_› ht
  | push j r =>
    obtain ⟨s', hstep, rfl⟩ := Option.map_eq_some_iff.mp h
    refine ⟨s', rfl, ?_⟩
    unfold stepPush at hstep
    repeat' split at hstep
    all_goals cases hstep
    · exact .forwarded ‹_› ‹_›
    · exact .tunnelled ‹_› ‹_› ‹_›
  | notify j =>
    obtain ⟨s', hstep, rfl⟩ := Option.map_eq_some_iff.mp h
    refine ⟨s', rfl, ?_⟩
    unfold stepNotify at hstep
    repeat' split at hstep
    all_goals cases hstep
    exact .notify ‹_› ‹_›

/-! ## The states in order are kept -/

/-- Changing one slot to one in order keeps all slots in order. -/
theorem slots_update {s : Sys π} {server : Server π} {fd : Int} {x : Slot π} (hs : ∀ i, (s.server.slot i).Ok i)
    (hslot : server.slot = Function.update s.server.slot fd x) (hx : x.Ok fd) (i : Int) : (server.slot i).Ok i := by
  rw [hslot]
  by_cases hi : i = fd
  · subst hi
    rwa [Function.update_self]
  · rw [Function.update_of_ne hi]
    exact hs i

theorem outs_served {s : Sys π} {record : Option OutClose} (hs : s.Ok) (hr : ∀ r, record = some r → r.Sound) :
    ∀ r ∈ s.outCloses ++ record.toList, r.Sound := by
  intro r hmem
  rcases List.mem_append.mp hmem with h | h
  · exact hs.outs r h
  · exact hr r (Option.mem_toList.mp h)

/-- A done event more that asks for the close. -/
theorem done_pushDone {s : Sys π} {ev : DoneEvent} (hs : ∀ ev ∈ s.doneQueue, ev.closeAfterDone = true)
    (hev : ev.closeAfterDone = true) : ∀ ev' ∈ (s.pushDone ev).doneQueue, ev'.closeAfterDone = true := by
  intro ev' hmem
  rcases List.mem_append.mp hmem with h | h
  · exact hs ev' h
  · rwa [List.mem_singleton.mp h]

/-- Every step keeps the state in order. -/
theorem Moves.ok {c : Config π} {s s' : Sys π} {l : Label} (hs : s.Ok) (h : s.Moves c l s') : s'.Ok := by
  cases h with
  | stale _ hslot => exact ⟨fun i => hslot ▸ hs.slots i, hs.done, hs.outs⟩
  | expired _ _ hslot => exact ⟨slots_update hs.slots hslot (Slot.ok_closed ..), hs.done, hs.outs⟩
  | client _ _ _ hslot hok _ hsound => exact ⟨slots_update hs.slots hslot hok, hs.done, outs_served hs hsound⟩
  | @submit fd ev rest io server record x id req _ _ hslot hok _ _ _ _ hsound =>
    have hslots := slots_update hs.slots hslot hok
    unfold submitProxyJob
    cases io.admitted with
    | true => exact ⟨hslots, hs.done, outs_served hs hsound⟩
    | false => exact ⟨hslots, done_pushDone hs.done rfl, outs_served hs hsound⟩
  | accept _ _ hslot hok _ _ => exact ⟨slots_update hs.slots hslot hok, hs.done, hs.outs⟩
  | popFree _ hq _ => exact ⟨hs.slots, fun ev hev => hs.done ev (hq ▸ List.mem_cons_of_mem _ hev), hs.outs⟩
  | popUsed _ hq _ hslot hok _ _ _ =>
    exact ⟨slots_update hs.slots hslot hok, fun ev hev => hs.done ev (hq ▸ List.mem_cons_of_mem _ hev), hs.outs⟩
  | forwarded _ _ => exact ⟨hs.slots, done_pushDone hs.done rfl, hs.outs⟩
  | tunnelled _ _ _ => exact ⟨hs.slots, done_pushDone hs.done rfl, hs.outs⟩
  | _ => exact ⟨hs.slots, hs.done, hs.outs⟩

/-- It holds at the beginning. -/
theorem ok_init (c : Config π) (now : Int) : (c.initSys now).Ok :=
  ⟨fun _ => ⟨.free rfl rfl rfl rfl, fun _ hc => by cases hc⟩, nofun, nofun⟩

end Sys

/-- What a step of the server keeps, besides the order of the state, holds in every state a run reaches, and no run
faults. -/
theorem Config.reachesBy_invariant {c : Config π} {P : Except Fault (Sys π) → Label → Prop} {I : Sys π → Prop}
    (hinit : ∀ now, I (c.initSys now))
    (hstep : ∀ s s' l, s.Ok → I s → P (.ok s) l → s.Moves c l s' → I s') {r : Except Fault (Sys π)}
    (h : c.system.ReachesBy P r) : ∃ s, r = .ok s ∧ s.Ok ∧ I s := by
  refine h.invariant (I := fun r => ∃ s, r = .ok s ∧ s.Ok ∧ I s) ?_ ?_
  · rintro r ⟨now, rfl⟩
    exact ⟨_, rfl, Sys.ok_init c now, hinit now⟩
  · rintro r t l - ⟨s, rfl, hok, hI⟩ hp hs
    obtain ⟨s', rfl, hm⟩ := Sys.step_moves hok hs
    exact ⟨s', rfl, hm.ok hok, hstep s s' l hok hI hp hm⟩

/-- A run given as a list of steps that meet `P`, whose last state is no fault and passes a test. -/
theorem Config.exists_of_execBy {c : Config π} (P : Except Fault (Sys π) → Label → Prop)
    [∀ r l, Decidable (P r l)] (now : Int) (ls : List Label) (p : Sys π → Bool)
    (h : (c.system.execBy P (.ok (c.initSys now)) ls).map (fun r => r.toOption.any p) = some true) :
    ∃ s, c.system.ReachesBy P (.ok s) ∧ p s = true := by
  obtain ⟨r, hr, hp⟩ := Lts.exists_of_execBy P ls _ (show c.system.init _ from ⟨now, rfl⟩) h
  cases r with
  | error f => cases hp
  | ok s => exact ⟨s, hr, hp⟩

/-- A run given as a list of steps, whose last state is no fault and passes a test. -/
theorem Config.exists_of_exec {c : Config π} (now : Int) (ls : List Label) (p : Sys π → Bool)
    (h : (c.system.exec (.ok (c.initSys now)) ls).map (fun r => r.toOption.any p) = some true) :
    ∃ s, c.system.Reachable (.ok s) ∧ p s = true :=
  Config.exists_of_execBy _ now ls p h

end HpServer
