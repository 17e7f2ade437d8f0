import HpServer.Lemmas.ServerSlots

/-!
# What the event loop's branches do

For each branch of the event loop, what it does to the slot of its descriptor: `clientEvent_served` for a client's
event, `drainEvent_used` for a done event, `acceptClient_accepted` and `onTimeout_closed` for a new client and an idle
one. None of them faults on a slot in order.
-/

namespace HpServer

open EpollMask Errno

variable {π : Type}

/-! ## Reading and parsing -/

/-- Reading touches neither the descriptor nor the output. -/
theorem ConnectionIo.recvLoop_output (recvs : List RecvOutcome) (c : ConnectionIo) (total : Nat) :
    (c.recvLoop total recvs).1.fd = c.fd ∧ (c.recvLoop total recvs).1.hasPendingWrite = c.hasPendingWrite := by
  induction recvs generalizing c total with
  | nil => exact ⟨rfl, rfl⟩
  | cons o rest ih =>
    cases o with
    | data bytes =>
      simp only [recvLoop]
      split
      · exact ⟨rfl, rfl⟩
      · exact ih ..
    | eof => exact ⟨rfl, rfl⟩
    | refused e =>
      simp only [recvLoop]
      split <;> exact ⟨rfl, rfl⟩

/-- Reading changes nothing that is to be written. -/
theorem ConnectionIo.readFromSocket_output (c : ConnectionIo) (recvs : List RecvOutcome) :
    (c.readFromSocket recvs).1.fd = c.fd ∧ (c.readFromSocket recvs).1.hasPendingWrite = c.hasPendingWrite := by
  unfold readFromSocket
  split
  · exact ⟨rfl, rfl⟩
  · exact recvLoop_output ..

/-- Two states of one connection with the same output pending. -/
def HttpConn.Alike (c c' : HttpConn π) : Prop :=
  c'.id = c.id ∧ c'.io.fd = c.io.fd ∧ c'.hasPendingWrite = c.hasPendingWrite

/-- Nor does parsing. -/
theorem HttpConn.alike_parseAvailableData (p : RequestParser π) (c : HttpConn π) :
    c.Alike (c.parseAvailableData p).1 := by
  unfold parseAvailableData
  split
  · exact ⟨rfl, rfl, rfl⟩
  · split <;> exact ⟨rfl, rfl, rfl⟩

/-- Nor does the reset for the next message. -/
theorem HttpConn.alike_resetForNextMessage (p : RequestParser π) (c : HttpConn π) :
    c.Alike (c.resetForNextMessage p) := by
  unfold resetForNextMessage
  split <;> exact ⟨rfl, rfl, rfl⟩

theorem HttpConn.queueWrite_fd (c : HttpConn π) (data : Bytes) : (c.queueWrite data).io.fd = c.io.fd := by
  simp only [queueWrite, ConnectionIo.queueWrite]
  split <;> rfl

theorem HttpConn.Alike.trans {a b c : HttpConn π} (hab : a.Alike b) (hbc : b.Alike c) : a.Alike c :=
  ⟨hbc.1.trans hab.1, hbc.2.1.trans hab.2.1, hbc.2.2.trans hab.2.2⟩

/-! ## A client's event -/

/-- A slot in order between two events. -/
structure Slot.Ok (fd : Int) (x : Slot π) : Prop where
  tracked : x.Tracked fd
  settled : x.Settled

theorem Slot.ok_closed (fd : Int) (x : Slot π) : x.closed.Ok fd := ⟨x.tracked_closed fd, x.settled_closed⟩

/-- The connection of a slot goes on, and its flags are as they were. -/
structure Slot.Kept (x x' : Slot π) : Prop where
  connId : x'.connId = x.connId
  inflight : x'.inflight = x.inflight
  closeAfterFlush : x'.closeAfterFlush = x.closeAfterFlush

theorem Slot.Kept.refl (x : Slot π) : x.Kept x := ⟨rfl, rfl, rfl⟩

theorem Slot.Kept.trans {x y z : Slot π} (hxy : x.Kept y) (hyz : y.Kept z) : x.Kept z :=
  ⟨hyz.connId.trans hxy.connId, hyz.inflight.trans hxy.inflight, hyz.closeAfterFlush.trans hxy.closeAfterFlush⟩

/-- What a client's event comes to: the connection is closed, or goes on, or has submitted a request. -/
inductive Slot.Served (x x' : Slot π) : Handled → Prop where
  | closed : x'.conn = none → Served x x' .nothing
  | kept : x.Kept x' → Served x x' .nothing
  | submit (id : Nat) (req : RequestInfo) : x.connId = some id → x'.connId = some id → x.inflight = false →
      x'.inflight = true → Served x x' (.submit req)

/-- Storing a connection's new state keeps the tables in agreement. -/
theorem Slot.Tracked.setConn {fd : Int} {x : Slot π} (h : x.Tracked fd) {c c' : HttpConn π} (hc : x.conn = some c)
    (hfd : c'.io.fd = c.io.fd) (b : Bool) : ({ x with conn := some c', inflight := b } : Slot π).Tracked fd := by
  cases h with
  | free hn => simp [hn] at hc
  | live d e hd hin hfd' ho he hcb =>
    obtain rfl : c = d := Option.some.inj (hc.symm.trans hd)
    exact .live c' e rfl hin (hfd.trans hfd') ho he hcb

/-- Storing a connection with the same output keeps a slot in order. -/
theorem Slot.Ok.setConn {fd : Int} {x : Slot π} (h : x.Ok fd) {c c' : HttpConn π} (hc : x.conn = some c) (ha : c.Alike c')
    (b : Bool) : ({ x with conn := some c', inflight := b } : Slot π).Ok fd := by
  obtain ⟨hp, hw⟩ := h.settled c hc
  refine ⟨h.tracked.setConn hc ha.2.1 b, ?_⟩
  intro d hd
  obtain rfl : c' = d := Option.some.inj hd
  exact ⟨ha.2.2.trans hp, hw⟩

/-- The record of a close by the `EPOLLOUT` branch: nothing was pending, or a `send` or `epoll_ctl` had failed. -/
def OutClose.Sound (r : OutClose) : Prop := r.pending = false ∨ (∃ e, r.error = some (.send e)) ∨ r.error = some .epollCtl

namespace Server

/-- `handle_client` answers -1 on a free descriptor; on a live one the connection stays, and a request is submitted
only when none is in flight. -/
theorem handleClient_live {s : Server π} {fd : Int} (env : Env π) (h : (s.slot fd).Ok fd) {c : HttpConn π}
    (hc : (s.slot fd).conn = some c) (io : Io) :
    ∃ s' handled x', s.handleClient env fd io = .ok (s', handled) ∧ s'.slot = Function.update s.slot fd x' ∧ x'.Ok fd ∧
      (handled = .failed ∨ (s.slot fd).Served x' handled) := by
  have hin := h.tracked.inTable hc
  have hid : ∀ {c' : HttpConn π} {b : Bool}, c.Alike c' →
      ({ s.slot fd with conn := some c', inflight := b } : Slot π).connId = (s.slot fd).connId := by
    intro c' b ha
    simp [Slot.connId, hc, ha.1]
  have hset : ∀ {c' : HttpConn π}, c.Alike c' → ∃ x', (s.setConn fd c').slot = Function.update s.slot fd x' ∧ x'.Ok fd ∧
      (s.slot fd).Served x' .nothing := fun ha =>
    ⟨_, slot_setConn .., h.setConn hc ha _, .kept ⟨hid ha, rfl, rfl⟩⟩
  rw [handleClient, if_neg (by simp [present_of_live hin hc])]
  split
  · exact ⟨s, .nothing, s.slot fd, rfl, (Function.update_eq_self ..).symm, h, .inr (.kept (.refl _))⟩
  · rename_i hinf
    rw [deref_of_live hin hc, ok_bind]
    have hread := c.io.readFromSocket_output io.recvs
    generalize c.io.readFromSocket io.recvs = r at hread ⊢
    obtain ⟨cio, e | n⟩ := r
    · obtain ⟨x', hs, hok, hserved⟩ := hset (show c.Alike { c with io := cio } from ⟨rfl, hread⟩)
      by_cases he : e = eagain
      · exact ⟨_, _, x', rfl, hs, hok, by simp [he, hserved]⟩
      · exact ⟨_, _, x', rfl, hs, hok, by simp [he]⟩
    · have ha : c.Alike { c with io := cio } := ⟨rfl, hread⟩
      have hparse := ha.trans (HttpConn.alike_parseAvailableData env.parser { c with io := cio })
      simp only
      generalize HttpConn.parseAvailableData env.parser { c with io := cio } = r at hparse ⊢
      obtain ⟨c', ok⟩ := r
      obtain ⟨x', hs, hok, hserved⟩ := hset hparse
      cases ok with
      | false => exact ⟨_, _, x', rfl, hs, hok, .inl rfl⟩
      | true =>
        simp only
        split
        · have hreset := hparse.trans (HttpConn.alike_resetForNextMessage env.parser c')
          refine ⟨_, _, { s.slot fd with conn := some (c'.resetForNextMessage env.parser), inflight := true }, rfl, ?_,
            h.setConn hc hreset true, .inr (.submit c.id _ ?_ ?_ (by simpa [slot] using hinf) rfl)⟩
          · funext i
            by_cases hi : i = fd
            · subst hi
              simp [slot, setConn]
            · simp [slot, setConn, hi]
          · simp [Slot.connId, hc]
          · rw [hid hreset]
            simp [Slot.connId, hc]
        · exact ⟨_, _, x', rfl, hs, hok, .inr hserved⟩

/-- Closing a connection in order. -/
theorem closeClient_served {s s' : Server π} {fd : Int} {x : Slot π} (hs : s'.slot = Function.update s.slot fd x)
    (ht : x.Tracked fd) :
    (s'.closeClient fd).slot = Function.update s.slot fd x.closed ∧ x.closed.Ok fd ∧
      (s.slot fd).Served x.closed .nothing := by
  have hx : s'.slot fd = x := by rw [hs, Function.update_self]
  refine ⟨?_, x.ok_closed fd, .closed rfl⟩
  rw [slot_closeClient (by rw [hx]; exact ht.held), hx, hs, Function.update_idem]

/-- The `EPOLLOUT` branch: it ends the event by closing the connection, for a reason, or the connection goes on. -/
theorem outEvent_served {s : Server π} {fd : Int} (h : (s.slot fd).Ok fd) (io : Io) :
    ∃ s' ended record x', s.outEvent fd io = .ok (s', ended, record) ∧ s'.slot = Function.update s.slot fd x' ∧ x'.Ok fd ∧
      (s.slot fd).Served x' .nothing ∧ (ended = false → (s.slot fd).Kept x') ∧ ∀ r, record = some r → r.Sound := by
  cases hconn : (s.slot fd).conn with
  | none =>
    obtain ⟨hs, hok, hserved⟩ := closeClient_served (Function.update_eq_self fd s.slot).symm h.tracked
    refine ⟨_, true, none, _, ?_, hs, hok, hserved, nofun, nofun⟩
    rw [outEvent, flushClientOutput_free hconn, ok_bind]
    simp only [slot] at hconn
    simp only [hconn]
    rfl
  | some c =>
    obtain ⟨s', err, x', heq, hs, hf⟩ := flushClientOutput_live h.tracked (by simp [hconn]) io
    obtain ⟨c', hc'⟩ := Option.isSome_iff_exists.mp hf.live
    have hx : s'.slot fd = x' := by rw [hs, Function.update_self]
    have hconn' : s'.connections fd = some c' := by rw [← hc', ← hx]; rfl
    obtain ⟨hs', hok, hserved⟩ := closeClient_served hs hf.tracked
    rw [outEvent, heq, ok_bind]
    cases err with
    | some e =>
      refine ⟨_, true, some ⟨c'.id, c'.hasPendingWrite, some e⟩, _, by simp only [hconn']; rfl, hs', hok,
        hserved, nofun, ?_⟩
      rintro r ⟨⟩
      cases e with
      | noEntry => exact absurd rfl hf.noEntry
      | send errno => exact .inr (.inl ⟨errno, rfl⟩)
      | epollCtl => exact .inr (.inr rfl)
    | none =>
      have hin : InTable fd := hf.tracked.inTable hc'
      have hcl : s'.closeAfterFlush fd = (s.slot fd).closeAfterFlush := by rw [← hf.closeAfterFlush, ← hx]; rfl
      have hsettled := fun hp => (show x'.Ok fd from ⟨hf.tracked, hf.settled hc' hp⟩)
      have hkept : (s.slot fd).Kept x' := ⟨hf.connId, hf.inflight, hf.closeAfterFlush⟩
      by_cases hclose : (s.slot fd).closeAfterFlush = true
      · simp only [hin, hcl, hclose, and_self, if_true, deref_of_live hin hconn', ok_bind]
        by_cases hp : c'.hasPendingWrite = true
        · exact ⟨s', false, none, x', by simp [hp, pure, Except.pure], hs, hsettled (hp.trans hclose.symm),
            .kept hkept, fun _ => hkept, nofun⟩
        · refine ⟨_, true, some ⟨c'.id, false, none⟩, _, by simp [hp, pure, Except.pure], hs', hok, hserved, nofun, ?_⟩
          rintro r ⟨⟩
          exact .inl rfl
      · have hp : c'.hasPendingWrite = false := hf.idle c hconn (by simpa [hclose] using (h.settled c hconn).1) c' hc'
        exact ⟨s', false, none, x', by simp [hcl, hclose, pure, Except.pure], hs, hsettled (by simpa [hp] using hclose),
          .kept hkept, fun _ => hkept, nofun⟩

/-- The `EPOLLIN` branch. -/
theorem inEvent_served {s : Server π} {fd : Int} (env : Env π) (h : (s.slot fd).Ok fd) (io : Io) :
    ∃ s' handled x', s.inEvent env fd io = .ok (s', handled) ∧ s'.slot = Function.update s.slot fd x' ∧ x'.Ok fd ∧
      (s.slot fd).Served x' handled := by
  cases hconn : (s.slot fd).conn with
  | none =>
    obtain ⟨hs, hok, hserved⟩ := closeClient_served (Function.update_eq_self fd s.slot).symm h.tracked
    refine ⟨_, .nothing, _, ?_, hs, hok, hserved⟩
    rw [inEvent, handleClient, if_pos (present_of_free hconn), ok_bind]
    rfl
  | some c =>
    obtain ⟨s', handled, x', heq, hs, hok, hserved⟩ := handleClient_live env h hconn io
    rw [inEvent, heq, ok_bind]
    rcases hserved with rfl | hserved
    · obtain ⟨hs', hok', hserved'⟩ := closeClient_served hs hok.tracked
      exact ⟨_, _, _, rfl, hs', hok', hserved'⟩
    · refine ⟨s', handled, x', ?_, hs, hok, hserved⟩
      cases hserved <;> rfl

/-- A new deadline, if one is given, keeps a slot in order, with its connection. -/
theorem refreshed_ok {s : Server π} {fd : Int} (p : Prop) [Decidable p] (now : Int) (h : (s.slot fd).Ok fd) :
    ∃ x', (if p then s.refreshClientTimeout now fd else s).slot = Function.update s.slot fd x' ∧ x'.Ok fd ∧
      (s.slot fd).Kept x' := by
  split
  · obtain ⟨x', hs, hx, ht⟩ := slot_refreshClientTimeout now h.tracked
    refine ⟨x', hs, ⟨ht, ?_⟩, by rw [hx]; exact ⟨rfl, rfl, rfl⟩⟩
    rw [hx]
    exact h.settled
  · exact ⟨s.slot fd, (Function.update_eq_self ..).symm, h, .refl _⟩

end Server

/-- What follows an event that kept the connection decides what both come to. -/
theorem Slot.Served.of_kept {x y z : Slot π} {handled : Handled} (h : y.Served z handled) (hk : x.Kept y) :
    x.Served z handled := by
  cases h with
  | closed hz => exact .closed hz
  | kept h => exact .kept (hk.trans h)
  | submit id req h1 h2 h3 h4 => exact .submit id req (hk.connId ▸ h1) h2 (hk.inflight ▸ h3) h4

namespace Server

/-- The client branch of the event loop. It submits a request only on an event that says the descriptor is readable. -/
theorem clientEvent_served {s : Server π} {fd : Int} (env : Env π) (now : Int) (h : (s.slot fd).Ok fd) (ev : EpollMask)
    (io : Io) :
    ∃ s' handled record x', s.clientEvent env now fd ev io = .ok (s', handled, record) ∧
      s'.slot = Function.update s.slot fd x' ∧ x'.Ok fd ∧ (s.slot fd).Served x' handled ∧
      (∀ r, record = some r → r.Sound) ∧ ∀ req, handled = .submit req → ev.Readable := by
  unfold clientEvent
  split
  · obtain ⟨hs, hok, hserved⟩ := closeClient_served (Function.update_eq_self fd s.slot).symm h.tracked
    exact ⟨_, _, _, _, rfl, hs, hok, hserved, nofun, nofun⟩
  · rename_i herr
    have hfirst := refreshed_ok (ev &&& (epollIn ||| epollOut) ≠ 0) now h
    generalize (if ev &&& (epollIn ||| epollOut) ≠ 0 then s.refreshClientTimeout now fd else s) = s₁ at hfirst ⊢
    obtain ⟨x₁, hs₁, hok₁, hkept₁⟩ := hfirst
    obtain rfl : s₁.slot fd = x₁ := by rw [hs₁, Function.update_self]
    have hsecond : ∃ s₂ ended record x₂,
        (if ev &&& epollOut ≠ 0 then s₁.outEvent fd io else .ok (s₁, false, none)) = .ok (s₂, ended, record) ∧
        s₂.slot = Function.update s₁.slot fd x₂ ∧ x₂.Ok fd ∧ (s₁.slot fd).Served x₂ .nothing ∧
        (ended = false → (s₁.slot fd).Kept x₂) ∧ ∀ r, record = some r → r.Sound := by
      split
      · exact outEvent_served hok₁ io
      · exact ⟨s₁, false, none, s₁.slot fd, rfl, (Function.update_eq_self ..).symm, hok₁, .kept (.refl _),
          fun _ => .refl _, nofun⟩
    obtain ⟨s₂, ended, record, x₂, heq₂, hs₂, hok₂, hserved₂, hkept₂, hsound⟩ := hsecond
    obtain rfl : s₂.slot fd = x₂ := by rw [hs₂, Function.update_self]
    have hupd : s₂.slot = Function.update s.slot fd (s₂.slot fd) := by
      rw [hs₂, hs₁, Function.update_idem, Function.update_self]
    simp only [heq₂, ok_bind]
    split
    · rename_i hin
      obtain ⟨s₃, handled, x₃, heq₃, hs₃, hok₃, hserved₃⟩ := inEvent_served env hok₂ io
      refine ⟨s₃, handled, record, x₃, by rw [heq₃]; rfl, ?_, hok₃,
        hserved₃.of_kept (hkept₁.trans (hkept₂ hin.1)), hsound, fun _ _ => ⟨hin.2, not_not.mp herr⟩⟩
      rw [hs₃, hupd, Function.update_idem]
    · exact ⟨s₂, .nothing, record, _, rfl, hupd, hok₂, hserved₂.of_kept hkept₁, hsound, nofun⟩

/-- While a request is in flight, an event with nothing but `EPOLLIN` leaves the connection alone. -/
theorem clientEvent_inflight {s s' : Server π} {fd now : Int} {env : Env π} {ev : EpollMask} {io : Io} {handled : Handled}
    {record : Option OutClose} (h : (s.slot fd).Ok fd) (hlive : (s.slot fd).conn.isSome)
    (hinf : (s.slot fd).inflight = true) (hev : ev &&& (epollErr ||| epollHup ||| epollRdhup ||| epollOut) = 0)
    (heq : s.clientEvent env now fd ev io = .ok (s', handled, record)) :
    (s'.slot fd).connId = (s.slot fd).connId ∧ (s'.slot fd).inflight = true ∧ handled = .nothing := by
  rw [BitVec.and_or_distrib_left] at hev
  obtain ⟨herr, hout⟩ : ev &&& (epollErr ||| epollHup ||| epollRdhup) = 0 ∧ ev &&& epollOut = 0 :=
    BitVec.or_eq_zero_iff.mp hev
  have hfirst := refreshed_ok (ev &&& (epollIn ||| epollOut) ≠ 0) now h
  rw [clientEvent, if_neg (not_not.mpr herr)] at heq
  generalize (if ev &&& (epollIn ||| epollOut) ≠ 0 then s.refreshClientTimeout now fd else s) = s₁ at hfirst heq
  obtain ⟨x₁, hs₁, hok₁, hid₁, hinf₁, -⟩ := hfirst
  obtain rfl : s₁.slot fd = x₁ := by rw [hs₁, Function.update_self]
  obtain ⟨c₁, hc₁⟩ : ∃ c₁, (s₁.slot fd).conn = some c₁ := by
    rw [← Option.isSome_iff_exists, ← Option.isSome_map (f := HttpConn.id)]
    exact (congrArg Option.isSome hid₁).trans ((Option.isSome_map ..).trans hlive)
  have hin : s₁.inEvent env fd io = .ok (s₁, .nothing) := by
    rw [inEvent, handleClient, if_neg (by simp [present_of_live (hok₁.tracked.inTable hc₁) hc₁]),
      if_pos (show s₁.proxyInflight fd = true from hinf₁.trans hinf), ok_bind]
    rfl
  have hs' : s₁ = s' ∧ Handled.nothing = handled := by
    simp only [hout, ne_eq, not_true_eq_false, if_false, ok_bind, true_and, hin] at heq
    split at heq <;> cases heq <;> exact ⟨rfl, rfl⟩
  obtain ⟨rfl, rfl⟩ := hs'
  exact ⟨hid₁, hinf₁.trans hinf, rfl⟩

end Server

/-! ## A done event -/

/-- What a done event puts on the connection it is used on. -/
def DoneEvent.output (env : Env π) (ev : DoneEvent) : Bytes :=
  if ev.ok = false then
    if ev.isConnect && isExpectedConnectShutdownErrno ev.err then []
    else MessageBuilder.buildServiceUnavailableResponse (env.strerror ev.err)
  else ev.response

namespace Server

/-- Flushing the output of a done event and closing: the connection is closed, or waits with output pending to be
closed after it. -/
theorem flushAndClose_live {s : Server π} {fd : Int} (now : Int) (h : (s.slot fd).Tracked fd)
    (hl : (s.slot fd).conn.isSome) (hinf : (s.slot fd).inflight = false) (io : Io) :
    ∃ s' closing x', s.flushAndClose now fd true io = .ok (s', closing) ∧
      s'.slot = Function.update s.slot fd x' ∧ x'.Ok fd ∧
      x'.inflight = false ∧ (x'.connId = none ∨ x'.connId = (s.slot fd).connId ∧ x'.closeAfterFlush = true) ∧
      closing ≠ .kept := by
  obtain ⟨s', err, x', heq, hs, hf⟩ := flushClientOutput_live h hl io
  obtain ⟨c', hc'⟩ := Option.isSome_iff_exists.mp hf.live
  have hx : s'.slot fd = x' := by rw [hs, Function.update_self]
  have hconn' : s'.connections fd = some c' := by rw [← hc', ← hx]; rfl
  have hin : InTable fd := hf.tracked.inTable hc'
  obtain ⟨hs', hok, -⟩ := closeClient_served hs hf.tracked
  rw [flushAndClose, heq, ok_bind]
  cases err with
  | some e => exact ⟨_, .closed, _, rfl, hs', hok, rfl, .inl rfl, by decide⟩
  | none =>
    simp only [ne_eq, not_true_eq_false, if_false, if_true, deref_of_live hin hconn', ok_bind]
    by_cases hp : c'.hasPendingWrite = true
    · refine ⟨_, .afterFlush, { x' with closeAfterFlush := true }, by rw [if_pos hp]; rfl, ?_, ⟨?_, ?_⟩, ?_,
        .inr ⟨hf.connId, rfl⟩, by decide⟩
      · funext i
        by_cases hi : i = fd
        · subst hi
          simp [← hx, slot]
        · simpa [slot, hi] using congrFun hs i
      · cases hf.tracked with
        | free hn => simp [hn] at hc'
        | live c e hc hin hfd ho he hcb => exact .live c e hc hin hfd ho he hcb
      · rintro d hd
        obtain rfl : c' = d := Option.some.inj (hc'.symm.trans hd)
        exact ⟨hp, (hf.wantsOut rfl c' hc').trans hp⟩
      · exact hf.inflight.trans hinf
    · exact ⟨_, .closed, _, by rw [if_neg hp]; rfl, hs', hok, rfl, .inl rfl, by decide⟩

/-- On a free slot a done event is dropped. -/
theorem drainEvent_free {s : Server π} {ev : DoneEvent} (env : Env π) (now : Int) (hc : (s.slot ev.clientFd).conn = none)
    (io : Io) : s.drainEvent env now ev io = .ok (s, none) := by
  rw [drainEvent, if_pos (present_of_free hc)]

/-- A done event on a live descriptor: no request is in flight any more, and the connection is closed or waits to be. -/
theorem drainEvent_live {s : Server π} {ev : DoneEvent} (env : Env π) (now : Int)
    (h : (s.slot ev.clientFd).Tracked ev.clientFd) {c : HttpConn π} (hc : (s.slot ev.clientFd).conn = some c)
    (hev : ev.closeAfterDone = true) (io : Io) :
    ∃ s' closing x', s.drainEvent env now ev io = .ok (s', some ⟨ev, c.id, ev.output env, closing⟩) ∧
      s'.slot = Function.update s.slot ev.clientFd x' ∧ x'.Ok ev.clientFd ∧ x'.inflight = false ∧
      (x'.connId = none ∨ x'.connId = some c.id ∧ x'.closeAfterFlush = true) ∧ closing ≠ .kept := by
  have hin := h.inTable hc
  generalize hfd : ev.clientFd = fd at h hc hin ⊢
  obtain ⟨s₀, hs₀⟩ : ∃ s₀ : Server π, s₀ = { s with proxyInflight := Function.update s.proxyInflight fd false } :=
    ⟨_, rfl⟩
  have hslot : s₀.slot = Function.update s.slot fd { s.slot fd with inflight := false } := by
    rw [hs₀]
    funext i
    by_cases hi : i = fd
    · subst hi
      simp [slot]
    · simp [slot, hi]
  have hx₀ : s₀.slot fd = { s.slot fd with inflight := false } := by rw [hslot, Function.update_self]
  have hflush : ∀ out : Bytes, ∃ s' closing x', (s₀.setConn fd (c.queueWrite out)).flushAndClose now fd true io =
      .ok (s', closing) ∧ s'.slot = Function.update s.slot fd x' ∧ x'.Ok fd ∧ x'.inflight = false ∧
      (x'.connId = none ∨ x'.connId = some c.id ∧ x'.closeAfterFlush = true) ∧ closing ≠ .kept := by
    intro out
    have hs₁ : (s₀.setConn fd (c.queueWrite out)).slot =
        Function.update s.slot fd { s.slot fd with conn := some (c.queueWrite out), inflight := false } := by
      rw [slot_setConn, hx₀, hslot, Function.update_idem]
    have hx₁ : (s₀.setConn fd (c.queueWrite out)).slot fd =
        { s.slot fd with conn := some (c.queueWrite out), inflight := false } := by
      rw [hs₁, Function.update_self]
    obtain ⟨s', closing, x', heq, hs', hok, hinf, hid, hcl⟩ := flushAndClose_live now
      (by rw [hx₁]; exact h.setConn hc (HttpConn.queueWrite_fd c out) false) (by rw [hx₁]; rfl) (by rw [hx₁]) io
    refine ⟨s', closing, x', heq, by rw [hs', hs₁, Function.update_idem], hok, hinf, ?_, hcl⟩
    rw [hx₁] at hid
    exact hid
  have hder : s₀.deref fd = .ok c := deref_of_live hin (by rw [hs₀]; exact hc)
  rw [drainEvent]
  simp only [hfd, present_of_live hin hc, ← hs₀, hder, ok_bind, DoneEvent.output, hev]
  simp only [Bool.true_eq_false, if_false]
  split
  · split
    · have ht₀ := h.setConn hc rfl false
      rw [← hc] at ht₀
      obtain ⟨hs', hok, -⟩ := closeClient_served hslot ht₀
      exact ⟨_, .closed, _, rfl, hs', hok, rfl, .inl rfl, by decide⟩
    · obtain ⟨s', closing, x', heq, hrest⟩ :=
        hflush (MessageBuilder.buildServiceUnavailableResponse (env.strerror ev.err))
      exact ⟨s', closing, x', by rw [heq]; rfl, hrest⟩
  · obtain ⟨s', closing, x', heq, hrest⟩ := hflush ev.response
    exact ⟨s', closing, x', by rw [heq]; rfl, hrest⟩

/-! ## New clients and idle ones -/

/-- A descriptor that is not open has no connection. -/
theorem free_of_not_open {s : Server π} {fd : Int} (h : (s.slot fd).Tracked fd) (ho : s.isOpen fd = false) :
    (s.slot fd).conn = none := by
  cases h with
  | free hc => exact hc
  | live _ _ _ _ _ ho' =>
    have ho'' : s.isOpen fd = true := ho'
    rw [ho] at ho''
    cases ho''

/-- A client that is admitted gets a connection with nothing in flight; one that is not leaves no trace. -/
theorem acceptClient_accepted {s : Server π} {fd : Int} (env : Env π) (now : Int) (id : Nat) (h : (s.slot fd).Ok fd)
    (ho : s.isOpen fd = false) (adm : Admission) :
    ∃ x', (s.acceptClient env now fd id adm).slot = Function.update s.slot fd x' ∧ x'.Ok fd ∧ x'.inflight = false ∧
      (x'.connId = some id ∧ adm = .admitted ∨ x' = s.slot fd ∧ x'.connId = none) := by
  have hc := free_of_not_open h.tracked ho
  have hinf : (s.slot fd).inflight = false := (h.tracked.held.free hc).1
  have hcl : (s.slot fd).closeAfterFlush = false := (h.tracked.held.free hc).2
  have he : (s.slot fd).entry = none := by
    cases h.tracked with
    | free _ _ _ he => exact he
    | live _ _ hc' => simp [hc] at hc'
  have hsame : ∃ x', s.slot = Function.update s.slot fd x' ∧ x'.Ok fd ∧ x'.inflight = false ∧
      (x'.connId = some id ∧ adm = .admitted ∨ x' = s.slot fd ∧ x'.connId = none) :=
    ⟨s.slot fd, (Function.update_eq_self ..).symm, h, hinf, .inr ⟨rfl, by simp [Slot.connId, hc]⟩⟩
  cases adm with
  | blocked => exact hsame
  | setupFailed => exact hsame
  | admitted =>
    rw [acceptClient]
    split
    · rename_i hin
      obtain ⟨c, hcid, hcfd, hcp⟩ : ∃ c : HttpConn π, c.id = id ∧ c.io.fd = fd ∧ c.hasPendingWrite = false ∧
        c = { io := { fd := fd }, parser := env.parser.init, id := id } := ⟨_, rfl, rfl, rfl, rfl⟩
      refine ⟨{ s.slot fd with conn := some c, entry := some ⟨now + Timer.milliseconds kClientIdleTimeoutMs, fd,
          s.connectionTimer.nextVersion fd⟩, interest := some kClientEvents, isOpen := true }, ?_,
        ⟨.live c _ rfl hin hcfd rfl rfl rfl, ?_⟩, hinf, .inl ⟨by simp [Slot.connId, hcid], rfl⟩⟩
      · have hc' : s.connections fd = none := hc
        have he' : s.connectionTimer.entries.lookup fd = none := he
        rw [refreshClientTimeout, if_neg (by simp [present, hin, setConn]),
          if_neg (by simp [setConn, Timer.contains, he'])]
        funext i
        by_cases hi : i = fd
        · subst hi
          simp [slot, setConn, Timer.lookup_add hin.1, hc', hcp]
        · simp [slot, setConn, Timer.lookup_add hin.1, hi]
      · rintro d hd
        obtain rfl : c = d := Option.some.inj hd
        have hout : decide (kClientEvents &&& epollOut ≠ 0) = false := by decide
        exact ⟨hcp.1.trans hcl.symm, hout.trans hcl.symm⟩
    · exact hsame

/-- The callback of a live connection's timer entry closes the connection. -/
theorem onTimeout_closed {s s' : Server π} {fd : Int} (h : (s.slot fd).Tracked fd) {c : HttpConn π}
    (hc : (s.slot fd).conn = some c) (hs : s'.slot = Function.update s.slot fd { s.slot fd with entry := none }) :
    (s'.onTimeout fd).slot = Function.update s.slot fd (s.slot fd).closed := by
  have hx : s'.slot fd = { s.slot fd with entry := none } := by rw [hs, Function.update_self]
  have hc' : (s'.slot fd).conn = some c := by rw [hx]; exact hc
  have hheld : (s'.slot fd).Held fd := by
    rw [hx]
    exact ⟨h.held.live, h.held.free⟩
  rw [onTimeout, if_neg (by simp [present_of_live (h.inTable hc) hc']), slot_closeClient hheld, hx, hs,
    Function.update_idem]
  rfl

end Server
end HpServer
