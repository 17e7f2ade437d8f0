import HpServer.Server

/-!
# What the handlers do to one descriptor

Every handler of the reactor is about one descriptor. `Server.slot` is all that is kept for a descriptor,
`Slot.Tracked` and `Slot.Settled` say that it is in order, and each handler has one lemma: on a descriptor in order it
does not fault, changes only its own slot, and leaves it in order.
-/

namespace HpServer

open EpollMask Errno

/-- A computation that has succeeded goes on with its value. -/
@[simp] theorem ok_bind {ε α β : Type} (a : α) (f : α → Except ε β) : (Except.ok a >>= f) = f a := rfl

/-! ## The flush of a connection -/

namespace ConnectionIo

/-- How the loop of `send` ends: an error leaves output behind, sending nothing changes nothing, and sending something
uses up an answer. -/
inductive Sends (c : ConnectionIo) (total : Nat) (sends : List SendOutcome) :
    ConnectionIo × Except Nat Nat × List SendOutcome → Prop where
  | error {c' : ConnectionIo} {rest : List SendOutcome} (e : Nat) :
      c'.fd = c.fd → c'.hasPendingWrite = true → Sends c total sends (c', .error e, rest)
  | nothing {rest : List SendOutcome} : rest.length ≤ sends.length → Sends c total sends (c, .ok total, rest)
  | some {c' : ConnectionIo} {rest : List SendOutcome} {n : Nat} :
      c'.fd = c.fd → total < n → rest.length < sends.length → Sends c total sends (c', .ok n, rest)

/-- `send_loop` is one of these, whatever the socket answers. -/
theorem sendLoop_sends (sends : List SendOutcome) (c : ConnectionIo) (total : Nat) :
    Sends c total sends (c.sendLoop total sends) := by
  induction sends generalizing c total with
  | nil => exact .nothing (Nat.le_refl _)
  | cons o rest ih =>
    simp only [sendLoop]
    split
    · rename_i hlt
      cases o with
      | accepted n =>
        have hpos : 0 < min (n + 1) (c.writeBuffer.length - c.writeOffset) := by omega
        have hrest := ih { c with writeOffset := c.writeOffset + min (n + 1) (c.writeBuffer.length - c.writeOffset) }
          (total + min (n + 1) (c.writeBuffer.length - c.writeOffset))
        simp only
        generalize sendLoop _ _ rest = r at hrest ⊢
        cases hrest with
        | error e hfd hp => exact .error e hfd hp
        | nothing hle => exact .some rfl (by omega) (by rw [List.length_cons]; omega)
        | some hfd hlt hle => exact .some hfd (by omega) (by rw [List.length_cons]; omega)
      | refused e =>
        simp only
        split
        · exact .nothing (by simp)
        · exact .error e rfl (by simp [hasPendingWrite, hlt])
      | zero e => exact .error e rfl (by simp [hasPendingWrite, hlt])
    · exact .nothing (Nat.le_refl _)

@[simp] theorem fd_compact (c : ConnectionIo) : c.compact.fd = c.fd := by
  unfold compact
  split <;> rfl

/-- Nothing is compacted while bytes are pending. -/
theorem compact_of_pending {c : ConnectionIo} (h : c.hasPendingWrite = true) : c.compact = c := by
  simp only [hasPendingWrite, decide_eq_true_eq] at h
  rw [compact, if_neg (by omega)]

/-- `flush_to_socket` of a valid connection with output ends as its loop does. -/
theorem flushToSocket_sends {c : ConnectionIo} (hfd : 0 ≤ c.fd) (hp : c.hasPendingWrite = true)
    (sends : List SendOutcome) :
    Sends c 0 sends (c.flushToSocket sends) := by
  rw [flushToSocket, if_neg (by omega)]
  have hs := sendLoop_sends sends c 0
  generalize c.sendLoop 0 sends = r at hs ⊢
  cases hs with
  | error e hf hpe => exact .error e hf hpe
  | nothing hle =>
    simp only [compact_of_pending hp]
    exact .nothing hle
  | some hf hlt hle => exact .some (by simpa using hf) hlt hle

end ConnectionIo

/-- Without output there is nothing to flush. -/
theorem flushLoop_idle {fuel : Nat} {c : ConnectionIo} (hp : c.hasPendingWrite = false) (sends : List SendOutcome) :
    (Server.flushLoop (fuel + 1) c sends).1 = c := by
  simp [Server.flushLoop, hp]

/-- The loop of `flush_client_output` keeps the descriptor; it ends with everything sent, with output that waits for
the socket, or with an error, and never for want of fuel. -/
theorem flushLoop_fuel {fuel : Nat} {c : ConnectionIo} {sends : List SendOutcome} (hfd : 0 ≤ c.fd)
    (hfuel : sends.length < fuel) :
    (Server.flushLoop fuel c sends).1.fd = c.fd ∧ (Server.flushLoop fuel c sends).2 ≠ .outOfFuel ∧
      ((Server.flushLoop fuel c sends).2 = .done → (Server.flushLoop fuel c sends).1.hasPendingWrite = false) ∧
      ((Server.flushLoop fuel c sends).2 = .blocked → (Server.flushLoop fuel c sends).1.hasPendingWrite = true) := by
  induction fuel generalizing c sends with
  | zero => omega
  | succ fuel ih =>
    simp only [Server.flushLoop]
    split
    · rename_i hp
      have hs := ConnectionIo.flushToSocket_sends hfd hp sends
      generalize c.flushToSocket sends = r at hs ⊢
      cases hs with
      | error e hf hpe =>
        simp only
        split <;> simp [hf, hpe]
      | nothing hle => simp [hp]
      | some hf hlt hle =>
        simp only [hlt, if_true]
        rw [← hf]
        exact ih (by omega) (by omega)
    · rename_i hp
      simpa using hp

/-! ## Slots -/

/-- What the reactor and the kernel keep for one descriptor. -/
structure Slot (π : Type) where
  conn : Option (HttpConn π)
  inflight : Bool
  closeAfterFlush : Bool
  entry : Option (Timer.Entry Int)
  interest : Option EpollMask
  isOpen : Bool

variable {π : Type}

/-- The slot of a descriptor. -/
def Server.slot (s : Server π) (fd : Int) : Slot π where
  conn := s.connections fd
  inflight := s.proxyInflight fd
  closeAfterFlush := s.closeAfterFlush fd
  entry := s.connectionTimer.entries.lookup fd
  interest := s.interest fd
  isOpen := s.isOpen fd

namespace Slot

/-- The descriptor was last registered for `EPOLLOUT`. -/
def wantsOut (x : Slot π) : Bool := x.interest.any fun m => m &&& epollOut ≠ 0

/-- The number of the connection, if there is one. -/
def connId (x : Slot π) : Option Nat := x.conn.map HttpConn.id

/-- What `close_client` leaves. -/
def closed (x : Slot π) : Slot π where
  conn := none
  inflight := false
  closeAfterFlush := false
  entry := none
  interest := none
  isOpen := x.isOpen && x.conn.isNone

/-- The tables agree on a descriptor: it is free in all of them, or it is the open descriptor of a connection that has
a timer. -/
inductive Tracked (fd : Int) (x : Slot π) : Prop where
  | free : x.conn = none → x.inflight = false → x.closeAfterFlush = false → x.entry = none → Tracked fd x
  | live (c : HttpConn π) (e : Timer.Entry Int) : x.conn = some c → InTable fd → c.io.fd = fd → x.isOpen = true →
      x.entry = some e → e.callback = fd → Tracked fd x

/-- The part of `Tracked` that does not look at the timer. -/
structure Held (fd : Int) (x : Slot π) : Prop where
  live : ∀ c, x.conn = some c → InTable fd ∧ c.io.fd = fd
  free : x.conn = none → x.inflight = false ∧ x.closeAfterFlush = false

/-- `Tracked` without what it says about the timer. -/
theorem Tracked.held {fd : Int} {x : Slot π} (h : x.Tracked fd) : x.Held fd := by
  cases h with
  | free hc hf hcl he => exact ⟨fun c hc' => by simp [hc] at hc', fun _ => ⟨hf, hcl⟩⟩
  | live c e hc hin hfd ho he hcb =>
    refine ⟨fun d hd => ?_, fun hn => by simp [hn] at hc⟩
    obtain rfl : c = d := Option.some.inj (hc.symm.trans hd)
    exact ⟨hin, hfd⟩

/-- Output is pending exactly when the connection is to be closed after the flush, and when `EPOLLOUT` is asked for. -/
def Settled (x : Slot π) : Prop :=
  ∀ c, x.conn = some c → c.hasPendingWrite = x.closeAfterFlush ∧ x.wantsOut = x.closeAfterFlush

theorem tracked_closed (fd : Int) (x : Slot π) : x.closed.Tracked fd := .free rfl rfl rfl rfl

theorem settled_closed (x : Slot π) : x.closed.Settled := fun c hc => by cases hc

theorem Tracked.inTable {fd : Int} {x : Slot π} (h : x.Tracked fd) {c : HttpConn π} (hc : x.conn = some c) : InTable fd :=
  (h.held.live c hc).1

end Slot

namespace Server

/-- A live connection is present. -/
theorem present_of_live {s : Server π} {fd : Int} {c : HttpConn π} (hin : InTable fd) (hc : s.connections fd = some c) :
    s.present fd = true := by
  simp [present, hin, hc]

/-- A free slot is not. -/
theorem present_of_free {s : Server π} {fd : Int} (hc : s.connections fd = none) : s.present fd = false := by
  simp [present, hc]

/-- A live connection can be taken hold of. -/
theorem deref_of_live {s : Server π} {fd : Int} {c : HttpConn π} (hin : InTable fd) (hc : s.connections fd = some c) :
    s.deref fd = .ok c := by
  simp [deref, hin, hc]

/-- Only its own slot changes. -/
theorem slot_setConn (s : Server π) (fd : Int) (c : HttpConn π) :
    (s.setConn fd c).slot = Function.update s.slot fd { s.slot fd with conn := some c } := by
  funext i
  by_cases hi : i = fd
  · subst hi
    simp [slot, setConn]
  · simp [slot, setConn, hi]

/-- `close_client` frees the slot of its descriptor and touches no other. -/
theorem slot_closeClient {s : Server π} {fd : Int} (h : (s.slot fd).Held fd) :
    (s.closeClient fd).slot = Function.update s.slot fd (s.slot fd).closed := by
  obtain ⟨hlive, hfree⟩ := h
  funext i
  cases hconn : (s.slot fd).conn with
  | none =>
    obtain ⟨hf, hcl⟩ := hfree hconn
    simp only [slot] at hconn hf hcl
    by_cases hi : i = fd
    · subst hi
      by_cases hin : InTable i <;> simp [slot, closeClient, Slot.closed, Timer.lookup_remove, hin, hconn, hf, hcl]
    · by_cases hin : InTable fd <;> simp [slot, closeClient, Timer.lookup_remove, hi, hin, hconn]
  | some c =>
    obtain ⟨hin, hfd⟩ := hlive c hconn
    simp only [slot] at hconn
    by_cases hi : i = fd
    · subst hi
      simp [slot, closeClient, Slot.closed, Timer.lookup_remove, hin, hconn, hfd]
    · simp [slot, closeClient, Timer.lookup_remove, hi, hin, hconn, hfd]

/-- `refresh_client_timeout` gives the entry of a live descriptor a new deadline. -/
theorem slot_refreshClientTimeout {s : Server π} {fd : Int} (now : Int) (h : (s.slot fd).Tracked fd) :
    ∃ x, (s.refreshClientTimeout now fd).slot = Function.update s.slot fd x ∧
      x = { s.slot fd with entry := x.entry } ∧ x.Tracked fd := by
  cases h with
  | free hc hf hcl he =>
    refine ⟨s.slot fd, ?_, rfl, .free hc hf hcl he⟩
    rw [refreshClientTimeout, if_pos (present_of_free hc), Function.update_eq_self]
  | live c e hc hin hfd ho he hcb =>
    have he' : s.connectionTimer.entries.lookup fd = some e := he
    refine ⟨{ s.slot fd with entry := some ⟨now + Timer.milliseconds kClientIdleTimeoutMs, e.callback,
      s.connectionTimer.nextVersion fd⟩ }, ?_, rfl, .live c _ hc hin hfd ho rfl hcb⟩
    rw [refreshClientTimeout, if_neg (by simp [present_of_live hin hc]), if_pos (by simp [Timer.contains, he'])]
    funext i
    by_cases hi : i = fd
    · subst hi
      simp [slot, Timer.lookup_adjust he']
    · simp [slot, Timer.lookup_adjust he', hi]

/-- `modify` changes the interest, if the call succeeds. -/
theorem slot_modify (s : Server π) (fd : Int) (events : EpollMask) (ctlOk : Bool) :
    ∃ m, (s.modify fd events ctlOk).1.slot = Function.update s.slot fd { s.slot fd with interest := m } ∧
      ((s.modify fd events ctlOk).2 = none → m = some events) ∧ (s.modify fd events ctlOk).2 ≠ some .noEntry := by
  cases ctlOk with
  | false => exact ⟨s.interest fd, by simp [modify, slot], by simp [modify], by simp [modify]⟩
  | true =>
    refine ⟨some events, ?_, fun _ => rfl, by simp [modify]⟩
    funext i
    by_cases hi : i = fd
    · subst hi
      simp [modify, slot]
    · simp [modify, slot, hi]

end Server

/-- What a flush does to the slot of a live connection: it changes the connection's output and the registered events,
and these agree unless it failed. -/
structure Slot.Flushed (fd : Int) (x : Slot π) (err : Option FlushError) (x' : Slot π) : Prop where
  tracked : x'.Tracked fd
  connId : x'.connId = x.connId
  inflight : x'.inflight = x.inflight
  closeAfterFlush : x'.closeAfterFlush = x.closeAfterFlush
  idle : ∀ c, x.conn = some c → c.hasPendingWrite = false → ∀ c', x'.conn = some c' → c'.hasPendingWrite = false
  wantsOut : err = none → ∀ c, x'.conn = some c → x'.wantsOut = c.hasPendingWrite
  live : x'.conn.isSome
  noEntry : err ≠ some .noEntry

/-- A flush that did not fail settles the slot if what is left to send is to be sent before the close. -/
theorem Slot.Flushed.settled {fd : Int} {x x' : Slot π} (h : x.Flushed fd none x') {c : HttpConn π}
    (hc : x'.conn = some c) (hp : c.hasPendingWrite = x.closeAfterFlush) : x'.Settled := by
  intro d hd
  obtain rfl : c = d := Option.some.inj (hc.symm.trans hd)
  rw [h.wantsOut rfl c hc, h.closeAfterFlush]
  exact ⟨hp, hp⟩

/-- A connection without output that keeps its buffers has none afterwards. -/
theorem Slot.idle_of_io {x x' : Slot π} {c : HttpConn π} {cio : ConnectionIo} (hc : x.conn = some c)
    (hidle : c.hasPendingWrite = false → cio = c.io) (hx' : x'.conn = some { c with io := cio }) :
    ∀ d, x.conn = some d → d.hasPendingWrite = false → ∀ d', x'.conn = some d' → d'.hasPendingWrite = false := by
  intro d hd hp d' hd'
  obtain rfl : c = d := Option.some.inj (hc.symm.trans hd)
  obtain rfl : { c with io := cio } = d' := Option.some.inj (hx'.symm.trans hd')
  rw [hidle hp]
  exact hp

namespace Server

/-- On a free slot nothing is flushed. -/
theorem flushClientOutput_free {s : Server π} {fd : Int} (hc : (s.slot fd).conn = none) (io : Io) :
    s.flushClientOutput fd io = .ok (s, some .noEntry) := by
  rw [flushClientOutput, if_pos (present_of_free hc)]

/-- The end of a flush: the connection's new buffers are stored, and the events registered fit them. -/
theorem flushed_modify {s : Server π} {fd : Int} {c : HttpConn π} {e : Timer.Entry Int} (hc : (s.slot fd).conn = some c)
    (hin : InTable fd) (ho : (s.slot fd).isOpen = true) (he : (s.slot fd).entry = some e) (hcb : e.callback = fd)
    {cio : ConnectionIo} (hfd : cio.fd = fd) (hidle : c.hasPendingWrite = false → cio = c.io) (events : EpollMask)
    (hev : (events &&& epollOut ≠ 0) ↔ cio.hasPendingWrite = true) (ctlOk : Bool) :
    ∃ x', ((s.setConn fd { c with io := cio }).modify fd events ctlOk).1.slot = Function.update s.slot fd x' ∧
      (s.slot fd).Flushed fd ((s.setConn fd { c with io := cio }).modify fd events ctlOk).2 x' := by
  obtain ⟨m, hs, hm, hne⟩ := slot_modify (s.setConn fd { c with io := cio }) fd events ctlOk
  rw [slot_setConn, Function.update_idem, Function.update_self] at hs
  refine ⟨_, hs, .live { c with io := cio } e rfl hin hfd ho he hcb, by simp [Slot.connId, hc], rfl, rfl,
    Slot.idle_of_io hc hidle rfl, ?_, rfl, hne⟩
  · rintro herr c' hc'
    obtain rfl : { c with io := cio } = c' := Option.some.inj hc'
    rw [hm herr]
    simp only [Slot.wantsOut, Option.any_some, HttpConn.hasPendingWrite]
    rw [Bool.eq_iff_iff, decide_eq_true_iff]
    exact hev

/-- `flush_client_output` on a live descriptor. -/
theorem flushClientOutput_live {s : Server π} {fd : Int} (h : (s.slot fd).Tracked fd)
    (hl : (s.slot fd).conn.isSome) (io : Io) :
    ∃ s' err x', s.flushClientOutput fd io = .ok (s', err) ∧ s'.slot = Function.update s.slot fd x' ∧
      (s.slot fd).Flushed fd err x' := by
  cases h with
  | free hc => simp [hc] at hl
  | live c e hc hin hfd ho he hcb =>
    rw [flushClientOutput, if_neg (by simp [present_of_live hin hc]), deref_of_live hin hc]
    obtain ⟨hfd', hfuel, hdone, hblocked⟩ := flushLoop_fuel (by rw [hfd]; exact hin.1) (Nat.lt_succ_self io.sends.length)
    have hidle : c.hasPendingWrite = false → (flushLoop (io.sends.length + 1) c.io io.sends).1 = c.io := fun hp =>
      flushLoop_idle hp io.sends
    rw [ok_bind]
    generalize flushLoop (io.sends.length + 1) c.io io.sends = r at hfd' hfuel hdone hblocked hidle
    obtain ⟨cio, last⟩ := r
    have hmod := flushed_modify hc hin ho he hcb (hfd'.trans hfd) hidle
    cases last with
    | done =>
      obtain ⟨x', hs, hx⟩ := hmod kClientEvents (by rw [hdone rfl]; decide) io.ctlOk
      exact ⟨_, _, x', rfl, hs, hx⟩
    | blocked =>
      obtain ⟨x', hs, hx⟩ := hmod (kClientEvents ||| epollOut) (by rw [hblocked rfl]; decide) io.ctlOk
      exact ⟨_, _, x', rfl, hs, hx⟩
    | failed errno =>
      refine ⟨_, _, _, rfl, slot_setConn .., ?_⟩
      exact ⟨.live _ e rfl hin (hfd'.trans hfd) ho he hcb, by simp [Slot.connId, hc], rfl, rfl,
        Slot.idle_of_io hc hidle rfl, nofun, rfl, by simp⟩
    | outOfFuel => exact absurd rfl hfuel

end Server
end HpServer
