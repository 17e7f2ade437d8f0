import HpServer.Lemmas.SystemSteps

/-!
# The tables of the reactor

Over every run of the server, at every point between two handlers: the connection table, the flags and the timer agree
on every descriptor, no access to the connection table faults, and a connection has output pending exactly while it
waits for `EPOLLOUT` and is to be closed after the flush.
-/

namespace HpServer

open EpollMask

variable {π : Type}

/-! ## A small server to run -/

/-- A parser for which whatever was read is a request, a `CONNECT` if it begins with a `C`. -/
def firstByteParser : RequestParser Bytes where
  init := []
  parse := fun p bytes => (p ++ bytes, true)
  hasParseError := fun _ => false
  isMessageComplete := fun p => !p.isEmpty
  request := fun p =>
    { method := p, url := [], version := [], host := [104], port := 80, contentLength := 0, chunked := false,
      keepAlive := false, isConnect := p.head? = some 67, headers := [], body := [] }
  resetForNextMessage := fun _ => []

/-- A server with that parser; its descriptors are 3 and 4. -/
def smallServer : Config Bytes where
  parser := firstByteParser
  strerror := fun _ => [101]
  serverFd := 3
  eventFd := 4
  fds_ne := by decide

/-- The node of the `version`-th deadline of descriptor 5, given when the clock showed zero. -/
def node5 (version : Nat) : Timer.Node := ⟨5, 15000000000, version⟩

/-- From the first `tick` to `epoll_wait`, and the accept of descriptor 5. -/
def accept5 : List Label :=
  [.tickTop none, .waited (some [(3, epollIn)]), .event {}, .accept (.client 5 .admitted), .accept .none]

/-- From the end of a batch to `epoll_wait`, with `top` on the heap. -/
def toWait (top : Option Timer.Node) : List Label := [.event {}, .tickTop top, .tickTop top]

/-- Descriptor 5 is readable, and a byte is read. -/
def request5 (b : UInt8) : List Label := [.waited (some [(5, epollIn)]), .event { recvs := [.data [b]] }]

/-- Job 0 forwards its request and answers `response`, and the reactor reads the eventfd. -/
def answer0 (response : Bytes) : List Label :=
  List.flatten [[.start 0 0, .push 0 ⟨true, response, 0⟩, .notify 0], toWait (node5 2),
    [.waited (some [(4, epollIn)]), .event {}, .readEventFd, .readEventFd]]

/-- The tunnel of job 0 gets these answers. -/
def tunnelled0 (answers : List (List Tunnel.Answer)) : List Label := answers.flatten.map (.tunnel 0)

/-- Descriptor 5 asks for a tunnel, which is opened and comes to its first `poll`. -/
def tunnel5 : List Label :=
  List.flatten [accept5, toWait (node5 1), request5 67, toWait (node5 2), [.start 0 0],
    tunnelled0 [[.compute, .connected, .sent 62], List.replicate 7 .compute]]

/-! ## The connection table, the flags and the timer -/

/-- No run faults: every `connections_[fd]->` is of a descriptor in the table with a connection. For every descriptor
in the table there is a connection exactly when the timer has an entry, and without a connection both flags are down.
-/
theorem connection_lifecycle (c : Config π) (r : Except Fault (Sys π)) (h : c.system.Reachable r) :
    ∃ s, r = .ok s ∧ ∀ fd, InTable fd →
      ((s.server.connections fd).isSome ↔ s.server.connectionTimer.contains fd) ∧
      (s.server.connections fd = none → s.server.proxyInflight fd = false ∧ s.server.closeAfterFlush fd = false) := by
  obtain ⟨s, rfl, hok, -⟩ := Config.reachesBy_invariant (I := fun _ => True) (fun _ => trivial)
    (fun _ _ _ _ _ _ _ => trivial) h
  refine ⟨s, rfl, fun fd _ => ?_⟩
  have ht := (hok.slots fd).tracked
  refine ⟨?_, ht.held.free⟩
  cases ht with
  | free hc _ _ he =>
    simp only [Server.slot] at hc he
    simp [Timer.contains, hc, he]
  | live conn e hc _ _ _ he _ =>
    simp only [Server.slot] at hc he
    simp [Timer.contains, hc, he]

/-- A run with a live connection that has a request in flight. -/
theorem connection_lifecycle_request : ∃ s, smallServer.system.Reachable (.ok s) ∧ s.server.proxyInflight 5 = true ∧
    (s.server.connections 5).isSome ∧ s.server.connectionTimer.contains 5 ∧ s.server.closeAfterFlush 6 = false := by
  obtain ⟨r, hr, hp⟩ := Lts.exists_of_exec (M := smallServer.system)
    (List.flatten [accept5, toWait (node5 1), request5 71])
    (fun r => r.toOption.any fun s => s.server.proxyInflight 5 && (s.server.connections 5).isSome &&
      (s.server.connections 6).isNone) ⟨0, rfl⟩ (by decide)
  obtain ⟨s, rfl, hs⟩ := connection_lifecycle smallServer r hr
  simp only [Except.toOption, Option.any_some, Bool.and_eq_true, Option.isNone_iff_eq_none] at hp
  obtain ⟨⟨hinf, hlive⟩, hfree⟩ := hp
  exact ⟨s, hr, hinf, hlive, (hs 5 (by decide)).1.mp hlive, ((hs 6 (by decide)).2 hfree).2⟩

/-! ## Output -/

/-- At every point between two handlers, and so whenever the reactor waits for events, a connection has output pending
exactly when it is to be closed after the flush, and exactly when `EPOLLOUT` is among the events its descriptor was
last registered for. The `EPOLLOUT` branch has closed connections only without pending output, or after a failed
`send` or `epoll_ctl`. -/
theorem output_flushed (c : Config π) (r : Except Fault (Sys π)) (h : c.system.Reachable r) :
    ∃ s, r = .ok s ∧
      (∀ fd conn, s.server.connections fd = some conn →
        (conn.hasPendingWrite = true ↔ s.server.closeAfterFlush fd = true) ∧
        (s.server.closeAfterFlush fd = true ↔ ∃ m, s.server.interest fd = some m ∧ m &&& epollOut ≠ 0)) ∧
      ∀ o ∈ s.outCloses, o.pending = false ∨ (∃ e, o.error = some (.send e)) ∨ o.error = some .epollCtl := by
  obtain ⟨s, rfl, hok, -⟩ := Config.reachesBy_invariant (I := fun _ => True) (fun _ => trivial)
    (fun _ _ _ _ _ _ _ => trivial) h
  refine ⟨s, rfl, fun fd conn hconn => ?_, hok.outs⟩
  obtain ⟨hp, hw⟩ := (hok.slots fd).settled conn hconn
  have hw' : (s.server.interest fd).any (fun m => m &&& epollOut ≠ 0) = s.server.closeAfterFlush fd := hw
  have hp' : conn.hasPendingWrite = s.server.closeAfterFlush fd := hp
  rw [hp', ← hw']
  refine ⟨Iff.rfl, ?_⟩
  cases s.server.interest fd <;> simp

/-- A response of which one byte is sent at first. -/
def halfSent : List Label :=
  List.flatten [accept5, toWait (node5 1), request5 71, answer0 [1, 2],
    [.popDone { sends := [.accepted 0] }, .popDone {}], toWait (node5 2)]

/-- The reactor waits for events with half of the response unsent; once the rest is sent, the `EPOLLOUT` branch closes. -/
theorem output_flushed_halfSent :
    (∃ s conn, smallServer.system.Reachable (.ok s) ∧ s.server.connections 5 = some conn ∧ conn.hasPendingWrite = true ∧
      s.server.closeAfterFlush 5 = true ∧ ∃ m, s.server.interest 5 = some m ∧ m &&& epollOut ≠ 0) ∧
    ∃ s, smallServer.system.Reachable (.ok s) ∧ s.outCloses.length = 1 ∧
      ∀ o ∈ s.outCloses, o.pending = false ∨ (∃ e, o.error = some (.send e)) ∨ o.error = some .epollCtl := by
  constructor
  · obtain ⟨r, hr, hp⟩ := Lts.exists_of_exec (M := smallServer.system) halfSent
      (fun r => r.toOption.any fun s => (s.server.connections 5).any HttpConn.hasPendingWrite) ⟨0, rfl⟩ (by decide)
    obtain ⟨s, rfl, hs, -⟩ := output_flushed smallServer r hr
    simp only [Except.toOption, Option.any_some, Option.any_eq_true] at hp
    obtain ⟨conn, hconn, hpend⟩ := hp
    obtain ⟨h1, h2⟩ := hs 5 conn hconn
    exact ⟨s, conn, hr, hconn, hpend, h1.mp hpend, h2.mp (h1.mp hpend)⟩
  · obtain ⟨r, hr, hp⟩ := Lts.exists_of_exec (M := smallServer.system)
      (List.flatten [halfSent, [.waited (some [(5, epollOut)]), .event { sends := [.accepted 0] }]])
      (fun r => r.toOption.any fun s : Sys Bytes => decide (s.outCloses.length = 1)) ⟨0, rfl⟩ (by decide)
    obtain ⟨s, rfl, -, hs⟩ := output_flushed smallServer r hr
    exact ⟨s, hr, of_decide_eq_true hp, hs⟩

end HpServer
