import HpServer.ConnectionRuns
import HpServer.Theorems.Lifecycle

/-!
# The buffers of a connection are byte streams

Whatever calls are made, what left the write buffer and what is pending there is what was queued; and as long as the
parser accepts what it is given, what it was given and what is left in the read buffer is what was received. Each is
one invariant that every call keeps; the loops over `send` and `recv` are dealt with by induction on the answers.
-/

namespace HpServer
namespace ConnectionIo

theorem hasPendingWrite_iff (c : ConnectionIo) : c.hasPendingWrite = true ↔ c.pending ≠ [] := by
  simp [hasPendingWrite, pending, List.drop_eq_nil_iff]

/-- `queue_write` appends to what is pending. -/
theorem queueWrite_pending {c : ConnectionIo} (h : c.writeOffset ≤ c.writeBuffer.length) (data : Bytes) :
    (c.queueWrite data).pending = c.pending ++ data ∧
      (c.queueWrite data).writeOffset ≤ (c.queueWrite data).writeBuffer.length ∧
        (c.queueWrite data).readBuffer = c.readBuffer := by
  unfold queueWrite
  split
  · next hnil => exact ⟨by rw [hnil, List.append_nil], h, rfl⟩
  · refine ⟨List.drop_append_of_le_length h, ?_, rfl⟩
    rw [List.length_append]
    exact Nat.le_add_right_of_le h

/-- However the loop over `send` ends, what was sent and what is pending is what was pending before, and the input is
not touched. -/
theorem sendLoop_pending (sends : List SendOutcome) {c : ConnectionIo} (h : c.writeOffset ≤ c.writeBuffer.length)
    (total : Nat) :
    c.sentBytes sends ++ (c.sendLoop total sends).1.pending = c.pending ∧
      (c.sendLoop total sends).1.writeOffset ≤ (c.sendLoop total sends).1.writeBuffer.length ∧
      (c.sendLoop total sends).1.readBuffer = c.readBuffer := by
  induction sends generalizing c total with
  | nil => exact ⟨rfl, h, rfl⟩
  | cons o rest ih =>
    simp only [sentBytes, sendLoop]
    split
    · cases o with
      | accepted n =>
        simp only
        generalize htaken : min (n + 1) (c.writeBuffer.length - c.writeOffset) = taken
        obtain ⟨hrest, hle⟩ := ih (c := { c with writeOffset := c.writeOffset + taken }) (by simp only; omega)
          (total + taken)
        refine ⟨?_, hle⟩
        rw [List.append_assoc, hrest, pending, pending, ← List.drop_drop, List.take_append_drop]
      | refused e =>
        simp only
        split
        · exact ⟨rfl, h, rfl⟩
        · exact ⟨rfl, h, rfl⟩
      | zero e => exact ⟨rfl, h, rfl⟩
    · exact ⟨rfl, h, rfl⟩

/-- Compacting moves the pending bytes to the front. -/
theorem compact_pending {c : ConnectionIo} (h : c.writeOffset ≤ c.writeBuffer.length) :
    c.compact.pending = c.pending ∧ c.compact.writeOffset ≤ c.compact.writeBuffer.length ∧
      c.compact.readBuffer = c.readBuffer := by
  unfold compact
  split
  · next heq => exact ⟨by rw [pending, pending, heq, List.drop_length, List.drop_nil], Nat.le_refl 0, rfl⟩
  · exact ⟨rfl, h, rfl⟩

/-- What the socket takes and what is pending afterwards is what was pending. -/
theorem flushToSocket_pending {c : ConnectionIo} (h : c.writeOffset ≤ c.writeBuffer.length) (sends : List SendOutcome) :
    (if c.fd < 0 then [] else c.sentBytes sends) ++ (c.flushToSocket sends).1.pending = c.pending ∧
      (c.flushToSocket sends).1.writeOffset ≤ (c.flushToSocket sends).1.writeBuffer.length ∧
      (c.flushToSocket sends).1.readBuffer = c.readBuffer := by
  unfold flushToSocket
  split
  · exact ⟨rfl, h, rfl⟩
  · have hloop := sendLoop_pending sends h 0
    generalize c.sendLoop 0 sends = r at hloop ⊢
    obtain ⟨c', result, rest⟩ := r
    cases result with
    | error e => exact hloop
    | ok total =>
      obtain ⟨hstream, hle, hread⟩ := hloop
      obtain ⟨hpending, hle, hread'⟩ := compact_pending hle
      exact ⟨by rw [hpending]; exact hstream, hle, hread'.trans hread⟩

/-- `take_write_buffer` takes all that is pending. -/
theorem takeWriteBuffer_pending (c : ConnectionIo) :
    c.takeWriteBuffer.2 = c.pending ∧ c.takeWriteBuffer.1.pending = [] ∧
      c.takeWriteBuffer.1.writeOffset ≤ c.takeWriteBuffer.1.writeBuffer.length := by
  refine ⟨?_, rfl, Nat.le_refl 0⟩
  rw [takeWriteBuffer, pending]
  by_cases hzero : c.writeOffset = 0
  · rw [if_pos hzero, hzero, List.drop_zero]
  · rw [if_neg hzero]

/-- The loop over `recv` appends what it gets, and touches nothing else. -/
theorem recvLoop_eq (recvs : List RecvOutcome) (c : ConnectionIo) (total : Nat) :
    (c.recvLoop total recvs).1 = { c with readBuffer := c.readBuffer ++ receivedBytes recvs } := by
  induction recvs generalizing c total with
  | nil => simp [recvLoop, receivedBytes]
  | cons o rest ih =>
    cases o with
    | data bytes =>
      rw [recvLoop, receivedBytes]
      split
      · simp
      · rw [ih, List.append_assoc]
    | eof => simp [recvLoop, receivedBytes]
    | refused e =>
      rw [recvLoop]
      split <;> simp [receivedBytes]

/-- Everything there is to read is appended. -/
theorem readFromSocket_eq (c : ConnectionIo) (recvs : List RecvOutcome) :
    (c.readFromSocket recvs).1 =
      { c with readBuffer := c.readBuffer ++ if c.fd < 0 then [] else receivedBytes recvs } := by
  unfold readFromSocket
  split
  · simp
  · exact recvLoop_eq recvs c 0

end ConnectionIo

/-- Parsing does not touch the buffers. -/
theorem HttpConn.io_parseAvailableData {π : Type} (p : RequestParser π) (c : HttpConn π) :
    (c.parseAvailableData p).1.io = c.io := by
  unfold parseAvailableData
  split
  · rfl
  · split <;> rfl

/-- Where the parser accepts what it is given, it has been given everything. -/
theorem HttpConn.parseOffset_parseAvailableData {π : Type} {p : RequestParser π} {c : HttpConn π}
    (hle : c.parseOffset ≤ c.io.readBuffer.length) (hok : (c.parseAvailableData p).2 = true) :
    (c.parseAvailableData p).1.parseOffset = c.io.readBuffer.length := by
  unfold parseAvailableData at hok ⊢
  split at hok
  · next hskip =>
    rw [if_pos hskip]
    simp only [Bool.not_eq_true'] at hok
    simp only [hok, Bool.false_or, decide_eq_true_eq] at hskip
    exact Nat.le_antisymm hle hskip
  · next hgiven =>
    rw [if_neg hgiven]
    split at hok
    · cases hok
    · rfl

namespace ConnectionRun

variable {π : Type}

/-- What left the write buffer, in order. -/
def left (s : ConnectionRun π) : Bytes := s.output.flatMap Output.bytes

/-- What left and what is pending is what was queued. -/
structure WriteStream (s : ConnectionRun π) : Prop where
  offset_le : s.conn.io.writeOffset ≤ s.conn.io.writeBuffer.length
  stream : s.left ++ s.pending = s.queued.flatten

/-- What the parser was given and what it was not is what was received. -/
structure ReadStream (s : ConnectionRun π) : Prop where
  offset_le : s.conn.parseOffset ≤ s.conn.io.readBuffer.length
  stream : s.handed.flatten ++ s.unparsed = s.received

/-- Without an error, everything the parser was not given is handed over now. -/
theorem handedNow_eq {p : RequestParser π} (s : ConnectionRun π) (hok : (s.conn.parseAvailableData p).2 = true) :
    s.handedNow p = s.unparsed := by
  unfold handedNow
  split
  · next hskip =>
    rw [HttpConn.parseAvailableData, if_pos hskip, Bool.not_eq_true'] at hok
    simp only [hok, Bool.false_or, decide_eq_true_eq] at hskip
    rw [unparsed, List.drop_eq_nil_iff.mpr hskip]
  · rfl

theorem left_append (s : ConnectionRun π) (o : Output) : (s.output ++ [o]).flatMap Output.bytes = s.left ++ o.bytes := by
  rw [List.flatMap_append, List.flatMap_singleton, left]

/-- Calls that touch neither the write buffer nor what is told of it. -/
theorem WriteStream.of_eq {s t : ConnectionRun π} (h : WriteStream s)
    (hbuffer : t.conn.io.writeBuffer = s.conn.io.writeBuffer)
    (hoffset : t.conn.io.writeOffset = s.conn.io.writeOffset) (houtput : t.output = s.output)
    (hqueued : t.queued = s.queued) :
    WriteStream t where
  offset_le := by rw [hbuffer, hoffset]; exact h.offset_le
  stream := by rw [left, pending, ConnectionIo.pending, hbuffer, hoffset, houtput, hqueued]; exact h.stream

/-- Calls that touch neither the read buffer nor what is told of it. -/
theorem ReadStream.of_eq {s t : ConnectionRun π} (h : ReadStream s)
    (hbuffer : t.conn.io.readBuffer = s.conn.io.readBuffer)
    (hoffset : t.conn.parseOffset = s.conn.parseOffset) (hhanded : t.handed = s.handed)
    (hreceived : t.received = s.received) :
    ReadStream t where
  offset_le := by rw [hbuffer, hoffset]; exact h.offset_le
  stream := by rw [unparsed, hbuffer, hoffset, hhanded, hreceived]; exact h.stream

/-- Every call keeps the stream of the output. -/
theorem WriteStream.step {s : ConnectionRun π} (h : WriteStream s) (p : RequestParser π) (a : ConnectionAction) :
    WriteStream (s.step p a) := by
  cases a with
  | queueWrite data =>
    obtain ⟨hpending, hle, -⟩ := ConnectionIo.queueWrite_pending h.offset_le data
    refine ⟨hle, ?_⟩
    show s.left ++ (s.conn.io.queueWrite data).pending = (s.queued ++ [data]).flatten
    rw [hpending, ← List.append_assoc, List.flatten_append, List.flatten_singleton, ← h.stream]
    rfl
  | flushToSocket sends =>
    obtain ⟨hpending, hle, -⟩ := ConnectionIo.flushToSocket_pending h.offset_le sends
    refine ⟨hle, ?_⟩
    show (s.output ++ [Output.accepted _]).flatMap Output.bytes ++ (s.conn.io.flushToSocket sends).1.pending =
      s.queued.flatten
    rw [left_append, List.append_assoc, Output.bytes, hpending]
    exact h.stream
  | takeWriteBuffer =>
    obtain ⟨htaken, hpending, hle⟩ := ConnectionIo.takeWriteBuffer_pending s.conn.io
    refine ⟨hle, ?_⟩
    show (s.output ++ [Output.taken _]).flatMap Output.bytes ++ s.conn.io.takeWriteBuffer.1.pending = s.queued.flatten
    rw [left_append, hpending, List.append_nil, Output.bytes, htaken]
    exact h.stream
  | readFromSocket recvs =>
    refine h.of_eq ?_ ?_ rfl rfl
    · show (s.conn.io.readFromSocket recvs).1.writeBuffer = _
      rw [ConnectionIo.readFromSocket_eq]
    · show (s.conn.io.readFromSocket recvs).1.writeOffset = _
      rw [ConnectionIo.readFromSocket_eq]
  | parseAvailableData =>
    have hio := s.conn.io_parseAvailableData p
    exact h.of_eq (congrArg ConnectionIo.writeBuffer hio) (congrArg ConnectionIo.writeOffset hio) rfl rfl
  | resetForNextMessage =>
    refine h.of_eq ?_ ?_ rfl rfl
    · show (if 0 < s.conn.parseOffset then _ else _ : ConnectionIo).writeBuffer = _
      split <;> rfl
    · show (if 0 < s.conn.parseOffset then _ else _ : ConnectionIo).writeOffset = _
      split <;> rfl

/-- Every call keeps the stream of the input, if the parser accepts what it is given. -/
theorem ReadStream.step {s : ConnectionRun π} (h : ReadStream s) (hw : WriteStream s) {p : RequestParser π}
    {a : ConnectionAction} (hp : NoParseError p s a) : ReadStream (s.step p a) := by
  cases a with
  | queueWrite data => exact h.of_eq (ConnectionIo.queueWrite_pending hw.offset_le data).2.2 rfl rfl rfl
  | flushToSocket sends => exact h.of_eq (ConnectionIo.flushToSocket_pending hw.offset_le sends).2.2 rfl rfl rfl
  | takeWriteBuffer => exact h.of_eq rfl rfl rfl rfl
  | readFromSocket recvs =>
    have heq := ConnectionIo.readFromSocket_eq s.conn.io recvs
    constructor
    · show s.conn.parseOffset ≤ (s.conn.io.readFromSocket recvs).1.readBuffer.length
      rw [heq, List.length_append]
      exact Nat.le_add_right_of_le h.offset_le
    · show s.handed.flatten ++ (s.conn.io.readFromSocket recvs).1.readBuffer.drop s.conn.parseOffset = s.received ++ _
      rw [heq, List.drop_append_of_le_length h.offset_le, ← List.append_assoc, ← h.stream]
      rfl
  | parseAvailableData =>
    have hio := s.conn.io_parseAvailableData p
    have hoffset := HttpConn.parseOffset_parseAvailableData h.offset_le hp
    constructor
    · show (s.conn.parseAvailableData p).1.parseOffset ≤ (s.conn.parseAvailableData p).1.io.readBuffer.length
      exact Nat.le_of_eq (by rw [hio, hoffset])
    · show (s.handed ++ [s.handedNow p]).flatten ++
        (s.conn.parseAvailableData p).1.io.readBuffer.drop (s.conn.parseAvailableData p).1.parseOffset = s.received
      -- nothing is left, and what was left before was handed over now
      rw [hio, hoffset, List.drop_length, List.append_nil, List.flatten_append, List.flatten_singleton, s.handedNow_eq hp]
      exact h.stream
  | resetForNextMessage =>
    constructor
    · exact Nat.zero_le _
    · show s.handed.flatten ++ (if 0 < s.conn.parseOffset then _ else _ : ConnectionIo).readBuffer.drop 0 = s.received
      split
      · exact h.stream
      · next hzero =>
        have hzero : s.conn.parseOffset = 0 := by omega
        have hstream := h.stream
        rw [unparsed, hzero] at hstream
        exact hstream

/-- By induction it holds in every state. -/
theorem WriteStream.of_reachable {p : RequestParser π} {s : ConnectionRun π} (h : (connectionRuns p).Reachable s) :
    WriteStream s := by
  refine Lts.Reachable.invariant ?_ ?_ h
  · rintro _ ⟨fd, id, rfl⟩
    exact ⟨Nat.le_refl 0, rfl⟩
  · intro s t a _ hs hstep
    cases hstep
    exact hs.step p a

/-- By induction it holds as long as nothing is malformed. -/
theorem ReadStream.of_reachesBy {p : RequestParser π} {s : ConnectionRun π}
    (h : (connectionRuns p).ReachesBy (NoParseError p) s) :
    ReadStream s := by
  refine Lts.ReachesBy.invariant ?_ ?_ h
  · rintro _ ⟨fd, id, rfl⟩
    exact ⟨Nat.le_refl 0, rfl⟩
  · intro s t a hreach hs hp hstep
    cases hstep
    exact hs.step (.of_reachable hreach.reachable) hp

instance (p : RequestParser π) (s : ConnectionRun π) : (a : ConnectionAction) → Decidable (NoParseError p s a)
  | .parseAvailableData => inferInstanceAs (Decidable ((s.conn.parseAvailableData p).2 = true))
  | .queueWrite _ => .isTrue trivial
  | .flushToSocket _ => .isTrue trivial
  | .takeWriteBuffer => .isTrue trivial
  | .readFromSocket _ => .isTrue trivial
  | .resetForNextMessage => .isTrue trivial

end ConnectionRun

open ConnectionRun

/-- A part of the output is sent before an error, the rest is taken; two requests are read, and the first is parsed
and forgotten. -/
def bufferCalls : List ConnectionAction :=
  [.queueWrite (ascii "abc"), .flushToSocket [.accepted 0, .refused Errno.epipe], .queueWrite (ascii "d"),
    .takeWriteBuffer,
    .queueWrite (ascii "e"), .readFromSocket [.data (ascii "GET")], .parseAvailableData, .resetForNextMessage,
    .readFromSocket [.data (ascii "PUT"), .eof]]

end HpServer
