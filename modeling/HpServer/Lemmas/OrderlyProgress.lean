import HpServer.Lemmas.OrderlyPeers

/-!
# The relay between orderly peers does not go on for ever

Every byte moves from the peer's hands to the socket, the relay's buffer, the other socket and the other peer, and
each move makes `Net.weight` smaller. Between two moves the relay only goes round its loop, and a poll that reports
promises a move: `Net.rank` orders the points of the loop with that promise taken into account. `Net.budget` puts the
two together.
-/

namespace HpServer
namespace Tunnel

open PollMask Errno

/-- The moves a socket's bytes and its end of stream still have to make, those through the relay's buffer apart. -/
def Sock.weight (k : Sock) : Nat :=
  4 * k.toCome.length + 3 * k.unread.length + k.queued.length + (if k.fin then 0 else 1) + (if k.finRead then 0 else 1)

/-- The moves still to be made. -/
def Net.weight (s : Net) : Nat :=
  s.signals + ((s.sock .c2u).weight + 2 * (s.tunnel.dir .c2u).unsent.length) +
    ((s.sock .u2c).weight + 2 * (s.tunnel.dir .u2c).unsent.length)

/-- A direction has bytes to send and room for them. -/
def Net.sendReady (cap : Nat) (s : Net) (w : Way) : Bool := !(s.tunnel.dir w).unsent.isEmpty && (s.dest w).writable cap

/-- The read of a direction, after a poll that found `client` and `upstream`, will find something. -/
def Net.readReady (s : Net) (client upstream : PollMask) (w : Way) : Bool :=
  decide (sourceEvents w client upstream &&& pollIn ≠ 0) && (s.sock w).readable

/-- How many steps the relay is from the next move, at most. -/
def Net.rank (cap : Nat) (s : Net) : Pc → Nat
  | .flush .c2u => if s.sendReady cap .c2u || s.sendReady cap .u2c then 5 else 15
  | .flush .u2c => if s.sendReady cap .u2c then 4 else 14
  | .shutdown .c2u => 13
  | .shutdown .u2c => 12
  | .finish => 11
  | .interests => 10
  | .poll _ _ => 9
  | .read .c2u client upstream =>
    if s.readReady client upstream .c2u || s.readReady client upstream .u2c || s.sendReady cap .c2u ||
      s.sendReady cap .u2c then 7
    else 17
  | .read .u2c client upstream =>
    if s.readReady client upstream .u2c || s.sendReady cap .c2u || s.sendReady cap .u2c then 6 else 16
  | _ => 0

/-- A bound on the steps the relay and its peers can still take. -/
def Net.budget (cap : Nat) (s : Net) : Nat := 18 * s.weight + s.rank cap s.tunnel.pc

theorem Net.rank_lt (cap : Nat) (s : Net) (p : Pc) : s.rank cap p < 18 := by
  unfold Net.rank
  split <;> try split
  all_goals omega

/-- Fewer moves left, whatever the point of the loop. -/
theorem Net.budget_lt_of_weight {cap : Nat} {s s' : Net} (h : s'.weight < s.weight) : s'.budget cap < s.budget cap := by
  have := Net.rank_lt cap s' s'.tunnel.pc
  unfold Net.budget
  omega

/-- A peer's step is a move. -/
theorem PeerStep.weight_lt {k k' : Sock} (h : PeerStep k k') : k'.weight < k.weight := by
  cases h with
  | arrive n hn hle =>
    simp only [Sock.weight, List.length_drop, List.length_append, List.length_take]
    omega
  | finish hc hf =>
    simp only [Sock.weight, hf, Bool.false_eq_true, if_true, if_false]
    omega
  | drain n hn hle =>
    simp only [Sock.weight, List.length_drop]
    omega

theorem PeerStep.budget_lt {cap : Nat} {s : Net} {w : Way} {k : Sock} (h : PeerStep (s.sock w) k) :
    (s.setSock w k).budget cap < s.budget cap := by
  refine Net.budget_lt_of_weight ?_
  have hlt := h.weight_lt
  cases w <;> simp only [Net.weight, Net.setSock, Function.update_self, ne_eq, reduceCtorEq, not_false_eq_true,
    Function.update_of_ne] <;> omega

/-! ## The steps that move nothing -/

/-- What a poll found on a socket is something to read, or room for the bytes of the direction that writes there. -/
theorem Sock.revents_ready {cap : Nat} {k : Sock} {d d' : Dir} (hh : k.hungUp = false)
    (h : k.revents cap (d.readInterest ||| d'.writeInterest) ≠ 0) :
    (k.revents cap (d.readInterest ||| d'.writeInterest) &&& pollIn ≠ 0 ∧ k.readable = true) ∨
      (d'.buf ≠ [] ∧ k.writable cap = true) := by
  have hbuf : d'.buf ≠ [] ↔ d'.buf.isEmpty = false := by rw [Ne, ← List.isEmpty_iff, Bool.not_eq_true]
  rw [hbuf]
  unfold Sock.revents Dir.readInterest Dir.writeInterest at h ⊢
  rw [hh] at h ⊢
  generalize d.eof = b₁ at h ⊢
  generalize d.buf.isEmpty = b₂ at h ⊢
  generalize d'.buf.isEmpty = b₃ at h ⊢
  generalize k.readable = b₄ at h ⊢
  generalize k.writable cap = b₅ at h ⊢
  revert h
  revert b₁ b₂ b₃ b₄ b₅
  decide

theorem Dir.unsent_ne_nil {d : Dir} (hk : d.Kept) (hb : d.buf ≠ []) : d.unsent.isEmpty = false := by
  rcases hk with hk | hk
  · exact absurd hk hb
  · simp [Dir.unsent, List.isEmpty_eq_false_iff, List.drop_eq_nil_iff, Nat.not_le.mpr hk]

/-- A poll that reports promises a move. -/
theorem ready_of_found {cap : Nat} {s : Net} {client upstream : PollMask} (hp : PcOk s.tunnel)
    (hpc : s.tunnel.pc = .poll client upstream) (hf : ∀ w, (s.tunnel.dir w).Kept) (hh : ∀ w, (s.sock w).hungUp = false)
    (hne : (s.sock .c2u).revents cap client ≠ 0 ∨ (s.sock .u2c).revents cap upstream ≠ 0) :
    (s.readReady ((s.sock .c2u).revents cap client) ((s.sock .u2c).revents cap upstream) .c2u ||
      s.readReady ((s.sock .c2u).revents cap client) ((s.sock .u2c).revents cap upstream) .u2c ||
      s.sendReady cap .c2u || s.sendReady cap .u2c) = true := by
  simp only [PcOk, hpc] at hp
  obtain ⟨rfl, rfl, -⟩ := hp
  simp only [Bool.or_eq_true, Net.readReady, Net.sendReady, Bool.and_eq_true, decide_eq_true_eq, Bool.not_eq_true']
  rcases hne with hne | hne
  · rcases Sock.revents_ready (hh .c2u) hne with h | ⟨hb, hw⟩
    · exact .inl (.inl (.inl h))
    · exact .inr ⟨Dir.unsent_ne_nil (hf .u2c) hb, hw⟩
  · rcases Sock.revents_ready (hh .u2c) hne with h | ⟨hb, hw⟩
    · exact .inl (.inl (.inr h))
    · exact .inl (.inr ⟨Dir.unsent_ne_nil (hf .c2u) hb, hw⟩)

/-- After a flush that moved nothing and did not promise to, the relay is one step closer. -/
theorem Net.rank_afterFlush {cap : Nat} {s : Net} {w : Way} (h : s.sendReady cap w = false) :
    s.rank cap (.afterFlush w) < s.rank cap (.flush w) := by
  cases w with
  | c2u =>
    simp only [Pc.afterFlush, Net.rank, h, Bool.false_or]
    split <;> omega
  | u2c => simp [Pc.afterFlush, Net.rank, h]

/-- After a read that found nothing, the relay is one step closer. -/
theorem Net.rank_afterRead {cap : Nat} {s : Net} {w : Way} {client upstream : PollMask}
    (h : s.readReady client upstream w = false) :
    s.rank cap (.afterRead w client upstream) < s.rank cap (.read w client upstream) := by
  cases w <;> simp only [Pc.afterRead, Net.rank, h, Bool.false_or]
  · split <;> omega
  · split <;> omega

theorem Net.rank_afterShutdown {cap : Nat} {s : Net} {w : Way} :
    s.rank cap (.afterShutdown w) < s.rank cap (.shutdown w) := by
  cases w <;> simp [Pc.afterShutdown, Net.rank]

/-- A step that passes control on comes closer to the next move. -/
theorem Ctl.rank_lt {cap : Nat} {s : Net} {p p' : Pc} (h : Ctl cap s p p') (hpc : s.tunnel.pc = p) (hp : PcOk s.tunnel)
    (hf : Flushed s.tunnel.dir p) : s.rank cap p' < s.rank cap p := by
  cases h with
  | blocked w hlt hw => exact Net.rank_afterFlush (by simp [Net.sendReady, hw])
  | notDue w _ => exact Net.rank_afterShutdown
  | finished => simp [Net.rank]
  | unfinished => simp [Net.rank]
  | ask => simp [Net.rank]
  | hangup client upstream w _ => simp [Net.rank]
  | found client upstream r0 r1 hh h0 h1 hne =>
    subst h0 h1
    have hready := ready_of_found hp hpc hf hh hne
    simp only [Net.rank]
    rw [if_pos hready]
    omega
  | drained w client upstream hu hfin => exact Net.rank_afterRead (by simp [Net.readReady, Sock.readable, hu, hfin])
  | skipped w client upstream hin => exact Net.rank_afterRead (by simp [Net.readReady, hin])

/-! ## The budget -/

/-- The moves left depend on the sockets, the buffers' unsent bytes and the signals. -/
theorem Net.weight_congr {s s' : Net} (hs : s'.signals = s.signals) (hk : ∀ w, (s'.sock w).weight = (s.sock w).weight)
    (hd : ∀ w, (s'.tunnel.dir w).unsent.length = (s.tunnel.dir w).unsent.length) : s'.weight = s.weight := by
  unfold Net.weight
  rw [hs, hk, hk, hd, hd]

/-- The promises depend on the sockets' bytes and flags and on the unsent bytes. -/
theorem Net.rank_congr {cap : Nat} {s s' : Net} (hd : ∀ w, (s'.tunnel.dir w).unsent = (s.tunnel.dir w).unsent)
    (hr : ∀ w, (s'.sock w).readable = (s.sock w).readable) (hw : ∀ w, (s'.sock w).writable cap = (s.sock w).writable cap)
    (p : Pc) : s'.rank cap p = s.rank cap p := by
  have hsend : s'.sendReady cap = s.sendReady cap := by
    funext w
    simp only [Net.sendReady, Net.dest, hd, hw]
  have hread : s'.readReady = s.readReady := by
    funext client upstream w
    simp only [Net.readReady, hr]
  unfold Net.rank
  rw [hsend, hread]

/-- The moves left, seen from one direction. -/
theorem Net.weight_eq (s : Net) (w : Way) :
    s.weight = s.signals + ((s.sock w).weight + 2 * (s.tunnel.dir w).unsent.length) +
    ((s.sock w.other).weight + 2 * (s.tunnel.dir w.other).unsent.length) := by
  cases w <;> simp only [Net.weight, Way.other]
  omega

theorem Way.other_ne (w : Way) : w.other ≠ w := by cases w <;> nofun

/-- Every step of the relay uses up some of the budget. -/
theorem Called.budget_lt {cap : Nat} {script : Way → Bytes} {s s' : Net} (h : Called cap s s') (ho : NetOk script s) :
    s'.budget cap < s.budget cap := by
  cases h with
  | control hc hdir hsock hsig =>
    have hweight : s'.weight = s.weight := Net.weight_congr hsig (fun w => by rw [hsock]) fun w => by rw [hdir]
    have hrank := hc.rank_lt rfl ho.tunnel.pc ho.flushed
    have hcongr : s'.rank cap s'.tunnel.pc = s.rank cap s'.tunnel.pc :=
      Net.rank_congr (fun w => by rw [hdir]) (fun w => by rw [hsock]) (fun w => by rw [hsock]) _
    unfold Net.budget
    omega
  | interrupt _ hdir hsock hsig =>
    refine Net.budget_lt_of_weight ?_
    unfold Net.weight
    rw [hdir, hsock]
    omega
  | send w n _ _ hn hle hdir hsock hsig =>
    refine Net.budget_lt_of_weight ?_
    have hunsent : ((s.tunnel.dir w).sent n).unsent.length + n = (s.tunnel.dir w).unsent.length := by
      rw [Dir.unsent_sent, List.length_drop]
      omega
    have hdest : Sock.weight { s.dest w with queued := (s.dest w).queued ++ (s.tunnel.dir w).unsent.take n } =
        (s.dest w).weight + n := by
      simp only [Sock.weight, List.length_append, List.length_take, Nat.min_eq_left hle]
      omega
    rw [s.weight_eq w, s'.weight_eq w, hdir, hsock, hsig, Function.update_self, Function.update_self,
      Function.update_of_ne w.other_ne, Function.update_of_ne w.other_ne.symm, hdest]
    unfold Net.dest
    omega
  | clear w hpc hpc' hle hdir hsock hsig =>
    have hemp : (s.tunnel.dir w).unsent = [] := List.drop_eq_nil_of_le hle
    have hunsent : ∀ v, (s'.tunnel.dir v).unsent = (s.tunnel.dir v).unsent := by
      intro v
      rw [hdir]
      by_cases hv : v = w
      · subst hv
        rw [Function.update_self, hemp]
        rfl
      · rw [Function.update_of_ne hv]
    have hweight : s'.weight = s.weight := Net.weight_congr hsig (fun v => by rw [hsock]) fun v => by rw [hunsent]
    have hcongr : s'.rank cap s'.tunnel.pc = s.rank cap s'.tunnel.pc :=
      Net.rank_congr hunsent (fun v => by rw [hsock]) (fun v => by rw [hsock]) _
    have hlt : s.rank cap (.afterFlush w) < s.rank cap (.flush w) := Net.rank_afterFlush (by simp [Net.sendReady, hemp])
    unfold Net.budget
    rw [hcongr, hpc', hpc]
    omega
  | shut w hpc hpc' _ hdir hsock hsig =>
    have hunsent : ∀ v, (s'.tunnel.dir v).unsent = (s.tunnel.dir v).unsent := by
      intro v
      rw [hdir]
      cases v <;> cases w <;> rfl
    have hweight : s'.weight = s.weight := by
      refine Net.weight_congr hsig (fun v => ?_) fun v => by rw [hunsent]
      rw [hsock]
      cases v <;> cases w <;> rfl
    have hlt : s'.rank cap (.afterShutdown w) < s'.rank cap (.shutdown w) := Net.rank_afterShutdown
    have hsame : s'.rank cap (.shutdown w) = s.rank cap (.shutdown w) := by cases w <;> rfl
    unfold Net.budget
    rw [hpc', hpc]
    omega
  | data w client upstream bytes _ _ hne htake hdir hsock hsig =>
    refine Net.budget_lt_of_weight ?_
    have hpos : 0 < bytes.length := List.length_pos_of_ne_nil hne
    have hle : bytes.length ≤ (s.sock w).unread.length := by
      have := congrArg List.length htake
      rw [List.length_take] at this
      omega
    have hunsent : ((s.tunnel.dir w).received bytes).unsent.length = (s.tunnel.dir w).unsent.length + bytes.length := by
      rw [Dir.unsent_received (ho.tunnel.dirs w), List.length_append]
    have hsrc : Sock.weight { s.sock w with unread := (s.sock w).unread.drop bytes.length } + 3 * bytes.length =
        (s.sock w).weight := by
      simp only [Sock.weight, List.length_drop]
      omega
    rw [s.weight_eq w, s'.weight_eq w, hdir, hsock, hsig, Function.update_self, Function.update_self,
      Function.update_of_ne w.other_ne, Function.update_of_ne w.other_ne, hunsent]
    omega
  | ended w client upstream hpc _ hin hemp hfin hdir hsock hsig =>
    refine Net.budget_lt_of_weight ?_
    have hopen : (s.tunnel.dir w).eof = false := PcOk.open ho.tunnel.pc hpc hin
    have hread : (s.sock w).finRead = false := (ho.source w).eof.symm.trans hopen
    have hsrc : Sock.weight { s.sock w with finRead := true } + 1 = (s.sock w).weight := by
      simp only [Sock.weight, hread, Bool.false_eq_true, if_true, if_false]
    have hunsent : (s.tunnel.dir w).ended.unsent = (s.tunnel.dir w).unsent := rfl
    rw [s.weight_eq w, s'.weight_eq w, hdir, hsock, hsig, Function.update_self, Function.update_self,
      Function.update_of_ne w.other_ne, Function.update_of_ne w.other_ne, hunsent]
    omega

theorem step_budget_lt {a : Args} {cap : Nat} {script : Way → Bytes} {s s' : Net} {act : NetAct} (ho : NetOk script s)
    (h : s.step a cap act = some s') : s'.budget cap < s.budget cap := by
  rcases step_cases h with ⟨ans, rfl⟩ | ⟨w, k, hk, rfl⟩
  · exact (call_called ho.tunnel.pc h).budget_lt ho
  · exact hk.budget_lt

/-! ## No deadlock -/

/-- `poll` reports what was asked for and what is always reported. -/
theorem Sock.answers_revents (cap : Nat) (k : Sock) (d d' : Dir) :
    Answers (d.readInterest ||| d'.writeInterest) (k.revents cap (d.readInterest ||| d'.writeInterest)) := by
  unfold Answers Sock.revents Dir.readInterest Dir.writeInterest
  generalize d.eof = b₁
  generalize d.buf.isEmpty = b₂
  generalize d'.buf.isEmpty = b₃
  generalize k.readable = b₄
  generalize k.writable cap = b₅
  generalize k.hungUp = b₆
  revert b₁ b₂ b₃ b₄ b₅ b₆
  decide

/-- A poll that has nothing to report waits for the peer to send or to read. -/
theorem Sock.waiting {cap : Nat} {k : Sock} {d d' : Dir} (hne : d.readInterest ||| d'.writeInterest ≠ 0)
    (h : k.revents cap (d.readInterest ||| d'.writeInterest) = 0) :
    (d.eof = false ∧ k.readable = false) ∨ k.writable cap = false := by
  unfold Sock.revents at h
  unfold Dir.readInterest Dir.writeInterest at h hne
  generalize d.eof = b₁ at h hne ⊢
  generalize d.buf.isEmpty = b₂ at h hne ⊢
  generalize d'.buf.isEmpty = b₃ at h hne ⊢
  generalize k.readable = b₄ at h hne ⊢
  generalize k.writable cap = b₅ at h hne ⊢
  generalize k.hungUp = b₆ at h hne ⊢
  revert h hne
  revert b₁ b₂ b₃ b₄ b₅ b₆
  decide

/-- The peer of a socket a poll waits for can take a step. -/
theorem peer_enabled {a : Args} {cap : Nat} {script : Way → Bytes} {s : Net} (hcap : 0 < cap)
    (ho : NetOk script s) (w : Way)
    (h : ((s.tunnel.dir w).eof = false ∧ (s.sock w).readable = false) ∨ (s.sock w).writable cap = false) :
    ∃ act s', s.step a cap act = some s' := by
  rcases h with ⟨he, hr⟩ | hw
  · simp only [Sock.readable, Bool.or_eq_false_iff, Bool.not_eq_false', List.isEmpty_iff] at hr
    have hfin : (s.sock w).fin = false := by
      have hread : (s.sock w).finRead = false := (ho.source w).eof.symm.trans he
      simpa [hread] using hr.2
    by_cases hc : (s.sock w).toCome = []
    · exact ⟨.finish w, _, if_pos ⟨hc, hfin⟩⟩
    · exact ⟨.arrive w 1, _, if_pos ⟨Nat.one_pos, List.length_pos_of_ne_nil hc⟩⟩
  · have hlen : cap ≤ (s.sock w).queued.length := by simpa [Sock.writable] using hw
    exact ⟨.drain w 1, _, if_pos ⟨Nat.one_pos, by omega⟩⟩

/-- A step of the tunnel whose call the sockets answer is a step. -/
theorem call_enabled {a : Args} {cap : Nat} {s : Net} (ans : Answer) (hk : (s.kernel cap ans).isSome = true)
    (hu : (s.tunnel.step a ans).isSome = true) : ∃ act s', s.step a cap act = some s' := by
  obtain ⟨t, ht⟩ := Option.isSome_iff_exists.mp hk
  obtain ⟨u, hu⟩ := Option.isSome_iff_exists.mp hu
  refine ⟨.call ans, { t with tunnel := u }, ?_⟩
  simp only [Net.step, ht, hu, Option.bind_some, Option.map_some]

/-- A `send` that the sockets and the relay can answer. -/
theorem send_enabled {a : Args} {cap : Nat} {s : Net} {w : Way} (ans : Answer) (hpc : s.tunnel.pc = .flush w)
    (hk : (s.kernelSend cap w ans).isSome = true) (hu : (s.tunnel.stepFlush w ans).isSome = true) :
    ∃ act s', s.step a cap act = some s' := by
  obtain ⟨t, ht⟩ := Option.isSome_iff_exists.mp hk
  refine call_enabled ans ?_ ?_
  · simpa only [Net.kernel, hpc] using hk
  · simpa only [State.step, hpc, ofSend_of_kernelSend ht] using hu

/-- A `recv` that they can answer. -/
theorem recv_enabled {a : Args} {cap : Nat} {s : Net} {w : Way} {client upstream : PollMask} (ans : Answer)
    (hpc : s.tunnel.pc = .read w client upstream) (hk : (s.kernelRecv w ans).isSome = true)
    (hu : (s.tunnel.stepRead w client upstream ans).isSome = true) : ∃ act s', s.step a cap act = some s' := by
  obtain ⟨t, ht⟩ := Option.isSome_iff_exists.mp hk
  refine call_enabled ans ?_ ?_
  · simpa only [Net.kernel, hpc] using hk
  · simpa only [State.step, hpc, ofRecv_of_kernelRecv ht] using hu

/-- The relay can go on where it flushes. -/
theorem flush_enabled {a : Args} {cap : Nat} {s : Net} {w : Way} (hpc : s.tunnel.pc = .flush w) :
    ∃ act s', s.step a cap act = some s' := by
  by_cases hlt : (s.tunnel.dir w).offset < (s.tunnel.dir w).buf.length
  · by_cases hw : (s.dest w).writable cap = true
    · have hroom : (s.dest w).queued.length + 1 ≤ cap := by
        simp only [Sock.writable, decide_eq_true_eq] at hw
        omega
      have hone : 0 < 1 ∧ 1 ≤ (s.tunnel.dir w).unsent.length := by
        simp only [Dir.unsent, List.length_drop]
        omega
      exact send_enabled (.sent 1) hpc (by simp [Net.kernelSend, hroom])
        (by simp only [State.stepFlush, if_pos hlt, if_pos hone, Option.isSome_some])
    · have hb : (s.dest w).writable cap = false := eq_false_of_ne_true hw
      have hne : ¬eagain = eintr := by decide
      exact send_enabled (.failed eagain eagain) hpc (by simp [Net.kernelSend, hne, hb])
        (by simp [State.stepFlush, hlt, hne])
  · exact send_enabled .compute hpc (by simp [Net.kernelSend]) (by simp [State.stepFlush, hlt])

/-- And where it reads. -/
theorem read_enabled {a : Args} {cap : Nat} {s : Net} {w : Way} {client upstream : PollMask}
    (hpc : s.tunnel.pc = .read w client upstream) : ∃ act s', s.step a cap act = some s' := by
  by_cases hin : sourceEvents w client upstream &&& pollIn ≠ 0
  · cases hu : (s.sock w).unread with
    | nil =>
      by_cases hf : (s.sock w).fin = true
      · exact recv_enabled .zero hpc (by simp [Net.kernelRecv, hu, hf])
          (by simp only [State.stepRead, if_pos hin, Option.isSome_some])
      · have hne : ¬eagain = eintr := by decide
        exact recv_enabled (.failed eagain eagain) hpc (by simp [Net.kernelRecv, hu, hf, hne])
          (by simp only [State.stepRead, if_pos hin, if_neg hne, if_true, Option.isSome_some])
    | cons b rest =>
      have hb : [b] ≠ [] ∧ [b].length ≤ kIoBufferSize :=
        ⟨List.cons_ne_nil b [], by rw [List.length_singleton, kIoBufferSize]; omega⟩
      exact recv_enabled (.data [b]) hpc (by simp [Net.kernelRecv, hu])
        (by simp only [State.stepRead, if_pos hin, if_pos hb, Option.isSome_some])
  · have hin : sourceEvents w client upstream &&& pollIn = 0 := Decidable.not_not.mp hin
    exact recv_enabled .compute hpc (by simp [Net.kernelRecv]) (by simp [State.stepRead, hin])

theorem poll_enabled {a : Args} {cap : Nat} {script : Way → Bytes} {s : Net} {client upstream : PollMask} (hcap : 0 < cap)
    (ho : NetOk script s) (hpc : s.tunnel.pc = .poll client upstream) : ∃ act s', s.step a cap act = some s' := by
  have hp := ho.tunnel.pc
  simp only [PcOk, hpc] at hp
  obtain ⟨rfl, rfl, hne⟩ := hp
  by_cases hr : (s.sock .c2u).revents cap s.tunnel.clientEvents ≠ 0 ∨
    (s.sock .u2c).revents cap s.tunnel.upstreamEvents ≠ 0
  · refine call_enabled (.polled ((s.sock .c2u).revents cap s.tunnel.clientEvents)
      ((s.sock .u2c).revents cap s.tunnel.upstreamEvents)) (by simp [Net.kernel, hpc, Net.kernelPoll]) ?_
    have hans : Answers s.tunnel.clientEvents ((s.sock .c2u).revents cap s.tunnel.clientEvents) ∧
        Answers s.tunnel.upstreamEvents ((s.sock .u2c).revents cap s.tunnel.upstreamEvents) ∧ _ :=
      ⟨Sock.answers_revents .., Sock.answers_revents .., hr⟩
    simp only [State.step, hpc, State.stepPoll, if_pos hans]
    split <;> rfl
  · obtain ⟨h0, h1⟩ := not_or.mp hr
    rcases hne with hne | hne
    · exact peer_enabled hcap ho .c2u (Sock.waiting hne (Decidable.not_not.mp h0))
    · exact peer_enabled hcap ho .u2c (Sock.waiting hne (Decidable.not_not.mp h1))

/-- Until the function has returned, something can happen. -/
theorem exists_step {a : Args} {cap : Nat} {script : Way → Bytes} {s : Net} (hcap : 0 < cap) (ho : NetOk script s)
    (hpc : ∀ ok, s.tunnel.pc ≠ .returned ok) : ∃ act s', s.step a cap act = some s' := by
  have hloop := ho.looping
  cases h : s.tunnel.pc with
  | flush w => exact flush_enabled h
  | shutdown w =>
    refine call_enabled .compute ?_ ?_
    · simp only [Net.kernel, h, Net.kernelShutdown]
      split <;> rfl
    · simp only [State.step, h]
      unfold State.stepShutdown
      cases w <;> split <;> rfl
  | finish =>
    refine call_enabled .compute (by simp [Net.kernel, h]) ?_
    simp only [State.step, h, State.stepFinish]
    split <;> rfl
  | interests =>
    refine call_enabled .compute (by simp [Net.kernel, h]) ?_
    simp only [State.step, h, State.stepInterests]
    split <;> rfl
  | poll client upstream => exact poll_enabled hcap ho h
  | read w client upstream => exact read_enabled h
  | returned ok => exact absurd h (hpc ok)
  | _ =>
    rw [h] at hloop
    exact absurd rfl hloop

end Tunnel
end HpServer
