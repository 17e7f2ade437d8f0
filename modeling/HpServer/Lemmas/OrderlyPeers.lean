import HpServer.StreamSockets
import HpServer.Lemmas.TunnelRelay

/-!
# What the relay does between orderly peers

`Called` lists what a step of the relay does when its calls are answered by the sockets of `StreamSockets`: it passes
control on (`Ctl`), is interrupted, or moves bytes or a flag. `NetOk` is what every step keeps, and `Net.budget` a
number every step makes smaller.
-/

namespace HpServer
namespace Tunnel

open PollMask Errno

/-! ## The steps of the relay -/

/-- Where the relay goes on after the read of a direction. -/
def Pc.afterRead (w : Way) (client upstream : PollMask) : Pc :=
  match w with
  | .c2u => .read .u2c client upstream
  | .u2c => .flush .c2u

theorem State.pc_afterRead (s : State) (w : Way) (client upstream : PollMask) :
    (s.afterRead w client upstream).pc = Pc.afterRead w client upstream := by
  cases w <;> rfl

theorem State.dir_afterRead (s : State) (w : Way) (client upstream : PollMask) :
    (s.afterRead w client upstream).dir = s.dir := by
  cases w <;> rfl

/-- The steps that leave buffers and sockets as they are. -/
inductive Ctl (cap : Nat) (s : Net) : Pc → Pc → Prop where
  | blocked (w : Way) : (s.tunnel.dir w).offset < (s.tunnel.dir w).buf.length → (s.dest w).writable cap = false →
      Ctl cap s (.flush w) (.afterFlush w)
  | notDue (w : Way) : (s.tunnel.dir w).shutDue = false → Ctl cap s (.shutdown w) (.afterShutdown w)
  | finished : Ctl cap s .finish (.returned true)
  | unfinished : Ctl cap s .finish .interests
  | ask : Ctl cap s .interests (.poll s.tunnel.clientEvents s.tunnel.upstreamEvents)
  | hangup (client upstream : PollMask) (w : Way) : (s.sock w).hungUp = true →
      Ctl cap s (.poll client upstream) (.returned false)
  | found (client upstream r0 r1 : PollMask) : (∀ w, (s.sock w).hungUp = false) →
      r0 = (s.sock .c2u).revents cap client → r1 = (s.sock .u2c).revents cap upstream → r0 ≠ 0 ∨ r1 ≠ 0 →
      Ctl cap s (.poll client upstream) (.read .c2u r0 r1)
  | drained (w : Way) (client upstream : PollMask) : (s.sock w).unread = [] → (s.sock w).fin = false →
      Ctl cap s (.read w client upstream) (.afterRead w client upstream)
  | skipped (w : Way) (client upstream : PollMask) : sourceEvents w client upstream &&& pollIn = 0 →
      Ctl cap s (.read w client upstream) (.afterRead w client upstream)

/-- What a step of the relay does, with the sockets. -/
inductive Called (cap : Nat) (s s' : Net) : Prop where
  | control : Ctl cap s s.tunnel.pc s'.tunnel.pc → s'.tunnel.dir = s.tunnel.dir → s'.sock = s.sock →
      s'.signals = s.signals → Called cap s s'
  | interrupt : (s'.tunnel.pc = s.tunnel.pc ∨ s'.tunnel.pc = .flush .c2u) → s'.tunnel.dir = s.tunnel.dir →
    s'.sock = s.sock →
      s'.signals + 1 = s.signals → Called cap s s'
  | send (w : Way) (n : Nat) : s.tunnel.pc = .flush w → s'.tunnel.pc = .flush w → 0 < n →
    n ≤ (s.tunnel.dir w).unsent.length →
      s'.tunnel.dir = Function.update s.tunnel.dir w ((s.tunnel.dir w).sent n) →
      s'.sock = Function.update s.sock w.other
        { s.dest w with queued := (s.dest w).queued ++ (s.tunnel.dir w).unsent.take n } →
      s'.signals = s.signals → Called cap s s'
  | clear (w : Way) : s.tunnel.pc = .flush w → s'.tunnel.pc = .afterFlush w →
      (s.tunnel.dir w).buf.length ≤ (s.tunnel.dir w).offset →
      s'.tunnel.dir = Function.update s.tunnel.dir w (s.tunnel.dir w).cleared → s'.sock = s.sock →
      s'.signals = s.signals → Called cap s s'
  | shut (w : Way) : s.tunnel.pc = .shutdown w → s'.tunnel.pc = .afterShutdown w → (s.tunnel.dir w).shutDue = true →
      s'.tunnel.dir = Function.update s.tunnel.dir w (s.tunnel.dir w).shutDown →
      s'.sock = Function.update s.sock w.other { s.dest w with shutWr := true } → s'.signals = s.signals → Called cap s s'
  | data (w : Way) (client upstream : PollMask) (bytes : Bytes) : s.tunnel.pc = .read w client upstream →
      s'.tunnel.pc = .read w client upstream → bytes ≠ [] → (s.sock w).unread.take bytes.length = bytes →
      s'.tunnel.dir = Function.update s.tunnel.dir w ((s.tunnel.dir w).received bytes) →
      s'.sock = Function.update s.sock w { s.sock w with unread := (s.sock w).unread.drop bytes.length } →
      s'.signals = s.signals → Called cap s s'
  | ended (w : Way) (client upstream : PollMask) : s.tunnel.pc = .read w client upstream →
      s'.tunnel.pc = .afterRead w client upstream → sourceEvents w client upstream &&& pollIn ≠ 0 →
      (s.sock w).unread = [] → (s.sock w).fin = true →
      s'.tunnel.dir = Function.update s.tunnel.dir w (s.tunnel.dir w).ended →
      s'.sock = Function.update s.sock w { s.sock w with finRead := true } → s'.signals = s.signals → Called cap s s'

/-- What `poll` reports beyond the events asked for is the hang-up. -/
theorem Sock.revents_always (cap : Nat) (k : Sock) (ev : PollMask) :
    k.revents cap ev &&& always = if k.hungUp then pollHup else 0 := by
  have hin : ∀ b : Bool, (if b then ev &&& pollIn else 0) &&& always = 0 := by
    intro b
    cases b
    · exact BitVec.zero_and
    · exact (BitVec.and_assoc ..).trans (BitVec.and_zero (x := ev))
  have hout : ∀ b : Bool, (if b then ev &&& pollOut else 0) &&& always = 0 := by
    intro b
    cases b
    · exact BitVec.zero_and
    · exact (BitVec.and_assoc ..).trans (BitVec.and_zero (x := ev))
  unfold Sock.revents
  rw [BitVec.and_or_distrib_right, BitVec.and_or_distrib_right, hin, hout]
  cases k.hungUp <;> decide

/-- A poll reports a hang-up exactly when a socket has both directions shut. -/
theorem Net.reports_hangup (cap : Nat) (s : Net) (client upstream : PollMask) :
    ((s.sock .c2u).revents cap client &&& always ≠ 0 ∨ (s.sock .u2c).revents cap upstream &&& always ≠ 0) ↔
      ∃ w, (s.sock w).hungUp = true := by
  have hiff : ∀ (k : Sock) ev, k.revents cap ev &&& always ≠ 0 ↔ k.hungUp = true := by
    intro k ev
    rw [Sock.revents_always]
    cases k.hungUp <;> decide
  rw [hiff, hiff]
  constructor
  · rintro (h | h)
    · exact ⟨.c2u, h⟩
    · exact ⟨.u2c, h⟩
  · rintro ⟨w, hw⟩
    cases w with
    | c2u => exact .inl hw
    | u2c => exact .inr hw

/-- An interrupt uses up one signal and changes nothing else. -/
theorem interrupt_eq {s t : Net} (h : s.interrupt = some t) :
    t.tunnel = s.tunnel ∧ t.sock = s.sock ∧ t.signals + 1 = s.signals := by
  unfold Net.interrupt at h
  split at h <;> cases h
  exact ⟨rfl, rfl, by simp only; omega⟩

/-- A call that only fails where it would block or is interrupted leaves nothing to print. -/
theorem mapErrno_afterSocketOps {ans : Answer} (h : ∀ e left, ans = .failed e left → e = eagain ∨ e = eintr) :
    ans.mapErrno afterSocketOps = ans := by
  cases ans with
  | failed e left => rw [Answer.mapErrno, afterSocketOps, if_pos (h e left rfl)]
  | _ => rfl

/-- The sockets let a `send` fail in these two ways only. -/
theorem ofSend_of_kernelSend {cap : Nat} {s t : Net} {w : Way} {ans : Answer} (hk : s.kernelSend cap w ans = some t) :
    ans.ofSend w = ans := by
  cases w with
  | u2c => rfl
  | c2u =>
    refine mapErrno_afterSocketOps ?_
    rintro e left rfl
    simp only [Net.kernelSend] at hk
    split at hk
    · exact .inr ‹_›
    · split at hk
      · exact .inl (And.left ‹_›)
      · cases hk

/-- And a `recv`. -/
theorem ofRecv_of_kernelRecv {s t : Net} {w : Way} {ans : Answer} (hk : s.kernelRecv w ans = some t) :
    ans.ofRecv w = ans := by
  cases w with
  | c2u => rfl
  | u2c =>
    refine mapErrno_afterSocketOps ?_
    rintro e left rfl
    simp only [Net.kernelRecv] at hk
    split at hk
    · exact .inr ‹_›
    · split at hk
      · exact .inl (And.left ‹_›)
      · cases hk

/-- A half-close does not fail. -/
theorem ofShutdown_of_kernelShutdown {s t : Net} {w : Way} {ans : Answer} (hk : s.kernelShutdown w ans = some t) :
    ans.ofShutdown w = ans := by
  cases ans with
  | compute => cases w <;> rfl
  | _ => cases hk

/-- What a `send` does, with the kernel's side of it. -/
theorem called_flush {cap : Nat} {s t : Net} {u : State} {w : Way} {ans : Answer} (hpc : s.tunnel.pc = .flush w)
    (hk : s.kernelSend cap w ans = some t) (hu : s.tunnel.stepFlush w ans = some u) :
    Called cap s { t with tunnel := u } := by
  unfold State.stepFlush at hu
  split at hu
  · rename_i hlt
    split at hu
    · rename_i n
      split at hu <;> cases hu
      rename_i hn
      simp only [Net.kernelSend] at hk
      split at hk <;> cases hk
      exact .send w n hpc hpc hn.1 hn.2 rfl rfl rfl
    · rename_i e
      simp only [Net.kernelSend] at hk
      split at hu
      · rename_i he
        cases hu
        rw [if_pos he] at hk
        obtain ⟨-, hsock, hsig⟩ := interrupt_eq hk
        exact .interrupt (.inl rfl) rfl hsock hsig
      · rename_i he
        rw [if_neg he] at hk
        split at hk <;> cases hk
        rename_i hb
        rw [if_pos hb.1] at hu
        cases hu
        exact .control (hpc ▸ .blocked w hlt hb.2) rfl rfl rfl
    · cases hk
    · cases hu
  · rename_i hlt
    split at hu <;> cases hu
    simp only [Net.kernelSend] at hk
    cases hk
    exact .clear w hpc rfl (Nat.not_lt.mp hlt) rfl rfl rfl

/-- What a `shutdown` does. -/
theorem called_shutdown {cap : Nat} {s t : Net} {u : State} {w : Way} {ans : Answer} (hpc : s.tunnel.pc = .shutdown w)
    (hk : s.kernelShutdown w ans = some t) (hu : s.tunnel.stepShutdown w ans = some u) :
    Called cap s { t with tunnel := u } := by
  unfold Net.kernelShutdown at hk
  split at hk
  · unfold State.stepShutdown at hu
    split at hk <;> cases hk
    · rename_i hdue
      rw [if_pos hdue] at hu
      cases hu
      exact .shut w hpc rfl hdue rfl rfl rfl
    · rename_i hdue
      rw [if_neg hdue] at hu
      cases hu
      exact .control (hpc ▸ .notDue w (eq_false_of_ne_true hdue)) rfl rfl rfl
  · cases hk

/-- What a `poll` does. -/
theorem called_poll {cap : Nat} {s t : Net} {u : State} {client upstream : PollMask} {ans : Answer}
    (hpc : s.tunnel.pc = .poll client upstream) (hk : s.kernelPoll cap client upstream ans = some t)
    (hu : s.tunnel.stepPoll client upstream ans = some u) : Called cap s { t with tunnel := u } := by
  unfold Net.kernelPoll at hk
  split at hk
  · rename_i r0 r1
    split at hk <;> cases hk
    rename_i hr
    simp only [State.stepPoll] at hu
    split at hu
    · rename_i hans
      obtain ⟨rfl, rfl⟩ := hr
      split at hu <;> cases hu
      · rename_i hh
        obtain ⟨w, hw⟩ := (Net.reports_hangup ..).mp hh
        exact .control (hpc ▸ .hangup _ _ w hw) rfl rfl rfl
      · rename_i hh
        have hno : ∀ w, (s.sock w).hungUp = false := by
          intro w
          by_contra hw
          exact hh ((Net.reports_hangup ..).mpr ⟨w, by simpa using hw⟩)
        exact .control (hpc ▸ .found _ _ _ _ hno rfl rfl hans.2.2) rfl rfl rfl
    · cases hu
  · rename_i e
    split at hk
    · rename_i he
      obtain ⟨-, hsock, hsig⟩ := interrupt_eq hk
      simp only [State.stepPoll, if_pos he] at hu
      cases hu
      exact .interrupt (.inr rfl) rfl hsock hsig
    · cases hk
  · cases hk

/-- What a `recv` does. -/
theorem called_read {cap : Nat} {s t : Net} {u : State} {w : Way} {client upstream : PollMask} {ans : Answer}
    (hpc : s.tunnel.pc = .read w client upstream) (hk : s.kernelRecv w ans = some t)
    (hu : s.tunnel.stepRead w client upstream ans = some u) : Called cap s { t with tunnel := u } := by
  unfold State.stepRead at hu
  split at hu
  · rename_i hin
    split at hu
    · rename_i bytes
      split at hu <;> cases hu
      rename_i hb
      simp only [Net.kernelRecv] at hk
      split at hk <;> cases hk
      rename_i ht
      exact .data w client upstream bytes hpc hpc hb.1 ht rfl rfl rfl
    · cases hu
      simp only [Net.kernelRecv] at hk
      split at hk <;> cases hk
      rename_i hf
      exact .ended w client upstream hpc (State.pc_afterRead ..) hin hf.1 hf.2 (State.dir_afterRead ..) rfl rfl
    · rename_i e
      simp only [Net.kernelRecv] at hk
      split at hu
      · rename_i he
        cases hu
        rw [if_pos he] at hk
        obtain ⟨-, hsock, hsig⟩ := interrupt_eq hk
        exact .interrupt (.inl rfl) rfl hsock hsig
      · rename_i he
        rw [if_neg he] at hk
        split at hk <;> cases hk
        rename_i hb
        rw [if_pos hb.1] at hu
        cases hu
        refine .control ?_ (State.dir_afterRead ..) rfl rfl
        simp only [hpc, State.pc_afterRead]
        exact .drained w client upstream hb.2.1 hb.2.2
    · cases hu
  · rename_i hin
    split at hu <;> cases hu
    simp only [Net.kernelRecv] at hk
    cases hk
    refine .control ?_ (State.dir_afterRead ..) rfl rfl
    simp only [hpc, State.pc_afterRead]
    exact .skipped w client upstream (Decidable.not_not.mp hin)

/-- What a step of the relay does when its calls are answered by the sockets. -/
theorem call_called {a : Args} {cap : Nat} {s s' : Net} {ans : Answer} (hp : PcOk s.tunnel)
    (h : s.step a cap (.call ans) = some s') : Called cap s s' := by
  obtain ⟨t, hk, hmap⟩ := Option.bind_eq_some_iff.mp h
  obtain ⟨u, hu, rfl⟩ := Option.map_eq_some_iff.mp hmap
  clear h hmap
  unfold Net.kernel at hk
  unfold State.step at hu
  split at hk <;> try (rename_i hpc; simp only [hpc] at hu)
  · exact called_flush hpc hk (ofSend_of_kernelSend hk ▸ hu)
  · exact called_shutdown hpc hk (ofShutdown_of_kernelShutdown hk ▸ hu)
  · split at hk <;> cases hk
    rename_i hans
    subst hans
    simp only [State.stepFinish] at hu
    split at hu <;> cases hu
    · exact .control (hpc ▸ .finished) rfl rfl rfl
    · exact .control (hpc ▸ .unfinished) rfl rfl rfl
  · split at hk <;> cases hk
    rename_i hans
    subst hans
    have hev : ¬(s.tunnel.clientEvents = 0 ∧ s.tunnel.upstreamEvents = 0) := by
      simp only [PcOk, hpc] at hp
      exact events_ne_zero hp
    simp only [State.stepInterests, if_neg hev] at hu
    cases hu
    exact .control (hpc ▸ .ask) rfl rfl rfl
  · exact called_poll hpc hk hu
  · exact called_read hpc hk (ofRecv_of_kernelRecv hk ▸ hu)
  · cases hk

/-- What a peer does to its socket. -/
inductive PeerStep (k : Sock) : Sock → Prop where
  | arrive (n : Nat) : 0 < n → n ≤ k.toCome.length →
      PeerStep k { k with toCome := k.toCome.drop n, unread := k.unread ++ k.toCome.take n }
  | finish : k.toCome = [] → k.fin = false → PeerStep k { k with fin := true }
  | drain (n : Nat) : 0 < n → n ≤ k.queued.length →
      PeerStep k { k with queued := k.queued.drop n, delivered := k.delivered ++ k.queued.take n }

/-- A step is one of the relay or of a peer. -/
theorem step_cases {a : Args} {cap : Nat} {s s' : Net} {act : NetAct} (h : s.step a cap act = some s') :
    (∃ ans, act = .call ans) ∨ ∃ w k, PeerStep (s.sock w) k ∧ s' = s.setSock w k := by
  cases act with
  | call ans => exact .inl ⟨ans, rfl⟩
  | arrive w n =>
    simp only [Net.step] at h
    split at h <;> cases h
    rename_i hn
    exact .inr ⟨w, _, .arrive n hn.1 hn.2, rfl⟩
  | finish w =>
    simp only [Net.step] at h
    split at h <;> cases h
    rename_i hf
    exact .inr ⟨w, _, .finish hf.1 hf.2, rfl⟩
  | drain w n =>
    simp only [Net.step] at h
    split at h <;> cases h
    rename_i hn
    exact .inr ⟨w, _, .drain n hn.1 hn.2, rfl⟩

/-! ## What every step keeps -/

/-- A flushed direction has an empty buffer or unsent bytes. -/
def Dir.Kept (d : Dir) : Prop := d.buf = [] ∨ d.offset < d.buf.length

/-- After its flush, and until the next read, a direction is as the flush left it. -/
def Flushed (dir : Way → Dir) : Pc → Prop
  | .flush .u2c => (dir .c2u).Kept
  | .shutdown _ | .finish | .interests | .poll _ _ => ∀ w, (dir w).Kept
  | _ => True

/-- The bytes of a direction, from what its destination took to what its source has still to send. -/
def Net.flow (s : Net) (w : Way) : Bytes :=
  (s.dest w).taken ++ (s.tunnel.dir w).unsent ++ (s.sock w).unread ++ (s.sock w).toCome

/-- What a socket and the direction it is the source of know of the peer's end. -/
structure SourceOk (k : Sock) (d : Dir) : Prop where
  fin : k.fin = true → k.toCome = []
  finRead : k.finRead = true → k.fin = true ∧ k.unread = []
  eof : d.eof = k.finRead

/-- The invariant of the relay between orderly peers that send `script`. -/
structure NetOk (script : Way → Bytes) (s : Net) : Prop where
  tunnel : TunnelOk s.tunnel
  looping : s.tunnel.pc.phase ≠ .before
  flow : ∀ w, s.flow w = script w
  source : ∀ w, SourceOk (s.sock w) (s.tunnel.dir w)
  flushed : Flushed s.tunnel.dir s.tunnel.pc

/-- It holds at the beginning. -/
theorem netOk_start (errno : Nat) (script : Way → Bytes) (signals : Nat) :
    NetOk script (Net.start errno script signals) where
  tunnel := ⟨fun _ => dirOk_init, trivial, ⟨nofun, rfl⟩⟩
  looping := nofun
  flow := fun _ => rfl
  source := fun _ => ⟨nofun, nofun, rfl⟩
  flushed := trivial

/-- A peer changes neither the order of the bytes it sends nor that of the bytes it is sent. -/
theorem PeerStep.bytes {k k' : Sock} (h : PeerStep k k') :
    k'.unread ++ k'.toCome = k.unread ++ k.toCome ∧ k'.taken = k.taken := by
  cases h with
  | arrive n =>
    refine ⟨?_, rfl⟩
    rw [List.append_assoc, List.take_append_drop]
  | finish => exact ⟨rfl, rfl⟩
  | drain n =>
    refine ⟨rfl, ?_⟩
    simp only [Sock.taken]
    rw [List.append_assoc, List.take_append_drop]

/-- A peer that sends, ends or reads keeps it. -/
theorem PeerStep.sourceOk {k k' : Sock} {d : Dir} (h : PeerStep k k') (ho : SourceOk k d) : SourceOk k' d := by
  cases h with
  | arrive n hn hle =>
    have hfin : k.fin = false := by
      by_contra hf
      rw [ho.fin (by simpa using hf)] at hle
      simp at hle
      omega
    have hread : k.finRead = false := by
      by_contra hr
      rw [(ho.finRead (by simpa using hr)).1] at hfin
      cases hfin
    exact ⟨fun hf => by simp [hfin] at hf, fun hr => by simp [hread] at hr, ho.eof⟩
  | finish hc hf =>
    exact ⟨fun _ => hc, fun hr => ⟨rfl, (ho.finRead hr).2⟩, ho.eof⟩
  | drain n => exact ⟨ho.fin, ho.finRead, ho.eof⟩

/-- A peer's step keeps the invariant. -/
theorem PeerStep.netOk {script : Way → Bytes} {s : Net} {w : Way} {k : Sock} (h : PeerStep (s.sock w) k)
    (ho : NetOk script s) : NetOk script (s.setSock w k) := by
  refine ⟨ho.tunnel, ho.looping, fun v => ?_, fun v => ?_, ho.flushed⟩
  · rw [← ho.flow v]
    obtain ⟨hin, hout⟩ := h.bytes
    unfold Net.flow Net.dest
    cases w <;> cases v <;> simp [Net.setSock, Way.other, List.append_assoc, hin, hout]
  · by_cases hv : v = w
    · subst hv
      simpa [Net.setSock] using h.sourceOk (ho.source v)
    · simpa [Net.setSock, hv] using ho.source v

/-- What was sent is no longer unsent. -/
theorem Dir.unsent_sent (d : Dir) (n : Nat) : (d.sent n).unsent = d.unsent.drop n := by
  simp [Dir.sent, Dir.unsent, List.drop_drop]

/-- What was received is unsent. -/
theorem Dir.unsent_received {d : Dir} (hd : DirOk d) (bytes : Bytes) : (d.received bytes).unsent = d.unsent ++ bytes :=
  List.drop_append_of_le_length hd.offset

/-- Every step of the relay keeps the order of the bytes of each direction. -/
theorem Called.flow {cap : Nat} {s s' : Net} (h : Called cap s s') (hd : ∀ w, DirOk (s.tunnel.dir w)) (v : Way) :
    s'.flow v = s.flow v := by
  unfold Net.flow Net.dest
  cases h with
  | control _ hdir hsock _ => rw [hdir, hsock]
  | interrupt _ hdir hsock _ => rw [hdir, hsock]
  | send w n _ _ _ _ hdir hsock _ =>
    rw [hdir, hsock]
    by_cases hv : v = w
    · subst hv
      have hne : v ≠ v.other := by cases v <;> nofun
      simp only [Function.update_self, Function.update_of_ne hne, Dir.unsent_sent, Sock.taken, Net.dest]
      rw [← List.append_assoc, List.append_assoc _ _ (List.drop n _), List.take_append_drop]
    · have hvw : v = w.other := by cases v <;> cases w <;> simp_all [Way.other]
      have hne : w ≠ w.other := by cases w <;> nofun
      subst hvw
      have hoo : w.other.other = w := by cases w <;> rfl
      simp only [hoo, Function.update_self, Function.update_of_ne hne, Function.update_of_ne hv, Net.dest]
  | clear w _ _ hle hdir hsock _ =>
    rw [hdir, hsock]
    by_cases hv : v = w
    · subst hv
      have hemp : (s.tunnel.dir v).unsent = [] := List.drop_eq_nil_of_le hle
      simp only [Function.update_self, hemp]
      rfl
    · rw [Function.update_of_ne hv]
  | shut w _ _ _ hdir hsock _ =>
    rw [hdir, hsock]
    cases v <;> cases w <;> rfl
  | data w client upstream bytes _ _ _ htake hdir hsock _ =>
    rw [hdir, hsock]
    by_cases hv : v = w
    · subst hv
      have hne : v.other ≠ v := by cases v <;> nofun
      simp only [Function.update_self, Function.update_of_ne hne, Dir.unsent_received (hd v)]
      have hsplit : bytes ++ (s.sock v).unread.drop bytes.length = (s.sock v).unread := by
        have hcut := List.take_append_drop bytes.length (s.sock v).unread
        rwa [htake] at hcut
      rw [← List.append_assoc, List.append_assoc _ bytes, hsplit]
    · have hvw : v = w.other := by cases v <;> cases w <;> simp_all [Way.other]
      subst hvw
      have hoo : w.other.other = w := by cases w <;> rfl
      simp only [hoo, Function.update_self, Function.update_of_ne hv, Sock.taken]
  | ended w client upstream _ _ _ _ _ hdir hsock _ =>
    rw [hdir, hsock]
    cases v <;> cases w <;> rfl

/-- Only the read of the end of the stream changes what a source knows. -/
theorem Called.source {cap : Nat} {s s' : Net} (h : Called cap s s')
    (ho : ∀ w, SourceOk (s.sock w) (s.tunnel.dir w)) (v : Way) :
    SourceOk (s'.sock v) (s'.tunnel.dir v) := by
  have hv := ho v
  cases h with
  | control _ hdir hsock _ =>
    rw [hdir, hsock]
    exact hv
  | interrupt _ hdir hsock _ =>
    rw [hdir, hsock]
    exact hv
  | send w n _ _ _ _ hdir hsock _ =>
    rw [hdir, hsock]
    obtain ⟨h1, h2, h3⟩ := hv
    cases v <;> cases w <;> exact ⟨h1, h2, h3⟩
  | clear w _ _ _ hdir hsock _ =>
    rw [hdir, hsock]
    obtain ⟨h1, h2, h3⟩ := hv
    cases v <;> cases w <;> exact ⟨h1, h2, h3⟩
  | shut w _ _ _ hdir hsock _ =>
    rw [hdir, hsock]
    obtain ⟨h1, h2, h3⟩ := hv
    cases v <;> cases w <;> exact ⟨h1, h2, h3⟩
  | data w client upstream bytes _ _ hne htake hdir hsock _ =>
    rw [hdir, hsock]
    by_cases hvw : v = w
    · subst hvw
      simp only [Function.update_self]
      refine ⟨hv.fin, fun hr => ?_, hv.eof⟩
      have hemp := (hv.finRead hr).2
      rw [hemp, List.take_nil] at htake
      exact absurd htake.symm hne
    · rw [Function.update_of_ne hvw, Function.update_of_ne hvw]
      exact hv
  | ended w client upstream _ _ _ hemp hfin hdir hsock _ =>
    rw [hdir, hsock]
    by_cases hvw : v = w
    · subst hvw
      simp only [Function.update_self]
      exact ⟨hv.fin, fun _ => ⟨hfin, hemp⟩, rfl⟩
    · rw [Function.update_of_ne hvw, Function.update_of_ne hvw]
      exact hv

/-- Once the second flush is done both directions are as their flush left them. -/
theorem flushed_afterFlush {dir : Way → Dir} {w : Way} (ho : Flushed dir (.flush w)) (hw : (dir w).Kept) :
    Flushed dir (.afterFlush w) := by
  cases w with
  | c2u => exact hw
  | u2c =>
    intro v
    cases v with
    | c2u => exact ho
    | u2c => exact hw

theorem flushed_afterShutdown {dir : Way → Dir} {w : Way} (h : ∀ v, (dir v).Kept) : Flushed dir (.afterShutdown w) := by
  cases w <;> exact h

theorem flushed_afterRead {dir : Way → Dir} {w : Way} {client upstream : PollMask} :
    Flushed dir (.afterRead w client upstream) := by
  cases w <;> trivial

/-- Passing control on leaves the directions as the flush left them. -/
theorem Ctl.flushed {cap : Nat} {s : Net} {p p' : Pc} (h : Ctl cap s p p') (ho : Flushed s.tunnel.dir p) :
    Flushed s.tunnel.dir p' := by
  cases h with
  | blocked w hlt _ => exact flushed_afterFlush ho (.inr hlt)
  | notDue w _ => exact flushed_afterShutdown ho
  | unfinished => exact ho
  | ask => exact ho
  | drained w => exact flushed_afterRead
  | skipped w => exact flushed_afterRead
  | _ => trivial

/-- What a flush leaves stays until the next read. -/
theorem Called.flushed {cap : Nat} {s s' : Net} (h : Called cap s s') (ho : Flushed s.tunnel.dir s.tunnel.pc) :
    Flushed s'.tunnel.dir s'.tunnel.pc := by
  cases h with
  | control hc hdir _ _ =>
    rw [hdir]
    exact hc.flushed ho
  | interrupt hpc hdir _ _ =>
    rw [hdir]
    rcases hpc with hpc | hpc <;> rw [hpc]
    · exact ho
    · trivial
  | send w n hpc hpc' _ _ hdir _ _ =>
    rw [hpc] at ho
    rw [hpc', hdir]
    cases w with
    | c2u => trivial
    | u2c => exact ho
  | clear w hpc hpc' _ hdir _ _ =>
    rw [hpc] at ho
    rw [hpc', hdir]
    refine flushed_afterFlush ?_ ?_
    · cases w with
      | c2u => trivial
      | u2c => exact ho
    · rw [Function.update_self]
      exact .inl rfl
  | shut w hpc hpc' _ hdir _ _ =>
    rw [hpc] at ho
    rw [hpc', hdir]
    refine flushed_afterShutdown fun v => ?_
    have hv : (s.tunnel.dir v).Kept := ho v
    by_cases hvw : v = w
    · subst hvw
      rw [Function.update_self]
      exact hv
    · rw [Function.update_of_ne hvw]
      exact hv
  | data w client upstream bytes _ hpc' =>
    rw [hpc']
    trivial
  | ended w client upstream _ hpc' =>
    rw [hpc']
    exact flushed_afterRead

/-- The loop is never left for what comes before it. -/
theorem Turn.not_before {s s' : State} (h : Turn s s') (hs : s.pc.phase ≠ .before) : s'.pc.phase ≠ .before := by
  cases h with
  | stay hph _ _ => rw [hph]; exact hs
  | loop _ hpc _ _ => rw [hpc]; nofun
  | poll _ hph _ _ _ => rw [hph]; nofun
  | exit _ hph _ _ => rw [hph]; nofun

/-- Every step keeps the invariant. -/
theorem step_netOk {a : Args} {cap : Nat} {script : Way → Bytes} {s s' : Net} {act : NetAct} (ho : NetOk script s)
    (h : s.step a cap act = some s') : NetOk script s' := by
  rcases step_cases h with ⟨ans, rfl⟩ | ⟨w, k, hk, rfl⟩
  · have hcall := call_called ho.tunnel.pc h
    obtain ⟨t, -, hmap⟩ := Option.bind_eq_some_iff.mp h
    obtain ⟨u, hu, rfl⟩ := Option.map_eq_some_iff.mp hmap
    exact ⟨step_tunnelOk (a := a) ho.tunnel hu, (step_turn ho.tunnel.pc hu).not_before ho.looping,
      fun v => (hcall.flow ho.tunnel.dirs v).trans (ho.flow v), hcall.source ho.source, hcall.flushed ho.flushed⟩
  · exact hk.netOk ho

end Tunnel
end HpServer
