import HpServer.LlhttpMessages
import Mathlib.Data.List.Basic

/-!
# What the machine has read

A buffer may be cut anywhere: reading its parts one after another is reading it whole (`run_append`). From the start,
llhttp reads a message to the point behind it (`Message.run`), and the beginning of a message to a point inside
(`Partial.run`). Conversely, whatever it has read when it is at a point has the form that `Reads` says (`run_reads`):
one byte leads from one form to the next, and by induction so do all.
-/

namespace HpServer
namespace Llhttp

section

variable {τ κ α : Type} {read : τ → UInt8 → Lexed τ κ α}

/-- A part that goes on is read in two steps. -/
theorem readPart_append {state state' : τ} {a : Bytes} {out : List κ}
    (ha : readPart read state a = some (state', out)) (b : Bytes) :
    readPart read state (a ++ b) = (readPart read state' b).map fun r => (r.1, out ++ r.2) := by
  induction a generalizing state out with
  | nil =>
    obtain ⟨rfl, rfl⟩ := Prod.mk.inj (Option.some.inj ha)
    simp
  | cons x a ih =>
    rw [List.cons_append, readPart]
    rw [readPart] at ha
    cases hx : read state x with
    | more state₁ out₁ =>
      simp only [hx] at ha ⊢
      obtain ⟨⟨state₂, out₂⟩, hrest, heq⟩ := Option.map_eq_some_iff.mp ha
      obtain ⟨rfl, rfl⟩ := Prod.mk.inj heq
      rw [ih hrest, Option.map_map]
      simp only [Function.comp_def, List.append_assoc]
    | done => simp [hx] at ha
    | error => simp [hx] at ha

/-- A text that is read to its end may be cut anywhere before it. -/
theorem readAll_append {state state' : τ} {a : Bytes} {out : List κ}
    (ha : readPart read state a = some (state', out)) (b : Bytes) :
    readAll read state (a ++ b) = (readAll read state' b).map fun r => (out ++ r.1, r.2) := by
  induction a generalizing state out with
  | nil =>
    obtain ⟨rfl, rfl⟩ := Prod.mk.inj (Option.some.inj ha)
    simp
  | cons x a ih =>
    rw [List.cons_append, readAll]
    rw [readPart] at ha
    cases hx : read state x with
    | more state₁ out₁ =>
      simp only [hx] at ha ⊢
      obtain ⟨⟨state₂, out₂⟩, hrest, heq⟩ := Option.map_eq_some_iff.mp ha
      obtain ⟨rfl, rfl⟩ := Prod.mk.inj heq
      rw [ih hrest, Option.map_map]
      simp only [Function.comp_def, List.append_assoc]
    | done => simp [hx] at ha
    | error => simp [hx] at ha

/-- What stands before the end of a text is a beginning of it. -/
theorem readPart_of_readAll {state : τ} {a b : Bytes} {result : List κ × α}
    (h : readAll read state (a ++ b) = some result)
    (hb : b ≠ []) : ∃ state' out, readPart read state a = some (state', out) := by
  induction a generalizing state result with
  | nil => exact ⟨state, [], rfl⟩
  | cons x a ih =>
    rw [List.cons_append, readAll] at h
    rw [readPart]
    cases hx : read state x with
    | more state₁ out₁ =>
      simp only [hx] at h
      obtain ⟨result', hrest, -⟩ := Option.map_eq_some_iff.mp h
      obtain ⟨state₂, out₂, hpart⟩ := ih hrest
      exact ⟨state₂, out₁ ++ out₂, by simp [hpart]⟩
    | done => simp [hx, hb] at h
    | error => simp [hx] at h

/-- One more byte of a part. -/
theorem readPart_snoc_more {state state' state'' : τ} {a : Bytes} {b : UInt8} {out out' : List κ}
    (ha : readPart read state a = some (state', out)) (hb : read state' b = .more state'' out') :
    readPart read state (a ++ [b]) = some (state'', out ++ out') := by
  rw [readPart_append ha, readPart, hb]
  simp [readPart]

/-- The last byte of a text. -/
theorem readAll_snoc_done {state state' : τ} {a : Bytes} {b : UInt8} {out out' : List κ} {result : α}
    (ha : readPart read state a = some (state', out)) (hb : read state' b = .done result out') :
    readAll read state (a ++ [b]) = some (out ++ out', result) := by
  rw [readAll_append ha, readAll, hb]
  simp

end

variable {τ : Type} (lexer : Lexer τ) (kind : Kind)

/-- A run is one byte, and the rest from where it leads. -/
theorem run_cons (p : Point τ) (b : UInt8) (rest : Bytes) :
    run lexer kind p (b :: rest) =
      ((run lexer kind (step lexer kind b p).1 rest).1,
        (step lexer kind b p).2 ++ (run lexer kind (step lexer kind b p).1 rest).2) := rfl

/-- Reading two parts is reading the first, and then the second from where the first ended. -/
theorem run_append (p : Point τ) (a b : Bytes) :
    run lexer kind p (a ++ b) =
      ((run lexer kind (run lexer kind p a).1 b).1,
        (run lexer kind p a).2 ++ (run lexer kind (run lexer kind p a).1 b).2) := by
  induction a generalizing p with
  | nil => rfl
  | cons x a ih => rw [List.cons_append, run_cons, ih, run_cons, List.append_assoc]

/-- A second part, read from where the first ended. -/
theorem run_append_of {p p' p'' : Point τ} {a b : Bytes} {out out' : List Callback} (ha : run lexer kind p a = (p', out))
    (hb : run lexer kind p' b = (p'', out')) : run lexer kind p (a ++ b) = (p'', out ++ out') := by
  rw [run_append, ha, hb]

/-! ## Reading what is there -/

/-- A body that lasts until the end of the stream. -/
theorem run_untilEof (h : Head) (bytes : Bytes) :
    run lexer kind (.untilEof h) bytes = (.untilEof h, bodyCallbacks bytes) := by
  induction bytes with
  | nil => rfl
  | cons b bytes ih =>
    rw [run_cons]
    simp only [step, ih]
    rfl

/-- A part of a body of a given length. -/
theorem run_identity_part (h : Head) {need : Nat} {part : Bytes} (hlen : part.length < need) :
    run lexer kind (.identity h need) part = (.identity h (need - part.length), bodyCallbacks part) := by
  induction part generalizing need with
  | nil => rfl
  | cons b part ih =>
    rw [List.length_cons] at hlen
    rw [run_cons]
    simp only [step, if_neg (show ¬need ≤ 1 by omega), ih (show part.length < need - 1 by omega), Prod.mk.injEq]
    refine ⟨?_, rfl⟩
    rw [List.length_cons]
    congr 1
    omega

/-- A body of a given length. -/
theorem run_identity (h : Head) {body : Bytes} (hne : body ≠ []) :
    run lexer kind (.identity h body.length) body = (afterBody kind h h, bodyCallbacks body ++ [.messageComplete]) := by
  obtain ⟨front, b, rfl⟩ := (List.eq_nil_or_concat body).resolve_left hne
  rw [List.concat_eq_append, List.length_append, List.length_singleton]
  have hfront := run_identity_part lexer kind h (Nat.lt_succ_self front.length)
  rw [Nat.succ_eq_add_one, Nat.add_sub_cancel_left] at hfront
  refine (run_append_of lexer kind hfront (b := [b]) rfl).trans ?_
  simp [bodyCallbacks]

/-- A part of a chunked body. -/
theorem run_chunked_part (h : Head) {state state' : τ} {part : Bytes} {pieces : List Piece}
    (hpart : readPart (lexer.chunk kind h) state part = some (state', pieces)) :
    run lexer kind (.chunked h state) part = (.chunked h state', pieces.map Piece.callback) := by
  induction part generalizing state pieces with
  | nil =>
    obtain ⟨rfl, rfl⟩ := Prod.mk.inj (Option.some.inj hpart)
    rfl
  | cons b part ih =>
    rw [readPart] at hpart
    cases hb : lexer.chunk kind h state b with
    | more state₁ out₁ =>
      simp only [hb] at hpart
      obtain ⟨⟨state₂, out₂⟩, hrest, heq⟩ := Option.map_eq_some_iff.mp hpart
      obtain ⟨rfl, rfl⟩ := Prod.mk.inj heq
      rw [run_cons]
      simp only [step, hb, ih hrest, List.map_append]
    | done => simp [hb] at hpart
    | error => simp [hb] at hpart

/-- A chunked body. -/
theorem run_chunked (h : Head) {state : τ} {body : Bytes} {pieces : List Piece} {last : Head}
    (hbody : readAll (lexer.chunk kind h) state body = some (pieces, last)) :
    run lexer kind (.chunked h state) body =
      (afterBody kind h last, pieces.map Piece.callback ++ [.messageComplete]) := by
  induction body generalizing state pieces with
  | nil => cases hbody
  | cons b body ih =>
    rw [readAll] at hbody
    rw [run_cons]
    cases hb : lexer.chunk kind h state b with
    | more state₁ out₁ =>
      simp only [hb] at hbody
      obtain ⟨⟨out₂, last'⟩, hrest, heq⟩ := Option.map_eq_some_iff.mp hbody
      obtain ⟨rfl, rfl⟩ := Prod.mk.inj heq
      simp only [step, hb, ih hrest, List.map_append, List.append_assoc]
    | done result out =>
      simp only [hb] at hbody
      split at hbody
      · rename_i hnil
        obtain ⟨rfl, rfl⟩ := Prod.mk.inj (Option.some.inj hbody)
        subst hnil
        simp [step, hb, run]
      · cases hbody
    | error => simp [hb] at hbody

/-- A part of a head. -/
theorem run_head_part {state state' : τ} {part : Bytes} {texts : List (Text × Bytes)}
    (hpart : readPart (lexer.head kind) state part = some (state', texts)) :
    run lexer kind (.head state) part = (.head state', textCallbacks texts) := by
  induction part generalizing state texts with
  | nil =>
    obtain ⟨rfl, rfl⟩ := Prod.mk.inj (Option.some.inj hpart)
    rfl
  | cons b part ih =>
    rw [readPart] at hpart
    cases hb : lexer.head kind state b with
    | more state₁ out₁ =>
      simp only [hb] at hpart
      obtain ⟨⟨state₂, out₂⟩, hrest, heq⟩ := Option.map_eq_some_iff.mp hpart
      obtain ⟨rfl, rfl⟩ := Prod.mk.inj heq
      rw [run_cons]
      simp only [step, headByte, hb, ih hrest, textCallbacks, List.map_append]
    | done => simp [hb] at hpart
    | error => simp [hb] at hpart

/-- A head to its end. -/
theorem run_head {state : τ} {text : Bytes} {texts : List (Text × Bytes)} {h : Head}
    (htext : readAll (lexer.head kind) state text = some (texts, h)) :
    run lexer kind (.head state) text =
      ((afterHead lexer kind h).1, textCallbacks texts ++ .headersComplete h :: (afterHead lexer kind h).2) := by
  induction text generalizing state texts with
  | nil => cases htext
  | cons b text ih =>
    rw [readAll] at htext
    rw [run_cons]
    cases hb : lexer.head kind state b with
    | more state₁ out₁ =>
      simp only [hb] at htext
      obtain ⟨⟨out₂, h'⟩, hrest, heq⟩ := Option.map_eq_some_iff.mp htext
      obtain ⟨rfl, rfl⟩ := Prod.mk.inj heq
      simp only [step, headByte, hb, ih hrest, textCallbacks, List.map_append, List.append_assoc]
    | done result out =>
      simp only [hb] at htext
      split at htext
      · rename_i hnil
        obtain ⟨rfl, rfl⟩ := Prod.mk.inj (Option.some.inj htext)
        subst hnil
        simp [step, headByte, hb, run, textCallbacks]
      · cases htext
    | error => simp [hb] at htext

/-- A message begins with the first byte that is no line end. -/
theorem run_start {text : Bytes} (h : Begins text) :
    run lexer kind .start text =
      ((run lexer kind (.head lexer.headStart) text).1,
        .messageBegin :: (run lexer kind (.head lexer.headStart) text).2) := by
  obtain ⟨b, rest, rfl, hb⟩ := h
  simp [run_cons, step, hb]

/-- Line ends before a message are skipped. -/
theorem run_blank_start {text : Bytes} (h : Blank text) : run lexer kind .start text = (.start, []) := by
  induction text with
  | nil => rfl
  | cons b text ih =>
    rw [run_cons]
    simp [step, h b (by simp), ih fun c hc => h c (by simp [hc])]

/-- After an upgrade nothing is read. -/
theorem run_paused (h : Head) (bytes : Bytes) : run lexer kind (.paused h) bytes = (.paused h, []) := by
  induction bytes with
  | nil => rfl
  | cons b bytes ih =>
    rw [run_cons]
    simp only [step, ih, List.append_nil]

/-- After an error nothing is read. -/
theorem run_failed (bytes : Bytes) : run lexer kind .failed bytes = (.failed, []) := by
  induction bytes with
  | nil => rfl
  | cons b bytes ih =>
    rw [run_cons]
    simp only [step, ih, List.append_nil]

/-- Line ends behind a last message are skipped. -/
theorem run_blank_closed {text : Bytes} (h : Blank text) : run lexer kind .closed text = (.closed, []) := by
  induction text with
  | nil => rfl
  | cons b text ih =>
    rw [run_cons]
    simp [step, h b (by simp), ih fun c hc => h c (by simp [hc])]

/-- No message follows the last one. -/
theorem run_closed {text : Bytes} (h : Begins text) : run lexer kind .closed text = (.failed, []) := by
  obtain ⟨b, rest, rfl, hb⟩ := h
  rw [run_cons]
  simp only [step, hb, Bool.false_eq_true, if_false, run_failed, List.append_nil]

variable {lexer kind}

/-- A body of a given length is announced only if it is not empty. -/
theorem Head.contentLength_pos {h : Head} (hafter : h.afterHeadersComplete kind = .identity) :
    0 < h.contentLength.toNat := by
  have hne : h.contentLength ≠ 0 := by
    intro hzero
    unfold Head.afterHeadersComplete at hafter
    simp only [hzero, if_true] at hafter
    repeat' split at hafter
    all_goals cases hafter
  exact Nat.pos_of_ne_zero fun hzero => hne (UInt64.toNat_inj.mp hzero)

/-- From the start, a head is read to the point behind it. -/
theorem HeadText.run (hd : HeadText lexer kind) :
    Llhttp.run lexer kind .start hd.text =
      ((afterHead lexer kind hd.info).1, hd.callbacks ++ (afterHead lexer kind hd.info).2) := by
  rw [run_start lexer kind hd.begins, run_head lexer kind hd.isHead]
  simp [HeadText.callbacks]

/-- From the start, a message is read to the point behind it. -/
theorem Message.run (m : Message lexer kind) : Llhttp.run lexer kind .start m.bytes = (m.after, m.callbacks) := by
  have hhead := m.toHeadText.run
  have hbody := m.isBody
  rw [IsBody] at hbody
  rw [afterHead] at hhead
  rw [Message.bytes, Message.after, Message.callbacks]
  cases hafter : m.info.afterHeadersComplete kind with
  | restart | pause =>
    simp only [hafter] at hhead hbody
    rw [hbody.1, hbody.2.1, hbody.2.2, List.append_nil, List.append_nil]
    exact hhead
  | chunked =>
    simp only [hafter] at hhead hbody
    obtain ⟨pieces, hpieces, hout⟩ := hbody
    rw [List.append_nil] at hhead
    rw [hout, List.append_assoc]
    exact run_append_of lexer kind hhead (run_chunked lexer kind m.info hpieces)
  | identity =>
    simp only [hafter] at hhead hbody
    obtain ⟨hlen, hout, hlast⟩ := hbody
    rw [List.append_nil, ← hlen] at hhead
    rw [hout, hlast, List.append_assoc]
    refine run_append_of lexer kind hhead (run_identity lexer kind m.info fun hnil => ?_)
    have hpos := Head.contentLength_pos hafter
    rw [← hlen, hnil] at hpos
    cases hpos
  | untilEof | invalid => simp only [hafter] at hbody

/-- From the end of its head, a part of a body is read to a point inside it. -/
theorem BodyPart.run {h : Head} {part : Bytes} {p : Point τ} {out : List Callback}
    (hpart : BodyPart lexer kind h part p out) :
    (afterHead lexer kind h).2 = [] ∧ Llhttp.run lexer kind (afterHead lexer kind h).1 part = (p, out) := by
  rw [afterHead]
  cases hpart with
  | chunked hafter hread => simpa only [hafter, true_and] using run_chunked_part lexer kind h hread
  | identity hafter hlen => simpa only [hafter, true_and] using run_identity_part lexer kind h hlen
  | untilEof hafter => simpa only [hafter, true_and] using run_untilEof lexer kind h part

/-- From the start, the beginning of a message is read to a point inside it. -/
theorem Partial.run {part : Bytes} {p : Point τ} {out : List Callback} (hpart : Partial lexer kind part p out) :
    Llhttp.run lexer kind .start part = (p, out) := by
  cases hpart with
  | head hbegins hread => rw [run_start lexer kind hbegins, run_head_part lexer kind hread]
  | body hd hbody =>
    obtain ⟨hnil, hrun⟩ := hbody.run
    have hhead := hd.run
    rw [hnil, List.append_nil] at hhead
    exact run_append_of lexer kind hhead hrun

/-- Messages that keep the connection, and line ends between them, lead back to the start. -/
theorem Between.run {pre : Bytes} {out : List Callback} (h : Between lexer kind pre out) :
    Llhttp.run lexer kind .start pre = (.start, out) := by
  induction h with
  | nil => rfl
  | lineEnd _ hb ih =>
    rw [run_append, ih]
    simp [Llhttp.run, step, hb]
  | message m _ hafter ih => exact run_append_of lexer kind ih (hafter ▸ m.run)

/-- What begins a text without a line end does so itself. -/
theorem Begins.of_append {a b : Bytes} (h : Begins (a ++ b)) (ha : a ≠ []) : Begins a := by
  obtain ⟨c, rest, heq, hc⟩ := h
  cases a with
  | nil => exact absurd rfl ha
  | cons x a =>
    obtain ⟨rfl, -⟩ := List.cons.inj heq
    exact ⟨x, a, rfl, hc⟩

/-- Whatever follows, a text begins as its first part does. -/
theorem Begins.append {a : Bytes} (h : Begins a) (b : Bytes) : Begins (a ++ b) := by
  obtain ⟨c, rest, rfl, hc⟩ := h
  exact ⟨c, rest ++ b, rfl, hc⟩

/-- What stands before the end of a body is a part of it. -/
theorem IsBody.part {h last : Head} {a b : Bytes} {out : List Callback} (hbody : IsBody lexer kind h (a ++ b) out last)
    (hb : b ≠ []) :
    ∃ p out', BodyPart lexer kind h a p out' := by
  rw [IsBody] at hbody
  cases hafter : h.afterHeadersComplete kind with
  | restart | pause =>
    simp only [hafter] at hbody
    exact absurd (List.append_eq_nil_iff.mp hbody.1).2 hb
  | chunked =>
    simp only [hafter] at hbody
    obtain ⟨pieces, hpieces, -⟩ := hbody
    obtain ⟨state, pieces', hpart⟩ := readPart_of_readAll hpieces hb
    exact ⟨_, _, .chunked hafter hpart⟩
  | identity =>
    simp only [hafter] at hbody
    have hlen := hbody.1
    rw [List.length_append] at hlen
    have hpos := List.length_pos_of_ne_nil hb
    exact ⟨_, _, .identity hafter (by omega)⟩
  | untilEof | invalid => simp only [hafter] at hbody

/-- What stands before the end of a head is a beginning of a message. -/
theorem HeadText.partial_of_append (hd : HeadText lexer kind) {a b : Bytes} (hab : hd.text = a ++ b) (ha : a ≠ [])
    (hb : b ≠ []) :
    ∃ p out, Partial lexer kind a p out := by
  have hhead := hd.isHead
  have hbegins := hd.begins
  rw [hab] at hhead hbegins
  obtain ⟨state, texts, hread⟩ := readPart_of_readAll hhead hb
  exact ⟨_, _, .head (hbegins.of_append ha) hread⟩

/-- What stands before the end of a message is a beginning of one. -/
theorem Message.partial_of_append (m : Message lexer kind) {a b : Bytes} (hab : m.bytes = a ++ b) (ha : a ≠ [])
    (hb : b ≠ []) :
    ∃ p out, Partial lexer kind a p out := by
  have hbody : ∀ part, a = m.text ++ part → m.body = part ++ b → ∃ p out, Partial lexer kind a p out := by
    intro part hpart hrest
    have hisBody := m.isBody
    rw [hrest] at hisBody
    obtain ⟨p, out, hbodyPart⟩ := hisBody.part hb
    rw [hpart]
    exact ⟨p, _, .body m.toHeadText hbodyPart⟩
  rcases List.append_eq_append_iff.mp hab with ⟨part, hpart, hrest⟩ | ⟨rest, htext, hrest⟩
  · exact hbody part hpart hrest
  · by_cases hnil : rest = []
    · -- the cut is between the head and the body
      subst hnil
      exact hbody [] (by rw [htext, List.append_nil, List.append_nil]) hrest.symm
    · exact m.toHeadText.partial_of_append htext ha hnil

/-! ## What has been read -/

/-- Behind a message llhttp is before the next one, behind the last one, or at a pause. -/
theorem Message.after_cases (m : Message lexer kind) :
    m.after = .start ∨ m.after = .closed ∨ m.after = .paused m.last := by
  have hcomplete : afterMessageComplete kind m.last = (.start : Point τ) ∨
      afterMessageComplete kind m.last = (.closed : Point τ) := by
    unfold afterMessageComplete
    split
    · exact .inl rfl
    · exact .inr rfl
  unfold Message.after
  split
  · exact hcomplete.imp_right .inl
  · exact .inr (.inr rfl)
  · unfold afterBody
    split
    · exact .inr (.inr rfl)
    · exact hcomplete.imp_right .inl

/-- A head has at least one byte. -/
theorem HeadText.text_ne_nil (hd : HeadText lexer kind) : hd.text ≠ [] := by
  obtain ⟨b, rest, heq, -⟩ := hd.begins
  simp [heq]

/-- So has a message. -/
theorem Message.bytes_ne_nil (m : Message lexer kind) : m.bytes ≠ [] := by
  simp [Message.bytes, m.text_ne_nil]

/-- Whole messages: none, or a last one with line ends behind it. -/
theorem Between.last {pre : Bytes} {out : List Callback} (h : Between lexer kind pre out) :
    (Blank pre ∧ out = []) ∨ ∃ (pre' w : Bytes) (out' : List Callback) (m : Message lexer kind),
      pre = pre' ++ m.bytes ++ w ∧ Between lexer kind pre' out' ∧ Blank w ∧ out = out' ++ m.callbacks := by
  induction h with
  | nil => exact .inl ⟨(fun b hb => by cases hb), rfl⟩
  | @lineEnd pre out b _ hb ih =>
    have hsnoc : ∀ w : Bytes, Blank w → Blank (w ++ [b]) := by
      intro w hw c hc
      rcases List.mem_append.mp hc with hc | hc
      · exact hw c hc
      · rw [List.mem_singleton.mp hc]
        exact hb
    rcases ih with ⟨hblank, rfl⟩ | ⟨pre', w, out', m, rfl, hpre', hw, rfl⟩
    · exact .inl ⟨hsnoc _ hblank, rfl⟩
    · exact .inr ⟨pre', w ++ [b], out', m, by simp only [List.append_assoc], hpre', hsnoc w hw, rfl⟩
  | @message pre out m hpre _ _ =>
    exact .inr ⟨pre, [], out, m, by rw [List.append_nil], hpre, (fun b hb => by cases hb), rfl⟩

/-- Whole messages and a last one, with only line ends behind it, or anything if it is an upgrade. -/
theorem Between.run_message {pre w : Bytes} {out : List Callback} (hpre : Between lexer kind pre out)
    (m : Message lexer kind)
    (hw : Blank w ∨ m.after = .paused m.last) :
    Llhttp.run lexer kind .start (pre ++ m.bytes ++ w) = (m.after, out ++ m.callbacks) := by
  have hmessage := run_append_of lexer kind hpre.run m.run
  have hrest : Llhttp.run lexer kind m.after w = (m.after, []) := by
    rcases m.after_cases with h | h | h
    · rw [h] at hw ⊢
      exact run_blank_start lexer kind (hw.resolve_right nofun)
    · rw [h] at hw ⊢
      exact run_blank_closed lexer kind (hw.resolve_right nofun)
    · rw [h]
      exact run_paused lexer kind m.last w
  have hrun := run_append_of lexer kind hmessage hrest
  rwa [List.append_nil] at hrun

/-- Such bytes are read to the point behind the last message. -/
theorem EndsWith.run {m : Message lexer kind} {bytes : Bytes} (h : EndsWith lexer m bytes) :
    ∃ out, Llhttp.run lexer kind .start bytes = (m.after, out ++ m.callbacks) := by
  obtain ⟨pre, w, out, rfl, hpre, hw⟩ := h
  exact ⟨out, hpre.run_message m hw⟩

/-- An error is no such point, and there is no way on from one. -/
theorem EndsWith.not_failed {m : Message lexer kind} {a b : Bytes} (h : EndsWith lexer m (a ++ b)) :
    (Llhttp.run lexer kind .start a).1 ≠ .failed := by
  intro hfailed
  obtain ⟨out, hrun⟩ := h.run
  rw [run_append, hfailed, run_failed] at hrun
  have hafter := congrArg Prod.fst hrun
  rcases m.after_cases with h | h | h <;> rw [h] at hafter <;> cases hafter

namespace Reads

variable {pre : Bytes} {out : List Callback}

/-- Messages, and one more behind them. -/
theorem message (hpre : Between lexer kind pre out) (m : Message lexer kind) :
    Reads lexer kind (pre ++ m.bytes) m.after (out ++ m.callbacks) := by
  rcases m.after_cases with h | h | h
  · rw [h]
    exact .between (.message m hpre h)
  · rw [h, ← List.append_nil (pre ++ m.bytes)]
    exact .closed m hpre h (by intro b hb; cases hb)
  · rw [h, ← List.append_nil (pre ++ m.bytes)]
    exact .paused m hpre h

/-- A message whose body is complete. -/
theorem body (hpre : Between lexer kind pre out) (hd : HeadText lexer kind) {body : Bytes} {bodyOut : List Callback}
    {last : Head} (hbody : IsBody lexer kind hd.info body bodyOut last)
    (hafter : hd.info.afterHeadersComplete kind = .chunked ∨ hd.info.afterHeadersComplete kind = .identity) :
    Reads lexer kind (pre ++ (hd.text ++ body)) (afterBody kind hd.info last)
      (out ++ (hd.callbacks ++ bodyOut ++ [.messageComplete])) := by
  have hread := message hpre { hd with body := body, bodyOut := bodyOut, last := last, isBody := hbody }
  have heq : ({ hd with body := body, bodyOut := bodyOut, last := last, isBody := hbody } : Message lexer kind).after =
      afterBody kind hd.info last := by
    rcases hafter with h | h <;> simp only [Message.after, h]
  rwa [heq] at hread

/-- A message without a body. -/
theorem bodyless (hpre : Between lexer kind pre out) (hd : HeadText lexer kind)
    (hafter : hd.info.afterHeadersComplete kind = .restart ∨ hd.info.afterHeadersComplete kind = .pause) :
    Reads lexer kind (pre ++ hd.text) (afterHead lexer kind hd.info).1
      (out ++ (hd.callbacks ++ (afterHead lexer kind hd.info).2)) := by
  have hbody : IsBody lexer kind hd.info [] [] hd.info := by
    rcases hafter with h | h <;> simp [IsBody, h]
  have hread := message hpre { hd with body := [], bodyOut := [], last := hd.info, isBody := hbody }
  simp only [Message.bytes, Message.callbacks, Message.after, List.append_nil] at hread
  rw [afterHead]
  rcases hafter with h | h <;> simpa only [h] using hread

/-- Behind a head: the message is complete, or its body begins. -/
theorem head (hpre : Between lexer kind pre out) (hd : HeadText lexer kind) :
    Reads lexer kind (pre ++ hd.text) (afterHead lexer kind hd.info).1
      (out ++ (hd.callbacks ++ (afterHead lexer kind hd.info).2)) := by
  have hpart : ∀ {p : Point τ}, BodyPart lexer kind hd.info [] p [] → afterHead lexer kind hd.info = (p, []) →
      Reads lexer kind (pre ++ hd.text) (afterHead lexer kind hd.info).1
        (out ++ (hd.callbacks ++ (afterHead lexer kind hd.info).2)) := by
    intro p hbody heq
    have hread := Reads.inside hpre (Partial.body hd hbody)
    rw [List.append_nil] at hread
    rwa [heq]
  cases hafter : hd.info.afterHeadersComplete kind with
  | restart => exact bodyless hpre hd (.inl hafter)
  | pause => exact bodyless hpre hd (.inr hafter)
  | chunked =>
    refine hpart (p := .chunked hd.info lexer.chunkStart) ?_ (by simp only [afterHead, hafter])
    have hnothing : readPart (lexer.chunk kind hd.info) lexer.chunkStart [] = some (lexer.chunkStart, []) := rfl
    exact BodyPart.chunked hafter hnothing
  | identity => exact hpart (.identity hafter (Head.contentLength_pos hafter)) (by simp only [afterHead, hafter]; rfl)
  | untilEof => exact hpart (.untilEof hafter) (by simp only [afterHead, hafter])
  | invalid =>
    simp only [afterHead, hafter]
    exact .failed

/-- A byte of a head, behind whole messages: the head goes on, or is complete. -/
theorem headByte {part : Bytes} {state : τ} {texts : List (Text × Bytes)} {b : UInt8}
    (hpre : Between lexer kind pre out) (hbegins : Begins (part ++ [b]))
    (hpart : readPart (lexer.head kind) lexer.headStart part = some (state, texts)) :
    Reads lexer kind (pre ++ (part ++ [b])) (Llhttp.headByte lexer kind state b).1
      (out ++ (.messageBegin :: textCallbacks texts ++ (Llhttp.headByte lexer kind state b).2)) := by
  rw [Llhttp.headByte]
  cases hb : lexer.head kind state b with
  | more state' texts' =>
    have hread := Reads.inside hpre (Partial.head hbegins (readPart_snoc_more hpart hb))
    simpa [textCallbacks] using hread
  | done h texts' =>
    have hread := head hpre ⟨_, _, h, hbegins, readAll_snoc_done hpart hb⟩
    simpa [HeadText.callbacks, textCallbacks] using hread
  | error => exact .failed

/-- A byte of a body, behind whole messages. -/
theorem bodyByte (hpre : Between lexer kind pre out) (hd : HeadText lexer kind) {part : Bytes} {p : Point τ}
    {out' : List Callback} (hpart : BodyPart lexer kind hd.info part p out') (b : UInt8) :
    Reads lexer kind (pre ++ (hd.text ++ (part ++ [b]))) (Llhttp.step lexer kind b p).1
      (out ++ (hd.callbacks ++ out' ++ (Llhttp.step lexer kind b p).2)) := by
  have hinside : ∀ {p' : Point τ} {out'' : List Callback}, BodyPart lexer kind hd.info (part ++ [b]) p' (out' ++ out'') →
      Reads lexer kind (pre ++ (hd.text ++ (part ++ [b]))) p' (out ++ (hd.callbacks ++ out' ++ out'')) := by
    intro p' out'' hbody
    rw [List.append_assoc hd.callbacks]
    exact .inside hpre (.body hd hbody)
  cases hpart with
  | @chunked state pieces hafter hread =>
    rw [step]
    cases hb : lexer.chunk kind hd.info state b with
    | more state' pieces' =>
      refine hinside ?_
      rw [← List.map_append]
      exact .chunked hafter (readPart_snoc_more hread hb)
    | done last pieces' =>
      have hbody : IsBody lexer kind hd.info (part ++ [b]) ((pieces ++ pieces').map Piece.callback) last := by
        simp only [IsBody, hafter]
        exact ⟨_, readAll_snoc_done hread hb, rfl⟩
      simpa using body hpre hd hbody (.inl hafter)
    | error => exact .failed
  | identity hafter hlen =>
    rw [step]
    split
    · have hbody : IsBody lexer kind hd.info (part ++ [b]) (bodyCallbacks (part ++ [b])) hd.info := by
        simp only [IsBody, hafter, List.length_append, List.length_singleton, and_true]
        omega
      simpa [bodyCallbacks] using body hpre hd hbody (.inr hafter)
    · refine hinside ?_
      have hlen' : (part ++ [b]).length < hd.info.contentLength.toNat := by
        rw [List.length_append, List.length_singleton]
        omega
      have hpart : BodyPart lexer kind hd.info (part ++ [b]) _ _ := .identity hafter hlen'
      simpa [bodyCallbacks, Nat.sub_sub] using hpart
  | untilEof hafter =>
    rw [step]
    refine hinside ?_
    have hpart : BodyPart lexer kind hd.info (part ++ [b]) _ _ := .untilEof hafter
    simpa [bodyCallbacks] using hpart

/-- One byte leads from one form to the next: a case for every point. -/
theorem step {bytes : Bytes} {p : Point τ} (h : Reads lexer kind bytes p out) (b : UInt8) :
    Reads lexer kind (bytes ++ [b]) (Llhttp.step lexer kind b p).1 (out ++ (Llhttp.step lexer kind b p).2) := by
  cases h with
  | between hpre =>
    rw [Llhttp.step]
    split
    · rename_i hb
      rw [List.append_nil]
      exact .between (.lineEnd hpre hb)
    · rename_i hb
      have hbegins : Begins ([] ++ [b]) := ⟨b, [], rfl, by simpa using hb⟩
      have hread := headByte hpre hbegins rfl
      simpa [textCallbacks] using hread
  | @closed pre' w _ m hpre hafter hw =>
    rw [Llhttp.step]
    split
    · rename_i hb
      rw [List.append_nil, List.append_assoc]
      refine .closed m hpre hafter ?_
      intro c hc
      rcases List.mem_append.mp hc with hc | hc
      · exact hw c hc
      · rw [List.mem_singleton.mp hc]
        exact hb
    · exact .failed
  | paused m hpre hafter =>
    rw [Llhttp.step, List.append_nil, List.append_assoc]
    exact .paused m hpre hafter
  | inside hpre hpart =>
    cases hpart with
    | head hbegins hread =>
      rw [Llhttp.step, List.append_assoc, List.append_assoc]
      exact headByte hpre (hbegins.append _) hread
    | body hd hbody =>
      have hread := bodyByte hpre hd hbody b
      simpa only [List.append_assoc] using hread
  | failed => exact .failed

end Reads

/-- A byte at a time, and so a buffer. -/
theorem Reads.run {bytes : Bytes} {p : Point τ} {out : List Callback} (h : Reads lexer kind bytes p out) (more : Bytes) :
    Reads lexer kind (bytes ++ more) (Llhttp.run lexer kind p more).1 (out ++ (Llhttp.run lexer kind p more).2) := by
  induction more generalizing bytes p out with
  | nil =>
    rw [List.append_nil]
    simpa only [Llhttp.run, List.append_nil] using h
  | cons b more ih =>
    rw [run_cons, ← List.append_assoc out, ← List.singleton_append, ← List.append_assoc bytes]
    exact ih (h.step b)

/-- By induction over the bytes, every text that was read has one of the forms. -/
theorem run_reads (lexer : Lexer τ) (kind : Kind) (bytes : Bytes) :
    Reads lexer kind bytes (Llhttp.run lexer kind .start bytes).1 (Llhttp.run lexer kind .start bytes).2 :=
  (Reads.between Between.nil).run bytes

end Llhttp
end HpServer
