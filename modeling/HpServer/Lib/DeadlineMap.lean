import Mathlib.Logic.Function.Basic

/-!
# Deadlines by id

What a timer is for: a map from ids to a deadline and a callback, set by the latest event about the id, and sweeps
that fire what is due. A history is the list of events, the latest first. `after` is the map a history leaves,
`Allowed` says which events may follow it: a sweep fires the earliest deadline there is, once it has passed, and ends
only when none has. The results are what holds of every history that conforms.
-/

namespace HpServer
namespace DeadlineMap

variable {ι θ κ : Type*}

/-- An event of a timer's history. -/
inductive Event (ι θ κ : Type*) where
  /-- An id is given a deadline and a callback. -/
  | set (id : ι) (deadline : θ) (callback : κ)
  /-- An id's deadline is changed, if it has one. -/
  | move (id : ι) (deadline : θ)
  | clear (id : ι)
  /-- A sweep takes out an id and calls its callback, when the clock reads `now`. -/
  | fire (id : ι) (deadline : θ) (callback : κ) (now : θ)
  /-- A sweep ends, with the clock reading that ended it if it took one. -/
  | settle (now : Option θ)
  deriving DecidableEq

/-- The id an event is about. -/
def Event.about : Event ι θ κ → Option ι
  | set id _ _ | move id _ | clear id | fire id _ _ _ => some id
  | settle _ => none

/-- The event gives a deadline. -/
def Event.Arms : Event ι θ κ → Prop
  | set _ _ _ | move _ _ => True
  | clear _ | fire _ _ _ _ | settle _ => False

/-- The event gives this deadline to this id. -/
def Event.ArmsFor (id : ι) (deadline : θ) : Event ι θ κ → Prop
  | set i d _ | move i d => i = id ∧ d = deadline
  | clear _ | fire _ _ _ _ | settle _ => False

variable [DecidableEq ι]

/-- The map a history leaves. -/
def after : List (Event ι θ κ) → ι → Option (θ × κ)
  | [] => fun _ => none
  | .set id deadline callback :: h => Function.update (after h) id (some (deadline, callback))
  | .move id deadline :: h => Function.update (after h) id ((after h id).map fun e => (deadline, e.2))
  | .clear id :: h => Function.update (after h) id none
  | .fire id _ _ _ :: h => Function.update (after h) id none
  | .settle _ :: h => after h

/-- No deadline of the map is before `d`. -/
def Earliest [LE θ] (m : ι → Option (θ × κ)) (d : θ) : Prop := ∀ id d' callback, m id = some (d', callback) → d ≤ d'

/-- The event may follow the history. -/
def Allowed [LE θ] [LT θ] (h : List (Event ι θ κ)) : Event ι θ κ → Prop
  | .set _ _ _ | .move _ _ | .clear _ => True
  | .fire id deadline callback now => after h id = some (deadline, callback) ∧ deadline ≤ now ∧
    Earliest (after h) deadline
  | .settle now => ∀ id d callback, after h id = some (d, callback) → ∃ reading, now = some reading ∧ reading < d

/-- Every event was allowed when it happened. -/
def Conforms [LE θ] [LT θ] : List (Event ι θ κ) → Prop
  | [] => True
  | e :: h => Allowed h e ∧ Conforms h

/-! ## The map -/

/-- An event changes what is known of the id it is about, and of no other. -/
theorem after_cons_of_about_ne {e : Event ι θ κ} {id : ι} (he : e.about ≠ some id) (h : List (Event ι θ κ)) :
    after (e :: h) id = after h id := by
  cases e with
  | settle now => rfl
  | set i d c | move i d | clear i | fire i d c now =>
    have hid : id ≠ i := fun hid => he (hid ▸ rfl)
    exact Function.update_of_ne hid _ _

/-- The event about a live id that happened last gave it its deadline. -/
theorem armsFor_of_after_cons {e : Event ι θ κ} {h : List (Event ι θ κ)} {id : ι} {d : θ} {callback : κ}
    (habout : e.about = some id) (hid : after (e :: h) id = some (d, callback)) : e.ArmsFor id d := by
  cases e with
  | settle now => cases habout
  | set i d' c =>
    obtain rfl : i = id := Option.some.inj habout
    rw [after, Function.update_self] at hid
    exact ⟨rfl, congrArg Prod.fst (Option.some.inj hid)⟩
  | move i d' =>
    obtain rfl : i = id := Option.some.inj habout
    rw [after, Function.update_self] at hid
    obtain ⟨e, -, he⟩ := Option.map_eq_some_iff.mp hid
    exact ⟨rfl, congrArg Prod.fst he⟩
  | clear i | fire i d' c now =>
    obtain rfl : i = id := Option.some.inj habout
    rw [after, Function.update_self] at hid
    cases hid

omit [DecidableEq ι] in
theorem Event.ArmsFor.arms {e : Event ι θ κ} {id : ι} {d : θ} (h : e.ArmsFor id d) : e.Arms := by
  cases e with
  | set i d c | move i d => trivial
  | clear i | fire i d c now | settle now => exact h

/-- A live id has its deadline from an event after which nothing happened to it. -/
theorem exists_arms_of_after {h : List (Event ι θ κ)} {id : ι} {d : θ} {callback : κ}
    (hid : after h id = some (d, callback)) :
    ∃ mid arm older, h = mid ++ arm :: older ∧ arm.ArmsFor id d ∧ ∀ e ∈ mid, Event.about e ≠ some id := by
  induction h with
  | nil => cases hid
  | cons e h ih =>
    by_cases habout : e.about = some id
    · exact ⟨[], e, h, rfl, armsFor_of_after_cons habout hid, fun e he => absurd he List.not_mem_nil⟩
    · rw [after_cons_of_about_ne habout] at hid
      obtain ⟨mid, arm, older, rfl, harm, hmid⟩ := ih hid
      refine ⟨e :: mid, arm, older, rfl, harm, ?_⟩
      intro e' he'
      rcases List.mem_cons.mp he' with rfl | he'
      · exact habout
      · exact hmid e' he'

/-- An id that is live and was not, or had another deadline, has been given the one it has. -/
theorem exists_armsFor_or_after {mid h : List (Event ι θ κ)} {id : ι} {d : θ} {callback : κ}
    (hid : after (mid ++ h) id = some (d, callback)) : (∃ e ∈ mid, e.ArmsFor id d) ∨ after h id = some (d, callback) := by
  induction mid with
  | nil => exact Or.inr hid
  | cons e mid ih =>
    by_cases habout : e.about = some id
    · exact Or.inl ⟨e, List.mem_cons_self, armsFor_of_after_cons habout hid⟩
    · rw [List.cons_append, after_cons_of_about_ne habout] at hid
      rcases ih hid with ⟨e', he', harms⟩ | hid
      · exact Or.inl ⟨e', List.mem_cons_of_mem _ he', harms⟩
      · exact Or.inr hid

/-! ## Histories that conform -/

section Order

variable [LE θ] [LT θ]

theorem Conforms.of_append {later h : List (Event ι θ κ)} (hc : Conforms (later ++ h)) : Conforms h := by
  induction later with
  | nil => exact hc
  | cons e later ih => exact ih hc.2

/-- Deadlines fire in order, as long as none is given. -/
theorem Conforms.fire_le {mid h : List (Event ι θ κ)} {id id' : ι} {d d' : θ} {c c' : κ} {now now' : θ}
    (hc : Conforms (.fire id' d' c' now' :: (mid ++ .fire id d c now :: h))) (hmid : ∀ e ∈ mid, ¬ e.Arms) : d ≤ d' := by
  obtain ⟨hlast, hc⟩ := hc
  obtain ⟨hfirst, -⟩ := hc.of_append
  -- What fires last was live, with its deadline, when the first fired.
  rcases exists_armsFor_or_after hlast.1 with ⟨e, he, harms⟩ | hlive
  · exact absurd harms.arms (hmid e he)
  · have hne : id' ≠ id := by
      rintro rfl
      rw [after, Function.update_self] at hlive
      cases hlive
    rw [after, Function.update_of_ne hne] at hlive
    exact hfirst.2.2 id' d' c' hlive

/-- An id that fires again has been given a deadline in between. -/
theorem Conforms.exists_armsFor {mid h : List (Event ι θ κ)} {id : ι} {d d' : θ} {c c' : κ} {now now' : θ}
    (hc : Conforms (.fire id d' c' now' :: (mid ++ .fire id d c now :: h))) : ∃ e ∈ mid, e.ArmsFor id d' := by
  rcases exists_armsFor_or_after hc.1.1 with harms | hlive
  · exact harms
  · rw [after, Function.update_self] at hlive
    cases hlive

end Order

end DeadlineMap
end HpServer
