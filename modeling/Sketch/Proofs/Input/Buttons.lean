import Mathlib.Data.List.Induction
import Sketch.Input.Frame

/-!
The buttons that a sketch draws itself. A button counts as clicked if one of the presses hit it and none behind that
one cleared all.
-/

namespace Sketch

/-- What a sketch does to its buttons: it draws one, or clears them all. -/
inductive Press where
  | button (id : String) (hit : Bool)
  | clear
deriving DecidableEq, Repr, Inhabited

/-- Whether a button is hit by one of some presses, and not cleared behind it. -/
def HitIn (presses : List Press) (id : String) : Prop :=
  ∃ before after, presses = before ++ .button id true :: after ∧ .clear ∉ after

namespace Widgets

/-- The buttons after a press. -/
def press (w : Widgets) : Press → Widgets
  | .button id hit => (w.record id hit).2
  | .clear => w.clearClicks

variable (w : Widgets) (id : String)

@[simp] theorem clicked_clearClicks : w.clearClicks.clicked id = false := by
  rw [clicked, clearClicks, Dict.get?_mapValues]
  cases w.get? id <;> rfl

theorem clicked_record (other : String) (hit : Bool) :
    (w.record other hit).2.clicked id = if other = id then w.clicked id || hit else w.clicked id := by
  rw [clicked, record, Dict.get?_insert]
  split
  case isTrue same => rw [same, Option.getD_some]
  case isFalse => rfl

end Widgets

theorem not_hitIn_nil (id : String) : ¬HitIn [] id := by
  rintro ⟨before, after, whole, -⟩
  simp at whole

/-- The last press decides, or what was before it. -/
theorem hitIn_append_singleton (presses : List Press) (last : Press) (id : String) :
    HitIn (presses ++ [last]) id ↔ last = .button id true ∨ last ≠ .clear ∧ HitIn presses id := by
  constructor
  · rintro ⟨before, after, whole, kept⟩
    rcases List.eq_nil_or_concat after with rfl | ⟨after, p, rfl⟩
    · obtain ⟨-, same⟩ := List.append_inj' whole rfl
      exact .inl (List.singleton_inj.mp same)
    · rw [List.concat_eq_append] at whole kept
      rw [← List.cons_append, ← List.append_assoc] at whole
      obtain ⟨rfl, same⟩ := List.append_inj' whole rfl
      obtain rfl := List.singleton_inj.mp same
      rw [List.mem_append, List.mem_singleton, not_or] at kept
      exact .inr ⟨Ne.symm kept.2, before, after, rfl, kept.1⟩
  · rintro (rfl | ⟨keeps, before, after, rfl, kept⟩)
    · exact ⟨presses, [], rfl, List.not_mem_nil⟩
    · refine ⟨before, after ++ [last], by simp, ?_⟩
      rw [List.mem_append, List.mem_singleton, not_or]
      exact ⟨kept, Ne.symm keeps⟩

/-- Presses from a frame's start on, where no button was hit. -/
theorem clicked_foldl_press {w : Widgets} (start : ∀ id, w.clicked id = false) (presses : List Press)
    (id : String) : (presses.foldl Widgets.press w).clicked id = true ↔ HitIn presses id := by
  induction presses using List.reverseRecOn with
  | nil =>
    rw [List.foldl_nil, start id]
    exact ⟨nofun, fun hit => absurd hit (not_hitIn_nil id)⟩
  | append_singleton presses last ih =>
    rw [List.foldl_append, List.foldl_cons, List.foldl_nil, hitIn_append_singleton, ← ih]
    cases last with
    | clear => simp [Widgets.press]
    | button other hit =>
      rw [Widgets.press, Widgets.clicked_record]
      by_cases same : other = id
      · simp [same, or_comm]
      · simp [same]

/-- What a sketch senses during a frame. -/
structure Input where
  frame : FrameInput
  frameCount : Nat
  widgets : Widgets

/-- The input after some presses, one after the other. -/
def Input.press (i : Input) (presses : List Press) : Input :=
  { i with widgets := presses.foldl Widgets.press i.widgets }

theorem Input.press_append (i : Input) (presses more : List Press) :
    i.press (presses ++ more) = (i.press presses).press more := by
  rw [press, List.foldl_append]
  rfl

end Sketch
