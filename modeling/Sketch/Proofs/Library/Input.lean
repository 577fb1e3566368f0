import Sketch.Proofs.Library.Tidy

/-!
What library calls do to the input of a frame: two of them change what is known of buttons, and no call changes
anything else.
-/

namespace Sketch

/-- What a call does to the buttons: one is hit if there was a click and the pointer is in it. -/
def Builtin.press? (f : Builtin) (values : List Value) (w : World) : Option Press :=
  match f, values with
  | .sense .button, [.num x, .num y, .num width, .num height, label] =>
    let frame := w.canvas.frame
    some (.button (w.heap.display label) (frame.anyClick && hitTest frame.mouse x y width height))
  | .sense .clearButtons, [] => some .clear
  | _, _ => none

theorem expect_eq_fail {name : String} {values : List Value} {n : Nat} (other : values.length ≠ n) :
    (⟨name, values⟩ : Arguments).expect n = Action.fail (.argumentCount name n n values.length) :=
  if_neg fun exactly => other (Nat.le_antisymm exactly.2 exactly.1)

/-- A button takes five arguments. With any other number nothing happens. -/
theorem button_after_of_length {values : List Value} (w : World) (other : values.length ≠ 5) :
    ((SenseFn.button.perform values).after w).input =
      w.input.press ((Builtin.sense .button).press? values w).toList := by
  have none : (Builtin.sense .button).press? values w = none := by
    rw [Builtin.press?.eq_def]
    split
    case h_1 => exact absurd rfl other
    case h_2 known => cases known
    case h_3 => rfl
  simp only [none, SenseFn.perform, expect_eq_fail other]
  rfl

theorem button_after (values : List Value) (w : World) :
    ((SenseFn.button.perform values).after w).input =
      w.input.press ((Builtin.sense .button).press? values w).toList := by
  rcases values with _ | ⟨x, _ | ⟨y, _ | ⟨width, _ | ⟨height, _ | ⟨label, _ | ⟨more, rest⟩⟩⟩⟩⟩⟩
  case cons.cons.cons.cons.cons.nil =>
    -- The numbers are looked at from left to right, and the first that is none ends the call.
    cases x with
    | num x =>
      cases y with
      | num y =>
        cases width with
        | num width =>
          cases height with
          | num height => rfl
          | _ => rfl
        | _ => rfl
      | _ => rfl
    | _ => rfl
  all_goals exact button_after_of_length w (by simp)

theorem clearButtons_after (values : List Value) (w : World) :
    ((SenseFn.clearButtons.perform values).after w).input =
      w.input.press ((Builtin.sense .clearButtons).press? values w).toList := by
  cases values <;> rfl

/-- A library call changes the input of a frame only by what it does to buttons. -/
theorem action_after {f : Builtin} {action : List Value → Action Value} (known : f.action? = some action)
    (values : List Value) (w : World) : ((action values).after w).input = w.input.press (f.press? values w).toList := by
  by_cases draws : f = .sense .button
  case pos =>
    subst draws
    cases known
    exact button_after values w
  by_cases clears : f = .sense .clearButtons
  case pos =>
    subst clears
    cases known
    exact clearButtons_after values w
  have none : f.press? values w = none := by
    rw [Builtin.press?.eq_def]
    split
    case h_1 => exact absurd rfl draws
    case h_2 => exact absurd rfl clears
    case h_3 => rfl
  rw [none]
  have asks (g : SenseFn) (eq : f = .sense g) : Tidy World.input (g.perform values) := by
    subst eq
    exact SenseFn.perform_asks values (mt (congrArg _) draws) (mt (congrArg _) clears)
  exact (Builtin.action_tidy values known (fun g _ => g.perform_tidy values) asks).after w

end Sketch
