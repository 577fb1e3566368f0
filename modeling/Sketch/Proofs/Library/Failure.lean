import Sketch.Proofs.Library.Input
import Sketch.Proofs.Library.Names

/-!
What library calls do when they fail: nothing. The world after a failure is the one before the call.
-/

namespace Sketch

/-- A failure of an action leaves the world as it was. -/
def Action.Atomic {α : Type} (action : Action α) : Prop := ∀ ⦃w abort w'⦄, action.run w = .error abort w' → w' = w

theorem Action.Atomic.of_tidy {α : Type} {action : Action α} (tidy : FailsTidy action) : action.Atomic :=
  fun _ _ _ failed => (tidy.failed failed).1

section Calls

variable (values : List Value)

theorem Builtin.action_failsTidy {f : Builtin} {action : List Value → Action Value} (known : f.action? = some action) :
    FailsTidy (action values) :=
  action_tidy values known (fun g _ => g.perform_tidy values) fun g _ => g.perform_tidy values

/-- A method belongs to the library that a value names, or to the value itself. -/
theorem methodAction_failsTidy {receiver : Value} {name : String} {action : List Value → Action Value}
    (known : methodAction receiver name = .ok action) : FailsTidy (action values) := by
  rw [methodAction.eq_def] at known
  split at known
  case h_1 l =>
    split at known
    case h_1 => cases known
    case h_2 =>
      split at known
      case h_1 performs =>
        cases known
        obtain ⟨f, -, -, performs⟩ := Library.actionOf?_eq_some_iff.mp performs
        exact Builtin.action_failsTidy values performs
      case h_2 => cases known
  case h_2 =>
    split at known
    case h_1 performs =>
      cases known
      exact Value.method_tidy values performs
    case h_2 => cases known

end Calls

/-- A library call that fails changes nothing: no list or map, however they hold one another, and nothing of the
    canvas, what is queued for the display included. The same holds of methods, of calls that pause a sketch,
    and of the stores of items and fields. -/
theorem failed_calls_change_nothing (name : String) (values : List Value) :
    (∀ action, Builtin.actionOf? name = some action → (action values).Atomic) ∧
    (∀ f, Builtin.pauseOf? name = some f → (f.pause values).Atomic) ∧
    (∀ receiver action, methodAction receiver name = .ok action → (action values).Atomic) ∧
    (∀ object key v, (storeIndex object key v).Atomic) ∧
    ∀ object v, (storeField object name v).Atomic := by
  refine ⟨?_, ?_, ?_, ?_, ?_⟩
  · intro action known
    obtain ⟨f, -, performs⟩ := Option.bind_eq_some_iff.mp (Builtin.actionOf?_eq name ▸ known)
    exact .of_tidy (Builtin.action_failsTidy values performs)
  · intro f _
    exact .of_tidy (f.pause_tidy values)
  · intro receiver action known
    exact .of_tidy (methodAction_failsTidy values known)
  · intro object key v
    exact .of_tidy (storeIndex_tidy object key v)
  · intro object v
    exact .of_tidy (storeField_tidy object name v)

/-- A list and a map that hold each other and themselves, on a canvas that waits to be shown. -/
def entangled : World :=
  { heap := ⟨#[#[.list ⟨0⟩, .map ⟨0⟩]], #[⟨[("self", .map ⟨0⟩), ("list", .list ⟨0⟩)]⟩]⟩
    canvas := .fresh default (0.0, 0.0) }

/-- A list cannot be merged into a map, a list cannot be stored into under a text, and a text has no fields to
    store. -/
theorem failed_stores_change_nothing :
    (∃ action w', Builtin.actionOf? "append" = some action ∧
      (action [.map ⟨0⟩, .list ⟨0⟩]).run entangled = .error (.cause .appendToMap) w' ∧ w' = entangled) ∧
    (∃ w', (storeIndex (.list ⟨0⟩) (.str "self") .nil).run entangled =
      .error (.cause (.indexType .string)) w' ∧ w' = entangled) ∧
    ∃ w', (storeField (.str "text") "append" .nil).run entangled =
      .error (.cause (.cannotSetField "append" .string)) w' ∧ w' = entangled := by
  obtain ⟨calls, -, -, items, fields⟩ := failed_calls_change_nothing "append" [.map ⟨0⟩, .list ⟨0⟩]
  refine ⟨⟨_, _, rfl, rfl, calls _ rfl rfl⟩, ⟨_, rfl, items (.list ⟨0⟩) (.str "self") .nil rfl⟩, ?_⟩
  exact ⟨_, rfl, fields (.str "text") .nil rfl⟩

end Sketch
