import Sketch.Proofs.Machine.Presses

/-!
Which functions a running sketch finds lacking. A step fails for want of a function only if it is a call of a name
that nobody has, or of a method that a library lacks, whose name has two parts.
-/

namespace Sketch

namespace Cause

theorem lacks?_eq_none {c : Cause} (known : c.ofValues = true) : c.lacks? = none := by
  cases c with
  | undefinedFunction => cases known
  | _ => rfl

theorem message_undefinedFunction (name : String) :
    message (.undefinedFunction name) = "undefined function `" ++ (name ++ "`") := String.append_assoc ..

/-- The lacking function can be told from the kind and the wording of a cause. -/
theorem lacks?_eq_some_iff {c : Cause} {name : String} :
    c.lacks? = some name ↔ c.kind = .undefined ∧ c.message = message (.undefinedFunction name) := by
  constructor
  · intro lacks
    cases c with
    | undefinedFunction other =>
      cases lacks
      exact ⟨rfl, rfl⟩
    | _ => cases lacks
  · rintro ⟨kind, same⟩
    rw [message_undefinedFunction] at same
    -- The other messages of this kind begin differently.
    have ne (start : String) (apart : ¬start.toList <+: "undefined function `".toList ∧
        ¬"undefined function `".toList <+: start.toList) (rest : String) (wording : c.message = start ++ rest) :
        c.message ≠ "undefined function `" ++ (name ++ "`") := by
      intro same
      have chars := congrArg String.toList (wording.symm.trans same)
      rw [String.toList_append, String.toList_append] at chars
      rcases List.prefix_or_prefix_of_prefix (List.prefix_append _ _) (chars ▸ List.prefix_append _ _) with h | h
      · exact apart.2 h
      · exact apart.1 h
    cases c with
    | undefinedFunction other =>
      rw [message_undefinedFunction, String.append_right_inj, String.append_left_inj] at same
      exact congrArg some same
    | undefinedVariable other => exact absurd same (ne "undefined variable `" (by decide) _ (String.append_assoc ..))
    | unknownLibrary other => exact absurd same (ne "unknown namespace `" (by decide) _ (String.append_assoc ..))
    | noLibraryValue library other =>
      have wording : message (.noLibraryValue library other) =
          "`" ++ (library ++ ("` has no value `" ++ (other ++ "`"))) := by
        simp only [← String.append_assoc]
        rfl
      exact absurd same (ne "`" (by decide) _ wording)
    | _ => cases kind
end Cause

/-- The function for want of which a step fails. -/
def Step.lacks? : Step → Option String
  | .failed f _ => f.cause.lacks?
  | .next _ | .paused .. | .finished _ | .crashed _ => none

namespace Machine

section Calls

variable {script : Script} (m : Machine) (line : Nat) {name : String}

@[simp] theorem fail_lacks (c : Cause) : (m.fail line c).lacks? = c.lacks? := by
  rw [fail_eq]
  rfl

theorem perform_lacks {α : Type} {action : Action α} (tidy : FailsTidy action) {k : α → Machine → Step}
    (stays : ∀ a (m' : Machine), m'.Stays (k a m')) : (m.perform line action k).lacks? = none := by
  rw [perform]
  split
  case h_1 a world _ =>
    generalize ends : k a { m with world }.flush = s
    have stayed := stays a { m with world }.flush
    rw [ends] at stayed
    cases stayed <;> rfl
  case h_2 failed => exact (fail_lacks _ line _).trans (Cause.lacks?_eq_none (tidy.failed failed).2)
  case h_3 => rfl

/-- A call by name finds lacking just what is not there. -/
theorem callNamed_lacks (script : Script) (name : String) (args : List Value) :
    (callNamed script m name args line).lacks? = if script.has name then none else some name := by
  rw [callNamed, Script.has, Builtin.pauseOf?_eq, Builtin.actionOf?_eq]
  cases script.function? name with
  | some f =>
    have called : (callUser script m f args line).lacks? = none := by
      rw [callUser]
      split
      · exact fail_lacks ..
      · rfl
    exact called
  | none =>
    cases Builtin.ofName? name with
    | none => exact fail_lacks ..
    | some f =>
      cases known : f.action? with
      | none =>
        cases f with
        | pause p => exact perform_lacks m line (p.pause_tidy args) fun _ _ => .paused _
        | canvas | math | lists | console | sense | cipher => cases known
      | some action =>
        cases f with
        | pause => cases known
        | _ =>
          simp only [Option.bind_some, known]
          exact perform_lacks m line (Builtin.action_failsTidy args known) fun _ _ => .next _

/-- What any step finds lacking is not there, or it is the method of a library. -/
theorem step_lacks (lacks : (m.step script).lacks? = some name) : script.has name = false ∨ '.' ∈ name.toList := by
  cases stepped : m.step script with
  | failed f m' =>
    obtain ⟨used, rest, -, breaks⟩ := step_fails stepped
    rw [stepped] at lacks
    exact breaks.lacking name lacks
  | next | paused | finished | crashed =>
    rw [stepped] at lacks
    cases lacks

/-- A call with all arguments at hand fails for want of its function just if there is none. -/
theorem step_lacks_of_call {done : List Value} (gathers : m.gathering? = some (.call name, done, [])) :
    (m.step script).lacks? = if script.has name then none else some name := by
  rw [gathering?] at gathers
  split at gathers
  case h_1 control =>
    cases gathers
    rw [step, control]
    exact callNamed_lacks m _ script name []
  case h_2 => cases gathers
  case h_3 v goal line done todo ks control conts =>
    cases gathers
    rw [step, control, conts]
    exact callNamed_lacks _ _ script name _
  case h_4 => cases gathers
  case h_5 => cases gathers

end Calls

end Machine

end Sketch
