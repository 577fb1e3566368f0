import Mathlib.Logic.Basic
import Sketch.Machine.Access
import Sketch.Proofs.Input.Buttons

/-!
What library calls do to the world. Every call looks at its arguments before it changes anything, and changes only
what it is there for.
-/

namespace Sketch

def Canvas.input (c : Canvas) : Input := ⟨c.frame, c.frameCount, c.widgets⟩

def World.input (w : World) : Input := w.canvas.input

/-- Whether a cause lies in the values at hand, not in an unknown name or too many calls. -/
@[reducible] def Cause.ofValues : Cause → Bool
  | .undefinedVariable _ | .undefinedFunction _ | .unknownLibrary _ | .noLibraryValue .. | .callDepth .. => false
  | _ => true

/-- A crash has no cause. -/
@[reducible] def Abort.ofValues : Abort → Bool
  | .cause c => c.ofValues
  | .crash => true

section Actions

variable {α β γ : Type} {view : World → γ}

/-- The world after an action, whether it succeeds or fails. -/
def Action.after (action : Action α) (w : World) : World :=
  match action.run w with
  | .ok _ w' | .error _ w' => w'

section Bind

variable {x : Action α} {f : α → Action β} {w w' : World}

theorem Action.of_bind_ok {b : β} (gives : (x >>= f).run w = .ok b w') :
    ∃ a middle, x.run w = .ok a middle ∧ (f a).run middle = .ok b w' := by
  rw [EStateM.run_bind] at gives
  cases ran : x.run w with
  | ok a middle =>
    rw [ran] at gives
    exact ⟨a, middle, rfl, gives⟩
  | error =>
    rw [ran] at gives
    cases gives

theorem Action.of_bind_error {abort : Abort} (failed : (x >>= f).run w = .error abort w') :
    x.run w = .error abort w' ∨ ∃ a middle, x.run w = .ok a middle ∧ (f a).run middle = .error abort w' := by
  rw [EStateM.run_bind] at failed
  cases ran : x.run w with
  | ok a middle =>
    rw [ran] at failed
    exact .inr ⟨a, middle, rfl, failed⟩
  | error =>
    rw [ran] at failed
    cases failed
    exact .inl rfl

end Bind

/-- An action always gives a value. -/
class Succeeds (action : Action α) : Prop where
  gives : ∀ w, ∃ a w', action.run w = .ok a w'

/-- A failure of an action leaves the world as it was, and any outcome keeps what is seen of it. Actions made of such
    parts are found to be so. -/
class Tidy (view : World → γ) (action : Action α) : Prop where
  same : ∀ {w a w'}, action.run w = .ok a w' → view w' = view w
  failed : ∀ {w abort w'}, action.run w = .error abort w' → w' = w ∧ abort.ofValues = true

/-- An action is tidy when it fails, whatever it does otherwise. -/
abbrev FailsTidy (action : Action α) : Prop := Tidy (fun _ => ()) action

namespace Succeeds

instance pure (a : α) : Succeeds (Pure.pure a : Action α) := ⟨fun w => ⟨a, w, rfl⟩⟩

instance get : Succeeds (MonadState.get : Action World) := ⟨fun w => ⟨w, w, rfl⟩⟩

instance modifyGet (f : World → α × World) : Succeeds (MonadState.modifyGet f : Action α) :=
  ⟨fun w => ⟨(f w).1, (f w).2, rfl⟩⟩

instance bind {x : Action α} {f : α → Action β} [first : Succeeds x] [second : ∀ a, Succeeds (f a)] :
    Succeeds (x >>= f) where
  gives w := by
    obtain ⟨a, w', ran⟩ := first.gives w
    rw [EStateM.run_bind, ran]
    exact (second a).gives w'

/-- It is enough to look at the world that is left. -/
theorem tidy {action : Action α} [succeeds : Succeeds action] (same : ∀ w, view (action.after w) = view w) :
    Tidy view action where
  same {w _ _} ran := by
    have kept := same w
    rwa [Action.after, ran] at kept
  failed {w _ _} failed := by
    obtain ⟨a, w', ran⟩ := succeeds.gives w
    rw [ran] at failed
    cases failed

end Succeeds

namespace Tidy

theorem after {action : Action α} (tidy : Tidy view action) (w : World) : view (action.after w) = view w := by
  rw [Action.after]
  split
  case h_1 ran => exact tidy.same ran
  case h_2 ran => rw [(tidy.failed ran).1]

instance pure (a : α) : Tidy view (Pure.pure a : Action α) := Succeeds.tidy fun _ => rfl

instance get : Tidy view (MonadState.get : Action World) := Succeeds.tidy fun _ => rfl

theorem modifyGet {f : World → α × World} (same : ∀ w, view (f w).2 = view w) :
    Tidy view (MonadState.modifyGet f : Action α) := Succeeds.tidy same

instance known_true : Fact (true = true) := ⟨rfl⟩

instance fail (c : Cause) [known : Fact (c.ofValues = true)] : Tidy view (Action.fail c : Action α) where
  same ran := by cases ran
  failed failed := by
    cases failed
    exact ⟨rfl, known.out⟩

instance crash : Tidy view (MonadExcept.throw .crash : Action α) where
  same ran := by cases ran
  failed failed := by
    cases failed
    exact ⟨rfl, rfl⟩

/-- What comes first only reads. -/
instance bind {x : Action α} {f : α → Action β} [first : Tidy id x] [second : ∀ a, Tidy view (f a)] :
    Tidy view (x >>= f) where
  same gives := by
    obtain ⟨a, middle, ran, gives⟩ := Action.of_bind_ok gives
    exact ((second a).same gives).trans (congrArg view (first.same ran))
  failed failed := by
    rcases Action.of_bind_error failed with failed | ⟨a, middle, ran, failed⟩
    · exact first.failed failed
    · obtain ⟨kept, known⟩ := (second a).failed failed
      exact ⟨kept.trans (first.same ran), known⟩

theorem andThen {x : Action α} {f : α → Action β} [Tidy id x] (second : ∀ a, Tidy view (f a)) :
    Tidy view (x >>= f) := bind

/-- What comes behind cannot fail. -/
instance (priority := low) seq {x : Action α} {f : α → Action β} [first : Tidy view x]
    [succeeds : ∀ a, Succeeds (f a)] [second : ∀ a, Tidy view (f a)] : Tidy view (x >>= f) where
  same gives := by
    obtain ⟨a, middle, ran, gives⟩ := Action.of_bind_ok gives
    exact ((second a).same gives).trans (first.same ran)
  failed failed := by
    rcases Action.of_bind_error failed with failed | ⟨a, middle, -, failed⟩
    · exact first.failed failed
    · obtain ⟨b, w', given⟩ := (succeeds a).gives middle
      rw [given] at failed
      cases failed

instance mapM {f : α → Action β} [each : ∀ a, Tidy id (f a)] (items : List α) : Tidy view (items.mapM f) := by
  suffices reads : Tidy id (items.mapM f) from ⟨fun ran => congrArg view (reads.same ran), reads.failed⟩
  induction items with
  | nil =>
    rw [List.mapM_nil]
    infer_instance
  | cons a items ih =>
    rw [List.mapM_cons]
    infer_instance

instance ite {c : Prop} [Decidable c] {x y : Action α} [yes : Tidy view x] [no : Tidy view y] :
    Tidy view (if c then x else y) := by
  split
  · exact yes
  · exact no

end Tidy

end Actions

/-! ### What is seen of the world -/

section Views

variable {γ : Type} (view : World → γ)

/-- What is seen of the world does not include the lists and maps. -/
class OfCanvas : Prop where
  same : ∀ heap w, view { w with heap } = view w

/-- What is seen of the world does not include the lists. -/
class BesideLists : Prop where
  same : ∀ lists w, view { w with heap := { w.heap with lists } } = view w

/-- What is seen of the world does not include what is drawn, printed or rolled. -/
class BesidePaper : Prop where
  same : ∀ w (canvas : Canvas), canvas.input = w.canvas.input → view { w with canvas } = view w

/-- What is seen of the world does not include the canvas. -/
class BesideCanvas : Prop where
  same : ∀ w canvas, view { w with canvas } = view w

instance OfCanvas.besideLists [OfCanvas view] : BesideLists view := ⟨fun _ w => OfCanvas.same _ w⟩

instance BesideCanvas.besidePaper [BesideCanvas view] : BesidePaper view :=
  ⟨fun w canvas _ => BesideCanvas.same w canvas⟩

instance World.input_ofCanvas : OfCanvas World.input := ⟨fun _ _ => rfl⟩

instance World.canvas_ofCanvas : OfCanvas World.canvas := ⟨fun _ _ => rfl⟩

instance World.input_besidePaper : BesidePaper World.input := ⟨fun _ _ same => same⟩

instance nothing_ofCanvas : OfCanvas fun _ => () := ⟨fun _ _ => rfl⟩

instance nothing_besideCanvas : BesideCanvas fun _ => () := ⟨fun _ _ => rfl⟩

end Views

/-! ### Parts of library calls -/

section Parts

variable {γ : Type} {view : World → γ} (a : Arguments) (i : Nat) (v : Value)

instance items_succeeds (r : ListRef) : Succeeds (World.items r) := .bind

instance getCanvas_tidy : Tidy view World.getCanvas := .bind

instance text_tidy : Tidy view (World.text v) := .bind

instance items_tidy (r : ListRef) : Tidy view (World.items r) := .bind

instance entries_tidy (r : MapRef) : Tidy view (World.entries r) := .bind

instance newList_tidy [BesideLists view] (items : Array Value) : Tidy view (World.newList items) :=
  .modifyGet fun w => BesideLists.same _ w

instance newMap_tidy [OfCanvas view] (entries : Dict Value) : Tidy view (World.newMap entries) :=
  .modifyGet fun w => OfCanvas.same _ w

instance onList_tidy [BesideLists view] (r : ListRef) (f : Array Value → Array Value) :
    Tidy view (World.onList r f) :=
  .modifyGet fun w => BesideLists.same _ w

instance onMap_tidy [OfCanvas view] (r : MapRef) (f : Dict Value → Dict Value) : Tidy view (World.onMap r f) :=
  .modifyGet fun w => OfCanvas.same _ w

theorem onCanvas_tidy [BesidePaper view] {f : Canvas → Canvas} (same : ∀ c, (f c).input = c.input) :
    Tidy view (World.onCanvas f) := .modifyGet fun w => BesidePaper.same w _ (same w.canvas)

instance expectRange_tidy (least most : Nat) : Tidy view (a.expectRange least most) := by
  rw [Arguments.expectRange]
  infer_instance

instance expect_tidy (n : Nat) : Tidy view (a.expect n) := expectRange_tidy a n n

instance asNumber_tidy : Tidy view (a.asNumber v) := by
  rw [Arguments.asNumber.eq_def]
  split <;> infer_instance

instance number_tidy : Tidy view (a.number i) := asNumber_tidy a _

instance number?_tidy : Tidy view (a.number? i) := by
  rw [Arguments.number?]
  split <;> infer_instance

instance point_tidy : Tidy view (a.point i) := by
  rw [Arguments.point]
  infer_instance

instance argument_text_tidy : Tidy view (a.text i) := text_tidy _

instance color_tidy : Tidy view a.color := by
  apply Tidy.andThen
  intro _
  apply Tidy.andThen
  intro numbers
  split <;> infer_instance

end Parts

/-! ### Library calls -/

section Calls

variable {γ : Type} {view : World → γ} (values : List Value)

theorem Canvas.pop_input (c : Canvas) : c.pop.input = c.input := by
  rw [pop]
  split <;> rfl

/-- A call of the canvas touches only what is drawn. -/
theorem CanvasFn.perform_tidy [BesidePaper view] (f : CanvasFn) : Tidy view (f.perform values) := by
  have drawn (shape : Shape) : Tidy view (drawShape shape) := onCanvas_tidy fun _ => rfl
  have cleared (color : Color) : Tidy view (World.onCanvas (·.clear color)) := onCanvas_tidy fun _ => rfl
  have styled (g : Style → Style) : Tidy view (World.onCanvas (·.withStyle g)) := onCanvas_tidy fun _ => rfl
  have moved (t : Transform) : Tidy view (World.onCanvas (·.transformBy t)) := onCanvas_tidy fun _ => rfl
  have resized (w h : Float) : Tidy view (World.onCanvas fun c => (c.resize w h).clear .white) :=
    onCanvas_tidy fun _ => rfl
  have lettered (size : Float) : Tidy view
      (World.onCanvas fun c => { c with context := { c.context with textSize := size } }) := onCanvas_tidy fun _ => rfl
  have pushed : Tidy view (World.onCanvas (·.push)) := onCanvas_tidy fun _ => rfl
  have popped : Tidy view (World.onCanvas (·.pop)) := onCanvas_tidy Canvas.pop_input
  cases f
  all_goals
    simp only [CanvasFn.perform]
    infer_instance

instance reduce_tidy (a : Arguments) (g : Float → Float → Float) : Tidy view (a.reduce g) := by
  have candidates : Tidy id a.candidates := by
    rw [Arguments.candidates]
    split <;> infer_instance
  apply Tidy.andThen
  intro numbers
  split <;> infer_instance

theorem MathFn.perform_tidy [BesidePaper view] (f : MathFn) : Tidy view (f.perform values) := by
  have gives : Succeeds rollUnit := .modifyGet _
  have rolled : Tidy view rollUnit := by
    apply Tidy.modifyGet
    intro w
    cases w.canvas.dice.unit
    exact BesidePaper.same w _ rfl
  cases f
  case random =>
    apply Tidy.andThen
    intro _
    split <;> infer_instance
  all_goals
    simp only [MathFn.perform]
    infer_instance

/-- An index that is not in a list is a mistaken value. -/
theorem checkedIndex_ofValues {index : Value} {length : Nat} {c : Cause}
    (refused : checkedIndex index length = .error c) : c.ofValues = true := by
  rw [checkedIndex.eq_def] at refused
  split at refused
  case h_1 x =>
    split at refused
    case h_1 =>
      cases refused
      rfl
    case h_2 =>
      split at refused
      all_goals
        cases refused
        try rfl
  case h_2 =>
    cases refused
    rfl

instance storeItem_tidy [BesideLists view] (r : ListRef) (index v : Value) : Tidy view (storeItem r index v) := by
  apply Tidy.andThen
  intro items
  split
  case h_1 => infer_instance
  case h_2 refused =>
    have known : Fact _ := ⟨checkedIndex_ofValues refused⟩
    infer_instance

instance storeEntry_tidy [OfCanvas view] (r : MapRef) (key v : Value) : Tidy view (storeEntry r key v) := by
  rw [storeEntry]
  infer_instance

theorem storeIndex_tidy [OfCanvas view] (object key v : Value) : Tidy view (storeIndex object key v) := by
  rw [storeIndex.eq_def]
  split <;> infer_instance

theorem storeField_tidy [OfCanvas view] (object : Value) (name : String) (v : Value) :
    Tidy view (storeField object name v) := by
  rw [storeField.eq_def]
  split <;> infer_instance

instance lengthOf_tidy (target : Value) : Tidy view (lengthOf target) := by
  rw [lengthOf.eq_def]
  split <;> infer_instance

instance itemOf_tidy (target key : Value) : Tidy view (itemOf target key) := by
  rw [itemOf.eq_def]
  split
  case h_1 =>
    apply Tidy.andThen
    intro items
    split
    case h_1 => infer_instance
    case h_2 refused =>
      have known : Fact _ := ⟨checkedIndex_ofValues refused⟩
      infer_instance
  case h_2 => infer_instance
  case h_3 => infer_instance

theorem ListFn.perform_tidy [OfCanvas view] (f : ListFn) : Tidy view (f.perform values) := by
  have appended (target item : Value) : Tidy view (appendTo target item) := by
    rw [appendTo.eq_def]
    split <;> infer_instance
  have stored (target key v : Value) : Tidy view (setItemOf target key v) := by
    rw [setItemOf.eq_def]
    split <;> infer_instance
  cases f
  all_goals
    simp only [ListFn.perform]
    infer_instance

theorem ConsoleFn.perform_tidy [BesidePaper view] (f : ConsoleFn) : Tidy view (f.perform values) := by
  have said (message : Message) : Tidy view (World.onCanvas (·.say message)) := onCanvas_tidy fun _ => rfl
  cases f
  all_goals
    simp only [ConsoleFn.perform]
    infer_instance

theorem CipherFn.perform_tidy [BesidePaper view] (f : CipherFn) : Tidy view (f.perform values) := by
  have gives : Succeeds rollSalt := .modifyGet _
  have rolled : Tidy view rollSalt := by
    apply Tidy.modifyGet
    intro w
    obtain ⟨rolls, dice⟩ := w.canvas.dice.rolls saltLength
    dsimp only
    cases dice.roll
    exact BesidePaper.same w _ rfl
  cases f with
  | encrypt =>
    simp only [CipherFn.perform]
    infer_instance
  | decrypt =>
    apply Tidy.andThen
    intro _
    apply Tidy.andThen
    intro token
    split <;> infer_instance

theorem PauseFn.pause_tidy (f : PauseFn) : Tidy view (f.pause values) := by
  cases f with
  | delay =>
    apply Tidy.andThen
    intro _
    apply Tidy.andThen
    intro seconds
    split
    case isTrue => split <;> infer_instance
    case isFalse => infer_instance
  | input =>
    simp only [PauseFn.pause]
    split <;> infer_instance

/-- Questions change nothing. -/
theorem SenseFn.perform_asks {f : SenseFn} (asks : f ≠ .button) (keeps : f ≠ .clearButtons) :
    Tidy view (f.perform values) := by
  have button {γ : Type} {view : World → γ} (v : Value) : Tidy view (asMouseButton v) := by
    rw [asMouseButton]
    split <;> infer_instance
  cases f
  case button => exact absurd rfl asks
  case clearButtons => exact absurd rfl keeps
  case keyClicked =>
    simp only [SenseFn.perform]
    apply Tidy.andThen
    intro canvas
    split <;> infer_instance
  all_goals
    simp only [SenseFn.perform]
    infer_instance

/-- Buttons are part of the canvas. -/
theorem SenseFn.perform_tidy [BesideCanvas view] (f : SenseFn) : Tidy view (f.perform values) := by
  have drawn (x y width height : Float) (id : String) : Tidy view (MonadState.modifyGet fun w : World =>
      ((w.canvas.button x y width height id).1, { w with canvas := (w.canvas.button x y width height id).2 })) :=
    .modifyGet fun w => BesideCanvas.same w _
  have cleared (g : Canvas → Canvas) : Tidy view (World.onCanvas g) := .modifyGet fun w => BesideCanvas.same w _
  by_cases draws : f = .button
  · subst draws
    simp only [SenseFn.perform]
    infer_instance
  by_cases clears : f = .clearButtons
  · subst clears
    simp only [SenseFn.perform]
    infer_instance
  exact perform_asks values draws clears

theorem Builtin.action_tidy [BesidePaper view] {f : Builtin} {action : List Value → Action Value}
    (known : f.action? = some action) (lists : ∀ g, f = .lists g → Tidy view (g.perform values))
    (sense : ∀ g, f = .sense g → Tidy view (g.perform values)) : Tidy view (action values) := by
  cases f with
  | canvas f =>
    cases known
    have performed : Tidy view (f.perform values) := f.perform_tidy values
    infer_instance
  | math f =>
    cases known
    have performed : Tidy view (f.perform values) := f.perform_tidy values
    infer_instance
  | lists f =>
    cases known
    exact lists f rfl
  | console f =>
    cases known
    exact f.perform_tidy values
  | pause f => cases known
  | sense f =>
    cases known
    exact sense f rfl
  | cipher f =>
    cases known
    have performed : Tidy view (f.perform values) := f.perform_tidy values
    infer_instance

/-- No method of a list or text changes anything but lists. -/
theorem Value.method_tidy [BesideLists view] {v : Value} {name : String} {action : List Value → Action Value}
    (known : v.method? name = some action) : Tidy view (action values) := by
  have counted {takes : Nat → Bool} {name : String} {perform : List Value → Action Value}
      (tidy : Tidy view (perform values)) : Tidy view (performCounted takes name perform values) := by
    rw [performCounted]
    infer_instance
  cases v with
  | list r =>
    obtain ⟨m, -, rfl⟩ := Option.map_eq_some_iff.mp known
    apply counted
    cases m
    case indexOf =>
      apply Tidy.andThen
      intro items
      split <;> infer_instance
    case join =>
      cases values
      all_goals
        simp only [ListMethod.perform]
        infer_instance
    all_goals
      simp only [ListMethod.perform]
      infer_instance
  | str s =>
    obtain ⟨m, -, rfl⟩ := Option.map_eq_some_iff.mp known
    apply counted
    cases m
    all_goals
      simp only [TextMethod.perform]
      infer_instance
  | nil | num | bool | map | library => cases known

end Calls

end Sketch
