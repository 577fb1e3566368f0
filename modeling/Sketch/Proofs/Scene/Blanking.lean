import Sketch.Scene

/-!
The picture after a run of operations depends on the last operation that blanks the canvas and on the shapes behind
it.
-/

namespace Sketch

/-- What a display does to its picture. Commands come one by one or in batches. -/
inductive SceneOp where
  | apply (command : DrawCommand)
  | extend (batch : List DrawCommand)
  | resize (width height : Float)

namespace SceneOp

def run (s : Scene) : SceneOp → Scene
  | .apply command => s.apply command
  | .extend batch => s.applyAll batch
  | .resize width height => s.resize width height

def runAll (s : Scene) (ops : List SceneOp) : Scene := ops.foldl run s

/-- The same with every command on its own. -/
def single : SceneOp → List SceneOp
  | .apply command => [.apply command]
  | .extend batch => batch.map .apply
  | .resize width height => [.resize width height]

def draw (d : Drawing) : SceneOp := .apply (.shape d)

/-- An operation leaves nothing but a ground. -/
inductive Blanks : SceneOp → Scene → Prop where
  | clear {width height : Float} {color : Color} :
      Blanks (.apply (.clear width height color)) ⟨width, height, color, #[]⟩
  | resize {width height : Float} : Blanks (.resize width height) ⟨width, height, .white, #[]⟩

variable {s ground : Scene} {op blank : SceneOp} {ops before rest : List SceneOp} {shapes : List Drawing}

theorem runAll_append : runAll s (ops ++ rest) = runAll (runAll s ops) rest := List.foldl_append

/-! ### Batches -/

theorem runAll_single : runAll s op.single = run s op := by
  cases op with
  | apply | resize => rfl
  | extend batch => exact List.foldl_map

theorem runAll_singles : runAll s (ops.flatMap single) = runAll s ops := by
  induction ops generalizing s with
  | nil => rfl
  | cons op rest ih =>
    rw [List.flatMap_cons, runAll_append, runAll_single, ih]
    rfl

/-- On its own, an operation adds a shape or blanks the canvas. -/
theorem draws_or_blanks (member : op ∈ ops.flatMap single) : (∃ d, op = draw d) ∨ ∃ ground, Blanks op ground := by
  have ofCommand (command : DrawCommand) :
      (∃ d, apply command = draw d) ∨ ∃ ground, Blanks (apply command) ground := by
    cases command with
    | clear => exact .inr ⟨_, .clear⟩
    | shape d => exact .inl ⟨d, rfl⟩
  obtain ⟨whole, -, part⟩ := List.mem_flatMap.mp member
  cases whole with
  | apply command =>
    obtain rfl := List.mem_singleton.mp part
    exact ofCommand command
  | extend batch =>
    obtain ⟨command, -, rfl⟩ := List.mem_map.mp part
    exact ofCommand command
  | resize =>
    obtain rfl := List.mem_singleton.mp part
    exact .inr ⟨_, .resize⟩

/-! ### Shapes and blanks -/

/-- Shapes leave size and background alone, and add their primitives. -/
theorem runAll_draw (s : Scene) (shapes : List Drawing) :
    runAll s (shapes.map draw) =
      { s with primitives := s.primitives ++ (shapes.flatMap Drawing.tessellate).toArray } := by
  induction shapes generalizing s with
  | nil => simp [runAll]
  | cons d rest ih =>
    have step : runAll s (draw d :: rest.map draw) = runAll (s.apply (.shape d)) (rest.map draw) := rfl
    rw [List.map_cons, step, ih, Scene.apply, List.flatMap_cons, ← List.append_toArray, Array.append_assoc]

/-- Nothing of a picture stays when the canvas is blanked. -/
theorem run_blanks (blanks : Blanks blank ground) : run s blank = { ground with primitives := #[] } := by
  cases blanks <;> rfl

theorem runAll_since (blanks : Blanks blank ground) :
    runAll s (before ++ blank :: shapes.map draw) =
      { ground with primitives := (shapes.flatMap Drawing.tessellate).toArray } := by
  have step : runAll (runAll s before) (blank :: shapes.map draw) =
      runAll (run (runAll s before) blank) (shapes.map draw) := rfl
  rw [runAll_append, step, run_blanks blanks, runAll_draw, Array.empty_append]

/-- Operations are shapes, or end with shapes behind one that blanks the canvas. -/
theorem exists_last_blank
    (each : ∀ op ∈ ops, (∃ d, op = draw d) ∨ ∃ ground, Blanks op ground) :
    (∃ shapes : List Drawing, ops = shapes.map draw) ∨ ∃ before blank ground, ∃ shapes : List Drawing,
      ops = before ++ blank :: shapes.map draw ∧ Blanks blank ground := by
  induction ops with
  | nil => exact .inl ⟨[], rfl⟩
  | cons op rest ih =>
    obtain ⟨first, others⟩ := List.forall_mem_cons.mp each
    rcases ih others with ⟨shapes, rfl⟩ | ⟨before, blank, ground, shapes, rfl, blanks⟩
    · rcases first with ⟨d, rfl⟩ | ⟨ground, blanks⟩
      · exact .inl ⟨d :: shapes, rfl⟩
      · exact .inr ⟨[], op, ground, shapes, rfl, blanks⟩
    · exact .inr ⟨op :: before, blank, ground, shapes, rfl, blanks⟩

/-- A picture is determined by what comes after the canvas was last blanked. How commands are split into batches makes
    no difference. If nothing blanks the canvas, there are shapes only: size and background stay, and the primitives of
    the shapes come in order behind those that are there. Otherwise, size and background are those of the last
    operation that blanks it, the primitives are those of the shapes behind it, and from any picture, with anything in
    front of them, these operations lead to the same picture. -/
theorem picture_since_last_blank (s : Scene) (ops : List SceneOp) :
    (∀ split, split.flatMap single = ops.flatMap single → runAll s split = runAll s ops) ∧
      ((∃ shapes : List Drawing, ops.flatMap single = shapes.map draw ∧
          runAll s ops = { s with primitives := s.primitives ++ (shapes.flatMap Drawing.tessellate).toArray }) ∨
        ∃ before blank ground, ∃ shapes : List Drawing, ops.flatMap single = before ++ blank :: shapes.map draw ∧
          Blanks blank ground ∧
          runAll s ops = { ground with primitives := (shapes.flatMap Drawing.tessellate).toArray } ∧
          ∀ other front, runAll other (front ++ blank :: shapes.map draw) = runAll s ops) := by
  refine ⟨fun split same => ?_, ?_⟩
  · rw [← runAll_singles, same, runAll_singles]
  rcases exists_last_blank fun _ => draws_or_blanks with
    ⟨shapes, parts⟩ | ⟨before, blank, ground, shapes, parts, blanks⟩
  · refine .inl ⟨shapes, parts, ?_⟩
    rw [← runAll_singles, parts, runAll_draw]
  · have picture : runAll s ops = { ground with primitives := (shapes.flatMap Drawing.tessellate).toArray } := by
      rw [← runAll_singles, parts, runAll_since blanks]
    refine .inr ⟨before, blank, ground, shapes, parts, blanks, picture, fun other front => ?_⟩
    rw [picture, runAll_since blanks]

end SceneOp

end Sketch
