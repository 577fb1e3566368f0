import Sketch.Proofs.Machine.Steps

/-!
What a running sketch does to the input of a frame: within a stretch of work, the input at any moment is the one at
its start and the presses since then.
-/

namespace Sketch

/-- What gathered values do to the buttons. -/
def Gather.press? (script : Script) (goal : Gather) (values : List Value) (w : World) : Option Press :=
  (goal.library? script).bind (·.press? values w)

namespace Machine

/-- What the next step gathers values for, with those at hand and the expressions that are left. -/
def gathering? (m : Machine) : Option (Gather × List Value × List Expr) :=
  match m.control, m.conts with
  | .eval (.call name args _), _ => some (.call name, [], args)
  | .eval (.list items _), _ => some (.list, [], items)
  | .deliver v, .gather goal _ done todo :: _ => some (goal, v :: done, todo)
  | .deliver v, .methodArgs name args _ :: _ => some (.method v name, [], args)
  | _, _ => none

/-- What the next step does to the buttons, if it is a call with all arguments at hand. -/
def press? (script : Script) (m : Machine) : Option Press :=
  match m.gathering? with
  | some (goal, done, []) => goal.press? script done.reverse m.world
  | _ => none

end Machine

/-! ### Steps -/

def Turn.press? (w : World) : Turn → Option Press
  | .uses f values => f.press? values w
  | .moves | .assigns .. | .calls .. | .returns => none

theorem Gather.turn_press? (script : Script) (goal : Gather) (values : List Value) (w : World) :
    (goal.turn script values).press? w = goal.press? script values w := by
  rw [Gather.turn, Gather.press?]
  cases goal with
  | call name =>
    rw [Gather.function?, Gather.library?]
    cases script.function? name with
    | some f => rfl
    | none => cases Builtin.ofName? name <;> rfl
  | method receiver name =>
    rw [Gather.function?]
    cases (Gather.method receiver name).library? script <;> rfl
  | list => rfl

theorem Counting.turn_press? (c : Counting) (i stop step : Float) (w : World) :
    (c.turn i stop step).press? w = none ∧ (c.firstTurn i stop step).press? w = none := by
  have round : (c.turn i stop step).press? w = none := by
    rw [Counting.turn]
    split <;> rfl
  refine ⟨round, ?_⟩
  rw [Counting.firstTurn]
  split
  · rfl
  · exact round

namespace Machine

/-- A step presses what its turn presses. -/
theorem press?_eq (script : Script) (m : Machine) : m.press? script = (m.turn script).press? m.world := by
  rw [press?, gathering?.eq_def, turn]
  cases m.control with
  | eval e =>
    cases e with
    | call name args =>
      cases args with
      | nil => exact (Gather.turn_press? script _ _ _).symm
      | cons => rfl
    | list items => cases items <;> rfl
    | _ => rfl
  | exec s =>
    cases s with
    | declare name init =>
      cases init with
      | some => rfl
      | none =>
        dsimp only [Stmt.turn]
        split <;> rfl
    | _ => rfl
  | deliver v =>
    cases m.conts with
    | nil => rfl
    | cons k =>
      cases k with
      | gather goal line done todo =>
        cases todo with
        | nil => exact (Gather.turn_press? script _ _ _).symm
        | cons => rfl
      | methodArgs name args =>
        cases args with
        | nil => exact (Gather.turn_press? script _ _ _).symm
        | cons => rfl
      | write place combine =>
        cases place with
        | name =>
          cases combine with
          | none => rfl
          | some pair =>
            dsimp only [Cont.deliverTurn]
            split <;> rfl
        | index | field => cases combine <;> rfl
      | countStop c start line step =>
        cases step with
        | some => rfl
        | none =>
          cases v with
          | num => exact (Counting.turn_press? c _ _ _ _).2.symm
          | _ => rfl
      | countStep c start stop =>
        cases v with
        | num => exact (Counting.turn_press? c _ _ _ _).2.symm
        | _ => rfl
      | _ => rfl
  | proceed =>
    cases m.conts with
    | nil => rfl
    | cons k =>
      cases k with
      | countNext c i stop step => exact (Counting.turn_press? c _ _ _ _).1.symm
      | entry name =>
        dsimp only [Cont.proceedTurn]
        split <;> rfl
      | _ => rfl
  | unwind v =>
    cases m.conts with
    | nil => rfl
    | cons k => cases k <;> rfl

/-- A step changes the input of a frame by its presses only. -/
theorem Takes.input {script : Script} {m : Machine} {control : Control} {used : List Cont} {t : Turn}
    {op : Option MapOp} {s : Step} (takes : m.Takes script control used t op s) :
    s.world.input = m.world.input.press (t.press? m.world).toList := by
  cases takes with
  | moves | returns => rfl
  | fails | refuses => exact congrArg World.input (fail_world _ _ _)
  | assigns => exact congrArg World.input (assign_world m _ _)
  | calls => exact congrArg World.input (callUser_world script _ _ _ _)
  | works _ line goal tidy =>
    exact (perform_view fun _ _ => .next _).trans (congrArg Canvas.input (tidy.after m.world))
  | uses values _ line known => exact (perform_view fun _ _ => .next _).trans (action_after known values m.world)
  | pauses p values =>
    have kept : Tidy World.input (p.pause values) := p.pause_tidy values
    exact (perform_view fun _ _ => .paused _).trans (kept.after m.world)

/-- What a step does to the input, however it ends. -/
theorem step_input (script : Script) (m : Machine) :
    (m.step script).world.input = m.world.input.press (m.press? script).toList := by
  rw [press?_eq]
  rcases step_takes script m with finishes | ⟨used, rest, -, takes⟩
  · rw [finishes.step, finishes.turn]
    rfl
  · rw [← (begun_outside m).1]
    exact takes.input

section Runs

/-- The states from which a run takes its steps. -/
def visits (script : Script) : (fuel : Nat) → Machine → List Machine
  | 0, _ => []
  | fuel + 1, m =>
    match m.step script with
    | .next m' => m :: visits script fuel m'
    | _ => [m]

/-- What is done to the buttons by the steps from some states. -/
def presses (script : Script) (moments : List Machine) : List Press := moments.filterMap (press? script)

theorem presses_cons (script : Script) (m : Machine) (moments : List Machine) :
    presses script (m :: moments) = (m.press? script).toList ++ presses script moments := by
  rw [presses, List.filterMap_cons, presses]
  cases m.press? script <;> rfl

theorem presses_append (script : Script) (moments more : List Machine) :
    presses script (moments ++ more) = presses script moments ++ presses script more := List.filterMap_append

variable (script : Script) (fuel : Nat) (m : Machine)

theorem run_input : (m.run script fuel).world.input = m.world.input.press (presses script (m.visits script fuel)) := by
  induction fuel generalizing m with
  | zero => rfl
  | succ fuel ih =>
    have stepped := step_input script m
    rw [run, visits]
    cases taken : m.step script with
    | next m' =>
      rw [taken] at stepped
      rw [presses_cons, Input.press_append, ← stepped]
      exact ih m'
    | paused | finished | failed | crashed =>
      rw [taken] at stepped
      rw [presses_cons]
      exact stepped.trans (congrArg m.world.input.press (List.append_nil _).symm)

/-- A state of a run is the first one, or one of the run that goes on behind it. -/
theorem visits_cases {earlier later : List Machine} {moment : Machine}
    (visited : m.visits script (fuel + 1) = earlier ++ moment :: later) :
    (earlier = [] ∧ m = moment) ∨ ∃ m' before, m.step script = .next m' ∧ earlier = m :: before ∧
      m'.visits script fuel = before ++ moment :: later := by
  rw [visits] at visited
  cases earlier with
  | nil => exact .inl ⟨rfl, by split at visited <;> exact (List.cons.inj visited).1⟩
  | cons first before =>
    cases taken : m.step script with
    | next m' =>
      rw [taken] at visited
      obtain ⟨rfl, rest⟩ := List.cons.inj visited
      exact .inr ⟨m', before, rfl, rfl, rest⟩
    | paused | finished | failed | crashed =>
      rw [taken] at visited
      simp at visited

/-- The input at each state of a run. -/
theorem visits_input {earlier later : List Machine} {moment : Machine}
    (visited : m.visits script fuel = earlier ++ moment :: later) :
    moment.world.input = m.world.input.press (presses script earlier) := by
  induction fuel generalizing m earlier with
  | zero => simp [visits] at visited
  | succ fuel ih =>
    rcases visits_cases script fuel m visited with ⟨rfl, rfl⟩ | ⟨m', before, taken, rfl, rest⟩
    · rfl
    · have stepped := step_input script m
      rw [taken] at stepped
      rw [presses_cons, Input.press_append, ← stepped]
      exact ih m' rest

end Runs

end Machine

end Sketch
