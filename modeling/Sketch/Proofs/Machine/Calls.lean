import Sketch.Proofs.Machine.Return

/-!
The active calls of a running sketch, as they follow from what its steps do. Main statement: the calls that a machine
keeps are those that were made and did not return.
-/

namespace Sketch

/-- An active call of one of the sketch's own functions. -/
structure Call where
  function : FnDef
  /-- The statement that began last. -/
  latest : Option Stmt
  /-- The statements in progress, innermost first, each with the height of the stack at which it began. -/
  inProgress : List (Stmt × Nat)

/-- Whether an expression is evaluated next. -/
def Control.isEval : Control → Bool
  | .eval _ => true
  | _ => false

/-- Whether a statement that began at a height of the stack is still in progress. -/
def Machine.isWithin (m : Machine) (height : Nat) : Bool :=
  height < m.conts.length || (height = m.conts.length && m.control.isEval)

namespace Call

/-- A call that begins. -/
def start (f : FnDef) : Call := ⟨f, none, []⟩

def entry (c : Call) : TraceEntry := ⟨c.function.name, (c.latest.map Stmt.pos).getD c.function.pos⟩

/-- The statements that are done at a moment are dropped. -/
def settle (m : Machine) (c : Call) : Call :=
  { c with inProgress := c.inProgress.dropWhile fun s => !m.isWithin s.2 }

/-- The statement that begins at a moment is in progress. -/
def begin (m : Machine) (c : Call) : Call :=
  match m.control with
  | .exec s => { c with latest := some s, inProgress := (s, m.conts.length) :: c.inProgress }
  | _ => c

@[simp] theorem settle_function (m : Machine) (c : Call) : (c.settle m).function = c.function := rfl

@[simp] theorem settle_latest (m : Machine) (c : Call) : (c.settle m).latest = c.latest := rfl

@[simp] theorem begin_function (m : Machine) (c : Call) : (c.begin m).function = c.function := by
  rw [begin]
  split <;> rfl

end Call

/-- The active calls while a step is taken. Only the innermost one is at work. -/
def Machine.during (m : Machine) (calls : List Call) : List Call :=
  calls.modifyHead fun c => (c.settle m).begin m

def Turn.track (calls : List Call) : Turn → List Call
  | .calls f _ => .start f :: calls
  | .returns => calls.tail
  | .moves | .assigns .. | .uses .. => calls

/-- Every active call has its end on the stack. -/
def Machine.Level (m : Machine) : Prop := m.frames.length = m.conts.countP Cont.isCallEnd

/-- What a step leaves of the active calls: each has its end on the stack. -/
def Step.Level : Step → Prop
  | .next m | .paused _ m => m.Level
  | .finished m => m.frames = []
  | .failed .. | .crashed _ => True

namespace Machine

variable {script : Script} {m m' : Machine} {calls : List Call} {f : Failure}

@[simp] theorem during_functions (m : Machine) (calls : List Call) :
    (m.during calls).map Call.function = calls.map Call.function := by
  cases calls with
  | nil => rfl
  | cons c calls => simp [during]

@[simp] theorem assign_trace (m : Machine) (name : String) (v : Value) : (m.assign name v).trace = m.trace := by
  rw [assign]
  split
  case h_1 frames =>
    split
    · simp [trace, frames, CallFrame.entry]
    · rfl
  case h_2 => rfl

/-- The innermost call is at the statement that begins. -/
theorem trace_during (shown : m.trace = calls.map Call.entry) : m.begun.trace = (m.during calls).map Call.entry := by
  rw [trace] at shown
  cases calls with
  | nil =>
    have none : m.frames = [] := by simpa using shown
    rw [begun]
    split
    · simp [moveTo, none, trace, during]
    · simp [none, trace, during]
  | cons c calls =>
    cases frames : m.frames with
    | nil => simp [frames] at shown
    | cons f rest =>
      rw [frames, List.map_cons, List.map_cons] at shown
      obtain ⟨own, below⟩ := List.cons.inj shown
      have function : f.function = c.function.name := congrArg TraceEntry.function own
      rw [during, List.modifyHead_cons, List.map_cons, ← below]
      cases control : m.control with
      | exec s => simp [begun, control, moveTo, frames, trace, function, CallFrame.entry, Call.entry, Call.begin]
      | eval | deliver | proceed | unwind =>
        simp only [begun, control, trace, frames, List.map_cons, own, Call.begin]
        rfl

/-- The calls that a machine keeps are the active ones, each at the statement that began last in it. -/
theorem step_trace (script : Script) (shown : m.trace = calls.map Call.entry) : (m.step script).Goes fun m' =>
    m'.trace = ((m.turn script).track (m.during calls)).map Call.entry := by
  have during := trace_during shown
  apply (step_acts script m).mono
  rintro m' ⟨frames, -⟩
  have kept : m'.trace = (m.begun.act (m.turn script)).trace := by rw [trace, frames, trace]
  rw [kept]
  cases m.turn script with
  | moves | uses => exact during
  | assigns name v => exact (assign_trace m.begun name v).trans during
  | calls f args =>
    rw [Turn.track, List.map_cons, ← during]
    rfl
  | returns =>
    rw [Turn.track, List.map_tail, ← during, trace, trace, ← List.map_tail]
    rfl

/-- There are never more calls than are allowed. -/
theorem step_depth (room : m.frames.length ≤ script.maxCallDepth) :
    (m.step script).Goes fun m' => m'.frames.length ≤ script.maxCallDepth := by
  cases turn : m.turn script with
  | calls f args =>
    obtain ⟨conts, line, -, stepped⟩ := step_of_calls turn
    rw [stepped, callUser]
    split
    · trivial
    · rename_i free
      exact Nat.lt_of_not_le free
  | moves | assigns | returns | uses =>
    apply (step_acts script m).mono
    rintro m' ⟨frames, -⟩
    rw [turn] at frames
    have fewer : m'.frames.length ≤ m.frames.length := by
      rw [frames]
      simp [act]
    exact Nat.le_trans fewer room

/-- One call too many is a failure. -/
theorem step_of_full {f : FnDef} {args : List Value} (turn : m.turn script = .calls f args)
    (full : script.maxCallDepth ≤ m.frames.length) :
    ∃ failure m', m.step script = .failed failure m' ∧ failure.cause.kind = .overflow := by
  obtain ⟨conts, line, -, stepped⟩ := step_of_calls turn
  rw [stepped, callUser, if_pos full, fail_eq]
  exact ⟨_, _, rfl, rfl⟩

/-! ### The ends of the active calls -/

theorem Level.shifts (level : m.Level) (shifts : Shifts m m') : m'.Level := by
  rw [Level] at level ⊢
  cases shifts with
  | within stays =>
    cases stays with
    | of was becomes own inner depth _ =>
      rw [depth, level, was, becomes, countP_of_own own,
        countP_of_own fun k mem => Cont.isCallEnd_of_inner (inner k mem)]
  | calls begins =>
    cases begins with
    | of was becomes own frames =>
      rw [frames, List.length_cons, level, was, becomes, countP_of_own own,
        List.countP_cons_of_neg (by simp [Cont.isCallEnd]), List.countP_cons_of_pos rfl]
  | ends ended =>
    rw [ended.frames, List.length_tail, level, ended.conts, List.countP_cons_of_pos rfl]
    rfl

theorem Level.abandon (level : m.Level) : m.abandon.frames = [] := by
  rw [abandon_eq, ← level]
  exact List.drop_length

/-- A failure shows all calls that are active, and ends them. -/
theorem Raises.shows (raises : m.Raises f m') (level : m.Level) :
    f.trace = m.trace ∧ m'.frames = [] ∧ m'.globals = m.globals := by
  obtain ⟨n, line, frames, globals, ⟨used, was, own⟩, failed⟩ := raises
  have all : n.conts.countP Cont.isCallEnd = n.frames.length := by
    rw [frames, level, was, countP_of_own own]
  rw [fail_eq, all, List.take_length, List.drop_length, frames] at failed
  obtain ⟨shown, rfl⟩ := Step.failed.inj failed
  exact ⟨(congrArg Failure.trace shown).symm, rfl, globals⟩

theorem Level.begun (level : m.Level) : m.begun.Level := by
  rw [Level, begun_length, begun_conts]
  exact level

theorem step_level (script : Script) (level : m.Level) : (m.step script).Level := by
  have goes := (step_goes script m).mono fun _ shifts => level.shifts shifts
  cases stepped : m.step script with
  | next | paused =>
    rw [stepped] at goes
    exact goes
  | finished m' =>
    obtain ⟨finishes, rfl⟩ := step_finishes stepped
    rw [Level, finishes.conts] at level
    exact List.length_eq_zero_iff.mp level
  | failed | crashed => trivial

theorem run_level (script : Script) (level : m.Level) (fuel : Nat) : (m.run script fuel).Level := by
  induction fuel generalizing m with
  | zero => exact level
  | succ fuel ih =>
    have stepped := step_level script level
    rw [run]
    split
    case h_1 m' leads =>
      rw [leads] at stepped
      exact ih stepped
    case h_2 => exact stepped

/-! ### The end of a call -/

section Ending

variable {m₀ : Machine}

/-- While a call is active its callers are below, and after it they are left. -/
theorem Active.goes (active : Active script m₀ m) : (m.step script).Goes fun m' =>
    m'.conts = m₀.conts ∧ m'.frames = m₀.frames ∨ ∃ inner, Above m₀ inner m' := by
  obtain ⟨inner, above⟩ := active.above
  apply (step_goes script m).mono
  intro m' shifts
  cases shifts with
  | within stays => exact .inr (above.of_within stays)
  | calls begins => exact .inr (above.of_calls begins)
  | ends ended => exact above.of_ends ended

theorem Above.callers {inner : List Cont} (above : Above m₀ inner m) :
    ∃ own calls, m.frames = own :: (calls ++ m₀.frames) := by
  obtain ⟨own, calls, frames, -⟩ := above.frames
  exact ⟨own, calls, frames⟩

/-- A call that ends leaves the active calls as they were before it. -/
theorem Active.comes_back (active : Active script m₀ m) : (m.step script).Goes fun m' =>
    m₀.frames.length < m'.frames.length ∨ m'.frames = m₀.frames := by
  apply active.goes.mono
  rintro m' (⟨-, frames⟩ | ⟨inner, above⟩)
  · exact .inr frames
  · obtain ⟨own, calls, frames⟩ := above.callers
    left
    simp only [frames, List.length_cons, List.length_append]
    omega

/-- What ends a run at `n` comes out of a call to where it was made, in `m₀`. The frames from there on are gone, each
    of them noted, and all else is as it was. -/
def ExitsTo (n m₀ : Machine) : Prop :=
  ∃ past gone, n.conts.length = past + m₀.conts.length ∧ n.frames = gone ++ m₀.frames ∧
    ∀ {α : Type} (note : CallFrame → α → α) (more : Nat) (a : α), n.escape note (past + more) a =
      { n with conts := m₀.conts, frames := m₀.frames }.escape note more (gone.foldl (fun a f => note f a) a)

theorem Above.exits {inner : List Cont} (above : Above m₀ inner m) : m.ExitsTo m₀ := by
  obtain ⟨own, calls, frames, count⟩ := above.frames
  have conts : m.conts = (inner ++ [.callEnd]) ++ m₀.conts := by simp [above.conts]
  have ends : (inner ++ [Cont.callEnd]).countP Cont.isCallEnd = (own :: calls).length := by
    rw [List.countP_append, ← count]
    rfl
  rw [← List.cons_append] at frames
  refine ⟨(inner ++ [Cont.callEnd]).length, own :: calls, by rw [conts, List.length_append], frames, ?_⟩
  intro α note more a
  rw [escape_add, escape_eq note conts a, ends, frames, List.take_left, List.drop_left]

/-- If every active call had its end on the stack, so it is in a new call. -/
theorem Above.level {inner : List Cont} (above : Above m₀ inner m) (level : m₀.Level) : m.Level := by
  obtain ⟨own, calls, frames, count⟩ := above.frames
  rw [Level, above.conts, frames, List.countP_append, List.countP_cons_of_pos rfl, ← level, ← count, List.length_cons,
    List.length_append]
  rfl

/-- What is used of the innermost call is not below it. -/
theorem Above.of_spends {inner : List Cont} {n : Machine} (above : Above m₀ inner m) (spends : m.Spends n.conts)
    (depth : n.frames.length = m.frames.length) (below : n.frames.tail = m.frames.tail) :
    ∃ left, Above m₀ left n := by
  obtain ⟨used, was, own⟩ := spends
  exact above.of_within (.of was (List.nil_append _).symm own (List.forall_mem_nil _) depth below)

/-- What stops the sketch in a call comes out of it to where it was made. -/
theorem Active.stops (active : Active script m₀ m) : (m.step script).Goes fun m' =>
    ∀ world sent, { m' with world, sent }.ExitsTo m₀ := by
  apply active.goes.mono
  rintro m' (⟨conts, frames⟩ | ⟨inner, above⟩) world sent
  · refine ⟨0, [], by rw [conts, Nat.zero_add], frames, fun note more a => ?_⟩
    rw [Nat.zero_add, ← conts, ← frames]
    rfl
  · have still : Above m₀ inner { m' with world, sent } := ⟨above.conts, above.inside, above.frames⟩
    exact still.exits

/-- A failure in a call comes out of it to where it was made. -/
theorem Active.fails (active : Active script m₀ m) (failed : m.step script = .failed f m') :
    ∃ (n : Machine) (line : Nat), n.globals = m.globals ∧ m.step script = n.fail line f.cause ∧ n.ExitsTo m₀ := by
  obtain ⟨inner, above⟩ := active.above
  obtain ⟨_, _, -, breaks⟩ := step_fails failed
  obtain ⟨n, line, frames, globals, spends, raised⟩ := breaks.raises
  rw [Spends, begun_conts] at spends
  obtain ⟨left, above'⟩ := above.of_spends spends (by rw [frames, begun_length]) (by rw [frames, begun_tail])
  exact ⟨n, line, globals.trans (begun_globals m), failed.trans raised.symm, above'.exits⟩

end Ending

end Machine

end Sketch
