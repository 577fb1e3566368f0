import Sketch.Proofs.Engine.Chronicle
import Sketch.Proofs.Machine.Relocation
import Sketch.Proofs.Machine.Statements
import Sketch.Proofs.Syntax.Places

/-!
Where failures of a sketch stand and which calls they show: the active ones, innermost first, each at the statement
that began last in it.
-/

namespace Sketch

/-! ### Active calls -/

/-- The active calls after a deed. An order and a frame begin without any. -/
def Deed.track (calls : List Call) : Deed → List Call
  | .step script m => (m.turn script).track (m.during calls)
  | .ordered _ | .frame => []
  | .pauses _ | .answered _ | .presents => calls

/-- The calls that are active after what is told. -/
def activeCalls (told : List Deed) : List Call := told.foldl Deed.track []

@[simp] theorem activeCalls_append (told : List Deed) (d : Deed) :
    activeCalls (told ++ [d]) = d.track (activeCalls told) := by
  rw [activeCalls, List.foldl_append, activeCalls, List.foldl_cons, List.foldl_nil]

@[simp] theorem activeCalls_append_two (told : List Deed) (d d' : Deed) :
    activeCalls (told ++ [d, d']) = d'.track (d.track (activeCalls told)) := by
  rw [← activeCalls_append, ← activeCalls_append, List.append_assoc, List.singleton_append]

/-- The calls of a machine are those that are active by what was told. -/
structure Machine.Tracked (script : Script) (told : List Deed) (m : Machine) : Prop where
  trace : m.trace = (activeCalls told).map Call.entry
  room : m.frames.length ≤ script.maxCallDepth
  level : m.Level

namespace Machine.Course

variable {script : Script} {told : List Deed} {m m' : Machine} {f : Failure}

/-- The calls that are told of are those that the machine keeps. -/
theorem tracked (course : m.Course script told) : m.Tracked script told := by
  have stepped {told : List Deed} {m : Machine} (before : m.Tracked script told) :
      (m.step script).Goes fun m' => m'.Tracked script (told ++ [.step script m]) := by
    have trace := step_trace script before.trace
    have room := step_depth before.room
    have level := step_level script before.level
    generalize m.step script = s at trace room level
    cases s with
    | next | paused => exact ⟨by rw [activeCalls_append]; exact trace, room, level⟩
    | finished | failed | crashed => trivial
  induction course with
  | start config => exact ⟨rfl, Nat.zero_le _, rfl⟩
  | next _ leads ih =>
    have goes := stepped ih
    rwa [leads] at goes
  | paused _ leads ih =>
    have goes := stepped ih
    rw [leads] at goes
    exact ⟨by rw [goes.trace, activeCalls_append, activeCalls_append_two]; rfl, goes.room, goes.level⟩
  | @finished told m m' _ finished before =>
    obtain ⟨finishes, rfl⟩ := step_finishes finished
    refine ⟨?_, before.room, before.level⟩
    rw [activeCalls_append_two]
    have during := trace_during before.trace
    rw [finishes.begun] at during
    rw [during, Deed.track, Deed.track, finishes.turn]
    rfl
  | resume _ v before => exact ⟨before.trace, before.room, before.level⟩
  | answered _ reply before =>
    exact ⟨by rw [activeCalls_append]; exact before.trace, before.room, before.level⟩
  | frame _ idle name before =>
    refine ⟨?_, before.room, congrArg List.length idle⟩
    rw [activeCalls_append]
    exact congrArg (List.map CallFrame.entry) idle
  | outside _ sent same before => exact ⟨before.trace, before.room, before.level⟩

theorem length_activeCalls (course : m.Course script told) : (activeCalls told).length = m.frames.length := by
  simpa [trace] using (congrArg List.length course.tracked.trace).symm

theorem functions (course : m.Course script told) :
    m.frames.map CallFrame.function = (activeCalls told).map fun c => c.function.name := by
  have shown := congrArg (List.map TraceEntry.function) course.tracked.trace
  rw [trace, List.map_map, List.map_map] at shown
  exact shown

/-- A failure is one of call depth just if a call is asked for when no more are allowed. -/
theorem overflow_iff (course : m.Course script told) :
    (∃ f m', m.step script = .failed f m' ∧ f.cause.kind = .overflow) ↔
      ∃ g args, m.turn script = .calls g args ∧ (activeCalls told).length = script.maxCallDepth := by
  have room := course.tracked.room
  rw [course.length_activeCalls]
  constructor
  · rintro ⟨f, m', failed, kind⟩
    obtain ⟨_, _, -, breaks⟩ := step_fails failed
    obtain ⟨g, args, turn, full⟩ := breaks.overflow.mp kind
    exact ⟨g, args, turn, Nat.le_antisymm room (begun_length m ▸ full)⟩
  · rintro ⟨g, args, turn, full⟩
    exact step_of_full turn (Nat.le_of_eq full.symm)

/-- No call is active when nothing is left to do. -/
theorem frames_of_finished (course : m.Course script told) (finished : m.step script = .finished m') :
    m'.frames = [] := by
  have level := step_level script course.tracked.level
  rwa [finished] at level

/-- A failure shows the active calls, and none of them is left. -/
theorem shows (course : m.Course script told) (failed : m.step script = .failed f m') :
    f.trace = (m.during (activeCalls told)).map Call.entry ∧ m'.frames = [] := by
  obtain ⟨_, _, -, breaks⟩ := step_fails failed
  obtain ⟨trace, none, -⟩ := breaks.raises.shows course.tracked.level.begun
  exact ⟨trace.trans (trace_during course.tracked.trace), none⟩

/-- The active calls stand on the stack of a machine. -/
theorem standing (course : m.Course script told) : Standing m.control m.conts (activeCalls told) := by
  have stepped {told : List Deed} {m : Machine} (before : Standing m.control m.conts (activeCalls told)) :
      (m.step script).Goes fun m' => Standing m'.control m'.conts (activeCalls (told ++ [.step script m])) := by
    rw [activeCalls_append]
    refine (step_passes script m).mono fun m' goes => ?_
    obtain ⟨used, new, rest, was, becomes, passes⟩ := goes
    rw [becomes]
    exact before.passes was passes
  induction course with
  | start config => exact .outside (by simp [Machine.start, Cont.isCallEnd])
  | next _ leads ih =>
    have goes := stepped ih
    rwa [leads] at goes
  | paused _ leads ih =>
    have goes := stepped ih
    rw [leads, activeCalls_append] at goes
    rwa [activeCalls_append_two]
  | @finished told m m' course finished before =>
    obtain ⟨finishes, rfl⟩ := step_finishes finished
    have none : activeCalls told = [] := by
      apply List.length_eq_zero_iff.mp
      rw [course.length_activeCalls, course.frames_of_finished finished]
      rfl
    rw [activeCalls_append_two, Deed.track, Deed.track, finishes.turn, none, finishes.conts]
    exact .outside (List.forall_mem_nil _)
  | resume _ v before => exact before.deliver v
  | answered _ reply before =>
    rw [activeCalls_append]
    exact before.deliver _
  | frame _ _ name before =>
    rw [activeCalls_append]
    exact .outside (by simp [call, Cont.isCallEnd])
  | outside _ sent same before => exact before

/-- The program of a machine stands where that of its script stands. -/
theorem under (course : m.Course script told) {g : Guise} (fixed : script.under g = script) (silent : g.told = #[]) :
    m.under g = m := by
  have stepped {m : Machine} (same : m.under g = m) : (m.step script).under g = m.step script := by
    rw [under_step, same, fixed]
  induction course with
  | start config =>
    have topLevel : script.topLevel.map (Stmt.relocate g.pos) = script.topLevel := congrArg Script.topLevel fixed
    simp [Machine.start, Machine.under, Control.under, Cont.under, topLevel, silent]
  | next _ leads ih =>
    have same := stepped ih
    rw [leads] at same
    exact Step.next.inj same
  | paused _ leads ih =>
    have same := stepped ih
    rw [leads] at same
    exact (Step.paused.inj same).2
  | finished _ leads ih =>
    have same := stepped ih
    rw [leads] at same
    exact Step.finished.inj same
  | resume _ v ih => exact congrArg (Machine.resume · v) ih
  | answered _ reply ih => exact congrArg (Machine.resume · (replyValue reply)) ih
  | frame _ _ name ih => exact congrArg (Machine.call · name) ih
  | @outside told m _ world sent same ih =>
    have moved : { m with world, sent }.under g = { m.under g with world, sent := g.told ++ sent } := rfl
    rw [moved, ih, silent, Array.empty_append]

end Machine.Course

/-! ### Places -/

/-- Everything stands elsewhere but for what is at given places. -/
def Guise.sparing (places : List Pos) : Guise where
  pos p := if p ∈ places then p else
    ⟨if p.line ∈ places.map Pos.line then p.line else p.line + 1, p.column + 1⟩
  line l := if l ∈ places.map Pos.line then l else l + 1
  told := #[]
  line_pos p := by
    split
    case isTrue mem => rw [if_pos (List.mem_map_of_mem mem)]
    case isFalse => rfl

theorem Guise.mem_of_sparing_pos {places : List Pos} {p : Pos} (same : (sparing places).pos p = p) : p ∈ places := by
  apply Decidable.byContradiction
  intro out
  have column := congrArg Pos.column same
  simp only [sparing, if_neg out] at column
  omega

theorem Guise.mem_of_sparing_line {places : List Pos} {l : Nat} (same : (sparing places).line l = l) :
    ∃ p ∈ places, p.line = l := by
  apply List.mem_map.mp
  apply Decidable.byContradiction
  intro out
  simp only [sparing, if_neg out] at same
  omega

/-- A program that compiles is not moved when the tokens of its text are not. -/
theorem Script.under_of_compile {source : String} {program : Program} {warnings : List Diagnostic}
    (accepted : compile source = .ok (program, warnings)) (depth : Nat) :
    ∃ s, Lexer.tokenize source = .ok s ∧ (∀ t ∈ s.tokens, t.pos.line ≠ 0) ∧
      (Script.ofProgram program depth).under (.sparing (s.tokens.map Token.pos)) = .ofProgram program depth := by
  obtain ⟨s, read, lines, fixed⟩ := places_of_compile accepted
  refine ⟨s, read, lines, ?_⟩
  have same := fixed (Guise.sparing (s.tokens.map Token.pos)).pos fun t mem =>
    if_pos (List.mem_map_of_mem mem)
  rw [Script.under, Script.ofProgram, ← Program.topLevel_relocate, ← Program.relocate_functions, same]

/-- A failure stands on a line of a text and shows calls at places in the text. -/
structure Failure.Names (f : Failure) (tokens : List Token) (calls : List Call) : Prop where
  line : ∃ t ∈ tokens, t.pos.line = f.line
  calls : f.trace.map TraceEntry.function = calls.map fun c => c.function.name
  places : ∀ entry ∈ f.trace, ∃ t ∈ tokens, t.pos = entry.pos

/-- A failure shows the calls that are active, and places that the script has. -/
theorem Machine.Course.names {script : Script} {told : List Deed} {m m' : Machine} {f : Failure}
    (course : m.Course script told) {tokens : List Token}
    (fixed : script.under (.sparing (tokens.map Token.pos)) = script) (failed : m.step script = .failed f m') :
    f.Names tokens (activeCalls told) := by
  have same : f.under (.sparing (tokens.map Token.pos)) = f := by
    have stepped := under_step (.sparing (tokens.map Token.pos)) script m
    rw [course.under fixed rfl, fixed, failed] at stepped
    exact (Step.failed.inj stepped).1
  constructor
  · obtain ⟨p, mem, line⟩ := Guise.mem_of_sparing_line (congrArg Failure.line same)
    obtain ⟨t, known, rfl⟩ := List.mem_map.mp mem
    exact ⟨t, known, line⟩
  · rw [(course.shows failed).1, List.map_map]
    have functions := congrArg (List.map FnDef.name) (during_functions m (activeCalls told))
    rw [List.map_map, List.map_map] at functions
    exact functions
  · intro entry mem
    have trace := (congrArg Failure.trace same).trans (List.map_id f.trace).symm
    have stands := congrArg TraceEntry.pos (List.map_inj_left.mp trace entry mem)
    obtain ⟨t, known, place⟩ := List.mem_map.mp (Guise.mem_of_sparing_pos stands)
    exact ⟨t, known, place⟩

namespace Engine

/-- A sketch that is stopped in a pause comes out of all its calls. -/
theorem Sound.frames_of_stopped {e : Engine} (sound : Sound e) {order : Nat} {r : Run} (found : e.run? order = some r)
    (gone : r.cancelled = true) {stage : Stage} {wait : Wait} (waits : r.phase = .waiting stage wait) :
    ∃ r', (e.goOn order r).run? order = some r' ∧ r'.machine = r.machine.abandon ∧ r'.machine.frames = [] := by
  obtain ⟨halts, dropped⟩ := sound.dropped found gone
  have wakes : r.wake? = some 0 := by
    rw [Run.wake?, waits]
    exact if_pos gone
  rw [goOn_of_cancelled gone (sound.kept found) halts dropped wakes]
  have level := (sound.kept found).level
  rw [Run.Level, waits] at level
  refine ⟨{ r with machine := r.machine.abandon, phase := .ended }, ?_, rfl, level.abandon⟩
  exact (run?_eq_of_set (lt_of_run? found) rfl order).trans (if_pos rfl)

/-- Failures of a sketch show where they come from. At every step the machine keeps the active calls, and these are
    not more than are allowed. A failure stands on a line of the text and shows the calls that are active, each at a
    place in the text. It is one of call depth just if a call is asked for when no more are allowed. It is reported
    at its own line. A call that ends leaves the active calls as they were: a return leaves just them, and a failure or
    a stop, which ends them as well, comes out of the call to them first. -/
theorem failures_show_active_calls {config : Config} {answers : Answers} {moves : List Move} {e : Engine}
    (played : (Engine.new config answers).play? moves = some e) {order : Nat} {r : Run}
    (found : e.run? order = some r) :
    let told := (Engine.new config answers).chronicle order moves
    ∃ s, Lexer.tokenize r.source = .ok s ∧
      (∀ earlier script m later, told = earlier ++ .step script m :: later →
        let calls := activeCalls earlier
        m.frames.map CallFrame.function = calls.map (fun c => c.function.name) ∧
        calls.length ≤ config.maxCallDepth ∧
        (∀ f m', m.step script = .failed f m' → f.Names s.tokens calls ∧ m'.frames = []) ∧
        ((∃ f m', m.step script = .failed f m' ∧ f.cause.kind = .overflow) ↔
          ∃ g args, m.turn script = .calls g args ∧ calls.length = config.maxCallDepth) ∧
        ∀ m', m.step script = .finished m' → m'.frames = []) ∧
      (∀ f line, .notice order (.failed f line) ∈ e.log → line = some f.line ∧ f.line ≠ 0 ∧ FailsIn told f) ∧
      (∀ f, .completed order (.failed f) ∈ e.log → FailsIn told f) ∧
      (∀ m₀ m, Machine.Active r.script m₀ m →
        ((m.step r.script).Goes fun m' => m₀.frames.length < m'.frames.length ∨ m'.frames = m₀.frames) ∧
        (∀ f m', m.step r.script = .failed f m' →
          ∃ (n : Machine) (line : Nat), m.step r.script = n.fail line f.cause ∧ n.ExitsTo m₀) ∧
        ∀ p m', m.step r.script = .paused p m' → ∀ world sent, { m' with world, sent }.ExitsTo m₀) ∧
      (r.cancelled = true → ∀ stage wait, r.phase = .waiting stage wait →
        ∃ r', (e.goOn order r).run? order = some r' ∧ r'.machine = r.machine.abandon ∧ r'.machine.frames = []) := by
  have recounts := chronicle_recounts played order
  have reachable : e.Reachable := ⟨config, answers, reaches_play? played⟩
  obtain ⟨program, warnings, depth, accepted, ofProgram, -⟩ := lives_of_reachable reachable order r found
  obtain ⟨s, read, lines, fixed⟩ := Script.under_of_compile accepted depth
  rw [← ofProgram] at fixed
  intro told
  have past {earlier later : List Deed} {script : Script} {m : Machine}
      (split : told = earlier ++ .step script m :: later) : r.script = script ∧ m.Course script earlier := by
    obtain ⟨r', found', course⟩ := recounts.past split
    obtain rfl := Option.some.inj (found.symm.trans found')
    exact course
  have names {f : Failure} (fails : FailsIn told f) : ∃ calls, f.Names s.tokens calls := by
    obtain ⟨script, m, m', mem, failed⟩ := fails
    obtain ⟨earlier, later, split⟩ := List.append_of_mem mem
    obtain ⟨rfl, course⟩ := past split
    exact ⟨_, course.names fixed failed⟩
  refine ⟨s, read, ?_, ?_, ?_, ?_, ?_⟩
  · intro earlier script m later split calls
    obtain ⟨rfl, course⟩ := past split
    have room := course.tracked.room
    have overflow := course.overflow_iff
    rw [← course.length_activeCalls, recounts.depth found] at room
    rw [recounts.depth found] at overflow
    refine ⟨course.functions, room, ?_, overflow, fun m' finished => course.frames_of_finished finished⟩
    exact fun f m' failed => ⟨course.names fixed failed, (course.shows failed).2⟩
  · intro f line mem
    obtain ⟨own, fails⟩ := recounts.reports _ mem rfl
    obtain ⟨calls, names⟩ := names fails
    obtain ⟨t, known, same⟩ := names.line
    have real : f.line ≠ 0 := same ▸ lines t known
    exact ⟨own real, real, fails⟩
  · exact fun f mem => recounts.reports _ mem rfl
  · intro m₀ m active
    refine ⟨active.comes_back, fun f m' failed => ?_, fun p m' paused => ?_⟩
    · obtain ⟨n, line, -, raised, exits⟩ := active.fails failed
      exact ⟨n, line, raised, exits⟩
    · have stops := active.stops
      rwa [paused] at stops
  · exact fun gone stage wait waits => (Sound.of_reachable reachable).frames_of_stopped found gone waits

/-- Few calls are allowed. -/
def shallow : Config := { maxCallDepth := 2 }

/-- A function calls itself without end. -/
def endless : List Move := [.execute "function f(n) \x7b\n  return f(n + 1)\n\x7d\nf(0)", .poll 0]

def tooDeep : Failure := ⟨.callDepth 2 "f", 2, [⟨"f", ⟨2, 3⟩⟩, ⟨"f", ⟨2, 3⟩⟩]⟩

/-- The third call fails, and the failure is that of a step with two calls. -/
theorem endless_calls_fail : ∃ e r s, (Engine.new shallow .live).play? endless = some e ∧ e.run? 0 = some r ∧
    .notice 0 (.failed tooDeep (some 2)) ∈ e.log ∧ Lexer.tokenize r.source = .ok s ∧
    FailsIn ((Engine.new shallow .live).chronicle 0 endless) tooDeep ∧ tooDeep.line ≠ 0 := by
  have told : ((Engine.new shallow .live).play? endless).map (fun e =>
      ((e.run? 0).isSome, decide (.notice 0 (.failed tooDeep (some 2)) ∈ e.log))) = some (true, true) := by
    decide +kernel
  obtain ⟨e, played, told⟩ := Option.map_eq_some_iff.mp told
  obtain ⟨present, mem⟩ := Prod.mk.inj told
  obtain ⟨r, found⟩ := Option.isSome_iff_exists.mp present
  have mem := of_decide_eq_true mem
  obtain ⟨s, read, -, reported, -⟩ := failures_show_active_calls played found
  obtain ⟨-, real, fails⟩ := reported _ _ mem
  exact ⟨e, r, s, played, found, mem, read, fails, real⟩

/-- The places that a failure shows. Each active call is shown at the statement that began last in it. There is a
    statement in progress in it, and the innermost one is that statement, unless it is a loop and the failure comes
    while its test is evaluated. -/
theorem failures_show_latest_statements {config : Config} {answers : Answers} {moves : List Move} {e : Engine}
    (played : (Engine.new config answers).play? moves = some e) (order : Nat) :
    let told := (Engine.new config answers).chronicle order moves
    (∀ f, ((∃ line, .notice order (.failed f line) ∈ e.log) ∨ .completed order (.failed f) ∈ e.log) →
      FailsIn told f) ∧
    ∀ earlier script m later f m', told = earlier ++ .step script m :: later → m.step script = .failed f m' →
      let calls := m.during (activeCalls earlier)
      f.trace = calls.map Call.entry ∧
      ∀ c ∈ calls, ∃ s start outer latest, c.inProgress = (s, start) :: outer ∧ c.latest = some latest ∧
        c.entry.pos = latest.pos ∧
        (latest = s ∨ s.hasTest = true ∧ ∃ k, StandsAt m.conts start k ∧ k.isTest = true) := by
  have recounts := chronicle_recounts played order
  refine ⟨?_, ?_⟩
  · rintro f (⟨line, mem⟩ | mem)
    · exact (recounts.reports _ mem rfl).2
    · exact recounts.reports _ mem rfl
  · intro earlier script m later f m' split failed calls
    obtain ⟨r, -, -, course⟩ := recounts.past split
    refine ⟨(course.shows failed).1, fun c mem => ?_⟩
    obtain ⟨used, rest, conts, breaks⟩ := Machine.step_fails failed
    have located := course.standing.located conts breaks.ventures c mem
    obtain ⟨s, start, outer, innermost, latest, began, shown⟩ := located
    exact ⟨s, start, outer, latest, innermost, began, by rw [Call.entry, began]; rfl, shown⟩

/-- A loop comes back to its test, which fails then. -/
def comesBack : List Move :=
  [.execute "function f() \x7b\n  i = 0\n  while i < 1 or missing \x7b\n    i = i + 1\n  \x7d\n\x7d\nf()", .poll 0]

/-- What a failure at a step shows, and the innermost statements in progress. -/
def shownAt (told : List Deed) (n : Nat) : Option (List Pos × List (Option Pos)) :=
  match told.drop n with
  | .step script m :: _ =>
    match m.step script with
    | .failed f _ =>
      let calls := m.during (activeCalls (told.take n))
      some (f.trace.map TraceEntry.pos, calls.map fun c => c.inProgress.head?.map fun s => s.1.pos)
    | _ => none
  | _ => none

theorem shownAt_eq_some {told : List Deed} {n : Nat} {places : List Pos} {innermost : List (Option Pos)}
    (shown : shownAt told n = some (places, innermost)) :
    ∃ script m later f m', told = told.take n ++ .step script m :: later ∧ m.step script = .failed f m' ∧
      f.trace.map TraceEntry.pos = places ∧
      (m.during (activeCalls (told.take n))).map (fun c => c.inProgress.head?.map fun s => s.1.pos) = innermost := by
  rw [shownAt] at shown
  split at shown
  case h_1 script m later dropped =>
    split at shown
    case h_1 f m' failed =>
      obtain ⟨places, innermost⟩ := Prod.mk.inj (Option.some.inj shown)
      exact ⟨script, m, later, f, m', by rw [← dropped, List.take_append_drop], failed, places, innermost⟩
    case h_2 => cases shown
  case h_2 => cases shown

/-- The failure shows a statement of the body, which is done, although the loop is in progress. -/
theorem failing_test_shows_body : ∃ e earlier script m later f m' c s start outer,
    pristine.play? comesBack = some e ∧
    pristine.chronicle 0 comesBack = earlier ++ .step script m :: later ∧ m.step script = .failed f m' ∧
    f.trace.map TraceEntry.pos = [⟨4, 5⟩] ∧ m.during (activeCalls earlier) = [c] ∧
    c.inProgress = (s, start) :: outer ∧ s.pos = ⟨3, 3⟩ ∧ s.hasTest = true ∧
    ∃ k, StandsAt m.conts start k ∧ k.isTest = true := by
  have shown : (pristine.play? comesBack).isSome = true ∧
      shownAt (pristine.chronicle 0 comesBack) 35 = some ([⟨4, 5⟩], [some ⟨3, 3⟩]) := by
    decide +kernel
  obtain ⟨present, shown⟩ := shown
  obtain ⟨e, played⟩ := Option.isSome_iff_exists.mp present
  obtain ⟨script, m, later, f, m', split, failed, places, innermost⟩ := shownAt_eq_some shown
  obtain ⟨c, only, inner⟩ := List.map_eq_singleton_iff.mp innermost
  obtain ⟨trace, located⟩ := (failures_show_latest_statements played 0).2 _ script m later f m' split failed
  obtain ⟨s, start, outer, latest, head, -, entry, last⟩ := located c (by simp [only])
  have loop : s.pos = ⟨3, 3⟩ := by simpa [head] using inner
  have body : latest.pos = ⟨4, 5⟩ := by
    rw [trace, only] at places
    simpa [entry] using places
  rcases last with rfl | ⟨hasTest, test⟩
  · simp [loop] at body
  · exact ⟨e, _, script, m, later, f, m', c, s, start, outer, played, split, failed, places, only, head, loop,
      hasTest, test⟩

end Engine

end Sketch
