import Sketch.Proofs.Engine.Bisimulation
import Sketch.Proofs.Engine.History
import Sketch.Proofs.Machine.Expansion
import Sketch.Proofs.Syntax.ShortForms

/-!
A program runs as its expansion does: in the same engine, among the same events, the two do the same at the same times
and come to the same ends.
-/

namespace Sketch

/-! ### The same beginning -/

namespace Program

theorem frameFunction?_relocate (f : Pos → Pos) (p : Program) : (p.relocate f).frameFunction? = p.frameFunction? := by
  rw [frameFunction?, frameFunction?]
  simp only [relocate_function?, Option.isSome_map]

theorem expandsTo_expand (p : Program) : p.ExpandsTo p.expand := rfl

variable {p p' : Program} (expands : p.ExpandsTo p')

include expands

theorem ExpandsTo.frameFunction? : p'.frameFunction? = p.frameFunction? := by
  rw [← frameFunction?_relocate fun _ => .nowhere, expands, frameFunction?_relocate, expand_frameFunction?]

/-- Where all stands nowhere, one script is the expansion of the other. -/
theorem ExpandsTo.script (depth : Nat) :
    (Script.ofProgram p' depth).under .nowhere = ((Script.ofProgram p depth).under .nowhere).expand := by
  have moved (q : Program) : (Script.ofProgram q depth).under .nowhere =
      Script.ofProgram (q.relocate fun _ => .nowhere) depth := by
    rw [Script.under, Script.ofProgram, Script.ofProgram, topLevel_relocate, relocate_functions]
    rfl
  have expanded (q : Program) : (Script.ofProgram q depth).expand = Script.ofProgram q.expand depth := by
    rw [Script.expand, Script.ofProgram, Script.ofProgram, expand_topLevel, expand_functions]
  rw [moved, moved, expanded, expands, expand_relocate]

theorem ExpandsTo.openingRun (source source' : String) (config : Config) (canvas : Canvas) :
    (Engine.openingRun source p config canvas).Alike (Engine.openingRun source' p' config canvas) where
  frameFunction := expands.frameFunction?
  phase := rfl
  cancelled := rfl
  outside := rfl
  related := by
    have script := expands.script config.maxCallDepth
    have bisimulation := Bisimulation.expand (Script.ofProgram p config.maxCallDepth)
    have start := Machine.start_mirrors ((Script.ofProgram p config.maxCallDepth).under .nowhere) canvas
    rw [← script] at bisimulation start
    exact ⟨_, bisimulation.of_under rfl, start, _, rfl⟩

end Program

namespace Engine

variable {p p' : Program} {e : Engine} {source : String}

theorem openAlike_of_expandsTo (expands : p.ExpandsTo p') (source source' : String) :
    OpenAlike source source' (checked p) (checked p') := by
  rcases checked_alike (Lint.lint_of_expandsTo expands) with
    ⟨errors, errors', rejected, rejected', faults⟩ | ⟨warnings, warnings', accepted, accepted', faults⟩
  · rw [rejected, rejected']
    exact .rejected faults
  · rw [accepted, accepted']
    exact .accepted (expands.openingRun source source') faults

/-! ### The same runs -/

/-- A program is started, and once it has come to rest, events are handled to their ends. -/
def Plays (e : Engine) (source : String) (p : Program) (events : List EngineEvent) (later : Engine) : Prop :=
  ∃ next, Comes e.now (e.launch source (checked p)) next ∧ Handled next events later

/-- A program that was read from a text is played when the text is executed. -/
theorem plays_iff_handled (free : e.busy = false)
    (read : readProgram source = .ok p) (events : List EngineEvent) (later : Engine) :
    e.Plays source p events later ↔ Handled e (.execute source :: events) later := by
  have compiled : compile source = checked p := by
    rw [compile, read]
    rfl
  have prompted : e.prompted (.execute source) = e.launch source (checked p) := by
    rw [← compiled, ← execute_eq_launch, Engine.prompted, apply, moveOr, move?, free]
    rfl
  constructor
  · rintro ⟨next, comes, rest⟩
    rw [← prompted] at comes
    exact .cons comes rest
  · intro handled
    cases handled with
    | cons comes rest =>
      rw [prompted] at comes
      exact ⟨_, comes, rest⟩

theorem Plays.alike {later : Engine} (sound : Sound e) (free : e.busy = false) {source' : String}
    (alike : Alike (e.launch source (checked p)) (e.launch source' (checked p')))
    {events : List EngineEvent} (plays : e.Plays source p events later) :
    ∃ later', e.Plays source' p' events later' ∧ Alike later later' := by
  obtain ⟨next, comes, rest⟩ := plays
  have begun := sound.launch free source (checked p)
  have begun' := sound.launch free source' (checked p')
  obtain ⟨next', comes', alikeNext⟩ := alike.comes begun begun' comes
  obtain ⟨later', rest', last⟩ :=
    alikeNext.handled (begun.reaches comes.reaches) (begun'.reaches comes'.reaches) rest
  exact ⟨later', ⟨next', comes', rest'⟩, last⟩

/-- A program runs as its expansion does. Start both in an engine that is in use but not at work, and give both the
    same events. If one of them comes to its end with all of that, so does the other, and then they have sent the same
    events to the display in the same order, wait for the same, have the same globals, and failed for the same reasons
    in the same calls, if they did. Only places differ; and the faults found before they started may be listed in
    another order. No short form is left in the expansion of a program that was read from a text, and playing such a
    program is what executing the text does. -/
theorem program_runs_as_its_expansion {e : Engine} (used : e.Reachable) (free : e.busy = false) {p p' : Program}
    (expands : p.ExpandsTo p') (source source' : String) (events : List EngineEvent) :
    (∀ later, e.Plays source p events later →
      ∃ later', e.Plays source' p' events later' ∧ Alike later later') ∧
    (∀ later', e.Plays source' p' events later' →
      ∃ later, e.Plays source p events later ∧ Alike later later') ∧
    (readProgram source = .ok p →
      p'.Long ∧ ∀ later, e.Plays source p events later ↔ Handled e (.execute source :: events) later) := by
  have sound := Sound.of_reachable used
  have begun : Alike (e.launch source (checked p)) (e.launch source' (checked p')) :=
    (Alike.refl e).launch (openAlike_of_expandsTo expands source source')
  refine ⟨?_, ?_, ?_⟩
  · intro later plays
    exact plays.alike sound free begun
  · intro later' plays
    obtain ⟨later, plays, same⟩ := plays.alike sound free begun.symm
    exact ⟨later, plays, same.symm⟩
  · intro read
    exact ⟨expands.long (Parser.regular_of_read read), plays_iff_handled free read events⟩

/-- A loop with clauses begins with a question, goes through a chain of branches and doubles the answer. -/
theorem asking_loop_runs_as_its_expansion :
    ∃ source p later later', readProgram source = .ok p ∧ p.expand.Long ∧ p.ExpandsTo p.expand ∧
      Handled pristine [.execute source, .reply (some "hi")] later ∧
      pristine.Plays source p.expand [.reply (some "hi")] later' ∧ Alike later later' ∧
      later'.global? "t" = some (.str "hihi") := by
  let source :=
    "for (var s = input(); s; s = nil) \x7b if not s \x7b \x7d elseif s \x7b s += s \x7d t = s \x7d"
  have isRead : (readProgram source).isOk = true := by decide +kernel
  have comes : pristine.settlesAll [.execute source, .reply (some "hi")] = true ∧
      (pristine.handleAll [.execute source, .reply (some "hi")]).global? "t" = some (.str "hihi") := by
    decide +kernel
  have start : pristine.Reachable := ⟨default, .live, .refl⟩
  have handled := (Sound.of_reachable start).handled comes.1
  cases read : readProgram source with
  | error errors =>
      rw [read] at isRead
      cases isRead
  | ok p =>
      obtain ⟨plays, -, ofText⟩ := program_runs_as_its_expansion start rfl p.expandsTo_expand source source
        [.reply (some "hi")]
      obtain ⟨long, played⟩ := ofText read
      obtain ⟨later', plays', alike⟩ := plays _ ((played _).mpr handled)
      exact ⟨source, p, _, later', read, long, p.expandsTo_expand, handled, plays', alike,
        (alike.global? "t").trans comes.2⟩

/-- The last clause of a loop is checked before its body, but its expansion behind it. What the display is told before
    the two run is in another order. -/
theorem expansion_lists_warnings_in_another_order :
    ∃ p, readProgram "for (; false; f()) \x7b g() \x7d" = .ok p ∧ p.ExpandsTo p.expand ∧
      (((pristine.launch "" (checked p)).notices 0).flatMap Notice.lines).map (·.text) =
        ["Running code...", "[W001] line 1:15: unknown function `f`", "[W001] line 1:22: unknown function `g`"] ∧
      (((pristine.launch "" (checked p.expand)).notices 0).flatMap Notice.lines).map (·.text) =
        ["Running code...", "[W001] line 1:22: unknown function `g`", "[W001] line 1:15: unknown function `f`"] := by
  let told (p : Program) : List String :=
    (((pristine.launch "" (checked p)).notices 0).flatMap Notice.lines).map (·.text)
  have both : (readProgram "for (; false; f()) \x7b g() \x7d").toOption.map (fun p => (told p, told p.expand)) = some
      (["Running code...", "[W001] line 1:15: unknown function `f`", "[W001] line 1:22: unknown function `g`"],
        ["Running code...", "[W001] line 1:22: unknown function `g`", "[W001] line 1:15: unknown function `f`"]) := by
    decide +kernel
  cases read : readProgram "for (; false; f()) \x7b g() \x7d" with
  | error errors =>
      rw [read] at both
      cases both
  | ok p =>
      rw [read] at both
      obtain ⟨one, two⟩ := Prod.mk.inj (Option.some.inj both)
      exact ⟨p, rfl, p.expandsTo_expand, one, two⟩

end Engine

end Sketch
