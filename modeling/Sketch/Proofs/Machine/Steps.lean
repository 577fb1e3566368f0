import Sketch.Proofs.Machine.Turns

/-!
What every step does to maps, active calls, globals and the stack, and how a step fails.
-/

namespace Sketch

namespace Machine

variable {script : Script} {m m' : Machine} {control : Control} {used : List Cont} {t : Turn} {op : Option MapOp}
  {s : Step}

/-- A turn that is taken finishes nothing. -/
theorem Takes.not_finished (takes : m.Takes script control used t op (.finished m')) : False := by
  have performs {α : Type} {line : Nat} {action : Action α} {k : α → Machine → Step}
      (stays : ∀ a (m' : Machine), m'.Stays (k a m')) : .finished m' ≠ m.perform line action k := by
    intro finished
    rw [perform] at finished
    split at finished
    case h_1 a world _ =>
      have stayed := stays a { m with world }.flush
      rw [← finished] at stayed
      cases stayed
    case h_2 | h_3 => cases finished
  generalize finished : Step.finished m' = s at takes
  cases takes with
  | moves | assigns | returns | fails | refuses => cases finished
  | calls =>
    rw [callUser] at finished
    split at finished <;> cases finished
  | works | uses => exact performs (fun _ _ => .next _) finished
  | pauses => exact performs (fun _ _ => .paused _) finished

/-- A sketch finishes when nothing is left to do. -/
theorem step_finishes (finished : m.step script = .finished m') : m.Finishes script ∧ m' = m := by
  rcases step_takes script m with finishes | ⟨used, rest, -, takes⟩
  · rw [finishes.step] at finished
    exact ⟨finishes, (Step.finished.inj finished).symm⟩
  · rw [finished] at takes
    exact takes.not_finished.elim

/-! ### The world -/

section Worlds

variable {γ : Type} {view : World → γ}

@[simp] theorem assign_world (m : Machine) (name : String) (v : Value) : (m.assign name v).world = m.world := by
  rw [assign]
  split
  · split <;> rfl
  · rfl

theorem begun_outside (m : Machine) : m.begun.world = m.world ∧ m.begun.sent = m.sent := by
  rw [begun]
  split
  · rw [moveTo]
    split <;> exact ⟨rfl, rfl⟩
  · exact ⟨rfl, rfl⟩

theorem fail_world (m : Machine) (line : Nat) (c : Cause) : (m.fail line c).world = m.world := by
  rw [fail_eq]
  rfl

theorem callUser_world (script : Script) (m : Machine) (f : FnDef) (args : List Value) (line : Nat) :
    (callUser script m f args line).world = m.world := by
  rw [callUser]
  split
  · exact fail_world m line _
  · rfl

/-- What is handed over was written on paper. -/
theorem perform_view [BesidePaper view] {α : Type} {line : Nat} {action : Action α} {k : α → Machine → Step}
    (stays : ∀ a (m' : Machine), m'.Stays (k a m')) :
    view (m.perform line action k).world = view (action.after m.world) := by
  rw [perform, Action.after]
  cases action.run m.world with
  | ok a world =>
    have handed : view { m with world }.flush.world = view world := BesidePaper.same world _ rfl
    dsimp only
    generalize ends : k a { m with world }.flush = s
    have stayed := stays a { m with world }.flush
    rw [ends] at stayed
    cases stayed <;> exact handed
  | error abort world =>
    cases abort with
    | cause c =>
      dsimp only
      rw [fail_world]
      exact BesidePaper.same world _ rfl
    | crash => rfl

theorem Takes.maps (takes : m.Takes script control used t op s) : s.world.maps = (m.world.after op).maps := by
  cases takes with
  | moves | returns => rfl
  | fails | refuses => exact congrArg World.maps (fail_world _ _ _)
  | assigns => exact congrArg World.maps (assign_world m _ _)
  | calls => exact congrArg World.maps (callUser_world script _ _ _ _)
  | works _ line goal _ maps => exact (perform_view fun _ _ => .next _).trans (maps m.world)
  | uses values _ line known => exact (perform_view fun _ _ => .next _).trans (action_maps values m.world known)
  | pauses p values =>
    have kept : Tidy World.maps (p.pause values) := p.pause_tidy values
    exact (perform_view fun _ _ => .paused _).trans (kept.after m.world)

/-- What a step does to maps, however it ends. -/
theorem step_maps (script : Script) (m : Machine) :
    (m.step script).world.maps = (m.world.after (m.mapOp? script)).maps := by
  rcases step_takes script m with finishes | ⟨used, rest, -, takes⟩
  · rw [finishes.step, finishes.mapOp]
    rfl
  · rw [← (begun_outside m).1]
    exact takes.maps

end Worlds

/-! ### Active calls, globals and the stack -/

/-- What a turn does does not depend on what is to be done. -/
theorem act_withConts (m : Machine) (conts : List Cont) (t : Turn) :
    ({ m with conts }.act t).frames = (m.act t).frames ∧ ({ m with conts }.act t).globals = (m.act t).globals := by
  cases t with
  | assigns name v =>
    rw [act, act, assign, assign]
    cases m.frames with
    | nil => exact ⟨rfl, rfl⟩
    | cons f rest =>
      dsimp only
      split <;> exact ⟨rfl, rfl⟩
  | moves | calls | returns | uses => exact ⟨rfl, rfl⟩

/-- What a step leaves, where it goes on. -/
theorem Takes.goes (takes : m.Takes script control used t op s) : s.Goes fun m' =>
    (m'.frames = (m.act t).frames ∧ m'.globals = (m.act t).globals) ∧
      ∃ new, m'.conts = new ++ m.conts ∧ Passes control used t m'.control new := by
  have value {control' : Control} {t : Turn} (stays : t.stays = true) (uses : control.Uses used)
      (value : control'.isValue = true) : Passes control used t control' [] :=
    .works stays (.values uses (List.forall_mem_nil _) value)
  cases takes with
  | moves control' new passes => exact ⟨⟨rfl, rfl⟩, new, rfl, passes⟩
  | assigns name v control' new works =>
    exact ⟨⟨rfl, rfl⟩, new, congrArg (new ++ ·) (assign_conts m name v), .works rfl works⟩
  | returns v passes => exact ⟨⟨rfl, rfl⟩, [], rfl, passes⟩
  | calls found args line _ passes =>
    rw [callUser]
    split
    · exact fail_goes m line _
    · exact ⟨⟨rfl, rfl⟩, _, rfl, passes⟩
  | fails _ line | refuses _ _ _ line => exact fail_goes m line _
  | works _ line goal _ _ works => exact perform_goes fun a _ => ⟨⟨rfl, rfl⟩, [], rfl, .works rfl (works a)⟩
  | uses values uses => exact perform_goes fun _ _ => ⟨⟨rfl, rfl⟩, [], rfl, value rfl uses rfl⟩
  | pauses p values uses still => exact perform_goes fun _ _ => ⟨⟨rfl, rfl⟩, [], rfl, value rfl uses still⟩

/-- A step changes active calls and globals by its turn only. -/
theorem step_acts (script : Script) (m : Machine) : (m.step script).Goes fun m' =>
    m'.frames = (m.begun.act (m.turn script)).frames ∧ m'.globals = (m.begun.act (m.turn script)).globals := by
  rcases step_takes script m with finishes | ⟨used, rest, -, takes⟩
  · rw [finishes.step]
    trivial
  · obtain ⟨frames, globals⟩ := act_withConts m.begun rest (m.turn script)
    rw [← frames, ← globals]
    exact takes.goes.mono fun _ goes => goes.1

/-- What a step does to control and continuations. -/
theorem step_passes (script : Script) (m : Machine) : (m.step script).Goes fun m' =>
    ∃ used new rest, m.conts = used ++ rest ∧ m'.conts = new ++ rest ∧
      Passes m.control used (m.turn script) m'.control new := by
  rcases step_takes script m with finishes | ⟨used, rest, conts, takes⟩
  · rw [finishes.step]
    trivial
  · refine takes.goes.mono fun m' goes => ?_
    obtain ⟨-, new, conts', passes⟩ := goes
    exact ⟨used, new, rest, conts, conts', passes⟩

@[simp] theorem begun_globals (m : Machine) : m.begun.globals = m.globals := by
  rw [begun]
  split
  · rw [moveTo]
    split <;> rfl
  · rfl

@[simp] theorem begun_length (m : Machine) : m.begun.frames.length = m.frames.length := by
  rw [begun]
  split
  · exact moveTo_length m _
  · rfl

theorem begun_tail (m : Machine) : m.begun.frames.tail = m.frames.tail := by
  rw [begun]
  split
  · exact moveTo_tail m _
  · rfl

@[simp] theorem begun_conts (m : Machine) : m.begun.conts = m.conts := by
  rw [begun]
  split
  · exact moveTo_conts m _
  · rfl

/-- No statement begins with a call. -/
theorem begun_of_calls {f : FnDef} {args : List Value} (calls : m.turn script = .calls f args) : m.begun = m := by
  rw [turn] at calls
  rw [begun]
  split at calls
  case h_2 s control =>
    rw [Stmt.turn.eq_def] at calls
    split at calls
    · split at calls <;> cases calls
    · cases calls
  all_goals simp only [*]

/-- A step that calls a function of the sketch is a call of it. -/
theorem step_of_calls {f : FnDef} {args : List Value} (calls : m.turn script = .calls f args) :
    ∃ conts line, m.Spends conts ∧ m.step script = callUser script { m with conts } f args line := by
  rcases step_takes script m with finishes | ⟨used, rest, conts, takes⟩
  · rw [finishes.turn] at calls
    cases calls
  · rw [calls, begun_of_calls calls] at takes
    generalize m.step script = s, m.mapOp? script = op at takes
    cases takes with
    | calls found args line ventures => exact ⟨rest, line, ⟨used, conts, ventures.own⟩, rfl⟩

/-- A turn that leaves the active calls may change the innermost one. -/
theorem frames_of_stays (m : Machine) {t : Turn} (stays : t.stays = true) :
    (m.begun.act t).frames.length = m.frames.length ∧ (m.begun.act t).frames.tail = m.frames.tail := by
  cases t with
  | moves | uses => exact ⟨begun_length m, begun_tail m⟩
  | assigns name v =>
    exact ⟨(assign_length _ name v).trans (begun_length m), (assign_tail _ name v).trans (begun_tail m)⟩
  | calls | returns => cases stays

/-- How the stack shifts follows from how a step passes. -/
theorem shifts_of_passes {control' : Control} {new rest : List Cont}
    (passes : Passes control used (m.turn script) control' new) (was : m.conts = used ++ rest)
    (becomes : m'.conts = new ++ rest) (frames : m'.frames = (m.begun.act (m.turn script)).frames) : Shifts m m' := by
  generalize turn : m.turn script = t at passes frames
  have same (stays : t.stays = true) (kept : new = used) : Shifts m m' := by
    obtain ⟨length, tail⟩ := frames_of_stays m stays
    rw [← frames] at length tail
    exact .within (.of (List.nil_append _).symm (becomes.trans (kept ▸ was.symm)) (List.forall_mem_nil _)
      (List.forall_mem_nil _) length tail)
  cases passes with
  | works stays works =>
    obtain ⟨length, tail⟩ := frames_of_stays m stays
    rw [← frames] at length tail
    exact .within (.of was becomes works.inner.1 works.inner.2 length tail)
  | drops | counts | outside => exact same rfl rfl
  | calls uses =>
    rw [begun_of_calls turn] at frames
    exact .calls (.of was becomes uses.ventures.own frames)
  | @enters name f =>
    rw [begun_of_calls turn] at frames
    exact .calls (.of was becomes (List.forall_mem_singleton.mpr rfl) frames)
  | returns =>
    rw [List.nil_append] at becomes
    rw [← becomes] at was
    exact .ends ⟨was, frames.trans (begun_tail m)⟩

/-- A step changes the stack within the innermost call, begins a call or ends one. -/
theorem step_goes (script : Script) (m : Machine) : (m.step script).Goes (Shifts m) := by
  refine ((step_passes script m).and (step_acts script m)).mono fun m' both => ?_
  obtain ⟨⟨used, new, rest, was, becomes, passes⟩, frames, -⟩ := both
  exact shifts_of_passes passes was becomes frames

/-! ### Failures -/

section Failures

variable {f : Failure}

/-- A failure uses something of the innermost call at most, and comes out of all calls. -/
def Raises (m : Machine) (f : Failure) (m' : Machine) : Prop :=
  ∃ (n : Machine) (line : Nat), n.frames = m.frames ∧ n.globals = m.globals ∧ m.Spends n.conts ∧
    n.fail line f.cause = .failed f m'

theorem Raises.of_fail {n : Machine} {line : Nat} {c : Cause} (failed : n.fail line c = .failed f m')
    (frames : n.frames = m.frames) (globals : n.globals = m.globals) (conts : n.conts = m.conts) :
    m.Raises f m' ∧ f.cause = c := by
  have cause : f.cause = c := by
    rw [fail_eq] at failed
    cases failed
    rfl
  exact ⟨⟨n, line, frames, globals, conts ▸ .none m, cause ▸ failed⟩, cause⟩

/-- A failed action has nothing to do with calls. -/
theorem perform_fails (script : Script) {α γ : Type} {view : World → γ} {line : Nat} {action : Action α}
    {k : α → Machine → Step} (failed : m.perform line action k = .failed f m') (tidy : Tidy view action)
    (stays : ∀ a (m' : Machine), m'.Stays (k a m')) : m.Raises f m' ∧ script.Permits f.cause := by
  rw [perform] at failed
  split at failed
  case h_1 a world _ =>
    have stayed := stays a { m with world }.flush
    rw [failed] at stayed
    cases stayed
  case h_2 refused =>
    obtain ⟨raises, cause⟩ := Raises.of_fail (m := m) failed rfl rfl rfl
    exact ⟨raises, cause ▸ .of_ofValues (tidy.failed refused).2⟩
  case h_3 => cases failed

/-- What is known of a failure. It is one of too many calls just if one more is asked for. -/
structure Breaks (script : Script) (m : Machine) (control : Control) (used : List Cont) (t : Turn) (f : Failure)
    (m' : Machine) : Prop where
  ventures : control.Ventures used
  raises : m.Raises f m'
  overflow : f.cause.kind = .overflow ↔ ∃ g args, t = .calls g args ∧ script.maxCallDepth ≤ m.frames.length
  lacking : ∀ name ∈ f.cause.lacks?, script.has name = false ∨ '.' ∈ name.toList

/-- What a failed step tells of its failure. -/
theorem Takes.failed (takes : m.Takes script control used t op (.failed f m')) :
    m.Breaks script control used t f m' := by
  have other (ventures : control.Ventures used) (ordinary : m.Raises f m' ∧ script.Permits f.cause)
      (calls : ∀ g args, t ≠ .calls g args) : m.Breaks script control used t f m' :=
    ⟨ventures, ordinary.1, ⟨fun kind => absurd kind ordinary.2.kind,
      fun ⟨g, args, called, _⟩ => absurd called (calls g args)⟩, ordinary.2.lacking⟩
  generalize failed : Step.failed f m' = s at takes
  cases takes with
  | moves | assigns | returns => cases failed
  | fails ventures line permits =>
    obtain ⟨raises, cause⟩ := Raises.of_fail (m := m) failed.symm rfl rfl rfl
    exact other ventures ⟨raises, cause ▸ permits⟩ (by simp)
  | refuses _ _ uses line permits =>
    obtain ⟨raises, cause⟩ := Raises.of_fail (m := m) failed.symm rfl rfl rfl
    exact other uses.ventures ⟨raises, cause ▸ permits⟩ (by simp)
  | @calls name g found args line ventures =>
    rw [callUser] at failed
    split at failed
    case isTrue full =>
      obtain ⟨raises, cause⟩ := Raises.of_fail (m := m) failed.symm rfl rfl rfl
      exact ⟨ventures, raises, cause ▸ ⟨fun _ => ⟨g, args, rfl, full⟩, fun _ => rfl⟩, by simp [cause, Cause.lacks?]⟩
    case isFalse => cases failed
  | works ventures line goal tidy =>
    exact other ventures (perform_fails script failed.symm tidy fun _ _ => .next _) (by simp)
  | uses values uses line known =>
    have tidy := Builtin.action_failsTidy values known
    exact other uses.ventures (perform_fails script failed.symm tidy fun _ _ => .next _) (by simp)
  | pauses p values uses =>
    have tidy : FailsTidy (p.pause values) := p.pause_tidy values
    exact other uses.ventures (perform_fails script failed.symm tidy fun _ _ => .paused _) (by simp)

/-- A step fails where the innermost call is, at the statement that begins, if one does. -/
theorem step_fails (failed : m.step script = .failed f m') : ∃ used rest, m.conts = used ++ rest ∧
    m.begun.Breaks script m.control used (m.turn script) f m' := by
  rcases step_takes script m with finishes | ⟨used, rest, conts, takes⟩
  · rw [finishes.step] at failed
    cases failed
  · rw [failed] at takes
    obtain ⟨ventures, ⟨n, line, frames, globals, ⟨used', was, own⟩, raised⟩, overflow, lacking⟩ := takes.failed
    have spends : m.begun.Spends n.conts := by
      refine ⟨used ++ used', ?_, List.forall_mem_append.mpr ⟨ventures.own, own⟩⟩
      rw [begun_conts, conts, List.append_assoc, ← was]
    exact ⟨used, rest, conts, ventures, ⟨n, line, frames, globals, spends, raised⟩, overflow, lacking⟩

end Failures

end Machine

end Sketch
