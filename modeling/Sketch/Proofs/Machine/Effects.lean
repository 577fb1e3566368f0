import Sketch.Proofs.Machine.Presses

/-!
What a running sketch lets the display know. Each library call hands over its effects before the next step, so what
was sent is what the calls had to say, one after the other.
-/

namespace Sketch

/-- A world in which nothing waits to be handed over. -/
def World.cleared (w : World) : World := { w with canvas := { w.canvas with outbox := .empty } }

theorem World.cleared_of_quiet {w : World} (quiet : w.outbox = .empty) : w.cleared = w := by
  rw [cleared, ← quiet]
  rfl

/-- What a call of a library function has to say to the display, even if it fails. -/
def Builtin.effects (f : Builtin) (values : List Value) (w : World) : List HostEvent :=
  match f.action? with
  | some action => ((action values).after w.cleared).outbox.events
  | none => []

/-- Only calls of library functions have effects. -/
def Turn.effects (w : World) : Turn → List HostEvent
  | .uses f values => f.effects values w
  | .moves | .assigns .. | .calls .. | .returns => []

namespace Machine

def effects (script : Script) (m : Machine) : List HostEvent := (m.turn script).effects m.world

/-- Nothing is left to hand over, and some events were sent after those of another machine. -/
structure Sends (m : Machine) (events : List HostEvent) (m' : Machine) : Prop where
  quiet : m'.world.outbox = .empty
  sent : m'.sent.toList = m.sent.toList ++ events

@[simp] theorem assign_sent (m : Machine) (name : String) (v : Value) : (m.assign name v).sent = m.sent := by
  rw [assign]
  split
  · split <;> rfl
  · rfl

section Steps

variable {script : Script} {m m' : Machine}

theorem Sends.same (quiet : m.world.outbox = .empty) (world : m'.world = m.world) (sent : m'.sent = m.sent) :
    m.Sends [] m' := ⟨by rw [world, quiet], by rw [sent, List.append_nil]⟩

theorem Sends.trans {m'' : Machine} {first second : List HostEvent} (one : m.Sends first m')
    (other : m'.Sends second m'') : m.Sends (first ++ second) m'' :=
  ⟨other.quiet, by rw [other.sent, one.sent, List.append_assoc]⟩

theorem Stays.outside {s : Step} (stays : m.Stays s) : s.machine.world = m.world ∧ s.machine.sent = m.sent := by
  cases stays <;> exact ⟨rfl, rfl⟩

/-- What is done is handed over at once. -/
theorem flush_sends (world : World) : m.Sends world.outbox.events { m with world }.flush :=
  ⟨rfl, by simp [flush, Canvas.takeOutbox, World.outbox]⟩

/-- An action hands over its effects at once. -/
theorem perform_sends {α γ : Type} {view : World → γ} {action : Action α} {k : α → Machine → Step} (line : Nat)
    (tidy : Tidy view action) (stays : ∀ a (m' : Machine), m'.Stays (k a m')) (quiet : m.world.outbox = .empty) :
    m.Sends (action.after m.world).outbox.events (m.perform line action k).machine := by
  rw [perform, Action.after]
  cases ran : action.run m.world with
  | ok a world =>
    have sends := flush_sends (m := m) world
    obtain ⟨kept, sent⟩ := (stays a { m with world }.flush).outside
    exact ⟨kept ▸ sends.quiet, sent ▸ sends.sent⟩
  | error abort world =>
    cases abort with
    | cause c =>
      dsimp only
      rw [fail_eq]
      exact ⟨rfl, (flush_sends world).sent⟩
    | crash =>
      -- A crash hands over nothing, but it leaves nothing to hand over either.
      obtain ⟨rfl, -⟩ := tidy.failed ran
      exact ⟨quiet, by simp [quiet, Outbox.events, Outbox.empty, Step.machine]⟩

/-- A step sends the effects of its turn and leaves nothing behind. -/
theorem Takes.sends {control : Control} {used : List Cont} {t : Turn} {op : Option MapOp} {s : Step}
    (takes : m.Takes script control used t op s) (quiet : m.world.outbox = .empty) :
    m.Sends (t.effects m.world) s.machine := by
  cases takes with
  | moves | returns => exact .same quiet rfl rfl
  | fails | refuses =>
    rw [fail_eq]
    exact .same quiet rfl rfl
  | assigns name v => exact .same quiet (assign_world m name v) (assign_sent m name v)
  | calls =>
    rw [callUser]
    split
    · rw [fail_eq]
      exact .same quiet rfl rfl
    · exact .same quiet rfl rfl
  | works _ line goal tidy =>
    have sends := perform_sends line tidy (fun a _ => .next (goal a)) quiet
    rwa [World.outbox, tidy.after, ← World.outbox, quiet] at sends
  | uses values _ line known =>
    rw [Turn.effects, Builtin.effects, known, World.cleared_of_quiet quiet]
    exact perform_sends line (Builtin.action_failsTidy values known) (fun _ _ => .next _) quiet
  | pauses p values _ _ line =>
    have tidy : Tidy World.outbox (p.pause values) := p.pause_tidy values
    have sends := perform_sends line tidy (fun pause _ => .paused pause) quiet
    rwa [tidy.after, quiet] at sends

/-- A step hands over its effects, however it ends. -/
theorem step_sends (script : Script) {m : Machine} (quiet : m.world.outbox = .empty) :
    m.Sends (m.effects script) (m.step script).machine := by
  rcases step_takes script m with finishes | ⟨used, rest, -, takes⟩
  · rw [finishes.step, effects, finishes.turn]
    exact .same quiet rfl rfl
  · obtain ⟨world, sent⟩ := begun_outside m
    obtain ⟨silent, sends⟩ := takes.sends (show m.begun.world.outbox = .empty from world ▸ quiet)
    dsimp only at sends
    rw [world, sent] at sends
    exact ⟨silent, sends⟩

/-- A run hands over the effects of its steps, one after the other. -/
theorem run_sends (script : Script) (fuel : Nat) {m : Machine} (quiet : m.world.outbox = .empty) :
    m.Sends ((m.visits script fuel).flatMap (effects script)) (m.run script fuel).machine := by
  induction fuel generalizing m with
  | zero => exact .same quiet rfl rfl
  | succ fuel ih =>
    have sends := step_sends script quiet
    rw [run, visits]
    cases stepped : m.step script with
    | next m' =>
      rw [stepped] at sends
      exact sends.trans (ih sends.quiet)
    | paused | finished | failed | crashed =>
      rw [stepped] at sends
      simpa using sends

end Steps

end Machine

end Sketch
