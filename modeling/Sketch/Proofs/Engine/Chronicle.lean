import Sketch.Proofs.Engine.History
import Sketch.Proofs.Engine.Lives
import Sketch.Proofs.Machine.Effects

/-!
The chronicle of an order: every step that the sketch takes, with its pauses and answers. Main statement: what the
display receives on account of an order is what its chronicle recounts.
-/

namespace Sketch

/-- What is told of an order. -/
inductive Deed where
  /-- It is given, and a canvas is painted for it. -/
  | ordered (config : Config)
  /-- The sketch takes a step. -/
  | step (script : Script) (m : Machine)
  | pauses (p : Pause)
  | answered (reply : Option String)
  /-- What was drawn is shown, at the end of the opening or of a frame. -/
  | presents
  /-- A frame begins. -/
  | frame

def Deed.events : Deed → List HostEvent
  | .ordered config =>
    [.resize config.canvasWidth config.canvasHeight, .draw (.clear config.canvasWidth config.canvasHeight .white)]
  | .step script m => m.effects script
  | .pauses p => p.events.toList
  | .answered reply => [.message (echo reply)]
  | .presents => [.present]
  | .frame => []

/-- What is told of a halt. -/
def Step.deeds : Step → List Deed
  | .paused p _ => [.pauses p]
  | .finished _ | .failed .. => [.presents]
  | .next _ | .crashed _ => []

def Machine.deeds (script : Script) (fuel : Nat) (m : Machine) : List Deed :=
  (m.visits script fuel).map (.step script)

/-- What is told when a run goes on. -/
def Run.deeds (r : Run) : List Deed :=
  match r.phase with
  | .waiting _ (.reply (some reply)) => if r.cancelled then [] else [.answered reply]
  | .running _ =>
    r.machine.deeds r.script Machine.patience ++ (r.machine.run r.script Machine.patience).deeds
  | .resting .. => [.frame]
  | .waiting .. | .scheduled _ | .crashed | .ended => []

/-- A halt is no step. -/
theorem Step.not_mem_deeds (halt : Step) (script : Script) (m : Machine) : .step script m ∉ halt.deeds := by
  cases halt <;> simp [deeds]

/-- Only a run that is at work takes steps. -/
theorem Run.running_of_deeds (r : Run) {script : Script} {m : Machine} (mem : .step script m ∈ r.deeds) :
    ∃ stage, r.phase = .running stage := by
  rw [deeds] at mem
  split at mem
  case h_1 => split at mem <;> simp at mem
  case h_2 stage running => exact ⟨stage, running⟩
  all_goals simp at mem

/-- A step that is told of fails. -/
def FailsIn (told : List Deed) (f : Failure) : Prop :=
  ∃ script m m', .step script m ∈ told ∧ m.step script = .failed f m'

theorem FailsIn.mono {told more : List Deed} {f : Failure} (fails : FailsIn told f) (all : told ⊆ more) :
    FailsIn more f := by
  obtain ⟨script, m, m', mem, stepped⟩ := fails
  exact ⟨script, m, m', all mem, stepped⟩

/-- A failure that comes out is that of a step, and reported for its own line if it has one. -/
def Output.Accords (told : List Deed) : Output → Prop
  | .notice _ (.failed f line) => (f.line ≠ 0 → line = some f.line) ∧ FailsIn told f
  | .completed _ (.failed f) => FailsIn told f
  | _ => True

theorem Output.Accords.mono {told more : List Deed} {o : Output} (accords : o.Accords told) (all : told ⊆ more) :
    o.Accords more := by
  rw [Accords.eq_def] at accords ⊢
  split at accords
  · exact ⟨accords.1, accords.2.mono all⟩
  · exact accords.mono all
  · trivial

namespace Engine

/-- What is told of an order when a move is made. -/
def deeds (order : Nat) (e : Engine) : Move → List Deed
  | .execute _ => if order = e.runs.length then [.ordered e.config] else []
  | .poll k => if order = k then (e.run? k).elim [] Run.deeds else []
  | .stop | .device _ | .answer .. | .clock _ => []

/-- What is told of an order while moves are made one after the other. -/
def chronicle (order : Nat) : Engine → List Move → List Deed
  | _, [] => []
  | e, m :: moves => e.deeds order m ++ chronicle order (e.moveOr m) moves

/-- What a display received on account of an order. -/
def receivedOf (order : Nat) (log : List Output) : List HostEvent :=
  log.filterMap fun
    | .host k event => if k = order then some event else none
    | _ => none

def received (e : Engine) (order : Nat) : List HostEvent := receivedOf order e.log

end Engine

/-! ### Machines -/

namespace Machine

/-- A machine and what was told on the way to it. The canvas may be changed meanwhile. -/
inductive Course (script : Script) : List Deed → Machine → Prop where
  | start (config : Config) {canvas : Canvas} (quiet : canvas.outbox = .empty) :
      Course script [.ordered config] (.start script canvas)
  | next {told : List Deed} {m m' : Machine} (course : Course script told m) (stepped : m.step script = .next m') :
      Course script (told ++ [.step script m]) m'
  | paused {told : List Deed} {m m' : Machine} {p : Pause} (course : Course script told m)
      (stepped : m.step script = .paused p m') : Course script (told ++ [.step script m, .pauses p]) m'
  | finished {told : List Deed} {m m' : Machine} (course : Course script told m)
      (stepped : m.step script = .finished m') : Course script (told ++ [.step script m, .presents]) m'
  | resume {told : List Deed} {m : Machine} (course : Course script told m) (v : Value) :
      Course script told (m.resume v)
  | answered {told : List Deed} {m : Machine} (course : Course script told m) (reply : Option String) :
      Course script (told ++ [.answered reply]) (m.resume (replyValue reply))
  | frame {told : List Deed} {m : Machine} (course : Course script told m) (idle : m.frames = []) (name : String) :
      Course script (told ++ [.frame]) (m.call name)
  | outside {told : List Deed} {m : Machine} (course : Course script told m) {world : World} (sent : Array HostEvent)
      (same : world.outbox = m.world.outbox) : Course script told { m with world, sent }

namespace Course

variable {script : Script} {told : List Deed} {m : Machine}

/-- Nothing waits to be handed over. -/
theorem quiet (course : Course script told m) : m.world.outbox = .empty := by
  induction course with
  | start config quiet => exact quiet
  | next _ stepped ih | paused _ stepped ih
  | finished _ stepped ih =>
    have sends := step_sends script ih
    rw [stepped] at sends
    exact sends.quiet
  | resume _ _ ih | answered _ _ ih | frame _ _ _ ih =>
    exact ih
  | outside _ _ same ih => exact same.trans ih

/-- The states from which a stretch of work takes its steps. -/
theorem visits (course : Course script told m) {fuel : Nat} {earlier later : List Machine} {moment : Machine}
    (visited : m.visits script fuel = earlier ++ moment :: later) :
    Course script (told ++ earlier.map (.step script)) moment := by
  induction fuel generalizing told m earlier with
  | zero => simp [Machine.visits] at visited
  | succ fuel ih =>
    rcases Machine.visits_cases script fuel m visited with ⟨rfl, rfl⟩ | ⟨m', before, stepped, rfl, rest⟩
    · simpa using course
    · simpa using ih (course.next stepped) rest

/-- A stretch of work, unless it fails. -/
theorem run (course : Course script told m) (fuel : Nat) :
    match m.run script fuel with
    | .next m' | .paused _ m' | .finished m' =>
      Course script (told ++ (m.deeds script fuel ++ (m.run script fuel).deeds)) m'
    | .failed .. | .crashed _ => True := by
  induction fuel generalizing told m with
  | zero => simpa [Machine.run, Machine.deeds, Machine.visits, Step.deeds] using course
  | succ fuel ih =>
    rw [Machine.run, Machine.deeds, Machine.visits]
    cases stepped : m.step script with
    | next m' => simpa [Machine.deeds] using ih (course.next stepped)
    | paused p m' => simpa [Step.deeds] using course.paused stepped
    | finished m' => simpa [Step.deeds] using course.finished stepped
    | failed | crashed => trivial

end Course

/-- A run that fails does so in one of its steps. -/
theorem run_fails {script : Script} {fuel : Nat} {m m' : Machine} {f : Failure}
    (failed : m.run script fuel = .failed f m') : FailsIn (m.deeds script fuel) f := by
  induction fuel generalizing m with
  | zero => cases failed
  | succ fuel ih =>
    rw [run] at failed
    rw [deeds, visits]
    cases stepped : m.step script with
    | next m'' =>
      rw [stepped] at failed
      exact (ih failed).mono (List.subset_cons_self _ _)
    | failed f' m'' =>
      rw [stepped] at failed
      cases failed
      exact ⟨script, m, m', List.mem_cons_self, stepped⟩
    | paused | finished | crashed =>
      rw [stepped] at failed
      cases failed

end Machine

/-! ### Engines -/

/-- Whether a run does nothing any more. -/
def Phase.isOver : Phase → Bool
  | .crashed | .ended => true
  | _ => false

namespace Engine

section Received

variable (e : Engine) (order : Nat)

theorem receivedOf_append (log more : List Output) :
    receivedOf order (log ++ more) = receivedOf order log ++ receivedOf order more := List.filterMap_append

theorem receivedOf_map_host (events : List HostEvent) : receivedOf order (events.map (.host order)) = events := by
  simp [receivedOf]

/-- Outputs on account of another order are not received on account of this one. -/
theorem receivedOf_of_other {k : Nat} {more : List Output} (own : ∀ o ∈ more, o.order = k) (other : order ≠ k) :
    receivedOf order more = [] := by
  rw [receivedOf, List.filterMap_eq_nil_iff]
  intro o member
  have account := own o member
  cases o with
  | host k' event => exact if_neg fun same => other (same.symm.trans account)
  | notice | completed => rfl

@[simp] theorem received_hand (events : Array HostEvent) :
    (e.hand order events).received order = e.received order ++ events.toList := by
  rw [received, log_hand, receivedOf_append, receivedOf_map_host]
  rfl

@[simp] theorem received_notice (k : Nat) (n : Notice) : (e.put (.notice k n)).received order = e.received order := by
  rw [received, log_put, receivedOf_append]
  exact List.append_nil _

@[simp] theorem received_completed (k : Nat) (outcome : Outcome) :
    (e.put (.completed k outcome)).received order = e.received order := by
  rw [received, log_put, receivedOf_append]
  exact List.append_nil _

@[simp] theorem received_setRun (k : Nat) (r : Run) : (e.setRun k r).received order = e.received order := rfl

/-- What a change makes come out is received but for the notice and the outcome. -/
theorem receivedOf_outputs (c : Change) : receivedOf order (c.outputs order) = c.events := by
  rw [Change.outputs, receivedOf_append, receivedOf_map_host]
  cases c.notice <;> cases c.outcome <;> exact List.append_nil _

end Received

/-- Whatever comes out on account of an order accords with what is told. -/
def Reports (e : Engine) (order : Nat) (told : List Deed) (next : Engine) : Prop :=
  ∀ o ∈ next.log, o.order = order → o ∈ e.log ∨ o.Accords told

namespace Reports

variable {e next : Engine} {order : Nat} {told : List Deed}

theorem same (log : next.log = e.log) : Reports e order told next := fun _ mem _ => .inl (log ▸ mem)

theorem put (reports : Reports e order told next) {o : Output} (accords : o.Accords told) :
    Reports e order told (next.put o) := by
  intro o' mem own
  rw [log_put, List.mem_append, List.mem_singleton] at mem
  rcases mem with mem | rfl
  · exact reports o' mem own
  · exact .inr accords

theorem hand (reports : Reports e order told next) (k : Nat) (events : Array HostEvent) :
    Reports e order told (next.hand k events) := by
  intro o mem own
  rw [log_hand, List.mem_append, List.mem_map] at mem
  rcases mem with mem | ⟨event, -, rfl⟩
  · exact reports o mem own
  · exact .inr trivial

/-- What comes out on account of another order does not matter. -/
theorem of_other {k : Nat} {more : List Output} (log : next.log = e.log ++ more) (own : ∀ o ∈ more, o.order = k)
    (other : order ≠ k) : Reports e order told next := by
  intro o mem account
  rw [log, List.mem_append] at mem
  rcases mem with old | new
  · exact .inl old
  · exact absurd (account.symm.trans (own o new)) other

end Reports

/-- The run of an order goes on from `r`, and `more` is told of it. -/
structure Adds (e : Engine) (order : Nat) (r : Run) (told more : List Deed) (next : Engine) : Prop where
  run : ∃ r', next.runs = e.runs.set order (some r') ∧ r'.script = r.script ∧
    (r'.phase.isOver = false → r'.machine.Course r.script (told ++ more))
  received : next.received order = e.received order ++ more.flatMap Deed.events
  reports : Reports e order more next

/-- A change is what `more` tells of a run of a script. -/
structure IsTold (script : Script) (told more : List Deed) (c : Change) : Prop where
  course : c.phase.isOver = false → c.machine.Course script (told ++ more)
  events : c.events = more.flatMap Deed.events
  notice : ∀ order, ∀ n ∈ c.notice, (Output.notice order n).Accords more
  outcome : ∀ order, ∀ o ∈ c.outcome, (Output.completed order o).Accords more

section Adding

variable {e : Engine} {order : Nat} {r : Run} {told more : List Deed} {m : Machine}

theorem Adds.undergo {c : Change} (isTold : IsTold r.script told more c) :
    Adds e order r told more (e.undergo order r c) where
  run := ⟨_, rfl, rfl, isTold.course⟩
  received := by
    rw [Engine.received, log_undergo, receivedOf_append, receivedOf_outputs, isTold.events, Engine.received]
  reports := by
    intro o mem _
    rw [log_undergo, List.mem_append] at mem
    refine mem.imp id fun new => ?_
    simp only [Change.outputs, List.mem_append, List.mem_map, Option.mem_toList] at new
    obtain ⟨_, -, rfl⟩ | ⟨n, noticed, rfl⟩ | ⟨o, completed, rfl⟩ := new
    · trivial
    · exact isTold.notice order n noticed
    · exact isTold.outcome order o completed

/-- Without a notice and an outcome there is nothing to accord with. -/
theorem IsTold.silent {script : Script} {c : Change}
    (course : c.phase.isOver = false → c.machine.Course script (told ++ more))
    (events : c.events = more.flatMap Deed.events) (notice : c.notice = none) (outcome : c.outcome = none) :
    IsTold script told more c :=
  ⟨course, events, by simp [notice], by simp [outcome]⟩

/-- A stage is over, and what was drawn is shown. -/
theorem closing_isTold (alive : r.cancelled = false) (sent : m.sent.toList = more.flatMap Deed.events) (stage : Stage)
    {ending : Ending} (ended : ending ≠ .stopped)
    (course : ending = .well → m.Course r.script (told ++ (more ++ [.presents])))
    (fails : ∀ f, ending = .failed f → FailsIn (more ++ [.presents]) f) :
    IsTold r.script told (more ++ [.presents]) (e.closing r stage m ending) := by
  have closes {m : Machine} {phase : Phase} (done : phase.isOver = true) :
      phase.isOver = false → m.Course r.script (told ++ (more ++ [.presents])) := by
    intro goesOn
    rw [done] at goesOn
    cases goesOn
  have shown : m.sent.toList ++ [.present] = (more ++ [Deed.presents]).flatMap Deed.events := by
    rw [sent, List.flatMap_append]
    rfl
  have accords (f : Failure) (failed : ending = .failed f) :
      ∀ order, ∀ n ∈ some (f.notice r.source e.config), (Output.notice order n).Accords (more ++ [.presents]) := by
    rintro _ _ ⟨⟩
    exact ⟨fun line => if_neg line, fails f failed⟩
  cases stage with
  | opening =>
    rw [closing, opening.eq_def, if_neg (by simp [alive])]
    cases ending with
    | stopped => exact absurd rfl ended
    | failed f => exact ⟨closes rfl, shown, accords f rfl, by rintro _ _ ⟨⟩; exact fails f rfl⟩
    | well =>
      cases r.frameFunction with
      | some function =>
        exact ⟨fun _ => (course rfl).outside #[] rfl, shown, by rintro _ _ ⟨⟩; trivial, by rintro _ _ ⟨⟩; trivial⟩
      | none => exact ⟨closes rfl, shown, by rintro _ _ ⟨⟩; trivial, by rintro _ _ ⟨⟩; trivial⟩
  | frame ticker due =>
    cases ending with
    | stopped => exact absurd rfl ended
    | failed f =>
      rw [closing, ticking, if_neg (by simp [alive])]
      exact ⟨closes rfl, shown, accords f rfl, by rintro _ _ ⟨⟩⟩
    | well => exact .silent (fun _ => (course rfl).outside #[] rfl) shown rfl rfl

/-- A stretch of work is over. -/
theorem halting_isTold (alive : r.cancelled = false) (silent : r.machine.sent = #[])
    (course : r.machine.Course r.script told) (stage : Stage) (fuel : Nat) :
    IsTold r.script told (r.machine.deeds r.script fuel ++ (r.machine.run r.script fuel).deeds)
      (e.halting r stage (r.machine.run r.script fuel)) := by
  have ran := course.run fuel
  have sent : (r.machine.run r.script fuel).machine.sent.toList =
      (r.machine.deeds r.script fuel).flatMap Deed.events := by
    have sends := Machine.run_sends r.script fuel course.quiet
    simpa [silent, Machine.deeds, List.flatMap_map, Deed.events] using sends.sent
  cases halt : r.machine.run r.script fuel with
  | next m =>
    rw [halt] at ran sent
    exact .silent (fun _ => ran.outside #[] rfl) (by simpa [halting, left, Step.deeds, Step.machine] using sent) rfl rfl
  | paused p m =>
    rw [halt] at ran sent
    rw [halting, if_neg (by simp [alive])]
    exact .silent (fun _ => ran.outside #[] rfl) (by simpa [left, Step.deeds, Deed.events, Step.machine] using sent)
      rfl rfl
  | finished m =>
    rw [halt] at ran sent
    exact closing_isTold alive sent stage (by simp) (fun _ => ran) (by simp)
  | failed f m =>
    rw [halt] at sent
    apply closing_isTold alive sent stage (by simp) (by simp)
    intro f' same
    cases same
    exact (Machine.run_fails halt).mono (List.subset_append_left _ _)
  | crashed m =>
    rw [halt] at sent
    have handed : m.sent.toList ++ [] = (r.machine.deeds r.script fuel ++ []).flatMap Deed.events := by
      simpa [Step.machine] using sent
    cases stage with
    | opening => exact ⟨fun goesOn => (by cases goesOn), handed, by rintro _ _ ⟨⟩, by rintro _ _ ⟨⟩; trivial⟩
    | frame => exact .silent (fun goesOn => by cases goesOn) handed rfl rfl

/-- A run that is not cancelled goes on as it is told of. -/
theorem change_isTold {c : Change} (alive : r.cancelled = false) (kept : r.Kept) (changes : e.change? r = some c)
    (course : r.phase.isOver = false → r.machine.Course r.script told) : IsTold r.script told r.deeds c := by
  rw [Run.deeds.eq_def]
  cases changes_of_change? changes with
  | stopped _ gone => simp [alive] at gone
  | @resumed stage wait _ _ waits _ resumes =>
    have waiting := course (by rw [waits]; rfl)
    cases wait with
    | time =>
      cases resumes
      simp only [waits]
      exact .silent (fun _ => by simpa [moved] using waiting.resume .nil) rfl rfl rfl
    | reply answer =>
      cases answer with
      | none => cases resumes
      | some reply =>
        cases resumes
        simp only [waits, alive, Bool.false_eq_true, if_false]
        exact .silent (fun _ => waiting.answered reply) rfl rfl rfl
  | @halted stage works =>
    simp only [works]
    exact halting_isTold alive kept.quiet (course (by rw [works]; rfl)) stage _
  | scheduled waits =>
    simp only [waits]
    exact .silent (fun _ => by simpa [moved] using course (by rw [waits]; rfl)) rfl rfl rfl
  | @begins ticker due rests =>
    simp only [rests]
    have begins :
        (r.machine.beginFrame (e.devices.snapshot r.machine.world.canvas.frame).1).Course r.script told :=
      (course (by rw [rests]; rfl)).outside r.machine.sent rfl
    have idle := kept.level
    rw [Run.Level, rests] at idle
    exact .silent (fun _ => begins.frame idle ticker.function) rfl rfl rfl

/-- A run that goes on is told of. -/
theorem goOn_adds (sound : Sound e) (found : e.run? order = some r) {time : Nat} (wakes : r.wake? = some time)
    (course : r.phase.isOver = false → r.machine.Course r.script told) :
    Adds e order r told r.deeds (e.goOn order r) := by
  have kept := sound.kept found
  cases gone : r.cancelled with
  | true =>
    obtain ⟨halts, dropped⟩ := sound.dropped found gone
    have nothing : r.deeds = [] := by
      rw [Run.deeds.eq_def]
      split
      case h_1 => exact if_pos gone
      case h_2 running => simp [running, Phase.isRunning] at halts
      case h_3 resting => simp [resting, Phase.isLooping] at dropped
      all_goals rfl
    rw [goOn_of_cancelled gone kept halts dropped wakes, nothing]
    exact ⟨⟨_, rfl, rfl, fun goesOn => by cases goesOn⟩, by simp, (Reports.same rfl).put trivial⟩
  | false =>
    obtain ⟨c, changes, goes⟩ := goOn_of_wakes order wakes
    rw [goes]
    exact .undergo (change_isTold gone kept changes course)

end Adding

/-! ### Settings -/

/-- The settings of an engine stay. -/
theorem config_of_made {e next : Engine} {move : Move} (made : Made e move next) : next.config = e.config := by
  cases made with
  | execute source =>
    have cleared : e.clear.2.config = e.config := teardown_config e
    rw [execute_eq_launch]
    cases compile source with
    | error errors => exact cleared
    | ok compiled => exact cleared
  | stop =>
    rw [stop]
    split <;> exact teardown_config e
  | device | clock | answer => rfl
  | poll => exact goOn_config ..

/-- Nothing but steps is told of the moments of a stretch of work. -/
theorem split_steps {script script' : Script} {moments : List Machine} {tail more later : List Deed} {m : Machine}
    (none : ∀ script m, .step script m ∉ tail)
    (split : moments.map (.step script) ++ tail = more ++ .step script' m :: later) :
    script = script' ∧ ∃ before after, moments = before ++ m :: after ∧ more = before.map (.step script) := by
  induction moments generalizing more with
  | nil =>
    have mem : Deed.step script' m ∈ tail := by
      rw [List.map_nil, List.nil_append] at split
      simp [split]
    exact absurd mem (none script' m)
  | cons first moments ih =>
    cases more with
    | nil =>
      obtain ⟨same, -⟩ := List.cons.inj split
      cases same
      exact ⟨rfl, [], moments, rfl, rfl⟩
    | cons deed more =>
      obtain ⟨rfl, rest⟩ := List.cons.inj split
      obtain ⟨same, before, after, rfl, rfl⟩ := ih rest
      exact ⟨same, first :: before, after, rfl, rfl⟩

/-- What is told of an order is true of an engine with given settings. -/
structure Recounts (config : Config) (order : Nat) (told : List Deed) (e : Engine) : Prop where
  settings : e.config = config
  depth : ∀ {r}, e.run? order = some r → r.script.maxCallDepth = config.maxCallDepth
  fresh : e.runs.length ≤ order → told = []
  received : e.received order = told.flatMap Deed.events
  past : ∀ {earlier script m later}, told = earlier ++ .step script m :: later →
    ∃ r, e.run? order = some r ∧ r.script = script ∧ m.Course script earlier
  now : ∀ {r}, e.run? order = some r → r.phase.isOver = false → r.machine.Course r.script told
  reports : ∀ o ∈ e.log, o.order = order → o.Accords told

section Telling

variable {config : Config} {e next : Engine} {order : Nat} {told : List Deed}

/-- An order is left alone, or its run is torn down. -/
theorem Recounts.of_runs (recounts : Recounts config order told e) (settings : next.config = e.config)
    (length : e.runs.length ≤ next.runs.length)
    (received : next.received order = e.received order)
    (reports : Reports e order told next)
    (same : next.run? order = e.run? order ∨ next.run? order = (e.run? order).map Run.tearDown) :
    Recounts config order told next where
  settings := settings.trans recounts.settings
  depth {r} found := by
    rcases same with same | torn
    · exact recounts.depth (same ▸ found)
    · rw [torn] at found
      obtain ⟨before, was, rfl⟩ := Option.map_eq_some_iff.mp found
      exact (recounts.depth was :)
  fresh later := recounts.fresh (Nat.le_trans length later)
  received := received.trans recounts.received
  past {earlier script m later} split := by
    obtain ⟨r, found, named, course⟩ := recounts.past split
    rcases same with same | torn
    · exact ⟨r, same.trans found, named, course⟩
    · exact ⟨r.tearDown, by rw [torn, found]; rfl, named, course⟩
  now {r} found goesOn := by
    rcases same with same | torn
    · exact recounts.now (same ▸ found) goesOn
    · rw [torn] at found
      obtain ⟨before, was, rfl⟩ := Option.map_eq_some_iff.mp found
      apply recounts.now was
      rw [Run.tearDown] at goesOn
      dsimp only at goesOn
      split at goesOn
      · cases goesOn
      · exact goesOn
  reports o mem own := by
    rcases reports o mem own with old | accords
    · exact recounts.reports o old own
    · exact accords

variable {r : Run} {k : Nat} {source : String} {moves : List Move}

/-- What a run adds to its chronicle is recounted. -/
theorem Recounts.of_adds {more : List Deed} (recounts : Recounts config order told e)
    (settings : next.config = e.config) (found : e.run? order = some r) (adds : Adds e order r told more next)
    (past : ∀ {earlier script m later}, told ++ more = earlier ++ .step script m :: later →
      r.script = script ∧ m.Course script earlier) : Recounts config order (told ++ more) next := by
  obtain ⟨⟨r', runs, script, course⟩, received, reports⟩ := adds
  have inside := lt_of_run? found
  have present : next.run? order = some r' := by rw [run?_eq_of_set inside runs, if_pos rfl]
  constructor
  · exact settings.trans recounts.settings
  · intro r'' found'
    rw [present] at found'
    obtain rfl := Option.some.inj found'
    rw [script]
    exact recounts.depth found
  · intro later
    rw [runs, List.length_set] at later
    exact absurd inside (Nat.not_lt_of_le later)
  · rw [received, recounts.received, List.flatMap_append]
  · intro earlier script' m later split
    obtain ⟨named, before⟩ := past split
    exact ⟨r', present, script.trans named, before⟩
  · intro r'' found' goesOn
    rw [present] at found'
    obtain rfl := Option.some.inj found'
    rw [script]
    exact course goesOn
  · intro o mem own
    rcases reports o mem own with old | accords
    · exact (recounts.reports o old own).mono (List.subset_append_left told more)
    · exact accords.mono (List.subset_append_right told more)

/-- Every step that is told of is one that the sketch comes to. -/
theorem Recounts.past_deeds (recounts : Recounts config order told e) (found : e.run? order = some r)
    {earlier later : List Deed} {script : Script} {m : Machine}
    (split : told ++ r.deeds = earlier ++ .step script m :: later) : r.script = script ∧ m.Course script earlier := by
  have new {more : List Deed} (here : r.deeds = more ++ .step script m :: later) :
      r.script = script ∧ m.Course script (told ++ more) := by
    have mem : Deed.step script m ∈ r.deeds := by simp [here]
    obtain ⟨stage, running⟩ := r.running_of_deeds mem
    rw [Run.deeds, running] at here
    obtain ⟨rfl, before, after, visited, rfl⟩ := split_steps (Step.not_mem_deeds _) here
    exact ⟨rfl, (recounts.now found (by rw [running]; rfl)).visits visited⟩
  rcases List.append_eq_append_iff.mp split with ⟨more, rfl, here⟩ | ⟨rest, old, here⟩
  · exact new here
  · cases rest with
    | nil =>
      rw [List.append_nil] at old
      rw [← old, ← List.append_nil told]
      exact new here.symm
    | cons first rest =>
      obtain ⟨rfl, -⟩ := List.cons.inj here
      obtain ⟨r', found', named, course⟩ := recounts.past old
      obtain rfl := Option.some.inj (found.symm.trans found')
      exact ⟨named, course⟩

/-- What comes out on account of another order does not matter. -/
theorem received_of_other {more : List Output} (log : next.log = e.log ++ more)
    (own : ∀ o ∈ more, o.order = k) (other : order ≠ k) : next.received order = e.received order := by
  rw [received, log, receivedOf_append, receivedOf_of_other order own other, List.append_nil]
  rfl

/-- Nothing was received on account of an order that was not given yet. -/
theorem Sound.received_nil (sound : Sound e) : e.received e.runs.length = [] := by
  rw [received, receivedOf, List.filterMap_eq_nil_iff]
  intro o member
  have given := sound.logged o member
  cases o with
  | host k event => exact if_neg (Nat.ne_of_lt given)
  | notice | completed => rfl

/-- The canvas of a new order is painted at once. -/
theorem received_clear (e : Engine) : e.clear.2.received e.runs.length =
    e.received e.runs.length ++ (Deed.ordered e.config).events := by
  have base :
      (e.teardown.put (.notice e.runs.length .running)).received e.runs.length = e.received e.runs.length := by
    rw [received_notice, received, teardown_log, received]
  have painted : e.clear.2.received e.runs.length =
      (e.teardown.put (.notice e.runs.length .running)).received e.runs.length ++
        (Canvas.fresh e.teardown.config e.teardown.devices.discardClicks.mouse).takeOutbox.1 := received_hand ..
  rw [painted, base, teardown_config]
  rfl

/-- A new order is told of. -/
theorem Recounts.ordered (sound : Sound e) (settings : e.config = config)
    (same : (e.execute source).config = e.config) :
    Recounts config e.runs.length [.ordered e.config] (e.execute source) := by
  have received : (e.execute source).received e.runs.length = [Deed.ordered e.config].flatMap Deed.events := by
    have painted := received_clear e
    rw [sound.received_nil, List.nil_append] at painted
    rw [List.flatMap_singleton, ← painted, execute_eq_launch]
    cases compile source with
    | error errors => exact (received_completed _ _ _ _).trans (received_notice _ _ _ _)
    | ok compiled => exact received_notice _ _ _ _
  have length : e.runs.length < (e.execute source).runs.length := by
    obtain ⟨slot, runs⟩ := execute_runs e source
    simp [runs]
  have started {r : Run} (found : (e.execute source).run? e.runs.length = some r) :
      r.script.maxCallDepth = e.config.maxCallDepth ∧
        r.machine.Course r.script [.ordered e.config] := by
    obtain ⟨program, -, -, rfl⟩ := ordered_run found
    exact ⟨congrArg Config.maxCallDepth (teardown_config e), .start e.config rfl⟩
  constructor
  · exact same.trans settings
  · intro r found
    rw [(started found).1, settings]
  · exact fun later => absurd length (Nat.not_lt_of_le later)
  · exact received
  · intro earlier script m later split
    have mem : Deed.step script m ∈ [Deed.ordered e.config] := by simp [split]
    simp at mem
  · exact fun found _ => (started found).2
  · intro o mem own
    have begun : Reports e e.runs.length [.ordered e.config] e.clear.2 :=
      ((Reports.same (teardown_log e)).put (o := .notice e.runs.length .running) trivial).hand _ _
    have reports : Reports e e.runs.length [.ordered e.config] (e.execute source) := by
      rw [execute_eq_launch]
      cases compile source with
      | error errors => exact (begun.put (o := .notice e.runs.length (.rejected errors)) trivial).put trivial
      | ok compiled => exact begun.put trivial
    rcases reports o mem own with old | accords
    · exact absurd own (Nat.ne_of_lt (sound.logged o old))
    · exact accords

theorem teardown_run?_or (e : Engine) (k : Nat) :
    e.teardown.run? k = e.run? k ∨ e.teardown.run? k = (e.run? k).map Run.tearDown := by
  rw [teardown_run?]
  split
  · exact .inr rfl
  · exact .inl rfl

theorem Recounts.new (order : Nat) (config : Config) (answers : Answers) :
    Recounts config order [] (.new config answers) where
  settings := rfl
  depth found := by simp [run?, Engine.new] at found
  fresh _ := rfl
  received := rfl
  past split := by simp at split
  now found := by simp [run?, Engine.new] at found
  reports o mem := by simp [log, Engine.new] at mem

section Moves

variable (recounts : Recounts config order told e)

include recounts

theorem Recounts.execute (sound : Sound e) (settings : (e.execute source).config = e.config) :
    Recounts config order (told ++ e.deeds order (.execute source)) (e.execute source) := by
  rw [deeds]
  split
  case isTrue latest =>
    subst latest
    rw [recounts.fresh (Nat.le_refl _)]
    exact .ordered sound recounts.settings settings
  case isFalse other =>
    obtain ⟨more, log, own, -⟩ := execute_cases e source
    obtain ⟨slot, runs⟩ := execute_runs e source
    rw [List.append_nil]
    apply recounts.of_runs settings _ (received_of_other log own other) (.of_other log own other)
    · rw [execute_run?_of_ne e source other]
      exact teardown_run?_or e order
    · simp [runs]

theorem Recounts.stop (settings : e.stop.config = e.config) : Recounts config order told e.stop := by
  have kept : e.teardown.received order = e.received order := by
    rw [Engine.received, teardown_log, Engine.received]
  have received : e.stop.received order = e.received order := by
    rw [Engine.stop]
    split
    · exact kept
    · rw [received_notice, kept]
  have reports : Reports e order told e.stop := by
    rw [Engine.stop]
    split
    · exact .same (teardown_log e)
    · exact (Reports.same (teardown_log e)).put trivial
  apply recounts.of_runs settings _ received reports
  · rw [stop_run?]
    exact teardown_run?_or e order
  · rw [Engine.stop]
    split <;> simp [put]

/-- An answer is told of when the run goes on with it. -/
theorem Recounts.answer {stage : Stage} (reply : Option String) (found : e.run? k = some r)
    (asks : r.phase = .waiting stage (.reply none)) :
    Recounts config order told (e.setRun k { r with phase := .waiting stage (.reply (some reply)) }) := by
  have settings : (e.setRun k { r with phase := .waiting stage (.reply (some reply)) }).config = e.config := rfl
  by_cases same : order = k
  · subst same
    have waits := recounts.now found (by rw [asks]; rfl)
    have adds :
        Adds e order r told [] (e.setRun order { r with phase := .waiting stage (.reply (some reply)) }) :=
      ⟨⟨_, rfl, rfl, fun _ => by simpa using waits⟩, by simp, .same rfl⟩
    have answered := recounts.of_adds settings found adds fun split => by
      rw [List.append_nil] at split
      obtain ⟨r', found', named, course⟩ := recounts.past split
      obtain rfl := Option.some.inj (found.symm.trans found')
      exact ⟨named, course⟩
    simpa using answered
  · apply recounts.of_runs settings _ (received_setRun e order k _) (.same rfl)
    · left
      rw [run?_eq_of_set (lt_of_run? found) rfl, if_neg same]
    · simp [setRun]

theorem Recounts.goOn {time : Nat} (sound : Sound e) (found : e.run? k = some r) (wakes : r.wake? = some time) :
    Recounts config order (told ++ e.deeds order (.poll k)) (e.goOn k r) := by
  rw [deeds]
  split
  case isTrue same =>
    subst same
    rw [found]
    exact recounts.of_adds (goOn_config ..) found (goOn_adds sound found wakes (recounts.now found))
      (recounts.past_deeds found)
  case isFalse other =>
    -- Another run goes on and does not touch this one.
    obtain ⟨r', status, more, touches⟩ := goOn_touches wakes
    rw [List.append_nil]
    apply recounts.of_runs (goOn_config ..) _ (received_of_other touches.log touches.own other)
      (.of_other touches.log touches.own other)
    · left
      rw [run?_eq_of_set (lt_of_run? found) touches.runs, if_neg other]
    · simp [touches.runs]

theorem Recounts.move? {m : Move} (sound : Sound e) (made : e.move? m = some next) :
    Recounts config order (told ++ e.deeds order m) next := by
  have settings := config_of_made (made_of_move? made)
  cases made_of_move? made with
  | execute source => exact recounts.execute sound settings
  | stop =>
    rw [deeds, List.append_nil]
    exact recounts.stop settings
  | device | clock =>
    rw [deeds, List.append_nil]
    exact recounts.of_runs settings (Nat.le_refl _) rfl (.same rfl) (.inl rfl)
  | answer reply found asks =>
    rw [deeds, List.append_nil]
    exact recounts.answer reply found asks
  | poll found wakes => exact recounts.goOn sound found wakes

/-- What is told while moves are made. -/
theorem Recounts.play (sound : Sound e) (played : e.play? moves = some next) :
    Recounts config order (told ++ e.chronicle order moves) next := by
  induction moves generalizing e told with
  | nil =>
    cases played
    simpa [chronicle] using recounts
  | cons m moves ih =>
    rw [play?_cons, Option.bind_eq_some_iff] at played
    obtain ⟨e', made, played⟩ := played
    rw [chronicle, moveOr_eq_of_move? made, ← List.append_assoc]
    exact ih (recounts.move? sound made) (sound.move? made) played

end Moves

/-- The chronicle of an order recounts the truth. -/
theorem chronicle_recounts {config : Config} {answers : Answers}
    (played : (Engine.new config answers).play? moves = some e) (order : Nat) :
    Recounts config order ((Engine.new config answers).chronicle order moves) e := by
  simpa using (Recounts.new order config answers).play (Sound.new config answers) played

end Telling

/-- Effects arrive in order and at once. What a display receives on account of an order is what is told of it. Before
    every step, and after it however it ends, nothing waits to be handed over. In the middle of its work a sketch has
    sent just the effects of the steps that it has taken since it went on. -/
theorem effects_arrive_in_order {config : Config} {answers : Answers} {moves : List Move} {e : Engine}
    (played : (Engine.new config answers).play? moves = some e) (order : Nat) :
    let told := (Engine.new config answers).chronicle order moves
    e.received order = told.flatMap Deed.events ∧
    (∀ script m, .step script m ∈ told → m.world.outbox = .empty ∧ (m.step script).machine.world.outbox = .empty) ∧
    ∀ r, e.run? order = some r → r.phase.isOver = false → ∀ steps,
      (r.after steps).world.outbox = .empty ∧
      e.received order ++ (r.after steps).sent.toList =
        (told ++ r.machine.deeds r.script steps).flatMap Deed.events := by
  have recounts := chronicle_recounts played order
  refine ⟨recounts.received, ?_, ?_⟩
  · intro script m mem
    obtain ⟨earlier, later, split⟩ := List.append_of_mem mem
    obtain ⟨r, -, -, course⟩ := recounts.past split
    exact ⟨course.quiet, (Machine.step_sends script course.quiet).quiet⟩
  · intro r found goesOn steps
    have sends := Machine.run_sends r.script steps (recounts.now found goesOn).quiet
    have silent := ((Sound.of_reachable ⟨config, answers, reaches_play? played⟩).kept found).quiet
    refine ⟨sends.quiet, ?_⟩
    rw [List.flatMap_append, ← recounts.received, Run.after, sends.sent, silent]
    simp [Machine.deeds, List.flatMap_map, Deed.events]

/-- A call prints, sleeps and draws before it fails. -/
def unwound : List Move :=
  [.execute "function f(x) \x7b print(\"in\"); delay(0); circle(x, 2, 3); missing() \x7d print(\"out\"); f(1)",
    .poll 0, .poll 0, .poll 0]

/-- What the display is to receive. -/
def unwoundEvents : List HostEvent :=
  [.resize 400 300, .draw (.clear 400 300 .white), .message (.plain .info "out"), .message (.plain .info "in"),
    .present, .draw (.shape ⟨.ellipse (1, 2) (6, 6), .initial, .identity⟩), .present]

/-- What was printed and drawn before the failure has come, in the order of the calls. -/
theorem effects_before_failure :
    ∃ e, pristine.play? unwound = some e ∧ e.status = .idle ∧ e.received 0 = unwoundEvents := by
  have told : (pristine.play? unwound).map (fun e => (e.status, (pristine.chronicle 0 unwound).flatMap Deed.events)) =
      some (.idle, unwoundEvents) := by decide +kernel
  obtain ⟨e, played, told⟩ := Option.map_eq_some_iff.mp told
  obtain ⟨status, events⟩ := Prod.mk.inj told
  exact ⟨e, played, status, (effects_arrive_in_order played 0).1.trans events⟩

end Engine

end Sketch
