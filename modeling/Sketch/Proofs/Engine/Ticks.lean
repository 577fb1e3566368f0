import Sketch.Proofs.Engine.History
import Sketch.Proofs.Machine.Presses

/-!
The frames of a run. Its diary says what the devices were like when each frame began. Main statement: throughout a
frame a sketch sees the input with which it began and the hits on its buttons since then.
-/

namespace Sketch

/-- Whether a run came to its end, and without a failure. -/
def Step.isFinished : Step → Bool
  | .finished _ => true
  | _ => false

/-- A frame of a run. -/
structure Tick where
  /-- Mouse and keyboard when it began. -/
  devices : Devices
  /-- The states from which it took its steps so far. -/
  moments : List Machine
  /-- Whether it came to its end without a failure. -/
  done : Bool

namespace Tick

/-- The devices as they are seen throughout a frame, with the pointer of the frame before. -/
def frame (t : Tick) (last : Point) : FrameInput where
  mouse := t.devices.mouse
  lastMouse := last
  pressed := !t.devices.held.isEmpty
  button := t.devices.lastButton
  clicks := t.devices.clicks
  keysDown := t.devices.keys.map (·.key)
  key := t.devices.keys.getLast?.map (·.shown)
  keyClicks := t.devices.keyClicks
  clickedKey := t.devices.clickedKey

/-- What is read throughout the frame `k`. The size of the canvas is no input. -/
def reads (t : Tick) (k : Nat) (last : Point) : Reading → Option Value
  | .width | .height => none
  | .mouseX => some (.num t.devices.mouse.1)
  | .mouseY => some (.num t.devices.mouse.2)
  | .pmouseX => some (.num last.1)
  | .pmouseY => some (.num last.2)
  | .mousePressed => some (.bool (!t.devices.held.isEmpty))
  | .mouseClicked => some (.bool (!t.devices.clicks.isEmpty))
  | .mouseButton => some (.num (Float.ofNat ((t.devices.lastButton.map MouseButton.code).getD 0)))
  | .keyPressed => some (.bool (!t.devices.keys.isEmpty))
  | .key => some (.str ((t.devices.keys.getLast?.map (·.shown)).getD ""))
  | .keyClicked => some (.bool (!t.devices.keyClicks.isEmpty))
  | .clickedKey => some ((t.devices.clickedKey.map Value.str).getD .nil)
  | .frameCount => some (.num (Float.ofNat k))

/-- The input with which the frame `k` begins, if the buttons are `w`. -/
def start (t : Tick) (k : Nat) (last : Point) (w : Widgets) : Input := ⟨t.frame last, k, w⟩

/-- Throughout a frame the input is the one at its start, but for the buttons that it pressed. -/
structure Frozen (t : Tick) (script : Script) (k : Nat) (last : Point) (w : Widgets) : Prop where
  cleared : ∀ id, w.clicked id = false
  seen : ∀ {earlier m later}, t.moments = earlier ++ m :: later →
    m.world.input = (t.start k last w).press (Machine.presses script earlier)

/-- What a sketch sees at a moment `m` of a frame after some earlier ones. -/
structure Sees (t : Tick) (script : Script) (k : Nat) (last : Point) (earlier : List Machine) (m : Machine) :
    Prop where
  frame : m.world.canvas.frame = t.frame last
  readings : ∀ (reading : Reading) (v : Value), t.reads k last reading = some v →
    reading.value m.world.canvas = v
  buttons : ∀ v, ∃ clicked,
    (SenseFn.buttonClicked.perform [v]).run m.world = .ok (.bool clicked) m.world ∧
      (clicked = true ↔ HitIn (Machine.presses script earlier) (m.world.heap.display v))

end Tick

/-- What is told of a run: where the pointer was at first, and its frames. -/
structure Diary where
  pointer : Point
  ticks : List Tick

namespace Diary

/-- The diary of a run that was not ordered yet. -/
def blank : Diary := ⟨(0.0, 0.0), []⟩

/-- Where the pointer was in the frame before `k`, or when the run was ordered. -/
def last (d : Diary) (k : Nat) : Point := (d.pointer :: d.ticks.map (·.devices.mouse)).getD k d.pointer

def begin (d : Diary) (devices : Devices) : Diary := { d with ticks := d.ticks ++ [⟨devices, [], false⟩] }

def extend (d : Diary) (moments : List Machine) (done : Bool) : Diary :=
  let grown (t : Tick) : Tick := { t with moments := t.moments ++ moments, done }
  { d with ticks := d.ticks.dropLast ++ (d.ticks.getLast?.map grown).toList }

def goOn (d : Diary) (devices : Devices) (r : Run) : Diary :=
  match r.phase with
  | .resting .. => d.begin devices
  | .running (.frame ..) =>
    d.extend (r.machine.visits r.script Machine.patience)
      (r.machine.run r.script Machine.patience).isFinished
  | _ => d

/-- What is told of an order when a move is made. -/
def move (d : Diary) (order : Nat) (e : Engine) : Move → Diary
  | .execute _ => if order = e.runs.length then ⟨e.devices.mouse, []⟩ else d
  | .poll k => if order = k then (e.run? k).elim d (d.goOn e.devices) else d
  | .stop | .device _ | .answer .. | .clock _ => d

/-- What is told of an order while moves are made one after the other. -/
def play (order : Nat) : Diary → Engine → List Move → Diary
  | d, _, [] => d
  | d, e, m :: moves => play order (d.move order e m) (e.moveOr m) moves

end Diary

namespace Phase

def isTicking : Phase → Bool
  | .waiting (.frame ..) _ | .running (.frame ..) => true
  | _ => false

/-- Whether frames may follow but none is under way. -/
def isBetween : Phase → Bool
  | .waiting .opening _ | .running .opening | .scheduled _ | .resting .. => true
  | _ => false

variable (stage : Stage) (wait : Wait)

@[simp] theorem isTicking_waiting : (waiting stage wait).isTicking = (running stage).isTicking := by
  cases stage <;> rfl

@[simp] theorem isBetween_waiting : (waiting stage wait).isBetween = (running stage).isBetween := by
  cases stage <;> rfl

end Phase

/-- The frame `t` is under way. It began with the buttons `w`. -/
structure Diary.Underway (d : Diary) (script : Script) (world : World) (past : List Tick) (t : Tick)
    (w : Widgets) : Prop where
  ticks : d.ticks = past ++ [t]
  done : ∀ u ∈ past, u.done = true
  frozen : t.Frozen script past.length (d.last past.length) w
  input : world.input =
    (t.start past.length (d.last past.length) w).press (Machine.presses script t.moments)

/-- A diary tells the truth about a run. -/
structure Diary.Fits (d : Diary) (r : Run) : Prop where
  frozen : ∀ {k : Nat} {t : Tick}, d.ticks[k]? = some t → ∃ w, t.Frozen r.script k (d.last k) w
  count : r.machine.world.canvas.frameCount = d.ticks.countP (·.done)
  between : r.phase.isBetween → (∀ t ∈ d.ticks, t.done = true) ∧
    r.machine.world.canvas.frame.lastMouse = d.last d.ticks.length
  ticking : r.phase.isTicking → ∃ past t w, d.Underway r.script r.machine.world past t w ∧ t.done = false

namespace Tick

variable {t : Tick} {script : Script} {k : Nat} {last : Point} {w : Widgets} {m : Machine}

/-- A frame goes on from where it stands. -/
theorem Frozen.extend (frozen : t.Frozen script k last w)
    (here : m.world.input = (t.start k last w).press (Machine.presses script t.moments)) (fuel : Nat)
    (done : Bool) :
    Frozen { t with moments := t.moments ++ m.visits script fuel, done } script k last w where
  cleared := frozen.cleared
  seen := by
    intro earlier moment later whole
    have new {more : List Machine} (visited : m.visits script fuel = more ++ moment :: later) :
        moment.world.input = (t.start k last w).press (Machine.presses script (t.moments ++ more)) := by
      rw [Machine.visits_input script fuel m visited, here, Machine.presses_append, Input.press_append]
    -- The moment is a new one, or the split falls among the old ones.
    rcases List.append_eq_append_iff.mp whole with ⟨more, rfl, visited⟩ | ⟨rest, old, visited⟩
    · exact new visited
    · cases rest with
      | nil =>
        rw [List.append_nil] at old
        rw [← old, ← List.append_nil t.moments]
        exact new visited.symm
      | cons first rest =>
        obtain ⟨rfl, -⟩ := List.cons.inj visited
        exact frozen.seen old

/-- What a sketch sees at each moment of a frame. -/
theorem Frozen.sees (frozen : t.Frozen script k last w) {earlier later : List Machine}
    (whole : t.moments = earlier ++ m :: later) : t.Sees script k last earlier m := by
  have input := frozen.seen whole
  have frame : m.world.canvas.frame = t.frame last := congrArg Input.frame input
  have count : m.world.canvas.frameCount = k := congrArg Input.frameCount input
  have widgets : m.world.canvas.widgets = (Machine.presses script earlier).foldl Widgets.press w :=
    congrArg Input.widgets input
  constructor
  case frame => exact frame
  case readings =>
    intro reading v reads
    rw [Reading.value.eq_def, frame, count]
    cases reading with
    | width | height => cases reads
    | keyPressed =>
      simpa [Tick.frame, Tick.reads] using reads
    | _ => exact Option.some.inj reads
  case buttons =>
    intro v
    refine ⟨m.world.canvas.widgets.clicked (m.world.heap.display v), rfl, ?_⟩
    rw [widgets]
    exact clicked_foldl_press frozen.cleared _ _

end Tick

namespace Diary

variable {d : Diary} {r r' : Run}

/-- A run goes on outside of frames. -/
theorem Fits.outside (fits : d.Fits r) (script : r'.script = r.script)
    (frame : r'.machine.world.canvas.frame = r.machine.world.canvas.frame)
    (count : r'.machine.world.canvas.frameCount = r.machine.world.canvas.frameCount)
    (between : r'.phase.isBetween → r.phase.isBetween) (apart : r'.phase.isTicking = false) : d.Fits r' where
  frozen := by
    rw [script]
    exact fits.frozen
  count := count.trans fits.count
  between := by
    intro here
    rw [frame]
    exact fits.between (between here)
  ticking := by
    rw [apart]
    intro here
    cases here

/-- A run goes on without a step. -/
theorem Fits.idle (fits : d.Fits r) (script : r'.script = r.script)
    (world : r'.machine.world = r.machine.world) (between : r'.phase.isBetween → r.phase.isBetween)
    (ticking : r'.phase.isTicking → r.phase.isTicking) : d.Fits r' where
  frozen := by
    rw [script]
    exact fits.frozen
  count := by
    rw [world]
    exact fits.count
  between := by
    rw [world]
    intro here
    exact fits.between (between here)
  ticking := by
    rw [world, script]
    intro here
    exact fits.ticking (ticking here)

/-- A run that is torn down stays where it stands. -/
theorem Fits.tearDown (fits : d.Fits r) : d.Fits r.tearDown := by
  rw [Run.tearDown]
  split
  · refine fits.outside rfl rfl rfl ?_ rfl
    intro here
    cases here
  · exact fits.idle rfl rfl id id

section Growth

variable {past : List Tick} {t : Tick}

variable {k : Nat} {script : Script}

theorem last_begin (devices : Devices) (early : k ≤ d.ticks.length) : (d.begin devices).last k = d.last k := by
  have inside : k < (d.pointer :: d.ticks.map (·.devices.mouse)).length := by simpa using Nat.lt_succ_of_le early
  rw [last, begin, List.map_append, ← List.cons_append, List.getD_eq_getElem?_getD,
    List.getElem?_append_left inside, last, List.getD_eq_getElem?_getD]

theorem extend_ticks (ticks : d.ticks = past ++ [t]) (moments : List Machine) (done : Bool) :
    (d.extend moments done).ticks = past ++ [{ t with moments := t.moments ++ moments, done }] := by
  simp [extend, ticks]

theorem last_extend (ticks : d.ticks = past ++ [t]) (moments : List Machine) (done : Bool) :
    (d.extend moments done).last = d.last := by
  funext k
  rw [last, extend_ticks ticks, last, ticks, List.map_append, List.map_append]
  rfl

theorem last_concat (ticks : d.ticks = past ++ [t]) : d.last (past.length + 1) = t.devices.mouse := by
  simp [last, ticks]

/-- The frames of a diary, one by one. -/
theorem frozen_concat {w : Widgets} (ticks : d.ticks = past ++ [t])
    (old : ∀ {k : Nat} {u : Tick}, past[k]? = some u → ∃ w, u.Frozen script k (d.last k) w)
    (new : t.Frozen script past.length (d.last past.length) w) {u : Tick}
    (found : d.ticks[k]? = some u) : ∃ w, u.Frozen script k (d.last k) w := by
  rw [ticks] at found
  rcases Nat.lt_trichotomy k past.length with before | rfl | behind
  · rw [List.getElem?_append_left before] at found
    exact old found
  · rw [List.getElem?_concat_length] at found
    obtain rfl := Option.some.inj found
    exact ⟨w, new⟩
  · rw [List.getElem?_eq_none (by simp; omega)] at found
    cases found

theorem countP_concat (done : ∀ u ∈ past, u.done = true) (t : Tick) :
    (past ++ [t]).countP (·.done) = past.length + if t.done then 1 else 0 := by
  rw [List.countP_append, List.countP_eq_length.mpr done, List.countP_singleton]

/-- The frame under way goes on. -/
theorem Underway.extend {m : Machine} {w : Widgets}
    (underway : d.Underway script m.world past t w) (fuel : Nat) (done : Bool) :
    (d.extend (m.visits script fuel) done).Underway script (m.run script fuel).world past
      { t with moments := t.moments ++ m.visits script fuel, done } w where
  ticks := extend_ticks underway.ticks _ _
  done := underway.done
  frozen := by
    rw [last_extend underway.ticks]
    exact underway.frozen.extend underway.input fuel done
  input := by
    rw [last_extend underway.ticks, Machine.run_input, underway.input, ← Input.press_append,
      ← Machine.presses_append]
    rfl

theorem Underway.count {world : World} {w : Widgets}
    (underway : d.Underway script world past t w) : world.canvas.frameCount = past.length :=
  congrArg Input.frameCount underway.input

end Growth

/-- All frames of a run, when the latest one went on. -/
theorem Fits.frozen_extend (fits : d.Fits r) (ticking : r.phase.isTicking) (fuel : Nat) (done : Bool) {k : Nat}
    {t : Tick} (found : (d.extend (r.machine.visits r.script fuel) done).ticks[k]? = some t) :
    ∃ w, t.Frozen r.script k ((d.extend (r.machine.visits r.script fuel) done).last k) w := by
  obtain ⟨past, u, w, underway, -⟩ := fits.ticking ticking
  have extended := underway.extend fuel done
  apply frozen_concat extended.ticks _ extended.frozen found
  intro k u old
  rw [last_extend underway.ticks]
  apply fits.frozen
  rw [underway.ticks, List.getElem?_append_left (List.getElem?_eq_some_iff.mp old).1]
  exact old

variable {fuel : Nat}

/-- A frame goes on and does not come to a good end. -/
theorem Fits.extend (fits : d.Fits r) (ticking : r.phase.isTicking) (script : r'.script = r.script)
    (world : r'.machine.world.input = (r.machine.run r.script fuel).world.input)
    (within : r'.phase.isBetween = false) : (d.extend (r.machine.visits r.script fuel) false).Fits r' := by
  obtain ⟨past, t, w, underway, undone⟩ := fits.ticking ticking
  have extended := underway.extend fuel false
  have count : r'.machine.world.canvas.frameCount = past.length :=
    (congrArg Input.frameCount world).trans extended.count
  constructor
  case frozen =>
    rw [script]
    exact fits.frozen_extend ticking fuel false
  case count =>
    rw [count, extended.ticks, countP_concat extended.done]
    rfl
  case between =>
    rw [within]
    intro here
    cases here
  case ticking =>
    intro _
    rw [script]
    exact ⟨past, _, w, { extended with input := world.trans extended.input }, rfl⟩

/-- A frame comes to a good end. -/
theorem Fits.finish (fits : d.Fits r) (ticking : r.phase.isTicking) {m : Machine}
    (finished : r.machine.run r.script fuel = .finished m) (mouse : Point) (ticker : Ticker) (due : Nat) :
    (d.extend (r.machine.visits r.script fuel) true).Fits
      { r with machine := { m.endFrame mouse with sent := #[] }, phase := .resting ticker due } := by
  obtain ⟨past, t, w, underway, -⟩ := fits.ticking ticking
  have extended := underway.extend fuel true
  rw [finished] at extended
  have count : m.world.canvas.frameCount = past.length := extended.count
  -- The end of a frame makes its pointer the one of the frame before.
  have mouse : m.world.canvas.frame.mouse = t.devices.mouse := congrArg (·.frame.mouse) extended.input
  constructor
  case frozen => exact fits.frozen_extend ticking fuel true
  case count =>
    rw [extended.ticks, countP_concat extended.done]
    exact congrArg (· + 1) count
  case between =>
    intro _
    rw [extended.ticks, List.forall_mem_append, List.length_append]
    exact ⟨⟨extended.done, by simp⟩, mouse.trans (last_concat extended.ticks).symm⟩
  case ticking =>
    intro here
    cases here

/-- A frame begins. -/
theorem Fits.begin (fits : d.Fits r) {ticker : Ticker} {due : Nat} (rests : r.phase = .resting ticker due)
    (devices : Devices) (due : Nat) : (d.begin devices).Fits
      { r with
        machine := (r.machine.beginFrame (devices.snapshot r.machine.world.canvas.frame).1).call ticker.function
        phase := .running (.frame ticker due) } := by
  obtain ⟨done, lastMouse⟩ := fits.between (by rw [rests]; rfl)
  have frozen : Tick.Frozen ⟨devices, [], false⟩ r.script d.ticks.length ((d.begin devices).last d.ticks.length)
      r.machine.world.canvas.widgets.clearClicks :=
    { cleared := Widgets.clicked_clearClicks _
      seen := by
        intro earlier m later none
        simp at none }
  have all : d.ticks.countP (·.done) = d.ticks.length := List.countP_eq_length.mpr done
  have input : (r.machine.beginFrame (devices.snapshot r.machine.world.canvas.frame).1).world.input =
      Tick.start ⟨devices, [], false⟩ d.ticks.length ((d.begin devices).last d.ticks.length)
        r.machine.world.canvas.widgets.clearClicks := by
    rw [last_begin devices (Nat.le_refl _), ← lastMouse, ← all, ← fits.count]
    rfl
  constructor
  case frozen =>
    intro k t found
    apply frozen_concat rfl _ frozen found
    intro k u old
    have inside := (List.getElem?_eq_some_iff.mp old).1
    rw [last_begin devices (Nat.le_of_lt inside)]
    exact fits.frozen old
  case count => exact fits.count.trans (by simp [Diary.begin])
  case between =>
    intro here
    cases here
  case ticking =>
    intro _
    exact ⟨d.ticks, _, _, ⟨rfl, done, frozen, input⟩, rfl⟩

end Diary

namespace Engine

variable {e : Engine} {order : Nat} {r : Run} {d : Diary}

variable {m : Machine} {stage : Stage} {time : Nat}

theorem opening_fits (fits : d.Fits r) (between : r.phase.isBetween)
    (frame : m.world.canvas.frame = r.machine.world.canvas.frame)
    (count : m.world.canvas.frameCount = r.machine.world.canvas.frameCount) (ending : Ending) :
    d.Fits (r.changed (e.opening r m ending)) := by
  have becomes {phase : Phase} (apart : phase.isTicking = false) :
      d.Fits { r with machine := { m with sent := #[] }, phase } :=
    fits.outside rfl frame count (fun _ => between) apart
  rw [opening.eq_def]
  split
  · exact becomes rfl
  · split <;> exact becomes rfl

/-- The opening goes on, or is over. -/
theorem halting_opening_fits (fits : d.Fits r) (between : r.phase.isBetween) {halt : Step}
    (frame : halt.world.canvas.frame = r.machine.world.canvas.frame)
    (count : halt.world.canvas.frameCount = r.machine.world.canvas.frameCount) :
    d.Fits (r.changed (e.halting r .opening halt)) := by
  have becomes {m : Machine} (world : m.world = halt.world) (phase : Phase) (apart : phase.isTicking = false) :
      d.Fits { r with machine := { m with sent := #[] }, phase } :=
    fits.outside rfl (world ▸ frame) (world ▸ count) (fun _ => between) apart
  cases halt with
  | next m => exact becomes rfl (.running .opening) rfl
  | paused p m =>
    rw [halting]
    split
    · rw [Step.world, ← m.abandon_world] at frame count
      exact opening_fits fits between frame count .stopped
    · exact becomes rfl (.waiting .opening _) rfl
  | finished m => exact opening_fits fits between frame count .well
  | failed f m => exact opening_fits fits between frame count (.failed f)
  | crashed m => exact becomes rfl .crashed rfl

/-- A frame goes on, or is over. -/
theorem halting_frame_fits (fits : d.Fits r) (ticks : r.phase.isTicking) (ticker : Ticker) (due fuel : Nat) :
    (d.extend (r.machine.visits r.script fuel) (r.machine.run r.script fuel).isFinished).Fits
      (r.changed (e.halting r (.frame ticker due) (r.machine.run r.script fuel))) := by
  have becomes {m : Machine} (world : m.world = (r.machine.run r.script fuel).world) (phase : Phase)
      (within : phase.isBetween = false) : (d.extend (r.machine.visits r.script fuel) false).Fits
        { r with machine := { m with sent := #[] }, phase } :=
    fits.extend ticks rfl (congrArg World.input world) within
  -- Only a run that finished makes the frame a finished one. Every other halt leaves it undone.
  cases halt : r.machine.run r.script fuel with
  | next m =>
    rw [halt] at becomes
    exact becomes rfl (.running (.frame ticker due)) rfl
  | paused p m =>
    rw [halt] at becomes
    rw [halting]
    split
    · exact becomes m.abandon_world .ended rfl
    · exact becomes rfl (.waiting (.frame ticker due) _) rfl
  | finished m => exact fits.finish ticks halt e.devices.mouse ticker due
  | failed f m =>
    rw [halt] at becomes
    rw [halting, closing, ticking]
    split <;> exact becomes rfl .ended rfl
  | crashed m =>
    rw [halt] at becomes
    exact becomes rfl .crashed rfl

/-- A run that goes on is told of. -/
theorem change_fits {c : Change} (fits : d.Fits r) (changes : e.change? r = some c) :
    (d.goOn e.devices r).Fits (r.changed c) := by
  rw [Diary.goOn.eq_def]
  cases changes_of_change? changes with
  | @stopped stage _ waits =>
    rw [waits]
    cases stage with
    | opening => exact opening_fits fits (by rw [waits]; rfl) (by simp) (by simp) .stopped
    | frame ticker due =>
      have world : (r.changed (e.closing r (.frame ticker due) r.machine.abandon .stopped)).machine.world =
          r.machine.world :=
        r.machine.abandon_world
      refine fits.outside rfl (by rw [world]) (by rw [world]) ?_ rfl
      intro here
      cases here
  | resumed waits =>
    simp only [waits]
    exact fits.idle rfl rfl (by simp [waits, Run.changed, moved]) (by simp [waits, Run.changed, moved])
  | @halted stage works =>
    simp only [works]
    cases stage with
    | opening =>
      have ran := Machine.run_input r.script Machine.patience r.machine
      exact halting_opening_fits fits (by rw [works]; rfl) (congrArg Input.frame ran) (congrArg Input.frameCount ran)
    | frame ticker due => exact halting_frame_fits fits (by rw [works]; rfl) ticker due _
  | scheduled waits =>
    simp only [waits]
    refine fits.outside rfl rfl rfl (fun _ => by rw [waits]; rfl) ?_
    rw [Run.changed, moved, firstFrame]
    split <;> rfl
  | begins rests =>
    simp only [rests]
    exact fits.begin rests e.devices _

/-- A diary of the run of an order, empty as long as there is none. -/
structure Kept (order : Nat) (d : Diary) (e : Engine) : Prop where
  fits : ∀ {r}, e.run? order = some r → d.Fits r
  empty : e.run? order = none → d.ticks = []

section Keeping

variable {next : Engine}

theorem Kept.of_same (kept : Kept order d e) (same : next.run? order = e.run? order) : Kept order d next where
  fits := by
    rw [same]
    exact kept.fits
  empty := by
    rw [same]
    exact kept.empty

theorem Kept.of_teardown (kept : Kept order d e) (same : next.run? order = e.teardown.run? order) :
    Kept order d next := by
  rw [teardown_run?] at same
  split at same
  case isTrue =>
    constructor
    · rw [same]
      intro torn found
      obtain ⟨r, was, rfl⟩ := Option.map_eq_some_iff.mp found
      exact (kept.fits was).tearDown
    · rw [same, Option.map_eq_none_iff]
      exact kept.empty
  case isFalse => exact kept.of_same same

theorem Kept.of_set {r r' : Run} {d' : Diary} (found : e.run? order = some r)
    (runs : next.runs = e.runs.set order (some r')) (fits : d'.Fits r') : Kept order d' next := by
  have now : next.run? order = some r' := by rw [run?_eq_of_set (lt_of_run? found) runs, if_pos rfl]
  constructor
  · rw [now]
    intro r'' same
    obtain rfl := Option.some.inj same
    exact fits
  · rw [now]
    intro none
    cases none

/-- The diary of a run begins when it is ordered. -/
theorem Kept.ordered (e : Engine) (source : String) : Kept e.runs.length ⟨e.devices.mouse, []⟩ (e.execute source) := by
  refine ⟨?_, fun _ => rfl⟩
  intro r found
  obtain ⟨program, -, -, rfl⟩ := ordered_run found
  have pointer : e.teardown.devices.mouse = e.devices.mouse := by rw [teardown_eq]
  constructor
  case frozen =>
    intro k t found
    cases found
  case count => rfl
  case between => exact fun _ => ⟨List.forall_mem_nil _, pointer⟩
  case ticking =>
    intro here
    cases here

/-- A diary is kept along every move. -/
theorem Kept.move? {m : Move} (kept : Kept order d e) (made : e.move? m = some next) :
    Kept order (d.move order e m) next := by
  cases made_of_move? made with
  | execute source free =>
    rw [Diary.move]
    split
    case isTrue latest =>
      subst latest
      exact .ordered e source
    case isFalse other => exact kept.of_teardown (execute_run?_of_ne e source other)
  | stop free => exact kept.of_teardown (stop_run? e order)
  | device | clock => exact kept.of_same rfl
  | @answer k r stage reply found asks =>
    by_cases same : order = k
    · subst same
      have answered : d.Fits { r with phase := .waiting stage (.reply (some reply)) } :=
        (kept.fits found).idle rfl rfl (by simp [asks]) (by simp [asks])
      exact .of_set found rfl answered
    · apply kept.of_same
      rw [run?_eq_of_set (lt_of_run? found) rfl, if_neg same]
  | @poll k r time found wakes =>
    rw [Diary.move]
    split
    case isTrue same =>
      subst same
      rw [found]
      obtain ⟨c, changes, goes⟩ := goOn_of_wakes order wakes
      exact .of_set found (congrArg Engine.runs goes) (change_fits (kept.fits found) changes)
    case isFalse other =>
      -- Another run goes on and does not touch this one.
      obtain ⟨r', status, more, touches⟩ := goOn_touches wakes
      apply kept.of_same
      rw [run?_eq_of_set (lt_of_run? found) touches.runs, if_neg other]

theorem Kept.new (order : Nat) (config : Config) (answers : Answers) :
    Kept order .blank (.new config answers) where
  fits := by
    intro r found
    simp [run?, Engine.new] at found
  empty := fun _ => rfl

/-- A diary that is kept while moves are made. -/
theorem Kept.play {moves : List Move} (kept : Kept order d e)
    (played : e.play? moves = some next) : Kept order (d.play order e moves) next := by
  induction moves generalizing e d with
  | nil =>
    cases played
    exact kept
  | cons m moves ih =>
    rw [play?_cons, Option.bind_eq_some_iff] at played
    obtain ⟨e', made, played⟩ := played
    rw [Diary.play, moveOr_eq_of_move? made]
    exact ih (kept.move? made) played

end Keeping

/-- Each frame of a run sees one input, whatever happens while it is paused. At each of its moments the
    devices and the readings are those of its start, the pointer before is that of the frame before or of the
    order, and a button counts as clicked if it was hit since the start and not cleared behind that. The frames
    of an engine are those of its latest run that are done. -/
theorem frames_are_frozen {config : Config} {answers : Answers} {moves : List Move} {e : Engine}
    (played : (Engine.new config answers).play? moves = some e) :
    let diary (order : Nat) := Diary.blank.play order (Engine.new config answers) moves
    (∀ order r, e.run? order = some r → ∀ (k : Nat) (t : Tick), (diary order).ticks[k]? = some t →
      ∀ earlier m later, t.moments = earlier ++ m :: later →
        t.Sees r.script k ((diary order).last k) earlier m) ∧
    e.frameCount = (e.current.map fun order => (diary order).ticks.countP (·.done)).getD 0 := by
  intro diary
  have kept (order : Nat) : Kept order (diary order) e :=
    (Kept.new order config answers).play played
  constructor
  · intro order r found k t ticks earlier m later whole
    obtain ⟨w, frozen⟩ := ((kept order).fits found).frozen ticks
    exact frozen.sees whole
  · rw [frameCount, currentRun?]
    cases e.current with
    | none => rfl
    | some order =>
        rw [Option.bind_some, Option.map_some, Option.getD_some]
        cases found : e.run? order with
        | none =>
            rw [(kept order).empty found]
            rfl
        | some r => exact ((kept order).fits found).count

/-- A button is pressed and its sketch sleeps in the middle of a frame. The pointer moves meanwhile. -/
def interrupted : List Move :=
  [.execute "function loop() \x7b button(0, 0, 50, 50, \"go\"); delay(0.005); x = buttonClicked(\"go\") \x7d",
    .poll 0, .poll 0, .device (.mouseMoved 10.0 20.0), .device (.mouseDown .left), .poll 0, .poll 0,
    .device (.mouseMoved 90.0 80.0), .clock (5 * millisecond), .poll 0, .poll 0, .clock (20 * millisecond),
    .poll 0, .poll 0]

/-- At the last moment of the first frame, long after the pause, the pointer is still where it was and the
    button still counts as clicked. -/
theorem click_outlasts_pause :
    ∃ e r t earlier m, pristine.play? interrupted = some e ∧ e.run? 0 = some r ∧
      (Diary.blank.play 0 pristine interrupted).ticks[0]? = some t ∧ t.moments = earlier ++ [m] ∧
      e.devices.mouse = (90.0, 80.0) ∧ Reading.mouseX.value m.world.canvas = .num 10.0 ∧
      (SenseFn.buttonClicked.perform [.str "go"]).run m.world = .ok (.bool true) m.world ∧ e.frameCount = 1 := by
  let diary := Diary.blank.play 0 pristine interrupted
  have course : ((pristine.play? interrupted).bind fun e => (e.run? 0).bind fun r => diary.ticks[0]?.map fun t =>
      ((e.current, e.devices.mouse, diary.ticks.countP (·.done)),
        (t.devices.mouse, t.moments.isEmpty, Machine.presses r.script t.moments.dropLast))) =
      some ((some 0, (90.0, 80.0), 1), ((10.0, 20.0), false, [.button "go" true])) := by decide +kernel
  obtain ⟨e, played, course⟩ := Option.bind_eq_some_iff.mp course
  obtain ⟨r, found, course⟩ := Option.bind_eq_some_iff.mp course
  obtain ⟨t, first, course⟩ := Option.map_eq_some_iff.mp course
  obtain ⟨ends, begins⟩ := Prod.mk.inj course
  have current : e.current = some 0 := congrArg (·.1) ends
  have pressed : Machine.presses r.script t.moments.dropLast = [.button "go" true] := congrArg (·.2.2) begins
  have pointer : t.devices.mouse = (10.0, 20.0) := congrArg (·.1) begins
  have visited : t.moments ≠ [] := by
    intro none
    simp [none] at begins
  have whole : t.moments = t.moments.dropLast ++ [t.moments.getLast visited] :=
    (List.dropLast_concat_getLast visited).symm
  obtain ⟨frozen, count⟩ := frames_are_frozen played
  have sees := frozen 0 r found 0 t first _ _ [] whole
  obtain ⟨clicked, asked, hit⟩ := sees.buttons (.str "go")
  have named (h : Heap) : h.display (.str "go") = "go" := by
    rw [Heap.display]
    cases h.room <;> rfl
  rw [named] at hit
  obtain rfl : clicked = true := hit.mpr ⟨[], [], pressed, List.not_mem_nil⟩
  have reads : t.reads 0 (diary.last 0) .mouseX = some (.num 10.0) := by rw [Tick.reads, pointer]
  refine ⟨e, r, t, _, _, played, found, first, whole, congrArg (·.2.1) ends, ?_, asked, ?_⟩
  · exact sees.readings .mouseX _ reads
  · rw [count, current]
    exact congrArg (·.2.2) ends

end Engine

end Sketch
