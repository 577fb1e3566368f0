import Sketch.Engine

/-!
Engines whose clocks differ by whole milliseconds, and whose orders are counted from different beginnings. Their
devices are held alike.
-/

namespace Sketch

/-! ### Devices that are held alike -/

namespace Devices

/-- The same is held, and the pointer is at the same place. Presses can differ. -/
structure HeldAlike (d d' : Devices) : Prop where
  mouse : d'.mouse = d.mouse
  held : ∀ b, b ∈ d'.held ↔ b ∈ d.held
  lastButton : d'.lastButton = d.lastButton
  keys : d'.keys = d.keys

/-- Devices that no frame tells apart. -/
structure Alike (d d' : Devices) : Prop extends HeldAlike d d' where
  clicks : d'.clicks = d.clicks
  keyClicks : d'.keyClicks = d.keyClicks
  clickedKey : d'.clickedKey = d.clickedKey

variable {d d' : Devices}

theorem HeldAlike.refl (d : Devices) : HeldAlike d d := ⟨rfl, fun _ => Iff.rfl, rfl, rfl⟩

theorem HeldAlike.of_discardClicks (same : d'.discardClicks = d.discardClicks) : HeldAlike d d' := by
  rw [Devices.discardClicks, Devices.discardClicks, Devices.mk.injEq] at same
  obtain ⟨mouse, held, lastButton, -, keys, -⟩ := same
  exact ⟨mouse, fun b => by rw [held], lastButton, keys⟩

theorem discardClicks_mouseDown (d : Devices) (b : MouseButton) :
    (d.mouseDown b).discardClicks = (d.discardClicks.mouseDown b).discardClicks := by
  have held : d.discardClicks.held = d.held := rfl
  unfold mouseDown
  rw [held]
  split <;> rfl

theorem HeldAlike.discardClicks (alike : HeldAlike d d') : Alike d.discardClicks d'.discardClicks :=
  ⟨⟨alike.mouse, alike.held, alike.lastButton, alike.keys⟩, rfl, rfl, rfl⟩

namespace Alike

theorem discardClicks (alike : Alike d d') : Alike d.discardClicks d'.discardClicks :=
  alike.toHeldAlike.discardClicks

theorem mouseDown (alike : Alike d d') (b : MouseButton) : Alike (d.mouseDown b) (d'.mouseDown b) := by
  unfold Devices.mouseDown
  simp only [alike.held b]
  split
  · exact ⟨⟨alike.mouse, alike.held, rfl, alike.keys⟩, alike.clicks, alike.keyClicks, alike.clickedKey⟩
  · refine ⟨⟨alike.mouse, ?_, rfl, alike.keys⟩, ?_, alike.keyClicks, alike.clickedKey⟩
    · intro c
      rw [List.mem_append, List.mem_append, alike.held c]
    · rw [alike.clicks]

theorem mouseUp (alike : Alike d d') (b : MouseButton) : Alike (d.mouseUp b) (d'.mouseUp b) := by
  have held (c : MouseButton) : c ∈ d'.held.filter (· ≠ b) ↔ c ∈ d.held.filter (· ≠ b) := by
    rw [List.mem_filter, List.mem_filter, alike.held c]
  have empty : d'.held.filter (· ≠ b) = [] ↔ d.held.filter (· ≠ b) = [] := by
    simp only [List.eq_nil_iff_forall_not_mem, held]
  refine ⟨⟨alike.mouse, held, ?_, alike.keys⟩, alike.clicks, alike.keyClicks, alike.clickedKey⟩
  simp only [Devices.mouseUp, empty, alike.lastButton]

theorem keyDown (alike : Alike d d') (key : String) : Alike (d.keyDown key) (d'.keyDown key) := by
  unfold Devices.keyDown
  simp only [alike.keys, alike.keyClicks]
  split
  · exact alike
  · exact ⟨⟨alike.mouse, alike.held, alike.lastButton, rfl⟩, alike.clicks, rfl, rfl⟩

theorem keyUp (alike : Alike d d') (key : String) : Alike (d.keyUp key) (d'.keyUp key) := by
  refine ⟨⟨alike.mouse, alike.held, alike.lastButton, ?_⟩, alike.clicks, alike.keyClicks, alike.clickedKey⟩
  rw [Devices.keyUp, alike.keys]
  rfl

theorem receive (alike : Alike d d') (event : DeviceEvent) : Alike (d.receive event) (d'.receive event) := by
  cases event with
  | mouseMoved x y =>
    exact ⟨⟨rfl, alike.held, alike.lastButton, alike.keys⟩, alike.clicks, alike.keyClicks, alike.clickedKey⟩
  | mouseDown b => exact alike.mouseDown b
  | mouseUp b => exact alike.mouseUp b
  | keyDown key => exact alike.keyDown key
  | keyUp key => exact alike.keyUp key

theorem snapshot (alike : Alike d d') (frame : FrameInput) :
    (d'.snapshot frame).1 = (d.snapshot frame).1 ∧ Alike (d.snapshot frame).2 (d'.snapshot frame).2 := by
  have pressed : d'.held.isEmpty = d.held.isEmpty := by
    rw [Bool.eq_iff_iff, List.isEmpty_iff, List.isEmpty_iff]
    simp only [List.eq_nil_iff_forall_not_mem, alike.held]
  refine ⟨?_, alike.discardClicks⟩
  simp only [Devices.snapshot, alike.mouse, pressed, alike.lastButton, alike.clicks, alike.keys,
    alike.keyClicks, alike.clickedKey]

end Alike

end Devices

/-! ### The clock runs on -/

/-- What is waited for, with the clock set on by `t`. -/
def Wait.later (t : Nat) : Wait → Wait
  | .time deadline => .time (t + deadline)
  | .reply answer => .reply answer

/-- A stage, with the clock set on by `t`. -/
def Stage.later (t : Nat) : Stage → Stage
  | .opening => .opening
  | .frame ticker next => .frame ticker (t + next)

/-- A phase, with the clock set on by `t`. -/
def Phase.later (t : Nat) : Phase → Phase
  | .waiting stage wait => .waiting (stage.later t) (wait.later t)
  | .running stage => .running (stage.later t)
  | .scheduled function => .scheduled function
  | .resting ticker due => .resting ticker (t + due)
  | .crashed => .crashed
  | .ended => .ended

@[simp] theorem Phase.isRunning_later (t : Nat) (phase : Phase) : (phase.later t).isRunning = phase.isRunning := by
  cases phase <;> rfl

@[simp] theorem Phase.isLooping_later (t : Nat) (phase : Phase) : (phase.later t).isLooping = phase.isLooping := by
  rcases phase with ⟨_ | _, _⟩ | ⟨_ | _⟩ | _ | _ | _ | _ <;> rfl

/-- A run, with the clock set on by `t`. -/
def Run.later (t : Nat) (r : Run) : Run := { r with phase := r.phase.later t }

theorem Run.tearDown_later (t : Nat) (r : Run) : (r.later t).tearDown = r.tearDown.later t := by
  simp only [Run.tearDown, Run.later, Phase.isLooping_later]
  cases r.phase.isLooping <;> rfl

theorem nextDue_add (t period due now : Nat) : nextDue period (t + due) (t + now) = t + nextDue period due now := by
  simp only [nextDue]
  split <;> split <;> omega

/-- Only a shift by whole milliseconds keeps the strokes of the clock. -/
theorem nextMillisecond_add {t : Nat} (whole : millisecond ∣ t) (time : Nat) :
    nextMillisecond (t + time) = t + nextMillisecond time := by
  obtain ⟨n, rfl⟩ := whole
  have positive : 0 < millisecond := by decide
  rw [nextMillisecond, Nat.add_assoc, Nat.mul_add_div positive, Nat.add_mul, Nat.mul_comm n]
  rfl

namespace Run

/-- Whether a run waits for a time. -/
def isTimed (r : Run) : Bool :=
  match r.phase with
  | .waiting _ (.time _) => !r.cancelled
  | .resting .. => true
  | _ => false

/-- A run that goes on by itself does so at once, unless it waits for a time. -/
theorem wake?_of_not_isTimed {r : Run} {time : Nat} (untimed : r.isTimed = false)
    (wakes : r.wake? = some time) : time = 0 := by
  rw [isTimed] at untimed
  rw [wake?] at wakes
  cases phase : r.phase with
  | waiting stage wait =>
    rw [phase] at untimed wakes
    cases cancelled : r.cancelled with
    | true =>
      rw [cancelled] at wakes
      exact (Option.some.inj wakes).symm
    | false =>
      rw [cancelled] at untimed wakes
      match wait with
      | .time _ => cases untimed
      | .reply (some _) => exact (Option.some.inj wakes).symm
      | .reply none => cases wakes
  | running | scheduled =>
    rw [phase] at wakes
    exact (Option.some.inj wakes).symm
  | resting =>
    rw [phase] at untimed
    cases untimed
  | crashed | ended =>
    rw [phase] at wakes
    cases wakes

theorem wake?_later {t : Nat} (whole : millisecond ∣ t) (r : Run) :
    (r.later t).wake? = r.wake?.map fun time => if r.isTimed then t + time else time := by
  rw [wake?, wake?, isTimed, later]
  cases r.phase with
  | waiting stage wait =>
    cases r.cancelled with
    | true => cases wait <;> rfl
    | false =>
      match wait with
      | .time _ => rfl
      | .reply (some _) => rfl
      | .reply none => rfl
  | resting ticker due => exact congrArg some (nextMillisecond_add whole due)
  | running | scheduled | crashed | ended => rfl

/-- Whether a run can go on by itself at a time. -/
def isDue (now : Nat) (r : Run) : Bool := r.wake?.any (· ≤ now)

theorem isDue_later {t : Nat} (whole : millisecond ∣ t) (now : Nat) (r : Run) :
    (r.later t).isDue (t + now) = r.isDue now := by
  rw [isDue, isDue, wake?_later whole, Option.any_map]
  cases timed : r.isTimed with
  | true =>
    congr 1
    funext time
    exact decide_eq_decide.mpr (Nat.add_le_add_iff_left)
  | false =>
    cases wakes : r.wake? with
    | none => rfl
    | some time =>
      rw [wake?_of_not_isTimed timed wakes]
      rfl

end Run

/-! ### Orders behind others -/

namespace Output

/-- An output on account of another order. -/
def withOrder (order : Nat) : Output → Output
  | .host _ e => .host order e
  | .notice _ n => .notice order n
  | .completed _ outcome => .completed order outcome

theorem events_withOrder (k : Nat) (o : Output) : (o.withOrder k).events = o.events := by
  cases o <;> rfl

/-- An output behind some other orders. -/
def behind (orders : Nat) (o : Output) : Output := o.withOrder (orders + o.order)

/-- An output as far as it is on account of later orders, counted behind the first ones. -/
def since? (orders : Nat) (o : Output) : Option Output :=
  if o.order < orders then none else some (o.withOrder (o.order - orders))

theorem order_behind (orders : Nat) (o : Output) : (o.behind orders).order = orders + o.order := by
  cases o <;> rfl

theorem not_order_behind_lt (orders : Nat) (o : Output) : ¬(o.behind orders).order < orders := by
  rw [order_behind]
  exact Nat.not_lt.mpr (Nat.le_add_right _ _)

theorem since?_behind (orders : Nat) (o : Output) : (o.behind orders).since? orders = some o := by
  rw [since?, if_neg (not_order_behind_lt orders o), order_behind, Nat.add_sub_cancel_left]
  cases o <;> rfl

end Output

namespace Engine

/-- The start of the millisecond that an engine is in. -/
def wholeTime (e : Engine) : Nat := e.now / millisecond * millisecond

theorem wholeTime_dvd (e : Engine) : millisecond ∣ e.wholeTime := Nat.dvd_mul_left _ _

theorem wholeTime_add (e : Engine) : e.wholeTime + e.now % millisecond = e.now := Nat.div_add_mod' _ _

theorem poll?_eq {e : Engine} {order : Nat} {r : Run} (found : e.run? order = some r) :
    e.poll? order =
      if r.isDue e.now = true ∧ (r.phase.isRunning ∨ !e.busy) then some (e.goOn order r) else none := by
  rw [poll?, found]
  cases wakes : r.wake? <;> simp [Run.isDue, wakes]

end Engine

end Sketch
