import Mathlib.Data.List.Basic
import Sketch.Input.Frame

/-!
What a frame sees of the devices, told from the log of what was done with them. Something is held if the latest report
on it is that it went down. Logs are read backwards: the latest use stands first.
-/

namespace Sketch

/-- What can be done with devices. -/
inductive DeviceUse where
  | event (e : DeviceEvent)
  | discard
  | snapshot (f : FrameInput)
deriving DecidableEq, Repr, Inhabited

def Devices.use (d : Devices) : DeviceUse → Devices
  | .event e => d.receive e
  | .discard => d.discardClicks
  | .snapshot f => (d.snapshot f).2

namespace DeviceUse

/-- The button that a use reports on. -/
def button? : DeviceUse → Option MouseButton
  | .event (.mouseDown b) | .event (.mouseUp b) => some b
  | _ => none

/-- The key that a use reports on, in its normal form. A key without a name is ignored. -/
def key? : DeviceUse → Option String
  | .event (.keyDown key) | .event (.keyUp key) =>
    if normalizeKey key = "" then none else some (normalizeKey key)
  | _ => none

/-- Whether what a use reports on went down. -/
def isDown : DeviceUse → Bool
  | .event (.mouseDown _) | .event (.keyDown _) => true
  | _ => false

/-- The key that goes down with a use, as it was reported. -/
def spelling? : DeviceUse → Option String
  | .event (.keyDown key) => some key
  | _ => none

/-- The button that goes down with a use. -/
def downButton? : DeviceUse → Option MouseButton
  | .event (.mouseDown b) => some b
  | _ => none

/-- Where a use reports the pointer. -/
def pointer? : DeviceUse → Option Point
  | .event (.mouseMoved x y) => some (x, y)
  | _ => none

/-- Whether the presses so far are gone after a use. -/
def drains : DeviceUse → Bool
  | .discard | .snapshot _ => true
  | .event _ => false

end DeviceUse

namespace EventLog

section Subjects

variable {α : Type} [DecidableEq α] (subject? : DeviceUse → Option α)

/-- Whether the latest report on something is that it went down. -/
def holds (a : α) (past : List DeviceUse) : Bool :=
  (past.find? (subject? · = some a)).any DeviceUse.isDown

/-- Whether something that was not held goes down. -/
def isPress (u : DeviceUse) (past : List DeviceUse) : Bool :=
  (subject? u).any fun a => u.isDown && !holds subject? a past

/-- All presses, the latest first. -/
def presses : List DeviceUse → List DeviceUse
  | [] => []
  | u :: past => if isPress subject? u past then u :: presses past else presses past

/-- The presses that are not gone yet, the latest first. -/
def recentPresses : List DeviceUse → List DeviceUse
  | [] => []
  | u :: past =>
    if u.drains then []
    else if isPress subject? u past then u :: recentPresses past
    else recentPresses past

end Subjects

/-- Where the pointer was reported last. -/
def pointer (past : List DeviceUse) : Point := (past.findSome? DeviceUse.pointer?).getD (0.0, 0.0)

/-- The latest press of a held key whose normal form satisfies `p`, as reported. -/
def heldSpelling? (p : String → Bool) (past : List DeviceUse) : Option String :=
  ((presses DeviceUse.key? past).find? fun u =>
    u.key?.any fun k => holds DeviceUse.key? k past && p k).bind DeviceUse.spelling?

/-! ### One more use -/

section Steps

variable {α : Type} [DecidableEq α] {subject? : DeviceUse → Option α} {u : DeviceUse}
variable {past : List DeviceUse} {a : α}

theorem holds_cons :
    holds subject? a (u :: past) = if subject? u = some a then u.isDown else holds subject? a past := by
  rw [holds, List.find?_cons]
  by_cases about : subject? u = some a
  · rw [decide_eq_true about, if_pos about]
    rfl
  · rw [decide_eq_false about, if_neg about]
    rfl

theorem holds_of_other (other : subject? u ≠ some a) : holds subject? a (u :: past) = holds subject? a past := by
  rw [holds_cons, if_neg other]

theorem isPress_of_none (silent : subject? u = none) : isPress subject? u past = false := by
  rw [isPress, silent]
  rfl

theorem isPress_of_some (about : subject? u = some a) :
    isPress subject? u past = (u.isDown && !holds subject? a past) := by
  rw [isPress, about]
  rfl

theorem recentPresses_of_event {e : DeviceEvent} :
    recentPresses subject? (.event e :: past) =
      if isPress subject? (.event e) past then .event e :: recentPresses subject? past
      else recentPresses subject? past := by
  rw [recentPresses, if_neg (by simp [DeviceUse.drains])]

theorem recentPresses_of_drains (drains : u.drains = true) : recentPresses subject? (u :: past) = [] := by
  rw [recentPresses, if_pos drains]

end Steps

/-! ### What the devices keep of a log -/

/-- The buttons are as a log tells. -/
structure TellsButtons (past : List DeviceUse) (d : Devices) : Prop where
  held : ∀ b, b ∈ d.held ↔ holds DeviceUse.button? b past
  last : d.lastButton = if d.held = [] then none else past.findSome? DeviceUse.downButton?
  clicks : d.clicks = ((recentPresses DeviceUse.button? past).filterMap DeviceUse.button?).reverse

/-- The keys are as a log tells: the one that stands last was pressed last. -/
structure TellsKeys (past : List DeviceUse) (d : Devices) : Prop where
  held : ∀ k, (∃ h ∈ d.keys, h.key = k) ↔ holds DeviceUse.key? k past
  once : (d.keys.map (·.key)).Nodup
  latest : ∀ p, (d.keys.reverse.find? (p ·.key)).map (·.shown) = heldSpelling? p past
  clicks : ∀ k, k ∈ d.keyClicks ↔ k ∈ (recentPresses DeviceUse.key? past).filterMap DeviceUse.key?
  clicksOnce : d.keyClicks.Nodup
  clicked : d.clickedKey = (recentPresses DeviceUse.key? past).head?.bind DeviceUse.spelling?

/-- The devices are as a log tells. -/
structure Tells (past : List DeviceUse) (d : Devices) : Prop where
  mouse : d.mouse = pointer past
  buttons : TellsButtons past d
  keys : TellsKeys past d

variable {past : List DeviceUse} {d : Devices}

section Buttons

/-- A use that is no report on a button leaves the buttons alone. -/
theorem TellsButtons.of_other {u : DeviceUse} {d' : Devices} (tells : TellsButtons past d)
    (silent : u.button? = none) (held : d'.held = d.held) (last : d'.lastButton = d.lastButton)
    (clicks : d'.clicks = if u.drains then [] else d.clicks) : TellsButtons (u :: past) d' where
  held b := by
    rw [held, tells.held, holds_of_other (by simp [silent])]
  last := by
    have noDown : u.downButton? = none := by
      cases u with
      | event e => cases e <;> first | rfl | cases silent
      | discard => rfl
      | snapshot f => rfl
    rw [last, held, tells.last, List.findSome?_cons, noDown]
  clicks := by
    rw [clicks]
    cases drains : u.drains with
    | true => rw [recentPresses_of_drains drains, if_pos rfl]; rfl
    | false =>
      rw [if_neg Bool.false_ne_true, tells.clicks, recentPresses, if_neg (by simp [drains]),
        isPress_of_none silent, if_neg Bool.false_ne_true]

/-- A button that goes down keeps what the log tells. -/
theorem TellsButtons.mouseDown (tells : TellsButtons past d) (b : MouseButton) :
    TellsButtons (.event (.mouseDown b) :: past) (d.mouseDown b) := by
  have about : (DeviceUse.event (.mouseDown b)).button? = some b := rfl
  have heldNow (c : MouseButton) :
      holds DeviceUse.button? c (.event (.mouseDown b) :: past) =
        (decide (c = b) || holds DeviceUse.button? c past) := by
    rw [holds_cons, about]
    by_cases same : c = b
    · simp [same, DeviceUse.isDown]
    · simp [same, Ne.symm same]
  unfold Devices.mouseDown
  split
  · rename_i already
    have repeated : isPress DeviceUse.button? (.event (.mouseDown b)) past = false := by
      rw [isPress_of_some about, (tells.held b).mp already]
      rfl
    refine ⟨fun c => ?_, ?_, ?_⟩
    · rw [heldNow, Bool.or_eq_true, ← tells.held, decide_eq_true_eq]
      constructor
      · exact .inr
      · rintro (rfl | old)
        · exact already
        · exact old
    · rw [if_neg (List.ne_nil_of_mem already)]
      rfl
    · rw [recentPresses_of_event, repeated, if_neg Bool.false_ne_true, tells.clicks]
  · rename_i new
    have free : holds DeviceUse.button? b past = false := by
      rw [← Bool.not_eq_true, ← tells.held]
      exact new
    have pressed : isPress DeviceUse.button? (.event (.mouseDown b)) past = true := by
      rw [isPress_of_some about, free]
      rfl
    refine ⟨fun c => ?_, ?_, ?_⟩
    · rw [heldNow, Bool.or_eq_true, ← tells.held, decide_eq_true_eq, List.mem_append,
        List.mem_singleton, or_comm]
    · rw [if_neg (by simp)]
      rfl
    · rw [recentPresses_of_event, pressed, if_pos rfl, tells.clicks, List.filterMap_cons_some about,
        List.reverse_cons]

/-- A button that goes up keeps what the log tells. -/
theorem TellsButtons.mouseUp (tells : TellsButtons past d) (b : MouseButton) :
    TellsButtons (.event (.mouseUp b) :: past) (d.mouseUp b) := by
  have about : (DeviceUse.event (.mouseUp b)).button? = some b := rfl
  unfold Devices.mouseUp
  refine ⟨fun c => ?_, ?_, ?_⟩
  · rw [List.mem_filter, tells.held, holds_cons, about]
    by_cases same : c = b
    · simp [same, DeviceUse.isDown]
    · simp [same, Ne.symm same]
  · -- With the last button the latest one is forgotten, and before that it was known.
    dsimp only
    split
    · rfl
    · rename_i some_held
      have before : d.held ≠ [] := by
        intro none_held
        rw [none_held] at some_held
        exact some_held rfl
      rw [tells.last, if_neg before]
      rfl
  · rw [recentPresses_of_event, isPress_of_some about]
    exact tells.clicks

end Buttons

section Keys

/-- A use that is no report on a key leaves the keys alone. -/
theorem TellsKeys.of_other {u : DeviceUse} {d' : Devices} (tells : TellsKeys past d)
    (silent : u.key? = none) (keys : d'.keys = d.keys)
    (clicks : d'.keyClicks = if u.drains then [] else d.keyClicks)
    (clicked : d'.clickedKey = if u.drains then none else d.clickedKey) : TellsKeys (u :: past) d' := by
  have same (k : String) : holds DeviceUse.key? k (u :: past) = holds DeviceUse.key? k past := by
    rw [holds_of_other (by simp [silent])]
  have recent : recentPresses DeviceUse.key? (u :: past) =
      if u.drains then [] else recentPresses DeviceUse.key? past := by
    rw [recentPresses, isPress_of_none silent, if_neg Bool.false_ne_true]
  refine ⟨fun k => ?_, ?_, fun p => ?_, fun k => ?_, ?_, ?_⟩
  · rw [keys, tells.held, same]
  · rw [keys]
    exact tells.once
  · rw [keys, tells.latest, heldSpelling?, heldSpelling?, presses, isPress_of_none silent,
      if_neg Bool.false_ne_true]
    simp only [same]
  · rw [clicks, recent]
    split
    · simp
    · exact tells.clicks k
  · rw [clicks]
    split
    · exact List.nodup_nil
    · exact tells.clicksOnce
  · rw [clicked, recent]
    split
    · rfl
    · exact tells.clicked

/-- A key without a name is never held. -/
theorem holds_unnamed (past : List DeviceUse) : holds DeviceUse.key? "" past = false := by
  have named (u : DeviceUse) : u.key? ≠ some "" := by
    intro unnamed
    unfold DeviceUse.key? at unnamed
    split at unnamed
    · split at unnamed
      · cases unnamed
      · exact absurd (Option.some.inj unnamed) ‹_›
    · split at unnamed
      · cases unnamed
      · exact absurd (Option.some.inj unnamed) ‹_›
    · cases unnamed
  induction past with
  | nil => rfl
  | cons u past ih => rw [holds_of_other (named u), ih]

/-- A key that goes up keeps what the log tells. -/
theorem TellsKeys.keyUp (tells : TellsKeys past d) (key : String) :
    TellsKeys (.event (.keyUp key) :: past) (d.keyUp key) := by
  have heldNow (k : String) : holds DeviceUse.key? k (.event (.keyUp key) :: past) =
      (holds DeviceUse.key? k past && decide (k ≠ normalizeKey key)) := by
    rw [holds_cons, DeviceUse.key?]
    by_cases unnamed : normalizeKey key = ""
    · rw [if_pos unnamed, unnamed, if_neg (by simp)]
      by_cases empty : k = ""
      · rw [empty, holds_unnamed]
        rfl
      · simp [empty]
    · rw [if_neg unnamed]
      by_cases same : k = normalizeKey key
      · simp [same, DeviceUse.isDown]
      · simp [same, Ne.symm same]
  have noPress : isPress DeviceUse.key? (.event (.keyUp key)) past = false := by
    simp [isPress, DeviceUse.isDown]
  refine ⟨fun k => ?_, ?_, fun p => ?_, fun k => ?_, tells.clicksOnce, ?_⟩
  · rw [heldNow, Bool.and_eq_true, ← tells.held, decide_eq_true_eq]
    constructor
    · rintro ⟨h, member, rfl⟩
      obtain ⟨old, other⟩ := List.mem_filter.mp member
      exact ⟨⟨h, old, rfl⟩, of_decide_eq_true other⟩
    · rintro ⟨⟨h, member, rfl⟩, other⟩
      exact ⟨h, List.mem_filter.mpr ⟨member, decide_eq_true other⟩, rfl⟩
  · exact tells.once.sublist (List.filter_sublist.map _)
  · have before := tells.latest fun k => decide (k ≠ normalizeKey key) && p k
    rw [Devices.keyUp, ← List.filter_reverse, List.find?_filter]
    simp only [Bool.decide_and, Bool.decide_eq_true]
    rw [before, heldSpelling?, heldSpelling?, presses, noPress, if_neg Bool.false_ne_true]
    simp only [heldNow, Bool.and_assoc]
  · rw [recentPresses_of_event, noPress]
    exact tells.clicks k
  · rw [recentPresses_of_event, noPress]
    exact tells.clicked

/-- A key that goes down keeps what the log tells. -/
theorem TellsKeys.keyDown (tells : TellsKeys past d) (key : String) :
    TellsKeys (.event (.keyDown key) :: past) (d.keyDown key) := by
  unfold Devices.keyDown
  by_cases unnamed : normalizeKey key = ""
  · rw [if_pos (.inl unnamed)]
    exact tells.of_other (by simp [DeviceUse.key?, unnamed]) rfl rfl rfl
  have about : (DeviceUse.event (.keyDown key)).key? = some (normalizeKey key) := if_neg unnamed
  have heldNow (k : String) : holds DeviceUse.key? k (.event (.keyDown key) :: past) =
      (decide (k = normalizeKey key) || holds DeviceUse.key? k past) := by
    rw [holds_cons, about]
    by_cases same : k = normalizeKey key
    · simp [same, DeviceUse.isDown]
    · simp [same, Ne.symm same]
  have known : (normalizeKey key = "" ∨ d.keys.any (·.key = normalizeKey key)) ↔
      holds DeviceUse.key? (normalizeKey key) past := by
    rw [← tells.held]
    simp [unnamed]
  cases already : holds DeviceUse.key? (normalizeKey key) past with
  | true =>
    rw [if_pos (known.mpr already)]
    have repeated : isPress DeviceUse.key? (.event (.keyDown key)) past = false := by
      rw [isPress_of_some about, already]
      rfl
    have same (k : String) : holds DeviceUse.key? k (.event (.keyDown key) :: past) =
        holds DeviceUse.key? k past := by
      rw [heldNow]
      by_cases here : k = normalizeKey key
      · simp [here, already]
      · simp [here]
    refine ⟨fun k => ?_, tells.once, fun p => ?_, fun k => ?_, tells.clicksOnce, ?_⟩
    · rw [same, tells.held]
    · rw [tells.latest, heldSpelling?, heldSpelling?, presses, repeated, if_neg Bool.false_ne_true]
      simp only [same]
    · rw [recentPresses_of_event, repeated, if_neg Bool.false_ne_true]
      exact tells.clicks k
    · rw [recentPresses_of_event, repeated, if_neg Bool.false_ne_true]
      exact tells.clicked
  | false =>
    have new : ¬(normalizeKey key = "" ∨ d.keys.any (·.key = normalizeKey key)) := by
      rw [known, already]
      exact Bool.false_ne_true
    rw [if_neg new]
    have pressed : isPress DeviceUse.key? (.event (.keyDown key)) past = true := by
      rw [isPress_of_some about, already]
      rfl
    have fresh : normalizeKey key ∉ d.keys.map (·.key) := by
      rw [not_or] at new
      simpa using new.2
    refine ⟨fun k => ?_, ?_, fun p => ?_, fun k => ?_, ?_, ?_⟩
    · rw [heldNow, Bool.or_eq_true, ← tells.held, decide_eq_true_eq]
      simp [or_and_right, exists_or, or_comm, eq_comm]
    · rw [List.map_append, List.nodup_append]
      refine ⟨tells.once, by simp, ?_⟩
      intro k old k' isNew same
      rw [List.map_singleton, List.mem_singleton] at isNew
      rw [same, isNew] at old
      exact fresh old
    · -- The new key comes first, and the others are held as before.
      rw [List.reverse_append, List.reverse_singleton, List.singleton_append, List.find?_cons,
        heldSpelling?, presses, pressed, if_pos rfl, List.find?_cons, about, Option.any_some, heldNow,
        decide_eq_true rfl, Bool.true_or, Bool.true_and]
      cases chosen : p (normalizeKey key) with
      | true => rfl
      | false =>
        rw [tells.latest, heldSpelling?]
        have others (k : String) : ((decide (k = normalizeKey key) ||
            holds DeviceUse.key? k past) && p k) = (holds DeviceUse.key? k past && p k) := by
          by_cases here : k = normalizeKey key
          · simp [here, chosen]
          · simp [here]
        simp only [heldNow, others]
    · rw [recentPresses_of_event, pressed, if_pos rfl, List.filterMap_cons_some about, List.mem_cons,
        ← tells.clicks]
      split
      · rename_i old
        constructor
        · exact .inr
        · rintro (rfl | clicked)
          · exact old
          · exact clicked
      · rw [List.mem_append, List.mem_singleton, or_comm]
    · split
      · exact tells.clicksOnce
      · rename_i missing
        rw [List.nodup_append]
        refine ⟨tells.clicksOnce, by simp, ?_⟩
        intro k old k' isNew same
        rw [List.mem_singleton] at isNew
        rw [same, isNew] at old
        exact missing old
    · rw [recentPresses_of_event, pressed, if_pos rfl]
      rfl

end Keys

/-! ### Whole logs -/

theorem Tells.initial : Tells [] .initial where
  mouse := rfl
  buttons := ⟨by simp [Devices.initial, holds], rfl, rfl⟩
  keys := ⟨by simp [Devices.initial, holds], List.nodup_nil, fun _ => rfl,
    by simp [Devices.initial, recentPresses],
    List.nodup_nil, rfl⟩

/-- Whatever is done with devices, they are as the log tells that is one use longer. -/
theorem Tells.use (tells : Tells past d) (u : DeviceUse) : Tells (u :: past) (d.use u) := by
  obtain ⟨mouse, buttons, keys⟩ := tells
  cases u with
  | discard => exact ⟨mouse, buttons.of_other rfl rfl rfl rfl, keys.of_other rfl rfl rfl rfl⟩
  | snapshot f => exact ⟨mouse, buttons.of_other rfl rfl rfl rfl, keys.of_other rfl rfl rfl rfl⟩
  | event e =>
    cases e with
    | mouseMoved x y => exact ⟨rfl, buttons.of_other rfl rfl rfl rfl, keys.of_other rfl rfl rfl rfl⟩
    | mouseDown b =>
      have others : (d.mouseDown b).mouse = d.mouse ∧ (d.mouseDown b).keys = d.keys ∧
          (d.mouseDown b).keyClicks = d.keyClicks ∧ (d.mouseDown b).clickedKey = d.clickedKey := by
        unfold Devices.mouseDown
        split <;> exact ⟨rfl, rfl, rfl, rfl⟩
      exact ⟨others.1.trans mouse, buttons.mouseDown b,
        keys.of_other rfl others.2.1 others.2.2.1 others.2.2.2⟩
    | mouseUp b => exact ⟨mouse, buttons.mouseUp b, keys.of_other rfl rfl rfl rfl⟩
    | keyDown key =>
      have others : (d.keyDown key).mouse = d.mouse ∧ (d.keyDown key).held = d.held ∧
          (d.keyDown key).lastButton = d.lastButton ∧ (d.keyDown key).clicks = d.clicks := by
        unfold Devices.keyDown
        dsimp only
        split <;> exact ⟨rfl, rfl, rfl, rfl⟩
      exact ⟨others.1.trans mouse, buttons.of_other rfl others.2.1 others.2.2.1 others.2.2.2,
        keys.keyDown key⟩
    | keyUp key => exact ⟨mouse, buttons.of_other rfl rfl rfl rfl, keys.keyUp key⟩

theorem Tells.uses (tells : Tells past d) (uses : List DeviceUse) :
    Tells (uses.reverse ++ past) (uses.foldl Devices.use d) := by
  induction uses generalizing past d with
  | nil => exact tells
  | cons u uses ih =>
    rw [List.reverse_cons, List.append_assoc, List.singleton_append]
    exact ih (tells.use u)

/-- What a frame sees is what the log tells, after any uses of the devices in any order: where the pointer
    was reported last; which keys and buttons are held; the spelling of the key pressed last among those
    held; which keys were pressed since the frame or the discard before, and the spelling of the latest; the
    presses of buttons since then, in order; and the button that went down last, as long as one is
    held. -/
theorem snapshot_tells_log (uses : List DeviceUse) (f : FrameInput) :
    let past := uses.reverse
    let frame := ((uses.foldl Devices.use .initial).snapshot f).1
    frame.mouse = pointer past ∧
    (frame.keysDown.Nodup ∧ ∀ k, k ∈ frame.keysDown ↔ holds DeviceUse.key? k past) ∧
    frame.key = heldSpelling? (fun _ => true) past ∧
    (frame.keyClicks.Nodup ∧
      ∀ k, k ∈ frame.keyClicks ↔ k ∈ (recentPresses DeviceUse.key? past).filterMap DeviceUse.key?) ∧
    frame.clickedKey = (recentPresses DeviceUse.key? past).head?.bind DeviceUse.spelling? ∧
    frame.clicks = ((recentPresses DeviceUse.button? past).filterMap DeviceUse.button?).reverse ∧
    (frame.pressed ↔ ∃ b, holds DeviceUse.button? b past) ∧
    frame.button = if frame.pressed then past.findSome? DeviceUse.downButton? else none := by
  intro past frame
  have tells : Tells past (uses.foldl Devices.use .initial) := by
    have whole := Tells.initial.uses uses
    rwa [List.append_nil] at whole
  obtain ⟨mouse, buttons, keys⟩ := tells
  have pressed : frame.pressed ↔ (uses.foldl Devices.use .initial).held ≠ [] := by
    simp [frame, Devices.snapshot]
  refine ⟨mouse, ⟨keys.once, fun k => ?_⟩, ?_, ⟨keys.clicksOnce, keys.clicks⟩, keys.clicked, buttons.clicks,
    ?_, ?_⟩
  · rw [← keys.held]
    exact List.mem_map
  · have first (hs : List HeldKey) : hs.find? (fun _ => true) = hs.head? := by
      cases hs <;> rfl
    rw [← keys.latest, first, List.head?_reverse]
    rfl
  · rw [pressed]
    constructor
    · intro some_held
      obtain ⟨b, member⟩ := List.exists_mem_of_ne_nil _ some_held
      exact ⟨b, (buttons.held b).mp member⟩
    · rintro ⟨b, held⟩
      exact List.ne_nil_of_mem ((buttons.held b).mpr held)
  · simp only [pressed, ite_not]
    exact buttons.last

end EventLog

end Sketch
