import Sketch.Proofs.Library.Failure

/-!
Saved drawing contexts. What a call of the canvas does follows from its values and from the context: paint, transform
and size of texts. So whatever happens between a push and its pop is forgotten.
-/

namespace Sketch

/-- A call of the canvas by the name of a function. -/
structure CanvasCall where
  name : String
  values : List Value
deriving Inhabited

/-- What came of a call: whether it succeeded, and the shapes that it drew. -/
structure Performed where
  call : CanvasCall
  succeeded : Bool
  shapes : List Drawing
deriving Inhabited

/-- The shape that a command draws, if it draws one. -/
def DrawCommand.drawing? : DrawCommand → Option Drawing
  | .shape d => some d
  | .clear .. => none

namespace CanvasCall

variable (c : CanvasCall) (w : World)

/-- What a call does. The canvas does nothing on a name that it does not know. -/
def action? : Option (Action Value) := (Library.canvas.actionOf? c.name).map (· c.values)

/-- The world behind a call, whether it succeeds or fails. -/
def after : World :=
  match c.action? with
  | some action => action.after w
  | none => w

/-- Whether there is such a function, and it succeeds. -/
def succeeds : Bool :=
  match c.action? with
  | some action =>
    match action.run w with
    | .ok .. => true
    | .error .. => false
  | none => false

/-- What a call adds to the commands for the display. -/
def commands : List DrawCommand := (c.after w).canvas.outbox.commands.drop w.canvas.outbox.commands.length

def perform : Performed := ⟨c, c.succeeds w, (c.commands w).filterMap DrawCommand.drawing?⟩

/-- The world behind a sequence of calls. -/
def run (calls : List CanvasCall) (w : World) : World := calls.foldl (fun w c => c.after w) w

/-- What comes of a sequence of calls, one by one. -/
def trace : List CanvasCall → World → List Performed
  | [], _ => []
  | c :: calls, w => c.perform w :: trace calls (c.after w)

end CanvasCall

namespace Performed

/-- A push that succeeded. -/
def opens (p : Performed) : Bool := p.succeeded && p.call.name == "push"

/-- A pop that succeeded. -/
def closes (p : Performed) : Bool := p.succeeded && p.call.name == "pop"

/-- What stands behind the pop that matches a push, `depth` others being open. -/
def behindPop : (depth : Nat) → List Performed → Option (List Performed)
  | _, [] => none
  | depth, p :: rest =>
    if p.opens then behindPop (depth + 1) rest
    else if p.closes then
      match depth with
      | 0 => some rest
      | depth + 1 => behindPop depth rest
    else behindPop depth rest

/-- A push more is matched by the next pop that is left. -/
theorem behindPop_succ (depth : Nat) (ps : List Performed) :
    behindPop (depth + 1) ps = (behindPop depth ps).bind (behindPop 0) := by
  induction ps generalizing depth with
  | nil => rfl
  | cons p ps ih =>
    rw [behindPop.eq_def, behindPop.eq_def depth]
    by_cases opens : p.opens = true
    · simp only [opens, if_true]
      exact ih (depth + 1)
    by_cases closes : p.closes = true
    · simp only [opens, closes, if_true]
      cases depth with
      | zero => rfl
      | succ depth => exact ih depth
    · simp only [opens, closes]
      exact ih depth

theorem behindPop_length {depth : Nat} {ps rest : List Performed} (found : behindPop depth ps = some rest) :
    rest.length < ps.length := by
  fun_induction behindPop depth ps with
  | case1 => cases found
  | case2 depth p ps opens ih => exact Nat.lt_succ_of_lt (ih found)
  | case3 p ps opens closes =>
    cases found
    exact Nat.lt_succ_self _
  | case4 p ps opens closes depth ih => exact Nat.lt_succ_of_lt (ih found)
  | case5 depth p ps opens closes ih => exact Nat.lt_succ_of_lt (ih found)

/-- What remains without every push that is matched, its pop and all between them, and without unmatched pops. -/
def remaining : List Performed → List Performed
  | [] => []
  | p :: ps =>
    if p.opens then
      match _found : behindPop 0 ps with
      | some rest => remaining rest
      | none => p :: remaining ps
    else if p.closes then remaining ps
    else p :: remaining ps
termination_by ps => ps.length
decreasing_by
  · exact Nat.lt_succ_of_lt (behindPop_length _found)
  all_goals exact Nat.lt_succ_self _

end Performed

/-! ### What calls can do -/

/-- What calls of the canvas see of the world. -/
def World.sight (w : World) : Heap × Context := (w.heap, w.canvas.context)

/-- What a function of the canvas does to it when it succeeds. -/
inductive CanvasChange where
  | resize (width height : Float)
  | clear (color : Color)
  | restyle (change : Style → Style)
  | letter (size : Float)
  | draw (shape : Shape)
  | transform (m : Transform)
  | push
  | pop

namespace CanvasChange

def apply : CanvasChange → Canvas → Canvas
  | .resize width height, c => (c.resize width height).clear .white
  | .clear color, c => c.clear color
  | .restyle change, c => c.withStyle change
  | .letter size, c => { c with context := { c.context with textSize := size } }
  | .draw shape, c => c.draw shape
  | .transform m, c => c.transformBy m
  | .push, c => c.push
  | .pop, c => c.pop

/-- The context behind a change, unless it is one that was saved. -/
def context : CanvasChange → Context → Context
  | .restyle change, x => { x with style := change x.style }
  | .letter size, x => { x with textSize := size }
  | .transform m, x => { x with transform := x.transform.mul m }
  | _, x => x

/-- The shapes that a change draws in a context. -/
def shapes : CanvasChange → Context → List Drawing
  | .draw shape, x => [⟨shape, x.style, x.transform⟩]
  | _, _ => []

/-- A change that leaves the saved contexts alone. -/
def Plain (d : CanvasChange) : Prop := d ≠ .push ∧ d ≠ .pop

theorem Plain.apply_context {d : CanvasChange} (plain : d.Plain) (c : Canvas) :
    (d.apply c).context = d.context c.context := by
  cases d with
  | pop => exact absurd rfl plain.2
  | _ => rfl

theorem Plain.apply_saved {d : CanvasChange} (plain : d.Plain) (c : Canvas) : (d.apply c).saved = c.saved := by
  cases d with
  | push => exact absurd rfl plain.1
  | pop => exact absurd rfl plain.2
  | _ => rfl

/-- Commands are only added, and the shapes among them follow from the context. -/
theorem apply_commands (d : CanvasChange) (c : Canvas) : ∃ commands,
    (d.apply c).outbox.commands = c.outbox.commands ++ commands ∧
      commands.filterMap DrawCommand.drawing? = d.shapes c.context := by
  cases d with
  | resize | clear | draw => exact ⟨_, rfl, rfl⟩
  | restyle | letter | transform | push => exact ⟨[], (List.append_nil _).symm, rfl⟩
  | pop =>
    refine ⟨[], ?_, rfl⟩
    rw [List.append_nil, apply, Canvas.pop]
    split <;> rfl

end CanvasChange

/-- An action that changes nothing, and whose outcome follows from what calls see. -/
class LooksOnly {α : Type} (x : Action α) : Prop where
  settled : ∀ sight, (∃ a, ∀ w, w.sight = sight → x.run w = .ok a w) ∨
    ∃ abort, ∀ w, w.sight = sight → x.run w = .error abort w

/-- An action that fails, or makes a change to the canvas. What calls see decides it. -/
class Decided (allowed : CanvasChange → Prop) (x : Action Unit) : Prop where
  settled : ∀ sight, (∃ abort, ∀ w, w.sight = sight → x.run w = .error abort w) ∨
    ∃ d, allowed d ∧ ∀ w, w.sight = sight → x.run w = .ok () { w with canvas := d.apply w.canvas }

namespace LooksOnly

variable {α β : Type}

instance pure (a : α) : LooksOnly (Pure.pure a : Action α) := ⟨fun _ => .inl ⟨a, fun _ _ => rfl⟩⟩

instance fail (c : Cause) : LooksOnly (Action.fail c : Action α) := ⟨fun _ => .inr ⟨.cause c, fun _ _ => rfl⟩⟩

instance bind {x : Action α} {f : α → Action β} [first : LooksOnly x] [second : ∀ a, LooksOnly (f a)] :
    LooksOnly (x >>= f) where
  settled sight := by
    rcases first.settled sight with ⟨a, reads⟩ | ⟨abort, fails⟩
    · rcases (second a).settled sight with ⟨b, reads'⟩ | ⟨abort, fails⟩
      · refine .inl ⟨b, fun w seen => ?_⟩
        rw [EStateM.run_bind, reads w seen]
        exact reads' w seen
      · refine .inr ⟨abort, fun w seen => ?_⟩
        rw [EStateM.run_bind, reads w seen]
        exact fails w seen
    · refine .inr ⟨abort, fun w seen => ?_⟩
      rw [EStateM.run_bind, fails w seen]

instance mapM {f : α → Action β} [each : ∀ a, LooksOnly (f a)] (items : List α) : LooksOnly (items.mapM f) := by
  induction items with
  | nil =>
    rw [List.mapM_nil]
    infer_instance
  | cons a items ih =>
    rw [List.mapM_cons]
    infer_instance

variable (a : Arguments) (i : Nat) (v : Value)

instance text : LooksOnly (a.text i) where
  settled sight := by
    refine .inl ⟨sight.1.display (a.get i), fun w seen => ?_⟩
    rw [← seen]
    rfl

instance expectRange (least most : Nat) : LooksOnly (a.expectRange least most) := by
  rw [Arguments.expectRange]
  split <;> infer_instance

instance expect (n : Nat) : LooksOnly (a.expect n) := expectRange a n n

instance asNumber : LooksOnly (a.asNumber v) := by
  rw [Arguments.asNumber.eq_def]
  split <;> infer_instance

instance number : LooksOnly (a.number i) := asNumber a _

instance number? : LooksOnly (a.number? i) := by
  rw [Arguments.number?]
  split <;> infer_instance

instance point : LooksOnly (a.point i) := by
  rw [Arguments.point]
  infer_instance

instance color : LooksOnly a.color := by
  rw [Arguments.color]
  refine @bind _ _ _ _ _ fun _ => @bind _ _ _ _ _ fun numbers => ?_
  split <;> infer_instance

end LooksOnly

namespace Decided

variable {α : Type} {allowed : CanvasChange → Prop}

instance bind {x : Action α} {f : α → Action Unit} [first : LooksOnly x] [second : ∀ a, Decided allowed (f a)] :
    Decided allowed (x >>= f) where
  settled sight := by
    rcases first.settled sight with ⟨a, reads⟩ | ⟨abort, fails⟩
    · rcases (second a).settled sight with ⟨abort, fails⟩ | ⟨d, can, does⟩
      · refine .inl ⟨abort, fun w seen => ?_⟩
        rw [EStateM.run_bind, reads w seen]
        exact fails w seen
      · refine .inr ⟨d, can, fun w seen => ?_⟩
        rw [EStateM.run_bind, reads w seen]
        exact does w seen
    · refine .inl ⟨abort, fun w seen => ?_⟩
      rw [EStateM.run_bind, fails w seen]

instance fail (c : Cause) : Decided allowed (Action.fail c) := ⟨fun _ => .inl ⟨.cause c, fun _ _ => rfl⟩⟩

theorem of (d : CanvasChange) (can : allowed d) : Decided allowed (World.onCanvas d.apply) :=
  ⟨fun _ => .inr ⟨d, can, fun _ _ => rfl⟩⟩

/-- Looking at the canvas, as long as only the context makes a difference. -/
theorem getCanvas {f : Canvas → Action Unit} (same : ∀ c c', c.context = c'.context → f c = f c')
    (second : ∀ c, Decided allowed (f c)) : Decided allowed (World.getCanvas >>= f) where
  settled sight := by
    -- Any canvas with the context in sight stands for all of them.
    let c : Canvas := { (default : Canvas) with context := sight.2 }
    have seen (w : World) (seen : w.sight = sight) : (World.getCanvas >>= f).run w = (f c).run w := by
      rw [same c w.canvas (congrArg Prod.snd seen).symm]
      rfl
    rcases (second c).settled sight with ⟨abort, fails⟩ | ⟨d, can, does⟩
    · exact .inl ⟨abort, fun w same => (seen w same).trans (fails w same)⟩
    · exact .inr ⟨d, can, fun w same => (seen w same).trans (does w same)⟩

end Decided

/-- The changes that a function may make: only a push saves a context. -/
def CanvasFn.May (f : CanvasFn) (d : CanvasChange) : Prop := (d = .push ↔ f = .push) ∧ (d = .pop ↔ f = .pop)

/-- What calls see decides what each function does. -/
theorem CanvasFn.perform_decided (f : CanvasFn) (values : List Value) : Decided f.May (f.perform values) := by
  by_cases push : f = .push
  · subst push
    have pushed : Decided push.May (World.onCanvas (·.push)) := .of .push (by simp [May])
    simp only [perform]
    infer_instance
  by_cases pop : f = .pop
  · subst pop
    have popped : Decided pop.May (World.onCanvas (·.pop)) := .of .pop (by simp [May])
    simp only [perform]
    infer_instance
  have plain (d : CanvasChange) (other : d ≠ .push ∧ d ≠ .pop) : Decided f.May (World.onCanvas d.apply) :=
    .of d (by simp [May, other, push, pop])
  have drawn (shape : Shape) : Decided f.May (drawShape shape) := plain (.draw shape) (by simp)
  have cleared (color : Color) : Decided f.May (World.onCanvas (·.clear color)) := plain (.clear color) (by simp)
  have styled (g : Style → Style) : Decided f.May (World.onCanvas (·.withStyle g)) := plain (.restyle g) (by simp)
  have moved (t : Transform) : Decided f.May (World.onCanvas (·.transformBy t)) := plain (.transform t) (by simp)
  have resized (w h : Float) : Decided f.May (World.onCanvas fun c => (c.resize w h).clear .white) :=
    plain (.resize w h) (by simp)
  have lettered (size : Float) :
      Decided f.May (World.onCanvas fun c => { c with context := { c.context with textSize := size } }) :=
    plain (.letter size) (by simp)
  cases f
  case push => exact absurd rfl push
  case pop => exact absurd rfl pop
  case size =>
    simp only [perform]
    refine @Decided.bind _ _ _ _ _ fun _ => @Decided.bind _ _ _ _ _ fun p => ?_
    split <;> infer_instance
  case text =>
    -- The size of the text, if none is given, is all that is looked up.
    simp only [perform]
    refine @Decided.bind _ _ _ _ _ fun _ => @Decided.bind _ _ _ _ _ fun size => ?_
    exact .getCanvas (fun c c' same => by rw [same]) fun c => inferInstance
  all_goals
    simp only [perform]
    infer_instance

/-! ### What a call does -/

theorem CanvasFn.name_eq_push {f : CanvasFn} : f.name = "push" ↔ f = .push := by cases f <;> decide

theorem CanvasFn.name_eq_pop {f : CanvasFn} : f.name = "pop" ↔ f = .pop := by cases f <;> decide

namespace CanvasCall

variable {c : CanvasCall} {w v : World}

/-- Wherever the same is seen, a call does nothing or makes the same change. -/
theorem settled (c : CanvasCall) (sight : Heap × Context) :
    (∀ w : World, w.sight = sight → c.after w = w ∧ c.succeeds w = false) ∨
      ∃ d : CanvasChange, (d = .push ↔ c.name = "push") ∧ (d = .pop ↔ c.name = "pop") ∧
        ∀ w : World, w.sight = sight → c.after w = { w with canvas := d.apply w.canvas } ∧ c.succeeds w = true := by
  cases known : Library.canvas.actionOf? c.name with
  | none =>
    refine .inl fun w _ => ?_
    rw [after, succeeds, action?, known]
    exact ⟨rfl, rfl⟩
  | some action =>
    obtain ⟨f, found, ofCanvas, performs⟩ := Library.actionOf?_eq_some_iff.mp known
    cases f with
    | canvas f =>
      cases performs
      have named : f.name = c.name := Builtin.ofName?_eq_some_iff.mp found
      rcases (f.perform_decided c.values).settled sight with ⟨abort, fails⟩ | ⟨d, may, does⟩
      · refine .inl fun w seen => ?_
        have ran : (do f.perform c.values; return Value.nil : Action Value).run w = .error abort w := by
          rw [EStateM.run_bind, fails w seen]
        simp only [after, succeeds, action?, known, Option.map_some, Action.after, ran, and_self]
      · rw [← named, CanvasFn.name_eq_push, CanvasFn.name_eq_pop]
        refine .inr ⟨d, may.1, may.2, fun w seen => ?_⟩
        have ran : (do f.perform c.values; return Value.nil : Action Value).run w =
            .ok .nil { w with canvas := d.apply w.canvas } := by
          rw [EStateM.run_bind, does w seen]
          rfl
        simp only [after, succeeds, action?, known, Option.map_some, Action.after, ran, and_self]
    | math | lists | console | pause | sense | cipher => cases ofCanvas

/-- What comes of a call follows from what it sees. -/
theorem perform_eq (same : w.sight = v.sight) : c.perform w = c.perform v := by
  have new {w : World} {commands : List DrawCommand}
      (added : (c.after w).canvas.outbox.commands = w.canvas.outbox.commands ++ commands) :
      c.commands w = commands := by
    rw [CanvasCall.commands, added, List.drop_left]
  rcases c.settled v.sight with nothing | ⟨d, -, -, does⟩
  · have idle {w : World} (seen : w.sight = v.sight) : c.perform w = ⟨c, false, []⟩ := by
      have empty : c.commands w = [] := new (by rw [(nothing w seen).1, List.append_nil])
      rw [perform, empty, (nothing w seen).2]
      rfl
    rw [idle same, idle rfl]
  · have done {w : World} (seen : w.sight = v.sight) : c.perform w = ⟨c, true, d.shapes v.canvas.context⟩ := by
      obtain ⟨commands, added, drawn⟩ := d.apply_commands w.canvas
      have context : w.canvas.context = v.canvas.context := congrArg Prod.snd seen
      rw [perform, new (by rw [(does w seen).1, added]), (does w seen).2, drawn, context]
    rw [done same, done rfl]

/-- A call that succeeds makes a change. -/
theorem changes_of_succeeds (succeeds : c.succeeds w = true) : ∃ d : CanvasChange, (d = .push ↔ c.name = "push") ∧
    (d = .pop ↔ c.name = "pop") ∧ c.after w = { w with canvas := d.apply w.canvas } := by
  rcases c.settled w.sight with nothing | ⟨d, push, pop, does⟩
  · rw [(nothing w rfl).2] at succeeds
    cases succeeds
  · exact ⟨d, push, pop, (does w rfl).1⟩

theorem after_of_opens (opens : (c.perform w).opens = true) : c.after w = { w with canvas := w.canvas.push } := by
  obtain ⟨succeeds, named⟩ := (Bool.and_eq_true ..).mp opens
  obtain ⟨d, push, -, same⟩ := changes_of_succeeds succeeds
  obtain rfl := push.mpr (eq_of_beq named)
  exact same

theorem after_of_closes (closes : (c.perform w).closes = true) : c.after w = { w with canvas := w.canvas.pop } := by
  obtain ⟨succeeds, named⟩ := (Bool.and_eq_true ..).mp closes
  obtain ⟨d, -, pop, same⟩ := changes_of_succeeds succeeds
  obtain rfl := pop.mpr (eq_of_beq named)
  exact same

theorem after_heap (c : CanvasCall) (w : World) : (c.after w).heap = w.heap := by
  rcases c.settled w.sight with nothing | ⟨d, -, -, does⟩
  · rw [(nothing w rfl).1]
  · rw [(does w rfl).1]

/-- No other call changes the saved contexts. -/
theorem after_saved (noPush : ¬(c.perform w).opens = true) (noPop : ¬(c.perform w).closes = true) :
    (c.after w).canvas.saved = w.canvas.saved := by
  rcases c.settled w.sight with nothing | ⟨d, push, pop, does⟩
  · rw [(nothing w rfl).1]
  · have plain : d.Plain := by
      refine ⟨fun isPush => noPush ?_, fun isPop => noPop ?_⟩
      · simp [Performed.opens, perform, (does w rfl).2, push.mp isPush]
      · simp [Performed.closes, perform, (does w rfl).2, pop.mp isPop]
    rw [(does w rfl).1]
    exact plain.apply_saved w.canvas

end CanvasCall

/-- Two worlds that look the same to calls of the canvas, now and after any pop. -/
structure World.Alike (w v : World) : Prop where
  sight : w.sight = v.sight
  saved : w.canvas.saved = v.canvas.saved

/-- Calls keep worlds alike. -/
theorem World.Alike.after {w v : World} (alike : w.Alike v) (c : CanvasCall) : (c.after w).Alike (c.after v) := by
  obtain ⟨heap, context⟩ := Prod.mk.inj alike.sight
  rcases c.settled v.sight with nothing | ⟨d, push, pop, does⟩
  · rwa [(nothing w alike.sight).1, (nothing v rfl).1]
  rw [(does w alike.sight).1, (does v rfl).1]
  by_cases isPop : d = .pop
  · subst isPop
    have saved := alike.saved
    simp only [CanvasChange.apply, Canvas.pop, saved]
    cases v.canvas.saved with
    | nil => exact ⟨alike.sight, saved⟩
    | cons => exact ⟨Prod.ext heap rfl, rfl⟩
  by_cases isPush : d = .push
  · subst isPush
    exact ⟨alike.sight, congrArg₂ List.cons context alike.saved⟩
  · have plain : d.Plain := ⟨isPush, isPop⟩
    refine ⟨Prod.ext heap ?_, ?_⟩
    · change (d.apply w.canvas).context = (d.apply v.canvas).context
      rw [plain.apply_context, plain.apply_context, context]
    · change (d.apply w.canvas).saved = (d.apply v.canvas).saved
      rw [plain.apply_saved, plain.apply_saved, alike.saved]

/-! ### Sequences of calls -/

/-- What came of calls, one after the other, on the way from a world to another. -/
inductive Brings : World → List Performed → World → Prop where
  | nil {w : World} : Brings w [] w
  | cons {w w' : World} {c : CanvasCall} {ps : List Performed} (rest : Brings (c.after w) ps w') :
      Brings w (c.perform w :: ps) w'

namespace Brings

open Performed

variable {w w' v : World} {ps rest : List Performed}

theorem trace (calls : List CanvasCall) (w : World) : Brings w (CanvasCall.trace calls w) (CanvasCall.run calls w) := by
  induction calls generalizing w with
  | nil => exact .nil
  | cons c calls ih => exact .cons (ih (c.after w))

/-- It is told in full by the calls. -/
theorem eq_trace (brings : Brings w ps w') :
    ps = CanvasCall.trace (ps.map (·.call)) w ∧ w' = CanvasCall.run (ps.map (·.call)) w := by
  induction brings with
  | nil => exact ⟨rfl, rfl⟩
  | @cons w w' c ps rest ih => exact ⟨congrArg _ ih.1, ih.2⟩

/-- Up to the matching pop, the context that a push saved stays where it is. -/
theorem behindPop {depth : Nat} {saved : List Context} {context : Context} (brings : Brings w ps w')
    (found : Performed.behindPop depth ps = some rest) (under : List Context) (deep : under.length = depth)
    (stack : w.canvas.saved = under ++ context :: saved) :
    ∃ m, Brings m rest w' ∧ m.sight = (w.heap, context) ∧ m.canvas.saved = saved := by
  fun_induction Performed.behindPop depth ps generalizing w under with
  | case1 => cases found
  | case2 depth p ps opens ih =>
    cases brings with
    | @cons _ _ c _ more =>
      rw [← c.after_heap w]
      refine ih more found (w.canvas.context :: under) (congrArg (· + 1) deep) ?_
      rw [CanvasCall.after_of_opens opens]
      exact congrArg _ stack
  | case3 p ps opens closes =>
    cases found
    cases brings with
    | @cons _ _ c _ more =>
      obtain rfl := List.eq_nil_of_length_eq_zero deep
      have popped : w.canvas.pop = { w.canvas with context, saved } := by
        rw [Canvas.pop, stack]
        rfl
      refine ⟨_, more, ?_⟩
      rw [CanvasCall.after_of_closes closes, popped]
      exact ⟨rfl, rfl⟩
  | case4 p ps opens closes depth ih =>
    cases brings with
    | @cons _ _ c _ more =>
      obtain ⟨top, under, rfl⟩ := List.exists_cons_of_length_eq_add_one deep
      rw [← c.after_heap w]
      refine ih more found under (Nat.succ.inj deep) ?_
      rw [CanvasCall.after_of_closes closes, Canvas.pop, stack]
      rfl
  | case5 depth p ps opens closes ih =>
    cases brings with
    | @cons _ _ c _ more =>
      rw [← c.after_heap w]
      exact ih more found under deep ((CanvasCall.after_saved opens closes).trans stack)

/-- The remaining calls go the same way, from worlds that are alike. -/
theorem remaining (brings : Brings w ps w') (alike : w.Alike v)
    (level : w.canvas.saved = [] ∨ Performed.behindPop 0 ps = none) :
    ∃ v', Brings v (Performed.remaining ps) v' ∧ w'.Alike v' ∧
      v'.canvas.saved.length = v.canvas.saved.length + (Performed.remaining ps).countP (·.opens) := by
  fun_induction Performed.remaining ps generalizing w v with
  | case1 =>
    cases brings
    exact ⟨v, .nil, alike, rfl⟩
  | case2 p ps opens rest found ih =>
    cases brings with
    | @cons _ _ c _ more =>
      have stack : (c.after w).canvas.saved = [] ++ w.canvas.context :: w.canvas.saved := by
        rw [CanvasCall.after_of_opens opens]
        rfl
      obtain ⟨m, onward, sight, saved⟩ := more.behindPop found [] rfl stack
      have restored : m.Alike v := by
        refine ⟨?_, saved.trans alike.saved⟩
        rw [sight, c.after_heap]
        exact alike.sight
      refine ih onward restored ?_
      rcases level with empty | none
      · exact .inl (saved.trans empty)
      · right
        rwa [Performed.behindPop, if_pos opens, behindPop_succ, found] at none
  | case3 p ps opens unmatched ih =>
    cases brings with
    | @cons _ _ c _ more =>
      obtain ⟨v', onward, alike', count⟩ := ih more (alike.after c) (.inr unmatched)
      rw [CanvasCall.perform_eq alike.sight] at opens ⊢
      refine ⟨v', .cons onward, alike', ?_⟩
      rw [count, CanvasCall.after_of_opens opens, List.countP_cons_of_pos opens]
      exact Nat.add_right_comm _ 1 _
  | case4 p ps opens closes ih =>
    cases brings with
    | @cons _ _ c _ more =>
      have empty : w.canvas.saved = [] := by
        refine level.resolve_right fun none => ?_
        rw [Performed.behindPop, if_neg opens, if_pos closes] at none
        cases none
      have stays : c.after w = w := by
        rw [CanvasCall.after_of_closes closes, Canvas.pop, empty]
      rw [stays] at more
      exact ih more alike (.inl empty)
  | case5 p ps opens closes ih =>
    cases brings with
    | @cons _ _ c _ more =>
      have saved := CanvasCall.after_saved opens closes
      have level' : (c.after w).canvas.saved = [] ∨ Performed.behindPop 0 ps = none := by
        rw [saved]
        rwa [Performed.behindPop, if_neg opens, if_neg closes] at level
      obtain ⟨v', onward, alike', count⟩ := ih more (alike.after c) level'
      rw [CanvasCall.perform_eq alike.sight] at opens closes ⊢
      refine ⟨v', .cons onward, alike', ?_⟩
      rw [count, CanvasCall.after_saved opens closes, List.countP_cons_of_neg opens]

end Brings

/-- A push and its pop put the context back. From a canvas without saved contexts, calls of any names and with any
    values leave the context that they leave without the stretches from a push to its pop and without the pops that
    match no push. One context is saved for each push that is left, and every call that is left succeeds or fails as
    it did and draws the shapes that it drew. -/
theorem scopes_restore_context (calls : List CanvasCall) (w : World) (empty : w.canvas.saved = []) :
    let kept := Performed.remaining (CanvasCall.trace calls w)
    let without := CanvasCall.run (kept.map (·.call)) w
    (CanvasCall.run calls w).canvas.context = without.canvas.context ∧
      (CanvasCall.run calls w).canvas.saved = without.canvas.saved ∧
      (CanvasCall.run calls w).canvas.saved.length = kept.countP (·.opens) ∧
      CanvasCall.trace (kept.map (·.call)) w = kept := by
  obtain ⟨v, brings, alike, count⟩ := (Brings.trace calls w).remaining ⟨rfl, rfl⟩ (.inl empty)
  obtain ⟨told, rfl⟩ := brings.eq_trace
  refine ⟨congrArg Prod.snd alike.sight, alike.saved, ?_, told.symm⟩
  rw [alike.saved, count, empty]
  exact Nat.zero_add _

/-- A pop too many, nested scopes with calls that fail, an unknown name, and an open push. -/
def nestedCalls : List CanvasCall :=
  [⟨"pop", []⟩, ⟨"push", []⟩, ⟨"noFill", []⟩, ⟨"push", [.nil]⟩, ⟨"push", []⟩, ⟨"textSize", []⟩, ⟨"pop", []⟩,
    ⟨"pop", []⟩, ⟨"turn", []⟩, ⟨"push", []⟩, ⟨"point", [.num 1, .num 2]⟩]

theorem nestedCalls_restore_context :
    let w : World := ⟨⟨#[], #[]⟩, .fresh default (0.0, 0.0)⟩
    let kept := Performed.remaining (CanvasCall.trace nestedCalls w)
    w.canvas.saved = [] ∧ kept.map (·.call.name) = ["turn", "push", "point"] ∧
      (CanvasCall.run nestedCalls w).canvas.context = w.canvas.context ∧
      (CanvasCall.run nestedCalls w).canvas.saved.length = 1 ∧
      CanvasCall.trace (kept.map (·.call)) w = kept := by
  intro w kept
  have told : CanvasCall.trace nestedCalls w = [⟨⟨"pop", []⟩, true, []⟩, ⟨⟨"push", []⟩, true, []⟩,
      ⟨⟨"noFill", []⟩, true, []⟩, ⟨⟨"push", [.nil]⟩, false, []⟩, ⟨⟨"push", []⟩, true, []⟩,
      ⟨⟨"textSize", []⟩, false, []⟩, ⟨⟨"pop", []⟩, true, []⟩, ⟨⟨"pop", []⟩, true, []⟩, ⟨⟨"turn", []⟩, false, []⟩,
      ⟨⟨"push", []⟩, true, []⟩, ⟨⟨"point", [.num 1, .num 2]⟩, true, [⟨.point (1, 2), .initial, .identity⟩]⟩] := rfl
  have left : kept = [⟨⟨"turn", []⟩, false, []⟩, ⟨⟨"push", []⟩, true, []⟩,
      ⟨⟨"point", [.num 1, .num 2]⟩, true, [⟨.point (1, 2), .initial, .identity⟩]⟩] := by
    simp [kept, told, Performed.remaining, Performed.behindPop, Performed.opens, Performed.closes]
  obtain ⟨context, -, saved, same⟩ := scopes_restore_context nestedCalls w rfl
  refine ⟨rfl, by rw [left]; rfl, ?_, ?_, same⟩
  · rw [context]
    change (CanvasCall.run (kept.map (·.call)) w).canvas.context = _
    rw [left]
    rfl
  · rw [saved]
    change kept.countP (·.opens) = 1
    rw [left]
    rfl

end Sketch
