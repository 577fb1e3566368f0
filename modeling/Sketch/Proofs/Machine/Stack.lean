import Sketch.Machine.Run

/-!
What one step does to the continuations and the active calls: it replaces some of the innermost continuations, begins
a call on top of all that was active, or ends the innermost call.
-/

namespace Sketch

def Cont.isCallEnd : Cont → Bool
  | .callEnd => true
  | _ => false

/-- Whether a continuation stands between two calls. -/
def Cont.isBorder : Cont → Bool
  | .callEnd | .entry _ => true
  | _ => false

theorem Cont.isCallEnd_of_inner {k : Cont} (inner : k.isBorder = false) : k.isCallEnd = false := by
  cases k with
  | callEnd | entry => cases inner
  | _ => rfl

/-- If a step goes on, or is to go on after a pause, its machine has a property. -/
def Step.Goes (P : Machine → Prop) : Step → Prop
  | .next m | .paused _ m => P m
  | .finished _ | .failed .. | .crashed _ => True

theorem Step.Goes.and {P Q : Machine → Prop} {s : Step} (first : s.Goes P) (second : s.Goes Q) :
    s.Goes fun m => P m ∧ Q m := by
  cases s with
  | next m | paused p m => exact ⟨first, second⟩
  | finished | failed | crashed => trivial

theorem Step.Goes.mono {P Q : Machine → Prop} {s : Step} (goes : s.Goes P) (all : ∀ m, P m → Q m) : s.Goes Q := by
  cases s with
  | next m | paused p m => exact all m goes
  | finished | failed | crashed => trivial

namespace Machine

/-- The stack changes within the innermost call, which may move on or change its parameters. -/
inductive Within (m : Machine) : Machine → Prop
  | of {m' : Machine} {used more rest : List Cont} (was : m.conts = used ++ rest)
      (becomes : m'.conts = more ++ rest) (own : ∀ k ∈ used, k.isCallEnd = false)
      (inner : ∀ k ∈ more, k.isBorder = false)
      (depth : m'.frames.length = m.frames.length) (below : m'.frames.tail = m.frames.tail) : Within m m'

/-- Of what is to be done, at most something of the innermost call is used. -/
def Spends (m : Machine) (conts : List Cont) : Prop :=
  ∃ used, m.conts = used ++ conts ∧ ∀ k ∈ used, k.isCallEnd = false

/-- Nothing is used. -/
theorem Spends.none (m : Machine) : m.Spends m.conts := ⟨[], rfl, List.forall_mem_nil _⟩

/-- A call begins, after some continuations of the innermost call are used. -/
inductive Calls (m : Machine) : Machine → Prop
  | of {m' : Machine} {used rest : List Cont} {body : List Stmt} {frame : CallFrame}
      (was : m.conts = used ++ rest) (becomes : m'.conts = .block body :: .callEnd :: rest)
      (own : ∀ k ∈ used, k.isCallEnd = false) (frames : m'.frames = frame :: m.frames) : Calls m m'

/-- The innermost call ends. -/
structure Ends (m m' : Machine) : Prop where
  conts : m.conts = .callEnd :: m'.conts
  frames : m'.frames = m.frames.tail

/-- The ways in which a stack changes. -/
inductive Shifts (m : Machine) (m' : Machine) : Prop
  | within (stays : Within m m')
  | calls (begins : Calls m m')
  | ends (ended : Ends m m')

/-! ### The way out of a run -/

/-- The active calls as a failure shows them. -/
def trace (m : Machine) : List TraceEntry := m.frames.map CallFrame.entry

/-- What ends a run takes one frame with it for each end of a call. -/
theorem escape_eq {α : Type} (note : CallFrame → α → α) {m : Machine} {inner rest : List Cont}
    (conts : m.conts = inner ++ rest) (a : α) : m.escape note inner.length a =
      ((m.frames.take (inner.countP Cont.isCallEnd)).foldl (fun a f => note f a) a,
        { m with conts := rest, frames := m.frames.drop (inner.countP Cont.isCallEnd) }) := by
  induction inner generalizing m a with
  | nil =>
    rw [List.nil_append] at conts
    rw [← conts]
    rfl
  | cons k inner ih =>
    rw [List.length_cons, escape]
    cases k with
    | callEnd =>
      rw [List.countP_cons_of_pos rfl]
      cases m.frames <;> simp [conts, ih]
    | _ => simp [conts, ih, Cont.isCallEnd]

/-- What ends a run goes on from wherever it has come to. -/
theorem escape_add {α : Type} (note : CallFrame → α → α) (past more : Nat) (a : α) (m : Machine) :
    m.escape note (past + more) a = (m.escape note past a).2.escape note more (m.escape note past a).1 := by
  induction past generalizing m a with
  | zero => rw [Nat.zero_add, escape]
  | succ past ih =>
    rw [Nat.succ_add, escape, escape]
    split <;> exact ih ..

theorem foldl_outOf (frames : List CallFrame) (f : Failure) :
    frames.foldl (fun f frame => f.outOf frame) f = { f with trace := f.trace ++ frames.map CallFrame.entry } := by
  induction frames generalizing f with
  | nil => simp
  | cons frame frames ih =>
    rw [List.foldl_cons, ih]
    simp [Failure.outOf]

section Escape

variable (m : Machine)

/-- A failure shows the calls that it ends, innermost first. -/
theorem fail_eq (line : Nat) (c : Cause) : m.fail line c =
    .failed ⟨c, line, (m.frames.take (m.conts.countP Cont.isCallEnd)).map CallFrame.entry⟩
      { m with control := .proceed, conts := [], frames := m.frames.drop (m.conts.countP Cont.isCallEnd) } := by
  rw [fail, escape_eq Failure.outOf (List.append_nil m.conts).symm, foldl_outOf]
  rfl

theorem abandon_eq : m.abandon =
    { m with control := .proceed, conts := [], frames := m.frames.drop (m.conts.countP Cont.isCallEnd) } := by
  rw [abandon, escape_eq _ (List.append_nil m.conts).symm]
  rfl

@[simp] theorem abandon_world : m.abandon.world = m.world := by
  rw [abandon_eq]

end Escape

section Fields

variable (m : Machine) (name : String) (v : Value) (pos : Pos)

@[simp] theorem assign_conts : (m.assign name v).conts = m.conts := by
  rw [assign]
  split
  · split <;> rfl
  · rfl

@[simp] theorem assign_length : (m.assign name v).frames.length = m.frames.length := by
  rw [assign]
  split
  case h_1 frames => split <;> simp [frames]
  case h_2 => rfl

@[simp] theorem assign_tail : (m.assign name v).frames.tail = m.frames.tail := by
  rw [assign]
  split
  case h_1 frames => split <;> simp [frames]
  case h_2 => rfl

@[simp] theorem moveTo_conts : (m.moveTo pos).conts = m.conts := by
  rw [moveTo]
  split <;> rfl

@[simp] theorem moveTo_length : (m.moveTo pos).frames.length = m.frames.length := by
  rw [moveTo]
  split
  case h_1 frames => simp [frames]
  case h_2 => rfl

@[simp] theorem moveTo_tail : (m.moveTo pos).frames.tail = m.frames.tail := by
  rw [moveTo]
  split
  case h_1 frames => simp [frames]
  case h_2 => rfl

end Fields

section Steps

variable {P : Machine → Prop}

theorem fail_goes (m : Machine) (line : Nat) (c : Cause) : (m.fail line c).Goes P := trivial

theorem perform_goes {α : Type} {m : Machine} {line : Nat} {action : Action α} {k : α → Machine → Step}
    (goes : ∀ a world, (k a { m with world }.flush).Goes P) : (m.perform line action k).Goes P := by
  rw [perform]
  split
  case h_1 a world _ => exact goes a world
  case h_2 => exact fail_goes _ _ _
  case h_3 => trivial

end Steps

end Machine

end Sketch
