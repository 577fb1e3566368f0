import Sketch.Proofs.Machine.Stack
import Sketch.Proofs.Machine.Writes

/-!
What a step can do to what is to be done: it passes from one state of a statement to another, makes a call where a
value is awaited, or returns from one.
-/

namespace Sketch

/-- What a step does apart from moving on in the program. -/
inductive Turn where
  | moves
  | assigns (name : String) (v : Value)
  | calls (f : FnDef) (args : List Value)
  | returns
  | uses (f : Builtin) (values : List Value)

/-- Whether a turn leaves the active calls. -/
def Turn.stays : Turn → Bool
  | .calls .. | .returns => false
  | .moves | .assigns .. | .uses .. => true

/-- Whether a statement is a loop with a test. -/
def Stmt.hasTest : Stmt → Bool
  | .whileDo .. | .clauses .. => true
  | _ => false

namespace Cont

/-- Whether a continuation awaits a part of an expression. -/
def isPart : Cont → Bool
  | .connective .. | .rightOperand .. | .applyBin .. | .applyUn .. | .gather .. | .methodArgs .. | .readField ..
  | .indexKey .. | .readIndex .. | .mapEntry .. => true
  | _ => false

/-- Whether a continuation awaits the value of an expression right in a statement. -/
def isOwn : Cont → Bool
  | .assignKey .. | .assignIndex .. | .assignField .. | .write .. | .branch .. | .countStart .. | .countStop ..
  | .countStep .. | .whileTest .. | .clausesTest .. | .giveBack => true
  | _ => false

/-- Whether a continuation awaits a value. -/
def awaits (k : Cont) : Bool := k.isPart || k.isOwn

/-- Whether a continuation awaits the value of the test of a loop. -/
def isTest : Cont → Bool
  | .whileTest .. | .clausesTest _ => true
  | _ => false

/-- Whether a continuation belongs to a loop with a test. -/
def ofTested : Cont → Bool
  | .whileTest .. | .whileNext .. | .clausesStart _ | .clausesTest _ | .clausesStep _ => true
  | _ => false

/-- Whether a continuation is that of a loop behind its body or one of its clauses. -/
def isHead : Cont → Bool
  | .countNext .. | .whileNext .. | .clausesStart _ | .clausesStep _ => true
  | _ => false

variable {k : Cont}

theorem awaits_of_isPart (part : k.isPart = true) : k.awaits = true := by simp [awaits, part]

theorem awaits_of_isOwn (own : k.isOwn = true) : k.awaits = true := by simp [awaits, own]

theorem isBorder_of_awaits (awaited : k.awaits = true) : k.isBorder = false := by
  cases k with
  | callEnd | entry => cases awaited
  | _ => rfl

/-- A part of an expression has nothing to write to. -/
theorem writesOnly_of_isPart (part : k.isPart = true) (P : String → Prop) : k.WritesOnly P := by
  cases k <;> trivial

theorem ofTested_of_isPart (part : k.isPart = true) : k.ofTested = false := by
  cases k <;> first | rfl | cases part

theorem isTest_of_isPart (part : k.isPart = true) : k.isTest = false := by
  cases k <;> first | rfl | cases part

theorem isPart_of_isOwn (own : k.isOwn = true) : k.isPart = false := by
  cases k <;> first | rfl | cases own

theorem ofTested_of_isOwn (own : k.isOwn = true) : k.ofTested = k.isTest := by
  cases k <;> first | rfl | cases own

end Cont

namespace Control

/-- Whether a value is being found or is there. -/
def isValue : Control → Bool
  | .eval _ | .deliver _ => true
  | _ => false

/-- Whether a statement is done or a call returns. -/
def isDone : Control → Bool
  | .proceed | .unwind _ => true
  | _ => false

/-- The continuations that a value on its way through an expression uses. -/
inductive Uses : Control → List Cont → Prop where
  | eval (e : Expr) : Uses (.eval e) []
  | deliver (v : Value) {k : Cont} (part : k.isPart = true) : Uses (.deliver v) [k]

/-- The continuations that are used when a statement begins, has a value or is done. -/
inductive Leaves : Control → List Cont → Bool → Prop where
  | exec (s : Stmt) : Leaves (.exec s) [] s.hasTest
  | deliver (v : Value) {k : Cont} (own : k.isOwn = true) : Leaves (.deliver v) [k] k.ofTested
  | done {control : Control} (done : control.isDone = true) {k : Cont} (other : k.isCallEnd = false) :
      Leaves control [k] k.ofTested

/-- The continuations that are used when a statement is about to evaluate an expression. -/
inductive Opens : Control → List Cont → Bool → Prop where
  | exec (s : Stmt) : Opens (.exec s) [] s.hasTest
  | deliver (v : Value) {k : Cont} (own : k.isOwn = true) (other : k.isTest = false) : Opens (.deliver v) [k] false
  | done {control : Control} (done : control.isDone = true) {k : Cont} (tested : k.ofTested = true) :
      Opens control [k] true

/-- The continuations that are used where a step can fail. -/
inductive Ventures : Control → List Cont → Prop where
  | exec (s : Stmt) : Ventures (.exec s) []
  | eval (e : Expr) : Ventures (.eval e) []
  | deliver (v : Value) {k : Cont} (awaited : k.awaits = true) : Ventures (.deliver v) [k]
  | entry (name : String) : Ventures .proceed [.entry name]

variable {control : Control} {used : List Cont} {tested : Bool}

theorem Uses.ventures (uses : control.Uses used) : control.Ventures used := by
  cases uses with
  | eval e => exact .eval e
  | deliver v part => exact .deliver v (Cont.awaits_of_isPart part)

theorem Ventures.own (ventures : control.Ventures used) : ∀ k ∈ used, k.isCallEnd = false := by
  cases ventures with
  | exec | eval => exact List.forall_mem_nil _
  | deliver v awaited => exact List.forall_mem_singleton.mpr (Cont.isCallEnd_of_inner (Cont.isBorder_of_awaits awaited))
  | entry => exact List.forall_mem_singleton.mpr rfl

theorem Leaves.own (leaves : control.Leaves used tested) : ∀ k ∈ used, k.isCallEnd = false := by
  cases leaves with
  | exec => exact List.forall_mem_nil _
  | deliver v own =>
    exact List.forall_mem_singleton.mpr (Cont.isCallEnd_of_inner (Cont.isBorder_of_awaits (Cont.awaits_of_isOwn own)))
  | done _ other => exact List.forall_mem_singleton.mpr other

theorem Opens.leaves (opens : control.Opens used tested) : control.Leaves used tested := by
  cases opens with
  | exec s => exact .exec s
  | deliver v own other =>
    rw [← other, ← Cont.ofTested_of_isOwn own]
    exact .deliver v own
  | @done control done k tested =>
    rw [← tested]
    apply Leaves.done done
    cases k <;> first | rfl | cases tested

end Control

/-- The continuations that a statement leaves for its body or its clauses. -/
inductive Lays (tested : Bool) : List Cont → Prop where
  | nothing : Lays tested []
  | head {k : Cont} (head : k.isHead = true) (ofTested : k.ofTested = true → tested = true) : Lays tested [k]
  | block (body : List Stmt) {ks : List Cont} (lays : Lays tested ks) : Lays tested (.block body :: ks)

theorem Lays.inner {tested : Bool} {new : List Cont} (lays : Lays tested new) :
    ∀ k ∈ new, k.isBorder = false ∧ k.awaits = false := by
  induction lays with
  | nothing => exact List.forall_mem_nil _
  | @head k head =>
    rw [List.forall_mem_singleton]
    cases k <;> first | exact ⟨rfl, rfl⟩ | cases head
  | block body _ ih => exact List.forall_mem_cons.mpr ⟨⟨rfl, rfl⟩, ih⟩

/-- A step within a call, by the continuations that it uses and those that it leaves. -/
inductive Works : Control → List Cont → Control → List Cont → Prop where
  /-- An expression goes on. -/
  | values {control control' : Control} {used new : List Cont} (uses : control.Uses used)
      (parts : ∀ k ∈ new, k.isPart = true) (value : control'.isValue = true) : Works control used control' new
  /-- A statement that is an expression begins. -/
  | begins (e : Expr) : Works (.exec (.eval e)) [] (.eval e) []
  /-- A statement evaluates an expression that stands in it. -/
  | evaluates {control : Control} {used : List Cont} {tested : Bool} (opens : control.Opens used tested) (e : Expr)
      {k : Cont} (own : k.isOwn = true) (test : k.isTest = tested) (keeps : control.Keeps used (k.WritesOnly ·)) :
      Works control used (.eval e) [k]
  /-- A statement is done, or others are to be done before it is. -/
  | moves {control control' : Control} {used new : List Cont} {tested : Bool} (leaves : control.Leaves used tested)
      (still : control'.isValue = false) (lays : Lays tested new)
      (keeps : control.Keeps used fun P => control'.WritesOnly P ∧ ∀ k ∈ new, k.WritesOnly P) :
      Works control used control' new

namespace Works

variable {control control' : Control} {used new : List Cont} {tested : Bool}

/-- A statement is done. -/
theorem done (leaves : control.Leaves used tested) (done : control'.isDone = true) : Works control used control' [] := by
  cases control' with
  | proceed | unwind => exact .moves leaves rfl .nothing fun _ _ _ => ⟨trivial, List.forall_mem_nil _⟩
  | eval | exec | deliver => cases done

theorem keeps (works : Works control used control' new) :
    control.Keeps used fun P => control'.WritesOnly P ∧ ∀ k ∈ new, k.WritesOnly P := by
  cases works with
  | values _ parts value =>
    refine fun P _ _ => ⟨?_, fun k mem => Cont.writesOnly_of_isPart (parts k mem) P⟩
    cases control' with
    | exec => cases value
    | eval | deliver | proceed | unwind => trivial
  | begins => exact fun _ _ _ => ⟨trivial, List.forall_mem_nil _⟩
  | evaluates _ _ _ _ keeps =>
    exact fun P own writes => ⟨trivial, List.forall_mem_singleton.mpr (keeps P own writes)⟩
  | moves _ _ _ keeps => exact keeps

/-- Work within a call uses no end of a call, and leaves none. -/
theorem inner (works : Works control used control' new) :
    (∀ k ∈ used, k.isCallEnd = false) ∧ ∀ k ∈ new, k.isBorder = false := by
  cases works with
  | values uses parts _ =>
    exact ⟨uses.ventures.own, fun k mem => Cont.isBorder_of_awaits (Cont.awaits_of_isPart (parts k mem))⟩
  | begins => exact ⟨List.forall_mem_nil _, List.forall_mem_nil _⟩
  | evaluates opens e own =>
    exact ⟨opens.leaves.own, List.forall_mem_singleton.mpr (Cont.isBorder_of_awaits (Cont.awaits_of_isOwn own))⟩
  | moves leaves _ lays => exact ⟨leaves.own, fun k mem => (lays.inner k mem).1⟩

end Works

/-- What a step does to control and continuations, by its turn. -/
inductive Passes : Control → List Cont → Turn → Control → List Cont → Prop where
  | works {control control' : Control} {used new : List Cont} {t : Turn} (stays : t.stays = true)
      (works : Works control used control' new) : Passes control used t control' new
  /-- A value that is not awaited is dropped. -/
  | drops (v : Value) {k : Cont} (other : k.awaits = false) : Passes (.deliver v) [k] .moves .proceed [k]
  /-- A statement that is done counts as nil where a value is awaited. -/
  | counts {k : Cont} (awaited : k.awaits = true) : Passes .proceed [k] .moves (.deliver .nil) [k]
  /-- A return outside of all calls is at its end. -/
  | outside (v : Value) (name : String) : Passes (.unwind v) [.entry name] .moves .proceed [.entry name]
  | calls {control : Control} {used : List Cont} {f : FnDef} {args : List Value} (uses : control.Uses used) :
      Passes control used (.calls f args) .proceed [.block f.body, .callEnd]
  | enters {name : String} {f : FnDef} :
      Passes .proceed [.entry name] (.calls f []) .proceed [.block f.body, .callEnd]
  | returns {control : Control} (done : control.isDone = true) (v : Value) :
      Passes control [.callEnd] .returns (.deliver v) []

/-- Where a call is made, its function writes to other names. -/
theorem Passes.keeps {control control' : Control} {used new : List Cont} {t : Turn}
    (passes : Passes control used t control' new) {P : String → Prop}
    (bodies : ∀ f args, t = .calls f args → BlockWritesOnly P f.body) (own : control.WritesOnly P)
    (writes : ∀ k ∈ used, k.WritesOnly P) : control'.WritesOnly P ∧ ∀ k ∈ new, k.WritesOnly P := by
  cases passes with
  | works _ works => exact works.keeps P own writes
  | drops | counts | outside => exact ⟨trivial, writes⟩
  | calls | enters =>
    exact ⟨trivial, List.forall_mem_cons.mpr ⟨bodies _ _ rfl, List.forall_mem_singleton.mpr trivial⟩⟩
  | returns => exact ⟨trivial, List.forall_mem_nil _⟩

end Sketch
