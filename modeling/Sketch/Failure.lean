import Sketch.Number.Spelling
import Sketch.Syntax
import Sketch.Value

/-!
Why a running sketch fails. A cause is the reason, and its kind and wording follow from it; a failure adds
the line and the calls that were active.
-/

namespace Sketch

/-- What is wrong with an encrypted text. -/
inductive CipherError where
  | missingHead | malformed
deriving DecidableEq, Repr, Inhabited

def CipherError.message : CipherError → String
  | .missingHead => "Invalid encrypted data format. Must start with \"ENC:\""
  | .malformed => "Invalid encrypted data format"

/-- The bounds and the step of a counting loop. -/
inductive LoopPart where
  | start | limit | step
deriving DecidableEq, Repr, Inhabited

/-- How messages name a part of a counting loop. -/
def LoopPart.name : LoopPart → String
  | .start => "for start"
  | .limit => "for limit"
  | .step => "for step"

/-- The reasons for which a run fails. -/
inductive Cause where
  | undefinedVariable (name : String)
  | undefinedFunction (name : String)
  | unknownLibrary (name : String)
  | noLibraryValue (library name : String)
  | outOfBounds (index : Float) (length : Nat)
  | expectsNumber (function : String) (got : ValueType)
  | badSize (width height : Float)
  | noNumbers (function : String)
  | lengthOf (got : ValueType)
  | itemOf (got : ValueType)
  | indexType (got : ValueType)
  | indexFraction (index : Float)
  | unknownButton (shown : String)
  | divisionByZero
  | moduloByZero
  | badOperands (op : BinOp) (left right : ValueType)
  | badNegation (operand : ValueType)
  | loopPart (part : LoopPart) (got : ValueType)
  | zeroStep
  | noField (got : ValueType) (name : String)
  | noMethod (got : ValueType) (name : String)
  | cannotIndex (got : ValueType)
  | cannotAssignInto (got : ValueType)
  | cannotSetField (name : String) (got : ValueType)
  | argumentCount (function : String) (least most got : Nat)
  | methodArguments (method : String) (got : Nat)
  | appendToMap
  | appendTarget
  | setItemTarget
  | cipher (e : CipherError)
  | callDepth (limit : Nat) (function : String)
deriving DecidableEq, Repr, Inhabited

/-- Kinds of causes. -/
inductive FailureKind where
  | undefined | bounds | type | arity | raised | overflow
deriving DecidableEq, Repr, Inhabited

namespace Cause

def kind : Cause → FailureKind
  | .undefinedVariable _ | .undefinedFunction _ | .unknownLibrary _ | .noLibraryValue .. => .undefined
  | .outOfBounds .. => .bounds
  | .argumentCount .. | .methodArguments .. => .arity
  | .appendToMap | .appendTarget | .setItemTarget | .cipher _ => .raised
  | .callDepth .. => .overflow
  | _ => .type

def message : Cause → String
  | .undefinedVariable name => s!"undefined variable `{name}`"
  | .undefinedFunction name => s!"undefined function `{name}`"
  | .unknownLibrary name => s!"unknown namespace `{name}`"
  | .noLibraryValue library name => s!"`{library}` has no value `{name}`"
  | .outOfBounds index length =>
    s!"Index {Number.Spelling.sketch.write index} is out of bounds. List has {length} items."
  | .expectsNumber function got => s!"`{function}` expects a number, got {got.name}"
  | .badSize width height =>
    let write := Number.Spelling.plain.write
    s!"`size` needs a positive width and height, got {write width} x {write height}"
  | .noNumbers function => s!"`{function}` needs at least one number"
  | .lengthOf got => s!"`getLength` expects a list, got {got.name}"
  | .itemOf got => s!"`getItem` expects a list, got {got.name}"
  | .indexType got => s!"list index must be a number, got {got.name}"
  | .indexFraction index =>
    s!"list index must be a whole number, got {Number.Spelling.sketch.write index}"
  | .unknownButton shown => s!"`mouseClicked` got an unknown mouse button: {shown}"
  | .divisionByZero => "division by zero"
  | .moduloByZero => "modulo by zero"
  | .badOperands op left right =>
    s!"operator `{op.symbol}` not supported for {left.name} and {right.name}"
  | .badNegation operand => s!"unary `-` not supported on {operand.name}"
  | .loopPart part got => s!"{part.name} must be a number, got {got.name}"
  | .zeroStep => "`for` step must not be 0"
  | .noField got name => s!"{got.name} has no field `{name}`"
  | .noMethod got name => s!"{got.name} has no method `{name}`"
  | .cannotIndex got => s!"cannot index {got.name}"
  | .cannotAssignInto got => s!"cannot assign into {got.name}"
  | .cannotSetField name got => s!"cannot set field `{name}` on {got.name}"
  | .argumentCount function least most got =>
    if least = most then s!"`{function}` expects {least} args, got {got}"
    else s!"`{function}` expects {least} to {most} args, got {got}"
  | .methodArguments method got => s!"`{method}` got {got} argument(s)"
  | .appendToMap => "Cannot append non-object to object. Use object syntax: obj.key = value"
  | .appendTarget => "append() only works with arrays [] or objects \x7b\x7d"
  | .setItemTarget => "setItem() only works with arrays [] or objects \x7b\x7d"
  | .cipher e => e.message
  | .callDepth limit function => s!"maximum call depth of {limit} exceeded in `{function}`"

end Cause

/-- Why a step cannot be done: a failure, which is reported, or a crash, after which a run is stuck. -/
inductive Abort where
  | cause (c : Cause)
  | crash
deriving DecidableEq, Repr, Inhabited

/-- A call that was active: its function, and the statement it was at. -/
structure TraceEntry where
  function : String
  pos : Pos
deriving DecidableEq, Repr, Inhabited

/-- A failed run: the reason, the line, and the active calls, innermost first. -/
structure Failure where
  cause : Cause
  line : Nat
  trace : List TraceEntry
deriving DecidableEq, Repr, Inhabited

namespace Failure

/-- The reason in words. -/
def message (f : Failure) : String := f.cause.message

/-- The reason with its line, when that is known. -/
def display (f : Failure) : String :=
  if f.line = 0 then f.message else s!"line {f.line}: {f.message}"

/-- The active calls, one on a line. -/
def stack (f : Failure) : String :=
  "\n".intercalate (f.trace.map fun t =>
    s!"    at {t.function} (sketch:{t.pos.line}:{t.pos.column})")

end Failure

end Sketch
