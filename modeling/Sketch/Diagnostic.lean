import Sketch.Token

/-!
What can be wrong with a source text before it runs. A fault is the reason, a diagnostic adds the place;
code and wording follow from the reason.
-/

namespace Sketch

/-- What the parser was looking for when it met a token that cannot stand there. -/
inductive Wanted where
  | expression | identifier | mapKey
deriving DecidableEq, Repr, Inhabited

/-- How a diagnostic names what was looked for. -/
def Wanted.describe : Wanted → String
  | .expression => "expression"
  | .identifier => "identifier"
  | .mapKey => "map key"

/-- Statements and expressions may nest this many levels. -/
def maxNesting : Nat := 100

/-- Why a source text is refused, or what is odd about it. A missing token stands for the end of
    the input. -/
inductive Fault where
  | unexpectedChar (c : Char)
  | halfOperator (whole half : String)
  | unterminatedString
  | unknownEscape (c : Char)
  | unexpectedToken (wanted : Wanted) (found : Option TokenKind)
  | invalidTarget
  | nestedTooDeep
  | missingToken (wanted : TokenKind) (found : Option TokenKind)
  | strayReturn
  | nestedFunction
  | duplicateFunction (name : String) (firstLine : Nat)
  | readOnlyName (name : String)
  | unknownFunction (name : String)
  | entryParameters (name : String)
  | twoFrameFunctions
deriving DecidableEq, Repr, Inhabited

/-- Codes by phase: L for tokens, P for syntax, S for meaning, W for warnings. -/
inductive Code where
  | L001 | L002 | L003 | P001 | P002 | P003 | P004 | S001 | S002 | W001 | W002 | W003
deriving DecidableEq, Repr, Inhabited

namespace Code

def text : Code → String
  | .L001 => "L001"
  | .L002 => "L002"
  | .L003 => "L003"
  | .P001 => "P001"
  | .P002 => "P002"
  | .P003 => "P003"
  | .P004 => "P004"
  | .S001 => "S001"
  | .S002 => "S002"
  | .W001 => "W001"
  | .W002 => "W002"
  | .W003 => "W003"

/-- Warnings do not keep a sketch from running. -/
def isError : Code → Bool
  | .W001 | .W002 | .W003 => false
  | _ => true

end Code

namespace Fault

def code : Fault → Code
  | .unexpectedChar _ | .halfOperator .. => .L001
  | .unterminatedString => .L002
  | .unknownEscape _ => .L003
  | .unexpectedToken .. | .invalidTarget | .nestedTooDeep => .P001
  | .missingToken .. => .P002
  | .strayReturn => .P003
  | .nestedFunction => .P004
  | .duplicateFunction .. => .S001
  | .readOnlyName _ => .S002
  | .unknownFunction _ => .W001
  | .entryParameters _ => .W002
  | .twoFrameFunctions => .W003

/-- What was found, a missing token being the end of the input. -/
def describeFound : Option TokenKind → String
  | some kind => kind.describe
  | none => "end of input"

def message : Fault → String
  | .unexpectedChar c => s!"unexpected character `{c}`"
  | .halfOperator whole half => s!"expected `{whole}`, bare `{half}` is not valid"
  | .unterminatedString => "unterminated string literal"
  | .unknownEscape c => s!"unknown escape sequence `\\{c}`"
  | .unexpectedToken wanted found => s!"expected {wanted.describe}, found {describeFound found}"
  | .invalidTarget => "invalid assignment target"
  | .nestedTooDeep => s!"nested more than {maxNesting} levels deep"
  | .missingToken wanted found => s!"expected {wanted.describe}, found {describeFound found}"
  | .strayReturn => "`return` outside of a function"
  | .nestedFunction => "function declarations are only allowed at the top level"
  | .duplicateFunction name firstLine =>
    s!"function `{name}` is already declared on line {firstLine}"
  | .readOnlyName name => s!"`{name}` is read-only"
  | .unknownFunction name => s!"unknown function `{name}`"
  | .entryParameters name => s!"`{name}` is called without arguments; its parameters will be nil"
  | .twoFrameFunctions => "both `loop` and `draw` are declared; only `loop` will run"

end Fault

/-- A fault and its place. -/
structure Diagnostic where
  fault : Fault
  pos : Pos
deriving DecidableEq, Repr, Inhabited

namespace Diagnostic

def code (d : Diagnostic) : Code := d.fault.code

def message (d : Diagnostic) : String := d.fault.message

/-- Whether the sketch cannot run because of it. -/
def isError (d : Diagnostic) : Bool := d.code.isError

/-- Code, place and wording on one line. -/
def display (d : Diagnostic) : String :=
  s!"[{d.code.text}] line {d.pos.line}:{d.pos.column}: {d.message}"

end Diagnostic

end Sketch
