import Sketch.Builtin
import Sketch.Diagnostic
import Sketch.Syntax

/-!
Checks of a program before it runs: of its declarations first, and then of every statement and expression
in source order.
-/

namespace Sketch.Lint

/-- The functions that the engine calls itself, without arguments. -/
def entryPoints : List String := ["setup", "loop", "draw"]

/-- Faults of declarations, given the ones before them. -/
def declarationFaults (before : List FnDef) : List FnDef → List Diagnostic
  | [] => []
  | f :: rest =>
    let faults : List Diagnostic :=
      match before.find? (·.name = f.name) with
      | some first => [⟨.duplicateFunction f.name first.pos.line, f.pos⟩]
      | none =>
        if f.name ∈ entryPoints ∧ f.params ≠ [] then [⟨.entryParameters f.name, f.pos⟩] else []
    faults ++ declarationFaults (before ++ [f]) rest

/-- With both frame functions declared, the second never runs. -/
def frameFaults (p : Program) : List Diagnostic :=
  match p.function? "loop", p.function? "draw" with
  | some _, some draw => [⟨.twoFrameFunctions, draw.pos⟩]
  | _, _ => []

/-- Number of parameters of a declared function. -/
def arity? (p : Program) (name : String) : Option Nat :=
  (p.function? name).map (·.params.length)

/-- Whether a name can be called: the program declares it, or a library exports it as a function. -/
def isKnown (p : Program) (name : String) : Bool :=
  (p.function? name).isSome || Library.exported .function name

/-- A write to a reading. -/
def writeFaults (name : String) (pos : Pos) : List Diagnostic :=
  if Library.exported .reading name then [⟨.readOnlyName name, pos⟩] else []

mutual

/-- Calls of unknown functions in an expression, in source order. -/
def exprFaults (known : String → Bool) : Expr → List Diagnostic
  | .num .. | .bool .. | .str .. | .nil _ | .ident .. => []
  | .bin _ left right _ => exprFaults known left ++ exprFaults known right
  | .un _ operand _ => exprFaults known operand
  | .call callee args pos =>
    (if known callee then [] else [⟨.unknownFunction callee, pos⟩]) ++ exprsFaults known args
  | .method object _ args _ => exprFaults known object ++ exprsFaults known args
  | .field object _ _ => exprFaults known object
  | .index object key _ => exprFaults known object ++ exprFaults known key
  | .list items _ => exprsFaults known items
  | .map entries _ => entriesFaults known entries

def exprsFaults (known : String → Bool) : List Expr → List Diagnostic
  | [] => []
  | e :: rest => exprFaults known e ++ exprsFaults known rest

/-- Calls of unknown functions in the values of a map literal. -/
def entriesFaults (known : String → Bool) : List (String × Expr) → List Diagnostic
  | [] => []
  | (_, e) :: rest => exprFaults known e ++ entriesFaults known rest

end

/-- Faults of an expression that may be absent. -/
def optionFaults (known : String → Bool) : Option Expr → List Diagnostic
  | some e => exprFaults known e
  | none => []

/-- Faults of what an assignment writes to. -/
def targetFaults (known : String → Bool) (pos : Pos) : Target → List Diagnostic
  | .name name => writeFaults name pos
  | .index object key => exprFaults known object ++ exprFaults known key
  | .field object _ => exprFaults known object

mutual

/-- Faults of a statement, in source order. -/
def stmtFaults (known : String → Bool) : Stmt → List Diagnostic
  | .declare name init pos => writeFaults name pos ++ optionFaults known init
  | .assign target _ value pos => targetFaults known pos target ++ exprFaults known value
  | .branch branches otherwise _ =>
    branchesFaults known branches ++
      match otherwise with
      | some body => blockFaults known body
      | none => []
  | .count var start stop step body pos =>
    writeFaults var pos ++ exprFaults known start ++ exprFaults known stop ++ optionFaults known step
      ++ blockFaults known body
  | .clauses init test step body _ =>
    (match init with
      | some s => stmtFaults known s
      | none => [])
    ++ optionFaults known test
    ++ (match step with
      | some s => stmtFaults known s
      | none => [])
    ++ blockFaults known body
  | .whileDo test body _ => exprFaults known test ++ blockFaults known body
  | .ret value _ => optionFaults known value
  | .eval e => exprFaults known e

def blockFaults (known : String → Bool) : List Stmt → List Diagnostic
  | [] => []
  | s :: rest => stmtFaults known s ++ blockFaults known rest

def branchesFaults (known : String → Bool) : List (Expr × List Stmt) → List Diagnostic
  | [] => []
  | (test, body) :: rest => exprFaults known test ++ blockFaults known body ++ branchesFaults known rest

end

def itemFaults (known : String → Bool) : Item → List Diagnostic
  | .function f => blockFaults known f.body
  | .stmt s => stmtFaults known s

/-- All faults of a program: of its declarations, then of its bodies. -/
def lint (p : Program) : List Diagnostic :=
  declarationFaults [] p.functions ++ frameFaults p ++ p.items.flatMap (itemFaults (isKnown p))

end Sketch.Lint
