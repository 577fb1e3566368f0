import Sketch.Position

/-!
Programs of the sketch language. Every node keeps the position that diagnostics and traces point at.
-/

namespace Sketch

/-- Operators between two operands. A connective may leave its right operand alone. -/
inductive BinOp where
  | add | sub | mul | div | mod | eq | ne | lt | le | gt | ge | and | or
deriving DecidableEq, Repr, Inhabited

/-- The symbol of an operator in messages. -/
def BinOp.symbol : BinOp → String
  | .add => "+"
  | .sub => "-"
  | .mul => "*"
  | .div => "/"
  | .mod => "%"
  | .eq => "=="
  | .ne => "!="
  | .lt => "<"
  | .le => "<="
  | .gt => ">"
  | .ge => ">="
  | .and => "and"
  | .or => "or"

/-- Operators in front of one operand. -/
inductive UnOp where
  | neg | not
deriving DecidableEq, Repr, Inhabited

/-- Expressions. -/
inductive Expr where
  | num (value : Float) (pos : Pos)
  | bool (value : Bool) (pos : Pos)
  | str (text : String) (pos : Pos)
  | nil (pos : Pos)
  | ident (name : String) (pos : Pos)
  | bin (op : BinOp) (left right : Expr) (pos : Pos)
  | un (op : UnOp) (operand : Expr) (pos : Pos)
  | call (callee : String) (args : List Expr) (pos : Pos)
  | method (object : Expr) (name : String) (args : List Expr) (pos : Pos)
  | field (object : Expr) (name : String) (pos : Pos)
  | index (object key : Expr) (pos : Pos)
  | list (items : List Expr) (pos : Pos)
  | map (entries : List (String × Expr)) (pos : Pos)
deriving Inhabited

/-- The position of an expression: of its operator, its opening bracket, its receiver or its first token. -/
def Expr.pos : Expr → Pos
  | .num _ p | .bool _ p | .str _ p | .nil p | .ident _ p | .bin _ _ _ p | .un _ _ p | .call _ _ p
  | .method _ _ _ p | .field _ _ p | .index _ _ p | .list _ p | .map _ p => p

/-- What an assignment writes to. -/
inductive Target where
  | name (name : String)
  | index (object key : Expr)
  | field (object : Expr) (name : String)
deriving Inhabited

/-- Statements. An assignment with an operator combines the old value with the new one. -/
inductive Stmt where
  | declare (name : String) (init : Option Expr) (pos : Pos)
  | assign (target : Target) (op : Option BinOp) (value : Expr) (pos : Pos)
  | branch (branches : List (Expr × List Stmt)) (otherwise : Option (List Stmt)) (pos : Pos)
  | count (var : String) (start stop : Expr) (step : Option Expr) (body : List Stmt) (pos : Pos)
  | clauses (init : Option Stmt) (test : Option Expr) (step : Option Stmt) (body : List Stmt) (pos : Pos)
  | whileDo (test : Expr) (body : List Stmt) (pos : Pos)
  | ret (value : Option Expr) (pos : Pos)
  | eval (value : Expr)
deriving Inhabited

/-- The position of a statement: that of its first token, or of the expression that it is. -/
def Stmt.pos : Stmt → Pos
  | .declare _ _ p | .assign _ _ _ p | .branch _ _ p | .count _ _ _ _ _ p | .clauses _ _ _ _ p
  | .whileDo _ _ p | .ret _ p => p
  | .eval e => e.pos

/-- A parameter of a function. -/
structure Param where
  name : String
  pos : Pos
deriving DecidableEq, Repr, Inhabited

/-- A function declaration. -/
structure FnDef where
  name : String
  params : List Param
  body : List Stmt
  pos : Pos
deriving Inhabited

/-- What stands at the top level of a program. -/
inductive Item where
  | function (f : FnDef)
  | stmt (s : Stmt)
deriving Inhabited

/-- A program, in source order. -/
structure Program where
  items : List Item
deriving Inhabited

namespace Program

/-- The declared functions, in source order. -/
def functions (p : Program) : List FnDef :=
  p.items.filterMap fun
    | .function f => some f
    | .stmt _ => none

/-- The statements that run before any function is called. -/
def topLevel (p : Program) : List Stmt :=
  p.items.filterMap fun
    | .stmt s => some s
    | .function _ => none

/-- The function of a name; the first declaration counts. -/
def function? (p : Program) (name : String) : Option FnDef :=
  p.functions.find? (·.name = name)

/-- The function that runs once a frame: `loop`, or else `draw`. -/
def frameFunction? (p : Program) : Option String :=
  ["loop", "draw"].find? fun name => (p.function? name).isSome

end Program

end Sketch
