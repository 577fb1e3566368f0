import Sketch.Failure
import Sketch.Heap

/-!
Operators on values. Numbers have arithmetic and order; texts have order, and a text joins with anything.
-/

namespace Sketch

/-- Arithmetic and order of numbers, division by zero being a failure. -/
def BinOp.onNumbers (op : BinOp) (x y : Float) : Option (Except Cause Value) :=
  match op with
  | .add => some (.ok (.num (x + y)))
  | .sub => some (.ok (.num (x - y)))
  | .mul => some (.ok (.num (x * y)))
  | .div => some (if y == 0.0 then .error .divisionByZero else .ok (.num (x / y)))
  | .mod => some (if y == 0.0 then .error .moduloByZero else .ok (.num (Number.remainder x y)))
  | .lt => some (.ok (.bool (x < y)))
  | .le => some (.ok (.bool (x ≤ y)))
  | .gt => some (.ok (.bool (y < x)))
  | .ge => some (.ok (.bool (y ≤ x)))
  | .eq | .ne | .and | .or => none

/-- The order of texts, by code points. -/
def BinOp.onTexts (op : BinOp) (s t : String) : Option Value :=
  match op with
  | .lt => some (.bool (s < t))
  | .le => some (.bool (!decide (t < s)))
  | .gt => some (.bool (t < s))
  | .ge => some (.bool (!decide (s < t)))
  | _ => none

/-- The value of an operator that needs both operands. -/
def BinOp.apply (h : Heap) (op : BinOp) (a b : Value) : Except Cause Value :=
  match op with
  | .eq => .ok (.bool (a.equal b))
  | .ne => .ok (.bool (!a.equal b))
  | op =>
    let refused : Except Cause Value := .error (.badOperands op a.type b.type)
    match a, b with
    | .num x, .num y => (op.onNumbers x y).getD refused
    | a, b =>
      if op = .add ∧ (a.type = .string ∨ b.type = .string) then .ok (.str (h.display a ++ h.display b))
      else
        match a, b with
        | .str s, .str t =>
          match op.onTexts s t with
          | some v => .ok v
          | none => refused
        | _, _ => refused

/-- The value of an operator with one operand. -/
def UnOp.apply (op : UnOp) (v : Value) : Except Cause Value :=
  match op, v with
  | .not, v => .ok (.bool (!v.truthy))
  | .neg, .num x => .ok (.num (-x))
  | .neg, v => .error (.badNegation v.type)

end Sketch
