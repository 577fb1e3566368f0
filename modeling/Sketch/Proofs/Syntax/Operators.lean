import Sketch.Syntax.Parser

/-!
The tokens of operators, and the tiers in which the parser reads them, from the loosest to the tightest.
-/

namespace Sketch

namespace BinOp

def token : BinOp → TokenKind
  | .add => .punct .plus
  | .sub => .punct .minus
  | .mul => .punct .star
  | .div => .punct .slash
  | .mod => .punct .percent
  | .eq => .punct .eqEq
  | .ne => .punct .bangEq
  | .lt => .punct .lt
  | .le => .punct .ltEq
  | .gt => .punct .gt
  | .ge => .punct .gtEq
  | .and => .keyword .andKw
  | .or => .keyword .orKw

/-- The token of an assignment that combines values, for each of the four basic operators. -/
def assignToken? : BinOp → Option TokenKind
  | .add => some (.punct .plusEq)
  | .sub => some (.punct .minusEq)
  | .mul => some (.punct .starEq)
  | .div => some (.punct .slashEq)
  | _ => none

/-- How tightly an operator binds. -/
def tier : BinOp → Nat
  | .or => 0
  | .and => 1
  | .eq | .ne => 2
  | .lt | .le | .gt | .ge => 3
  | .add | .sub => 4
  | .mul | .div | .mod => 5

/-- The operator that a token stands for between two operands. -/
def ofToken? : TokenKind → Option BinOp
  | .punct .plus => some .add
  | .punct .minus => some .sub
  | .punct .star => some .mul
  | .punct .slash => some .div
  | .punct .percent => some .mod
  | .punct .eqEq => some .eq
  | .punct .bangEq => some .ne
  | .punct .lt => some .lt
  | .punct .ltEq => some .le
  | .punct .gt => some .gt
  | .punct .gtEq => some .ge
  | .keyword .andKw => some .and
  | .keyword .orKw => some .or
  | _ => none

@[simp] theorem ofToken?_token (op : BinOp) : ofToken? op.token = some op := by
  cases op <;> rfl

theorem token_of_ofToken? {kind : TokenKind} {op : BinOp} (found : ofToken? kind = some op) : kind = op.token := by
  cases kind with
  | number | bool | string | ident => cases found
  | keyword word =>
    cases word
    case andKw | orKw => obtain rfl := Option.some.inj found; rfl
    all_goals cases found
  | punct symbol =>
    cases symbol
    case plus | minus | star | slash | percent | eqEq | bangEq | lt | ltEq | gt | gtEq =>
      obtain rfl := Option.some.inj found
      rfl
    all_goals cases found

theorem tier_lt (op : BinOp) : op.tier < 6 := by
  cases op <;> decide

end BinOp

def UnOp.token : UnOp → TokenKind
  | .neg => .punct .minus
  | .not => .keyword .notKw

namespace Parser

def tierOps (tier : Nat) (kind : TokenKind) : Option BinOp :=
  (BinOp.ofToken? kind).filter (·.tier = tier)

theorem tierOps_eq_some {tier : Nat} {kind : TokenKind} {op : BinOp} :
    tierOps tier kind = some op ↔ kind = op.token ∧ op.tier = tier := by
  rw [tierOps, Option.filter_eq_some_iff, decide_eq_true_iff]
  constructor
  · rintro ⟨found, same⟩
    exact ⟨BinOp.token_of_ofToken? found, same⟩
  · rintro ⟨rfl, same⟩
    exact ⟨BinOp.ofToken?_token op, same⟩

/-- The tiers of the parser, from the loosest to the tightest. -/
theorem operators_eq_foldr (unary : Parse Expr) : operators unary = ((List.range 6).map tierOps).foldr chain unary := by
  have tiers : [orOps, andOps, equalityOps, orderOps, sumOps, productOps] =
      [tierOps 0, tierOps 1, tierOps 2, tierOps 3, tierOps 4, tierOps 5] := by
    congr
    all_goals
      funext kind
      cases kind with
      | number | bool | string | ident => rfl
      | keyword word => cases word <;> rfl
      | punct symbol => cases symbol <;> rfl
  exact congrArg (List.foldr chain unary) tiers

end Parser

end Sketch
