import Sketch.Proofs.Syntax.Printer
import Sketch.Proofs.Syntax.Progress

/-!
The parser reads a printed expression back. Chains of operators and postfixes are loops over the operand on their
left, so the statement about an operand is that the parser enters the loop with it.
-/

namespace Sketch.Parser

variable {line : Nat} {kinds kinds' : List TokenKind} {e : Expr}

/-! ### First tokens -/

/-- Whether an expression can begin with a token. -/
def opensExpr : TokenKind → Bool
  | .number _ | .bool _ | .string _ | .ident _ => true
  | .keyword .nilKw | .keyword .notKw => true
  | .punct .minus | .punct .lparen | .punct .lbracket | .punct .lbrace => true
  | _ => false

/-- Whether a token is an operator in front of an operand. -/
def isSign (kind : TokenKind) : Bool := kind = sym .minus || kind = kw .notKw

/-- Tokens begin with a token of some sort. -/
def BeginsWith (sort : TokenKind → Prop) (kinds : List TokenKind) : Prop :=
  ∃ kind rest, kinds = kind :: rest ∧ sort kind

theorem BeginsWith.append {sort : TokenKind → Prop} (begins : BeginsWith sort kinds)
    (more : List TokenKind) : BeginsWith sort (kinds ++ more) := by
  obtain ⟨kind, rest, rfl, holds⟩ := begins
  exact ⟨kind, rest ++ more, rfl, holds⟩

theorem BeginsWith.enclose {sort : TokenKind → Prop} (begins : BeginsWith sort kinds)
    (parenthesis : sort (sym .lparen)) (needed : Bool) : BeginsWith sort (enclose needed kinds) := by
  cases needed with
  | true => exact ⟨sym .lparen, kinds ++ [sym .rparen], rfl, parenthesis⟩
  | false => exact begins

theorem BeginsWith.ne {sort : TokenKind → Prop} {kind : TokenKind} (begins : BeginsWith sort kinds)
    (other : ¬sort kind) : BeginsWith (· ≠ kind) kinds := by
  obtain ⟨first, rest, same, holds⟩ := begins
  exact ⟨first, rest, same, fun isOther => other (isOther ▸ holds)⟩

theorem tier_le (e : Expr) : e.tier ≤ 7 := by
  cases e with
  | bin op => exact Nat.le_of_lt (Nat.lt_trans op.tier_lt (by decide))
  | un => exact Nat.le_succ 6
  | num | bool | str | nil | ident | call | method | field | index | list | map => exact Nat.le_refl 7

/-- How an expression of a tier begins. -/
def Begins (e : Expr) : Prop :=
  BeginsWith (fun kind => opensExpr kind ∧ (e.tier = 7 → isSign kind = false)) e.print

theorem Begins.receiver (begins : Begins e) :
    BeginsWith (fun kind => opensExpr kind ∧ isSign kind = false) (enclose (e.tier < 7) e.print) := by
  by_cases loose : e.tier < 7
  · rw [decide_eq_true loose]
    exact ⟨_, _, rfl, rfl, rfl⟩
  · have tight : e.tier = 7 := Nat.le_antisymm (tier_le e) (Nat.not_lt.mp loose)
    rw [decide_eq_false loose]
    obtain ⟨kind, rest, same, opens, noSign⟩ := begins
    exact ⟨kind, rest, same, opens, noSign tight⟩

/-- How a printed expression begins. -/
theorem print_begins (e : Expr) : Begins e := by
  have behind {object : Expr} (begins : Begins object) {e : Expr} {rest : List TokenKind}
      (same : e.print = enclose (object.tier < 7) object.print ++ rest) : Begins e := by
    obtain ⟨kind, more, first, opens, noSign⟩ := begins.receiver.append rest
    exact ⟨kind, more, same.trans first, opens, fun _ => noSign⟩
  induction e using Expr.inductionOn with
  | num | bool | str | nil | ident => exact ⟨_, _, rfl, rfl, fun _ => rfl⟩
  | call | list | map => exact ⟨_, _, rfl, rfl, fun _ => rfl⟩
  | un op operand =>
    refine ⟨_, _, rfl, ?_, fun tight => ?_⟩
    · cases op <;> rfl
    · cases tight
  | bin op left right pos ih =>
    have loose : op.tier ≠ 7 := by
      have := op.tier_lt
      omega
    obtain ⟨kind, rest, same, opens, -⟩ :=
      (ih.enclose ⟨rfl, fun _ => rfl⟩ (left.tier < op.tier)).append _
    exact ⟨kind, rest, same, opens, fun tight => absurd tight loose⟩
  | method object name args pos ih =>
    exact behind ih (by rw [Expr.print, List.append_assoc])
  | field object name pos ih => exact behind ih (by rw [Expr.print])
  | index object key pos ih =>
    exact behind ih (by rw [Expr.print, List.append_assoc])

/-! ### Loops over an operand -/

/-- What may come behind an expression of a tier: nothing that would go on with it. -/
def stops (tier : Nat) (next : Option TokenKind) : Bool :=
  (next.bind BinOp.ofToken?).all (·.tier < tier) && next ≠ some (sym .dot) &&
    next ≠ some (sym .lbracket) && next ≠ some (sym .lparen)

variable {tier levels : Nat} {next : Option TokenKind}

theorem tierOps_of_stops (stopped : stops tier next) : next.bind (tierOps tier) = none := by
  cases next with
  | none => rfl
  | some kind =>
    rw [Option.bind_some]
    cases found : tierOps tier kind with
    | none => rfl
    | some op =>
      obtain ⟨rfl, isTier⟩ := tierOps_eq_some.mp found
      simp [stops, isTier] at stopped

theorem stops_token (op : BinOp) (isTier : op.tier = tier) : stops (tier + 1) (some op.token) := by
  subst isTier
  cases op <;> rfl

theorem stops_succ (stopped : stops tier next) : stops (tier + 1) next := by
  cases next with
  | none => rfl
  | some kind =>
    cases isOp : BinOp.ofToken? kind with
    | none => simpa [stops, isOp] using stopped
    | some op =>
      simp only [stops, Option.bind_some, isOp, Option.all_some, Bool.and_eq_true,
        decide_eq_true_iff] at stopped ⊢
      obtain ⟨⟨⟨tighter, noDot⟩, noBracket⟩, noParen⟩ := stopped
      exact ⟨⟨⟨Nat.lt_succ_of_lt tighter, noDot⟩, noBracket⟩, noParen⟩

/-- What may come behind an operand while its postfixes are still read. -/
def noCall (next : Option TokenKind) : Bool := next ≠ some (sym .lparen)

/-- A parser enters a loop with an expression on its left. -/
def Enters (line : Nat) (p : Parse Expr) (loop : List Token → Expr → Parse Expr)
    (kinds : List TokenKind) (follow : Option TokenKind → Bool) (e : Expr) : Prop :=
  ∀ c rest R, Ahead line (kinds ++ rest) c → follow rest.head? →
    (∀ fuel e' c', rest.length ≤ fuel.length → e'.bare = e.bare → Midway line rest c' →
      Gets (loop fuel e') c' R) → Gets p c R

/-- The same for the loop over operators of a tier. -/
abbrev EntersChain (line tier : Nat) (operand : Parse Expr) : List TokenKind → Expr → Prop :=
  (Enters line (chain (tierOps tier) operand) (chainFrom (tierOps tier) operand) · (stops (tier + 1)))

/-- The same for the loop over postfixes. -/
abbrev EntersPostfix (line : Nat) (expr : Parse Expr) : List TokenKind → Expr → Prop :=
  (Enters line (operand expr) (postfixFrom expr) · noCall)

/-- A parser reads an expression up to its positions. -/
abbrev Recovers (line : Nat) (p : Parse Expr) (kinds : List TokenKind)
    (follow : Option TokenKind → Bool) (e : Expr) : Prop :=
  Yields line p kinds (fun next => follow next) fun e' => e'.bare = e.bare

variable {follow stop : Option TokenKind → Bool}

theorem Enters.of_recovers {first : Parse Expr} {loop : List Token → Expr → Parse Expr}
    (reads : Recovers line first kinds follow e) :
    Enters line (first >>= fun left => withFuel fun fuel => loop fuel left) loop kinds follow e := by
  intro c rest R ahead fits next
  apply Gets.bind (reads c rest ahead fits)
  rintro left c' ⟨same, midway⟩
  exact next c'.ahead left c' (Nat.le_of_eq midway.length_eq.symm) same midway

/-- A loop that has nothing left to read is done. -/
theorem Enters.recovers {p : Parse Expr} {loop : List Token → Expr → Parse Expr}
    (enters : Enters line p loop kinds follow e)
    (done : ∀ fuel left c rest, Midway line rest c → stop rest.head? →
      Gets (loop fuel left) c fun e' c' => e' = left ∧ c' = c)
    (stronger : ∀ next, stop next → follow next) : Recovers line p kinds stop e := by
  intro c rest ahead stopped
  refine enters c rest _ ahead (stronger _ stopped) fun fuel left c' _ same midway => ?_
  apply Gets.mono (done fuel left c' rest midway stopped)
  rintro e' c'' ⟨isLeft, isHere⟩
  rw [isLeft, isHere]
  exact ⟨same, midway⟩

/-- A loop with something to read has fuel for it. -/
theorem cons_of_length_le {fuel : List Token} {n : Nat} (enough : n + 1 ≤ fuel.length) :
    ∃ t fuel', fuel = t :: fuel' ∧ n ≤ fuel'.length := by
  cases fuel with
  | nil => cases enough
  | cons t fuel' => exact ⟨t, fuel', rfl, Nat.le_of_succ_le_succ enough⟩

/-! ### Chains of operators -/

section Chains

variable {tier : Nat} {operand : Parse Expr}

theorem chainFrom_done (fuel : List Token) (left : Expr) (c : Cursor) (rest : List TokenKind)
    (midway : Midway line rest c) (stopped : stops tier rest.head?) :
    Gets (chainFrom (tierOps tier) operand fuel left) c fun e' c' => e' = left ∧ c' = c := by
  cases fuel with
  | nil => exact .pure ⟨rfl, rfl⟩
  | cons t fuel =>
    rw [chainFrom]
    apply Gets.peek midway.toAhead
    rw [tierOps_of_stops stopped]
    exact .pure ⟨rfl, rfl⟩

/-- One more operator and operand on the right. -/
theorem chain_enters_bin {op : BinOp} {left right : Expr} {pos : Pos} (isTier : op.tier = tier)
    (enters : EntersChain line tier operand kinds left)
    (reads : Recovers line operand kinds' (stops (tier + 1)) right) :
    EntersChain line tier operand (kinds ++ op.token :: kinds') (.bin op left right pos) := by
  intro c rest R ahead fits next
  rw [List.append_assoc] at ahead
  refine enters c (op.token :: kinds' ++ rest) R ahead ?_ fun fuel left' c₁ enough same midway => ?_
  · exact stops_token op isTier
  obtain ⟨t, fuel, rfl, enough'⟩ := cons_of_length_le enough
  rw [chainFrom]
  apply Gets.peek midway.toAhead
  rw [show (op.token :: kinds' ++ rest).head?.bind (tierOps tier) = some op from
    tierOps_eq_some.mpr ⟨rfl, isTier⟩]
  apply Gets.here
  apply Gets.skip midway.toAhead
  intro c₂ midway₂
  apply Gets.bind (reads c₂ rest midway₂.toAhead fits)
  rintro right' c₃ ⟨same', midway₃⟩
  refine next fuel _ c₃ ?_ ?_ midway₃
  · exact Nat.le_trans (List.sublist_append_right kinds' rest).length_le enough'
  · rw [Expr.bare, Expr.bare, same, same']

theorem chain_recovers (reads : Recovers line operand kinds (stops (tier + 1)) e) :
    Recovers line (chain (tierOps tier) operand) kinds (stops tier) e :=
  have enters : EntersChain line tier operand kinds e := .of_recovers reads
  enters.recovers chainFrom_done fun _ => stops_succ

end Chains

/-! ### Chains of postfixes -/

section Postfixes

variable {expr : Parse Expr}

theorem postfixFrom_done (fuel : List Token) (left : Expr) (c : Cursor) (rest : List TokenKind)
    (midway : Midway line rest c) (stopped : stops 6 rest.head?) :
    Gets (postfixFrom expr fuel left) c fun e' c' => e' = left ∧ c' = c := by
  simp only [stops, Bool.and_eq_true, decide_eq_true_iff] at stopped
  obtain ⟨⟨⟨-, noDot⟩, noBracket⟩, -⟩ := stopped
  cases fuel with
  | nil => exact .pure ⟨rfl, rfl⟩
  | cons t fuel =>
    rw [postfixFrom]
    apply Gets.decline midway.toAhead noDot
    apply Gets.noIndex midway.toAhead noBracket
    exact .pure ⟨rfl, rfl⟩

variable {object : Expr} {pos : Pos}

theorem operand_enters_field {name : String} (enters : EntersPostfix line expr kinds object) :
    EntersPostfix line expr (kinds ++ [sym .dot, .ident name]) (.field object name pos) := by
  intro c rest R ahead fits next
  rw [List.append_assoc] at ahead
  refine enters c _ R ahead rfl fun fuel object' c₁ enough same midway => ?_
  obtain ⟨t, fuel, rfl, enough'⟩ := cons_of_length_le enough
  rw [postfixFrom]
  apply Gets.accept midway.toAhead
  intro c₂ midway₂
  apply Gets.identifier midway₂.toAhead
  intro c₃ midway₃
  apply Gets.decline midway₃.toAhead
  · simpa [noCall] using fits
  exact next fuel _ c₃ (Nat.le_of_succ_le enough') (Expr.bare_field name same) midway₃

/-- An index behind an operand. -/
theorem operand_enters_index {key : Expr}
    (enters : EntersPostfix line expr kinds object) (reads : Recovers line expr kinds' (stops 0) key) :
    EntersPostfix line expr (kinds ++ sym .lbracket :: kinds' ++ [sym .rbracket])
      (.index object key pos) := by
  intro c rest R ahead fits next
  rw [List.append_assoc, List.append_assoc] at ahead
  refine enters c _ R ahead rfl fun fuel object' c₁ enough same midway => ?_
  obtain ⟨t, fuel, rfl, enough'⟩ := cons_of_length_le enough
  rw [postfixFrom]
  apply Gets.decline midway.toAhead
  · simp
  apply Gets.isIndex midway
  apply Gets.here
  apply Gets.skip midway.toAhead
  intro c₂ midway₂
  apply Gets.bind (reads c₂ _ midway₂.toAhead rfl)
  rintro key' c₃ ⟨same', midway₃⟩
  apply Gets.expect midway₃.toAhead
  intro c₄ midway₄
  refine next fuel _ c₄ ?_ ?_ midway₄
  · have shorter := (List.sublist_append_right kinds' ([sym .rbracket] ++ rest)).length_le
    exact Nat.le_trans (Nat.le_of_succ_le shorter) enough'
  · exact Expr.bare_index same same'

end Postfixes

/-! ### Parts between commas -/

section Parts

variable {α : Type} {close : Punct} {item : Parse α} {print : α → List TokenKind} {view : α → α}
variable {follow : Option TokenKind → Prop}

/-- Parts between commas up to what closes them, seen through a view. -/
theorem commaSeparated_recovers {parts : List α} (rest : List TokenKind)
    (reads : ∀ x ∈ parts, Yields line item (print x) follow fun y => view y = view x)
    (begins : ∀ x ∈ parts, BeginsWith (· ≠ sym close) (print x)) (atComma : follow (some (sym .comma)))
    (atClose : follow (some (sym close))) (noComma : close ≠ .comma) :
    ∀ fuel c, (separate (parts.map print) ++ sym close :: rest).length ≤ fuel.length →
      Midway line (separate (parts.map print) ++ sym close :: rest) c →
      Gets (commaSeparated close item fuel) c fun parts' c' =>
        parts'.map view = parts.map view ∧ Midway line (sym close :: rest) c' := by
  induction parts with
  | nil =>
    intro fuel c enough midway
    obtain ⟨t, fuel, rfl, -⟩ := cons_of_length_le enough
    rw [commaSeparated]
    have ahead : Ahead line (sym close :: rest) c := midway.toAhead
    apply Gets.peek ahead
    rw [List.head?_cons, if_pos (Or.inl rfl)]
    exact .pure ⟨rfl, midway⟩
  | cons x parts ih =>
    intro fuel c enough midway
    rw [List.forall_mem_cons] at reads begins
    obtain ⟨kind, more, first, noClose⟩ := begins.1
    have ahead := midway.toAhead
    rw [List.map_cons, separate, first] at enough ahead
    obtain ⟨t, fuel, rfl, enough'⟩ := cons_of_length_le enough
    rw [commaSeparated]
    apply Gets.peek ahead
    rw [if_neg (by simp [noClose])]
    rw [← first, List.append_assoc] at ahead
    cases parts with
    | nil =>
      apply Gets.bind (reads.1 c _ ahead atClose)
      rintro x' c₁ ⟨same, midway₁⟩
      apply Gets.decline midway₁.toAhead
      · simp [noComma]
      refine .pure ⟨?_, midway₁⟩
      rw [List.map_singleton, List.map_singleton, same]
    | cons x₂ parts =>
      apply Gets.bind (reads.1 c _ ahead atComma)
      rintro x' c₁ ⟨same, midway₁⟩
      apply Gets.accept midway₁.toAhead
      intro c₂ midway₂
      refine (ih reads.2 begins.2 fuel c₂ ?_ midway₂).bind ?_
      · simp only [separate, List.map_cons, List.flatMap_cons, List.length_append,
          List.length_cons] at enough ⊢
        omega
      · rintro parts' c₃ ⟨same', midway₃⟩
        refine .pure ⟨?_, midway₃⟩
        rw [List.map_cons, List.map_cons, same, same']

/-- The same with what closes them. -/
theorem Gets.parts {β : Type} {f : List α → Parse β} {R : β → Cursor → Prop} {c : Cursor}
    {rest : List TokenKind} {parts : List α}
    (reads : ∀ x ∈ parts, Yields line item (print x) follow fun y => view y = view x)
    (begins : ∀ x ∈ parts, BeginsWith (· ≠ sym close) (print x)) (atComma : follow (some (sym .comma)))
    (atClose : follow (some (sym close))) (noComma : close ≠ .comma)
    (midway : Midway line (separate (parts.map print) ++ sym close :: rest) c)
    (next : ∀ parts' c', parts'.map view = parts.map view → Midway line rest c' → Gets (f parts') c' R) :
    Gets (do
      let parts' ← withFuel (commaSeparated close item)
      Parser.expect (sym close)
      f parts') c R := by
  have enough := Nat.le_of_eq midway.length_eq.symm
  have read := commaSeparated_recovers rest reads begins atComma atClose noComma c.ahead c enough midway
  apply Gets.bind read
  rintro parts' c₁ ⟨same, midway₁⟩
  exact .expect midway₁.toAhead fun c₂ midway₂ => next parts' c₂ same midway₂

end Parts

/-! ### Operands -/

section Operands

variable {expr : Parse Expr}

/-- A list of expressions that a parser reads one by one. -/
abbrev RecoversEach (line : Nat) (expr : Parse Expr) (items : List Expr) : Prop :=
  ∀ e ∈ items, Recovers line expr e.print (stops 0) e

variable {β : Type} {c : Cursor} {rest : List TokenKind} {items args : List Expr} {name : String} {pos : Pos}
variable {levels : Nat}

theorem Gets.expressions {f : List Expr → Parse β} {R : β → Cursor → Prop}
    {close : Punct} (reads : RecoversEach line expr items)
    (atClose : stops 0 (some (sym close))) (noComma : close ≠ .comma) (noOpening : opensExpr (sym close) = false)
    (midway : Midway line (separate (Expr.printEach items) ++ sym close :: rest) c)
    (next : ∀ items' c', Expr.bareEach items' = Expr.bareEach items → Midway line rest c' →
      Gets (f items') c' R) : Gets (do
      let items' ← withFuel (commaSeparated close expr)
      Parser.expect (sym close)
      f items') c R := by
  rw [Expr.printEach_eq_map] at midway
  refine .parts reads ?_ rfl atClose noComma midway fun items' c' same => ?_
  · exact fun e _ => (print_begins e).ne (by simp [noOpening])
  · rw [← Expr.bareEach_eq_map, ← Expr.bareEach_eq_map] at same
    exact next items' c' same

theorem Gets.arguments {f : List Expr → Parse β} {R : β → Cursor → Prop} (reads : RecoversEach line expr args)
    (midway : Midway line (separate (Expr.printEach args) ++ sym .rparen :: rest) c)
    (next : ∀ args' c', Expr.bareEach args' = Expr.bareEach args → Midway line rest c' →
      Gets (f args') c' R) : Gets (arguments expr >>= f) c R := by
  refine .bind (Q := fun args' c' => Expr.bareEach args' = Expr.bareEach args ∧ Midway line rest c') ?_
    fun args' c' ⟨same, midway'⟩ => next args' c' same midway'
  exact .expressions reads rfl (by decide) rfl midway fun args' c' same midway' => .pure ⟨same, midway'⟩

theorem operand_enters_method {object : Expr}
    (enters : EntersPostfix line expr kinds object) (reads : RecoversEach line expr args) : EntersPostfix line expr
      (kinds ++ sym .dot :: .ident name :: sym .lparen :: separate (Expr.printEach args) ++ [sym .rparen])
      (.method object name args pos) := by
  intro c rest R ahead _ next
  rw [List.append_assoc, List.append_assoc] at ahead
  refine enters c _ R ahead rfl fun fuel object' c₁ enough same midway => ?_
  obtain ⟨t, fuel, rfl, enough'⟩ := cons_of_length_le enough
  rw [postfixFrom]
  apply Gets.accept midway.toAhead
  intro c₂ midway₂
  apply Gets.identifier midway₂.toAhead
  intro c₃ midway₃
  apply Gets.accept midway₃.toAhead
  intro c₄ midway₄
  apply Gets.arguments reads midway₄
  intro args' c₅ same' midway₅
  refine next fuel _ c₅ ?_ ?_ midway₅
  · simp only [List.length_append, List.length_cons] at enough
    omega
  · exact Expr.bare_method name same same'

theorem primary_recovers_name : Recovers line (primary expr) [.ident name] noCall (.ident name pos) := by
  intro c rest ahead fits
  apply Gets.here
  apply Gets.peek ahead
  apply Gets.skip ahead
  intro c₁ midway
  refine ⟨_, c₁, if_neg ?_, rfl, midway⟩
  rw [midway.kind_eq]
  exact fun both => absurd both.1 (of_decide_eq_true fits)

theorem primary_recovers_call {callee : String} (reads : RecoversEach line expr args) :
    Recovers line (primary expr) (Expr.call callee args pos).print noCall (.call callee args pos) := by
  intro c rest ahead _
  rw [Expr.print_call_append] at ahead
  apply Gets.here
  apply Gets.peek ahead
  apply Gets.skip ahead
  intro c₁ midway
  have follows : c₁.kind = some (sym .lparen) ∧ c₁.pos.line = c.pos.line :=
    ⟨midway.cons.1, midway.cons.2.1.trans ahead.cons.2.1.symm⟩
  have call : Gets (arguments expr >>= fun args' => pure (Expr.call callee args' c.pos)) c₁.advance
      fun e' c' => e'.bare = (Expr.call callee args pos).bare ∧ Midway line rest c' := by
    apply Gets.arguments reads midway.cons.2.2
    intro args' c₂ same midway₂
    refine .pure ⟨?_, midway₂⟩
    rw [Expr.bare, Expr.bare, same]
  obtain ⟨e', c', read, holds⟩ := call
  exact ⟨e', c', (if_pos follows).trans read, holds⟩

theorem primary_recovers_enclosed (reads : Recovers line expr e.print (stops 0) e) :
    Recovers line (primary expr) (enclose true e.print) noCall e := by
  intro c rest ahead _
  rw [enclose, if_pos rfl, List.append_assoc] at ahead
  apply Gets.here
  apply Gets.peek ahead
  apply Gets.skip ahead
  intro c₁ midway₁
  apply Gets.bind (reads c₁ _ midway₁.toAhead rfl)
  rintro e' c₂ ⟨same, midway₂⟩
  exact .expect midway₂.toAhead fun c₃ midway₃ => .pure ⟨same, midway₃⟩

theorem primary_recovers_list (reads : RecoversEach line expr items) :
    Recovers line (primary expr) (Expr.list items pos).print noCall (.list items pos) := by
  intro c rest ahead _
  rw [Expr.print_list_append] at ahead
  apply Gets.here
  apply Gets.peek ahead
  apply Gets.skip ahead
  intro c₁ midway₁
  refine .expressions reads rfl (by decide) rfl midway₁ fun items' c₂ same midway₂ => .pure ⟨?_, midway₂⟩
  simp only [Expr.bare, same]

theorem mapEntry_recovers {entry : String × Expr}
    (reads : Recovers line expr entry.2.print (stops 0) entry.2) :
    Yields line (mapEntry expr) (.string entry.1 :: sym .colon :: entry.2.print) (stops 0 ·)
      fun entry' => (entry'.1, entry'.2.bare) = (entry.1, entry.2.bare) := by
  intro c rest ahead fits
  have key : Gets mapKey c fun key c' =>
      key = entry.1 ∧ Midway line (sym .colon :: entry.2.print ++ rest) c' := by
    refine ⟨entry.1, c.advance, ?_, rfl, ahead.cons.2.2⟩
    rw [mapKey, ahead.cons.1]
  apply Gets.bind key
  rintro key c₁ ⟨sameKey, midway₁⟩
  apply Gets.expect midway₁.toAhead
  intro c₂ midway₂
  apply Gets.bind (reads c₂ rest midway₂.toAhead fits)
  rintro value c₃ ⟨same, midway₃⟩
  refine .pure ⟨?_, midway₃⟩
  simp only [sameKey, same]

theorem primary_recovers_map {entries : List (String × Expr)}
    (reads : ∀ entry ∈ entries, Recovers line expr entry.2.print (stops 0) entry.2) :
    Recovers line (primary expr) (Expr.map entries pos).print noCall (.map entries pos) := by
  intro c rest ahead _
  rw [Expr.print_map_append, Expr.printEntries_eq_map] at ahead
  apply Gets.here
  apply Gets.peek ahead
  apply Gets.skip ahead
  intro c₁ midway₁
  refine .parts (fun entry mem => mapEntry_recovers (reads entry mem)) ?_ rfl rfl (by decide) midway₁ ?_
  · exact fun entry _ => ⟨_, _, rfl, by simp⟩
  · intro entries' c₂ same midway₂
    refine .pure ⟨?_, midway₂⟩
    simp only [Expr.bare, Expr.bareEntries_eq_map, same]

/-- A sign in front of an operand takes a level. -/
theorem unary_recovers_sign {op : UnOp} (reads : Recovers line (unary levels) kinds follow e) :
    Recovers line (unary (levels + 1)) (op.token :: kinds) follow (.un op e pos) := by
  intro c rest ahead fits
  rw [unary]
  cases op with
  | neg =>
    apply Gets.here
    apply Gets.accept ahead
    intro c₁ midway₁
    apply Gets.bind (reads c₁ rest midway₁.toAhead fits)
    rintro e' c₂ ⟨same, midway₂⟩
    refine .pure ⟨?_, midway₂⟩
    simp only [Expr.bare, same]
  | not =>
    apply Gets.here
    apply Gets.decline ahead
    · simp [UnOp.token]
    apply Gets.accept ahead
    intro c₁ midway₁
    apply Gets.bind (reads c₁ rest midway₁.toAhead fits)
    rintro e' c₂ ⟨same, midway₂⟩
    refine .pure ⟨?_, midway₂⟩
    simp only [Expr.bare, same]

theorem unary_recovers_operand (enters : EntersPostfix line (expression levels) kinds e)
    (begins : BeginsWith (isSign · = false) kinds) : Recovers line (unary (levels + 1)) kinds (stops 6) e := by
  intro c rest ahead stopped
  have read : Recovers line (operand (expression levels)) kinds (stops 6) e :=
    enters.recovers postfixFrom_done fun next stopped => by simp_all [stops, noCall]
  obtain ⟨kind, more, rfl, noSign⟩ := begins
  simp only [isSign, Bool.or_eq_false_iff, decide_eq_false_iff_not] at noSign
  rw [unary]
  apply Gets.here
  apply Gets.decline ahead
  · simp [noSign.1]
  apply Gets.decline ahead
  · simp [noSign.2]
  exact read c rest ahead stopped

end Operands

/-! ### Tiers -/

/-- The parser for expressions of a tier and tighter ones. -/
def tierParser (levels tier : Nat) : Parse Expr :=
  (((List.range 6).drop tier).map tierOps).foldr chain (unary levels)

theorem tierParser_zero (levels : Nat) : tierParser levels 0 = expression levels :=
  (operators_eq_foldr (unary levels)).symm

theorem tierParser_of_lt (below : tier < 6) :
    tierParser levels tier = chain (tierOps tier) (tierParser levels (tier + 1)) := by
  rw [tierParser, List.drop_eq_getElem_cons (by simpa using below), List.getElem_range]
  rfl

/-- What is read at a tier is read at the looser ones. -/
theorem tierParser_recovers_of_le {low high : Nat} (below : low ≤ high) (top : high ≤ 6)
    (reads : Recovers line (tierParser levels high) kinds (stops high) e) :
    Recovers line (tierParser levels low) kinds (stops low) e := by
  induction below with
  | refl => exact reads
  | step below ih =>
    apply ih (Nat.le_of_succ_le top)
    rw [tierParser_of_lt top]
    exact chain_recovers reads

/-- What enters the loop of postfixes is read at every tier, one level further out. -/
theorem tierParser_recovers_operand (top : tier ≤ 6) (enters : EntersPostfix line (expression levels) kinds e)
    (begins : BeginsWith (isSign · = false) kinds) :
    Recovers line (tierParser (levels + 1) tier) kinds (stops tier) e :=
  tierParser_recovers_of_le top (Nat.le_refl 6) (unary_recovers_operand enters begins)

/-- How an expression is read at its own tier, without parentheses. -/
structure ReadAtTier (line : Nat) (e : Expr) : Prop where
  asOperand : e.tier = 7 → ∀ levels, e.depth ≤ levels + 1 →
    EntersPostfix line (expression levels) e.print e
  asSign : e.tier = 6 → ∀ levels, e.depth ≤ levels → Recovers line (unary levels) e.print (stops 6) e
  asChain : e.tier < 6 → ∀ levels, e.depth ≤ levels →
    EntersChain line e.tier (tierParser levels (e.tier + 1)) e.print e

namespace ReadAtTier

variable {levels tier : Nat}

/-- Without parentheses at any looser tier. -/
theorem looser (read : ReadAtTier line e) (top : tier ≤ 6) (below : tier ≤ e.tier)
    (shallow : e.depth ≤ levels) : Recovers line (tierParser levels tier) e.print (stops tier) e := by
  rcases Nat.lt_trichotomy e.tier 6 with loose | isSign | tight
  · apply tierParser_recovers_of_le below (Nat.le_of_lt loose)
    rw [tierParser_of_lt loose]
    exact (read.asChain loose levels shallow).recovers chainFrom_done fun _ => stops_succ
  · exact tierParser_recovers_of_le top (Nat.le_refl 6) (read.asSign isSign levels shallow)
  · have isOperand : e.tier = 7 := Nat.le_antisymm (tier_le e) tight
    obtain ⟨levels, rfl⟩ := Nat.exists_eq_add_of_le' (Nat.lt_of_lt_of_le (Expr.depth_pos e) shallow)
    obtain ⟨kind, rest, same, -, noSign⟩ := print_begins e
    exact tierParser_recovers_operand top (read.asOperand isOperand levels shallow)
      ⟨kind, rest, same, noSign isOperand⟩

/-- As a whole expression. -/
theorem whole (read : ReadAtTier line e) (shallow : e.depth ≤ levels) :
    Recovers line (expression levels) e.print (stops 0) e := by
  rw [← tierParser_zero]
  exact read.looser (Nat.zero_le 6) (Nat.zero_le e.tier) shallow

/-- In parentheses. -/
theorem enclosed (read : ReadAtTier line e) (shallow : e.depth ≤ levels) :
    EntersPostfix line (expression levels) (enclose true e.print) e :=
  .of_recovers (primary_recovers_enclosed (read.whole shallow))

/-- In front of a postfix. -/
theorem receiver (read : ReadAtTier line e)
    (shallow : e.depth + (decide (e.tier < 7)).toNat ≤ levels + 1) :
    EntersPostfix line (expression levels) (enclose (e.tier < 7) e.print) e := by
  by_cases loose : e.tier < 7
  · rw [decide_eq_true loose] at shallow ⊢
    exact read.enclosed (Nat.le_of_succ_le_succ shallow)
  · rw [decide_eq_false loose] at shallow ⊢
    exact read.asOperand (Nat.le_antisymm (tier_le e) (Nat.not_lt.mp loose)) levels shallow

/-- As an operand of an operator of a tier. -/
theorem operandOf (read : ReadAtTier line e) (top : tier ≤ 6)
    (shallow : e.depth + (decide (e.tier < tier)).toNat ≤ levels) :
    Recovers line (tierParser levels tier) (enclose (e.tier < tier) e.print) (stops tier) e := by
  by_cases loose : e.tier < tier
  · rw [decide_eq_true loose] at shallow ⊢
    obtain ⟨levels, rfl⟩ := Nat.exists_eq_add_of_le' (Nat.le_trans (Nat.le_add_left 1 _) shallow)
    exact tierParser_recovers_operand top (read.enclosed (Nat.le_of_succ_le_succ shallow)) ⟨_, _, rfl, rfl⟩
  · rw [decide_eq_false loose] at shallow ⊢
    exact read.looser top (Nat.not_lt.mp loose) shallow

/-- Only an expression of the tier of an operator has a loop of its own to enter. -/
theorem leftOf (read : ReadAtTier line e) (top : tier < 6)
    (shallow : e.depth + (decide (e.tier < tier)).toNat ≤ levels) :
    EntersChain line tier (tierParser levels (tier + 1)) (enclose (e.tier < tier) e.print) e := by
  by_cases same : e.tier = tier
  · subst same
    rw [decide_eq_false (Nat.lt_irrefl e.tier)] at shallow ⊢
    exact read.asChain top levels shallow
  · have next : decide (e.tier < tier) = decide (e.tier < tier + 1) := by
      rw [decide_eq_decide]
      omega
    rw [next] at shallow ⊢
    exact .of_recovers (read.operandOf top shallow)

end ReadAtTier

theorem ReadAtTier.of_operand (isOperand : e.tier = 7)
    (enters : ∀ levels, e.depth ≤ levels + 1 →
      EntersPostfix line (expression levels) e.print e) :
    ReadAtTier line e where
  asOperand _ := enters
  asSign isSign := by omega
  asChain loose := by omega

/-- Every printed expression is read back at its own tier. -/
theorem readAtTier (line : Nat) (e : Expr) : ReadAtTier line e := by
  induction e using Expr.inductionOn with
  | num | bool | str | nil =>
    refine .of_operand rfl fun levels _ => .of_recovers fun c rest ahead _ => ?_
    exact .here (.peek ahead (.skip ahead fun c₁ midway => .pure ⟨rfl, midway⟩))
  | ident => exact .of_operand rfl fun levels _ => .of_recovers primary_recovers_name
  | bin op left right pos leftRead rightRead =>
    refine ⟨fun isOperand => ?_, fun isSign => ?_, fun loose levels shallow => ?_⟩
    · exact absurd isOperand (Nat.ne_of_lt (Nat.lt_succ_of_lt op.tier_lt))
    · exact absurd isSign (Nat.ne_of_lt op.tier_lt)
    rw [Expr.depth, Nat.max_le] at shallow
    have sameTest : decide (right.tier ≤ op.tier) = decide (right.tier < op.tier + 1) := by
      rw [decide_eq_decide, Nat.lt_succ_iff]
    rw [Expr.print, sameTest]
    rw [sameTest] at shallow
    exact chain_enters_bin rfl (leftRead.leftOf op.tier_lt shallow.1)
      (rightRead.operandOf op.tier_lt shallow.2)
  | un op operand pos read =>
    refine ⟨fun isOperand => absurd isOperand (Nat.ne_of_lt (Nat.lt_succ_self 6)), fun _ levels shallow => ?_,
      fun loose => absurd loose (Nat.lt_irrefl 6)⟩
    obtain ⟨levels, rfl⟩ := Nat.exists_eq_add_of_le' (Nat.le_trans (Nat.le_add_left 1 _) shallow)
    exact unary_recovers_sign (read.operandOf (Nat.le_refl 6) (Nat.le_of_succ_le_succ shallow))
  | call callee args pos read =>
    refine .of_operand rfl fun levels shallow => .of_recovers (primary_recovers_call fun e mem => ?_)
    exact (read e mem).whole (Nat.le_trans (Expr.depth_le_depthEach mem) (Nat.le_of_succ_le_succ shallow))
  | method object name args pos objectRead read =>
    refine .of_operand rfl fun levels shallow => ?_
    rw [Expr.depth, Nat.max_le] at shallow
    refine operand_enters_method (objectRead.receiver shallow.1) fun e mem => ?_
    exact (read e mem).whole
      (Nat.le_trans (Expr.depth_le_depthEach mem) (Nat.le_of_succ_le_succ shallow.2))
  | field object name pos objectRead =>
    exact .of_operand rfl fun levels shallow => operand_enters_field (objectRead.receiver shallow)
  | index object key pos objectRead keyRead =>
    refine .of_operand rfl fun levels shallow => ?_
    rw [Expr.depth, Nat.max_le] at shallow
    exact operand_enters_index (objectRead.receiver shallow.1)
      (keyRead.whole (Nat.le_of_succ_le_succ shallow.2))
  | list items pos read =>
    refine .of_operand rfl fun levels shallow => .of_recovers (primary_recovers_list fun e mem => ?_)
    exact (read e mem).whole (Nat.le_trans (Expr.depth_le_depthEach mem) (Nat.le_of_succ_le_succ shallow))
  | map entries pos read =>
    refine .of_operand rfl fun levels shallow => .of_recovers (primary_recovers_map fun entry mem => ?_)
    exact (read entry mem).whole
      (Nat.le_trans (Expr.depth_le_depthEntries mem) (Nat.le_of_succ_le_succ shallow))

/-- A printed expression is read back wherever no operator or postfix follows it. -/
theorem expression_recovers (shallow : e.depth ≤ levels) : Recovers line (expression levels) e.print (stops 0) e :=
  (readAtTier line e).whole shallow

end Sketch.Parser
