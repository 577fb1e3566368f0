import Sketch.Proofs.Syntax.PrintedStmt

/-!
Parsing undoes printing. A program that can be written down, printed in any styling on one line, is read back
as it was, up to positions.
-/

namespace Sketch.Parser

variable {line : Nat} {c : Cursor} {rest : List TokenKind} {σ : Styling}

/-! ### Functions -/

theorem parameter_recovers (param : Param) :
    Yields line parameter [.ident param.name] (fun _ => True)
      fun param' => (⟨param'.name, default⟩ : Param) = ⟨param.name, default⟩ := by
  intro c rest ahead _
  exact .here (.identifier ahead fun c₁ midway₁ => .pure ⟨rfl, midway₁⟩)

theorem Gets.functionBody {body : List Stmt} {style : BlockStyle}
    (rereads : ∀ s ∈ body, Rereads line (statement true maxNesting) s)
    (midway : Midway line
      (style.opening (sym .semicolon) :: Stmt.printBlock body σ ++ [style.closing] ++ rest) c) :
    Gets functionBody c fun body' c' =>
      Stmt.bareBlock body' = Stmt.bareBlock body ∧ Midway line rest c' := by
  apply Gets.check midway.toAhead
  cases style with
  | braces => exact braceBlock_recovers rereads σ c rest midway.toAhead trivial
  | keywords =>
    rw [List.append_assoc] at midway
    exact .endBlock (n := 1) rereads midway

/-- A printed function is read back. -/
theorem functionDef_recovers {f : FnDef} (printable : (Item.function f).isPrintable)
    (shallow : (Item.function f).depth ≤ maxNesting) :
    Yields line functionDef (f.print σ) (fun _ => True)
      fun f' => (Item.function f').bare = (Item.function f).bare := by
  intro c rest ahead _
  have rereads := Legible.block (fun s _ => legible line true s) printable shallow
  have shape : f.print σ ++ rest = kw .functionKw :: .ident f.name :: sym .lparen ::
      (separate (f.params.map ([.ident ·.name])) ++ sym .rparen :: ((σ []).opening (sym .semicolon) ::
        Stmt.printBlock f.body (σ.inner 0) ++ [(σ []).closing] ++ rest)) := by
    simp [FnDef.print]
  rw [shape] at ahead
  apply Gets.here
  apply Gets.expect ahead
  intro c₁ midway₁
  apply Gets.identifier midway₁.toAhead
  intro c₂ midway₂
  apply Gets.expect midway₂.toAhead
  intro c₃ midway₃
  refine .parts (fun param _ => parameter_recovers param) ?_ trivial trivial (by decide) midway₃ ?_
  · exact fun param _ => ⟨_, _, rfl, by simp⟩
  · intro params' c₄ sameParams midway₄
    apply Gets.bind (Gets.functionBody rereads midway₄)
    rintro body' c₅ ⟨sameBody, midway₅⟩
    refine .pure ⟨?_, midway₅⟩
    simp only [Item.bare, sameParams, sameBody]

/-! ### Statements at the top level -/

/-- Tokens begin with at most one expression that nothing behind it extends. -/
theorem rest_eq_of_print_append_eq {e e' : Expr} {rest rest' : List TokenKind}
    (same : e.print ++ rest = e'.print ++ rest') (stopped : stops 0 rest.head?)
    (stopped' : stops 0 rest'.head?) : rest = rest' := by
  -- The parser is a function, so both expressions leave the same tokens.
  let c : Cursor := ⟨(e.print ++ rest).map fun kind => ⟨kind, default⟩, default, 0⟩
  have ahead : Ahead (default : Pos).line (e.print ++ rest) c := by
    refine ⟨?_, fun t mem => ?_⟩
    · rw [List.map_map]
      exact List.map_id _
    · obtain ⟨kind, -, rfl⟩ := List.mem_map.mp mem
      rfl
  obtain ⟨_, c₁, read, -, midway⟩ :=
    expression_recovers (Nat.le_max_left e.depth e'.depth) c rest ahead stopped
  rw [same] at ahead
  obtain ⟨_, c₂, read', -, midway'⟩ :=
    expression_recovers (Nat.le_max_right e.depth e'.depth) c rest' ahead stopped'
  rw [read] at read'
  cases read'
  exact midway.kindsEq.symm.trans midway'.kindsEq

variable {tokens fuel : List Token} {s : Stmt} {t : Token}

theorem closesParameters_names (closes : closesParameters tokens) : ∃ (names : List String) (more : List TokenKind),
      tokens.map (·.kind) = names.flatMap (fun name => [sym .comma, .ident name]) ++
        sym .rparen :: sym .lbrace :: more := by
  fun_induction closesParameters tokens with
  | case1 pos pos' tokens => exact ⟨[], tokens.map (·.kind), rfl⟩
  | case2 pos name pos' tokens ih =>
    obtain ⟨names, more, same⟩ := ih closes
    exact ⟨name :: names, more, by simp [same]⟩
  | case3 => cases closes

/-- Shorthand for a function looks like a call with a brace behind it. -/
theorem isShorthand_call (shorthand : isShorthand tokens) : ∃ callee args more, tokens.map (·.kind) =
      (Expr.call callee args default).print ++ sym .lbrace :: more := by
  revert shorthand
  fun_cases isShorthand tokens with
  | case1 callee _ _ name _ tokens =>
    intro shorthand
    obtain ⟨names, more, same⟩ := closesParameters_names shorthand
    refine ⟨callee, (name :: names).map (.ident · default), more, ?_⟩
    simp [Expr.print, Expr.printEach_eq_map, separate, List.flatMap_map, same]
  | case2 callee _ _ _ _ tokens =>
    intro
    exact ⟨callee, [], tokens.map (·.kind), rfl⟩
  | case3 =>
    intro shorthand
    cases shorthand

/-- A printed statement is no shorthand for a function: no brace stands behind its front. -/
theorem isShorthand_eq_false (printable : s.isPrintable false)
    (ahead : Ahead line (s.print σ ++ sym .semicolon :: rest) c) : isShorthand c.ahead = false := by
  rw [Bool.eq_false_iff]
  intro shorthand
  obtain ⟨callee, args, more, call⟩ := isShorthand_call shorthand
  rw [ahead.kindsEq] at call
  have noBrace {e : Expr} {kind : TokenKind} {rest' : List TokenKind} (stopped : stops 0 (some kind))
      (other : kind ≠ sym .lbrace) (same : s.print σ ++ sym .semicolon :: rest = e.print ++ kind :: rest') :
      False := by
    have := rest_eq_of_print_append_eq (same.symm.trans call) stopped rfl
    exact other (List.cons.inj this).1
  cases simple : s.isSimple with
  | false =>
    obtain ⟨kind, more', first, -, opensNone⟩ := print_begins_of_not_isSimple printable simple σ
    rw [first] at call
    obtain ⟨rfl, -⟩ := List.cons.inj call
    cases opensNone
  | true =>
    cases s with
    | declare | branch | count | clauses | whileDo | ret => cases simple
    | eval value => exact noBrace rfl (by simp) rfl
    | assign target op value pos =>
      obtain ⟨stopped, isAssign⟩ := assignSymbol_reads printable
      have other : assignSymbol op ≠ sym .lbrace := by
        intro isBrace
        rw [isBrace] at isAssign
        cases isAssign
      have same : (Stmt.assign target op value pos).print σ ++ sym .semicolon :: rest =
          (targetExpr target).print ++ assignSymbol op :: (value.print ++ sym .semicolon :: rest) := by
        rw [print_targetExpr, Stmt.print, List.append_assoc]
        rfl
      exact noBrace stopped other same

/-- A round reads a statement up to its semicolon. -/
theorem round_statement (printable : s.isPrintable false) (shallow : s.depth ≤ maxNesting)
    (ahead : Ahead line (s.print σ ++ sym .semicolon :: rest) c) :
    ∃ s' c', round false c = (.item (.stmt s'), c') ∧ s'.bare = s.bare ∧
      Midway line (sym .semicolon :: rest) c' := by
  have rereads := legible line false s maxNesting printable shallow
  obtain ⟨s', c', read, same, midway⟩ := rereads.reads σ c _ ahead rfl
  refine ⟨s', c', ?_, same, midway⟩
  have noShorthand := isShorthand_eq_false printable ahead
  obtain ⟨kind, more, first, starts⟩ := (rereads.begins σ).append (sym .semicolon :: rest)
  rw [first] at ahead
  have isAttempt : round false c = attempt (statement false maxNesting) .stmt c := by
    rw [round, ahead.cons.1]
    cases kind with
    | number | bool | string | ident => simp [noShorthand]
    | keyword word =>
      cases word
      case functionKw => cases starts
      all_goals simp [noShorthand]
    | punct symbol =>
      cases symbol
      case semicolon => cases starts
      all_goals simp [noShorthand]
  rw [isAttempt, attempt, read]

/-! ### Programs -/

theorem rounds_item {c' : Cursor} {i : Item} {kinds : List TokenKind}
    (isRound : round false c = (.item i, c')) (ahead : Ahead line kinds c) (ahead' : Ahead line rest c')
    (shorter : rest.length < kinds.length) :
    rounds (t :: fuel) false c = (i :: (rounds fuel false c').1, (rounds fuel false c').2) := by
  have nonempty : c.ahead.isEmpty = false := by
    rw [List.isEmpty_eq_false_iff, ← List.length_pos_iff, ahead.length_eq]
    omega
  have moved : c'.ahead.length ≠ c.ahead.length := by
    rw [ahead.length_eq, ahead'.length_eq]
    omega
  rw [rounds, nonempty, isRound]
  simp only [Bool.false_eq_true, if_false, moved]

theorem rounds_semicolon (ahead : Ahead line (sym .semicolon :: rest) c) :
    rounds (t :: fuel) false c = rounds fuel false c.advance := by
  have nonempty : c.ahead.isEmpty = false := by
    rw [List.isEmpty_eq_false_iff, ← List.length_pos_iff, ahead.length_eq]
    exact Nat.succ_pos _
  have moved : c.advance.ahead.length ≠ c.ahead.length := by
    rw [ahead.length_eq, ahead.cons.2.2.length_eq, List.length_cons]
    omega
  have isRound : round false c = (.nothing, c.advance) := by
    rw [round, ahead.cons.1]
  rw [rounds, nonempty, isRound]
  simp only [Bool.false_eq_true, if_false, moved]

/-- The rounds read all items, and make no mistake. -/
theorem rounds_recovers {items : List Item} (printable : ∀ i ∈ items, i.isPrintable)
    (shallow : ∀ i ∈ items, i.depth ≤ maxNesting) (σ : Styling) (fuel : List Token) (c : Cursor)
    (enough : (printItems items σ).length ≤ fuel.length) (ahead : Ahead line (printItems items σ) c) :
    ∃ items', rounds fuel false c = (items', []) ∧ items'.map Item.bare = items.map Item.bare := by
  induction items generalizing σ fuel c with
  | nil =>
    have atEnd : c.ahead = [] := List.length_eq_zero_iff.mp ahead.length_eq
    refine ⟨[], ?_, rfl⟩
    cases fuel with
    | nil => rfl
    | cons t fuel => rw [rounds, atEnd, List.isEmpty_nil, if_pos rfl]
  | cons i items ih =>
    rw [List.forall_mem_cons] at printable shallow
    cases i with
    | function f =>
      have ahead : Ahead line (f.print (σ.inner 0) ++ printItems items σ.tail) c := ahead
      obtain ⟨f', c', read, same, midway⟩ :=
        functionDef_recovers printable.1 shallow.1 c (printItems items σ.tail) ahead trivial
      have isRound : round false c = (.item (.function f'), c') := by
        rw [round, ahead.kind_eq]
        simp only [FnDef.print, List.cons_append, List.head?_cons, attempt, read]
      have shorter : (printItems items σ.tail).length <
          (f.print (σ.inner 0) ++ printItems items σ.tail).length := by
        rw [List.length_append, FnDef.print]
        simp only [List.cons_append, List.length_cons]
        omega
      obtain ⟨t, fuel, rfl, enough'⟩ := cons_of_length_le (Nat.le_trans shorter enough)
      obtain ⟨items', others, sameItems⟩ :=
        ih printable.2 shallow.2 σ.tail fuel c' enough' midway.toAhead
      refine ⟨.function f' :: items', ?_, ?_⟩
      · rw [rounds_item isRound ahead midway.toAhead shorter, others]
      · rw [List.map_cons, List.map_cons, same, sameItems]
    | stmt s =>
      rw [printItems, Item.print, List.append_assoc] at ahead enough
      obtain ⟨s', c', isRound, same, midway⟩ := round_statement printable.1 shallow.1 ahead
      have nonempty : 0 < (s.print (σ.inner 0)).length := by
        obtain ⟨kind, more, first, -⟩ := print_begins_stmt printable.1 (σ.inner 0)
        rw [first]
        exact Nat.succ_pos _
      have shorter : (sym .semicolon :: printItems items σ.tail).length <
          (s.print (σ.inner 0) ++ ([sym .semicolon] ++ printItems items σ.tail)).length := by
        rw [List.length_append]
        simp only [List.cons_append, List.nil_append, List.length_cons]
        omega
      obtain ⟨t, fuel, rfl, enough'⟩ := cons_of_length_le (Nat.le_trans shorter enough)
      obtain ⟨t', fuel, rfl, enough''⟩ := cons_of_length_le enough'
      obtain ⟨items', others, sameItems⟩ := ih printable.2 shallow.2 σ.tail fuel
        c'.advance enough'' midway.cons.2.2.toAhead
      refine ⟨.stmt s' :: items', ?_, ?_⟩
      · rw [rounds_item isRound ahead midway.toAhead shorter, rounds_semicolon midway.toAhead, others]
      · rw [List.map_cons, List.map_cons, Item.bare, Item.bare, same, sameItems]

/-- Parsing undoes printing: the tokens of a program, in any styling and all on one line, are read back as
    that program up to positions, if they nest no deeper than the parser allows. -/
theorem parse_print {p : Program} {σ : Styling} {stream : TokenStream} (printable : p.isPrintable)
    (shallow : p.depth ≤ maxNesting) (printed : stream.tokens.map (·.kind) = p.print σ)
    (oneLine : ∀ t ∈ stream.tokens, ∀ t' ∈ stream.tokens, t.pos.line = t'.pos.line) :
    ∃ p', parse stream = .ok p' ∧ p'.bare = p.bare := by
  obtain ⟨line, onLine⟩ : ∃ line, ∀ t ∈ stream.tokens, t.pos.line = line := by
    cases first : stream.tokens.head? with
    | none => exact ⟨0, by simp [List.head?_eq_none_iff.mp first]⟩
    | some t => exact ⟨t.pos.line, fun t' mem => oneLine t' mem t (List.mem_of_head? first)⟩
  have ahead : Ahead line (printItems p.items σ) (.ofStream stream) := ⟨printed, onLine⟩
  have enough : (printItems p.items σ).length ≤ stream.tokens.length := Nat.le_of_eq ahead.length_eq.symm
  have each (i) (mem : i ∈ p.items) : i.depth ≤ maxNesting :=
    Nat.le_trans (Program.depth_le_depth mem) shallow
  obtain ⟨items, read, same⟩ :=
    rounds_recovers (List.all_eq_true.mp printable) each σ stream.tokens (.ofStream stream) enough ahead
  refine ⟨⟨items⟩, ?_, congrArg Program.mk same⟩
  rw [parse, read]
  rfl

/-- An operand behind operators. -/
def denied : Nat → Expr
  | 0 => .nil default
  | n + 1 => .un .not (denied n) default

-- The bound gives no level away: with one operator more, the parser refuses.
example : (⟨[.stmt (.eval (denied 98))]⟩ : Program).depth = maxNesting ∧
    (parse ⟨(Program.print ⟨[.stmt (.eval (denied 99))]⟩ fun _ => .keywords).map (⟨·, default⟩),
      default⟩).isOk = false := by
  decide +kernel

/-- A function with a loop in a branch, and a loop over calls and literals. -/
def nestedProgram : Program :=
  let name (n : String) : Expr := .ident n default
  let number (value : Float) : Expr := .num value default
  let counting : Stmt := .whileDo (name "a") [.assign (.name "a") (some .add) (number 1) default] default
  let difference : Expr := .bin .sub (number 4) (.bin .sub (number 5) (number 6) default) default
  let sum : Expr := .bin .add (number 1) (number 2) default
  let product : Expr := .bin .mul sum (.un .neg difference default) default
  let entry : Expr := .map [("k", .list [name "i", product] default)] default
  ⟨[.function ⟨"f", [⟨"a", default⟩, ⟨"b", default⟩],
      [.branch [(.bin .eq (name "a") (name "b") default, [.ret (some (name "a")) default]),
          (.un .not (.bin .lt (name "a") (name "b") default) default, [.ret none default])]
        (some [counting]) default], default⟩,
    .stmt (.clauses (some (.declare "i" (some (number 0)) default))
      (some (.bin .lt (name "i") (number 10) default))
      (some (.assign (.field (.index (name "x") (name "i") default) "y") none product default))
      [.eval (.method (.call "f" [entry] default) "h" [name "i"] default)] default)]⟩

/-- Keywords outside, braces further in. -/
def mixedStyling : Styling
  | [] | [_] | [_, _] => .keywords
  | _ => .braces true

theorem parse_print_nestedProgram :
    nestedProgram.isPrintable ∧ nestedProgram.depth ≤ maxNesting ∧
      ∃ p', parse ⟨(nestedProgram.print mixedStyling).map (⟨·, default⟩), default⟩ = .ok p' ∧
        p'.bare = nestedProgram.bare := by
  have printed : ((nestedProgram.print mixedStyling).map fun kind => (⟨kind, default⟩ : Token)).map (·.kind) =
      nestedProgram.print mixedStyling := by
    rw [List.map_map]
    exact List.map_id _
  refine ⟨rfl, by decide, parse_print rfl (by decide) printed ?_⟩
  intro t mem t' mem'
  obtain ⟨kind, -, rfl⟩ := List.mem_map.mp mem
  obtain ⟨kind', -, rfl⟩ := List.mem_map.mp mem'
  rfl

end Sketch.Parser
