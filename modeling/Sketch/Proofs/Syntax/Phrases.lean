import Sketch.Proofs.Syntax.Grammar

/-!
The grammar of statements and programs, and that the parser reads by it. What can be said of all accepted programs
needs one look at each production.
-/

namespace Sketch

open Sketch.Parser (Parse Cursor Round sym kw)
open Sketch.IndexParser (Books Halt Read)

/-- The branches of a statement behind the first one. -/
abbrev Chain := List (Expr × List Stmt) × Option (List Stmt)

/-- What a program is put together from. A chain stands in braces, or runs up to a keyword. -/
inductive Phrase where
  | token (kind : TokenKind)
  | expr (levels : Nat) (e : Expr)
  | simple (levels : Nat) (t : Stmt)
  | stmt (levels : Nat) (t : Stmt)
  | block (levels : Nat) (body : List Stmt)
  | braces (levels : Nat) (body : List Stmt)
  | loop (levels : Nat) (body : List Stmt)
  | chain (braced : Bool) (levels : Nat) (chain : Chain)
  | params (params : List Param)
  | item (item : Item)
  | items (items : List Item)

/-- A token that may be missing. -/
def Phrase.perhaps (present : Bool) (kind : TokenKind) : List Phrase := if present then [.token kind] else []

/-- The phrases that a phrase consists of, where `pos` is its place. -/
inductive Produces (pos : Pos) : Phrase → List Phrase → Prop where
  | eval {levels : Nat} {e : Expr} : Produces pos (.simple levels (.eval e)) [.expr levels e]
  | assign {levels : Nat} {e value : Expr} {kind : TokenKind} {op : Option BinOp} {target : Target}
      (assigns : Parser.assignOp? kind = some op) (named : Parser.target? e = some target) :
      Produces pos (.simple levels (.assign target op value pos)) [.expr levels e, .token kind, .expr levels value]
  | plain {levels : Nat} {t : Stmt} : Produces pos (.stmt (levels + 1) t) [.simple levels t]
  | declare {levels : Nat} {name : String} {init : Option Expr} :
      Produces pos (.stmt (levels + 1) (.declare name init pos))
        (.token (kw .varKw) :: .token (.ident name) ::
          init.toList.flatMap fun e => [.token (sym .eq), .expr levels e])
  | ret {levels : Nat} {value : Option Expr} :
      Produces pos (.stmt (levels + 1) (.ret value pos)) (.token (kw .returnKw) :: value.toList.map (.expr levels))
  | whileDo {levels : Nat} {test : Expr} {body : List Stmt} :
      Produces pos (.stmt (levels + 1) (.whileDo test body pos))
        [.token (kw .whileKw), .expr levels test, .loop levels body]
  | count {levels : Nat} {var : String} {start stop : Expr} {step : Option Expr} {body : List Stmt} :
      Produces pos (.stmt (levels + 1) (.count var start stop step body pos))
        (.token (kw .forKw) :: .token (.ident var) :: .token (sym .eq) :: .expr levels start :: .token (sym .comma) ::
          .expr levels stop :: ((step.toList.flatMap fun e => [.token (sym .comma), .expr levels e]) ++
          [.loop levels body]))
  | clauses {levels : Nat} {init step : Option Stmt} {test : Option Expr} {body : List Stmt} :
      Produces pos (.stmt (levels + 1) (.clauses init test step body pos))
        (.token (kw .forKw) :: .token (sym .lparen) :: (init.toList.map (.stmt levels) ++ .token (sym .semicolon) ::
          (test.toList.map (.expr levels) ++ .token (sym .semicolon) :: (step.toList.map (.simple levels) ++
          [.token (sym .rparen), .loop levels body]))))
  | bracedBranch {levels : Nat} {test : Expr} {body : List Stmt} {rest : Chain} :
      Produces pos (.stmt (levels + 1) (.branch ((test, body) :: rest.1) rest.2 pos))
        [.token (kw .ifKw), .expr levels test, .braces levels body, .chain true levels rest]
  | keywordBranch {levels : Nat} {test : Expr} {body : List Stmt} {rest : Chain} (present : Bool) :
      Produces pos (.stmt (levels + 1) (.branch ((test, body) :: rest.1) rest.2 pos))
        (.token (kw .ifKw) :: .expr levels test :: (Phrase.perhaps present (kw .thenKw) ++
          [.block levels body, .chain false levels rest]))
  | bracedLoop {levels : Nat} {body : List Stmt} : Produces pos (.loop levels body) [.braces levels body]
  | keywordLoop {levels : Nat} {body : List Stmt} (present : Bool) :
      Produces pos (.loop levels body)
        (Phrase.perhaps present (kw .doKw) ++ [.block levels body, .token (kw .endKw)])
  | braces {levels : Nat} {body : List Stmt} :
      Produces pos (.braces levels body) [.token (sym .lbrace), .block levels body, .token (sym .rbrace)]
  | blockEnd {levels : Nat} : Produces pos (.block levels []) []
  | blockSeparator {levels : Nat} {body : List Stmt} :
      Produces pos (.block levels body) [.token (sym .semicolon), .block levels body]
  | blockCons {levels : Nat} {t : Stmt} {body : List Stmt} :
      Produces pos (.block levels (t :: body)) [.stmt levels t, .block levels body]
  | bracedEnd {levels : Nat} : Produces pos (.chain true levels ([], none)) []
  | bracedElse {levels : Nat} {body : List Stmt} :
      Produces pos (.chain true levels ([], some body)) [.token (kw .elseKw), .braces levels body]
  | bracedElseif {levels : Nat} {test : Expr} {body : List Stmt} {rest : Chain} {words : List TokenKind}
      (either : words = [kw .elseifKw] ∨ words = [kw .elseKw, kw .ifKw]) :
      Produces pos (.chain true levels ((test, body) :: rest.1, rest.2))
        (words.map .token ++ [.expr levels test, .braces levels body, .chain true levels rest])
  | keywordEnd {levels : Nat} : Produces pos (.chain false levels ([], none)) [.token (kw .endKw)]
  | keywordElse {levels : Nat} {body : List Stmt} :
      Produces pos (.chain false levels ([], some body))
        [.token (kw .elseKw), .block levels body, .token (kw .endKw)]
  | keywordElseif {levels : Nat} {test : Expr} {body : List Stmt} {rest : Chain} (present : Bool) :
      Produces pos (.chain false levels ((test, body) :: rest.1, rest.2))
        (.token (kw .elseifKw) :: .expr levels test :: (Phrase.perhaps present (kw .thenKw) ++
          [.block levels body, .chain false levels rest]))
  | paramsEnd : Produces pos (.params []) []
  | param {name : String} : Produces pos (.params [⟨name, pos⟩]) [.token (.ident name)]
  | paramsCons {name : String} {params : List Param} :
      Produces pos (.params (⟨name, pos⟩ :: params)) [.token (.ident name), .token (sym .comma), .params params]
  | bracedFunction {name : String} {params : List Param} {body : List Stmt} (present : Bool) :
      Produces pos (.item (.function ⟨name, params, body, pos⟩))
        (Phrase.perhaps present (kw .functionKw) ++ [.token (.ident name), .token (sym .lparen), .params params,
          .token (sym .rparen), .braces maxNesting body])
  | keywordFunction {name : String} {params : List Param} {body : List Stmt} (present : Bool) :
      Produces pos (.item (.function ⟨name, params, body, pos⟩))
        (Phrase.perhaps present (kw .functionKw) ++ [.token (.ident name), .token (sym .lparen), .params params,
          .token (sym .rparen), .block maxNesting body, .token (kw .endKw)])
  | top {t : Stmt} : Produces pos (.item (.stmt t)) [.stmt maxNesting t]
  | itemsEnd : Produces pos (.items []) []
  | itemsSeparator {items : List Item} : Produces pos (.items items) [.token (sym .semicolon), .items items]
  | itemsCons {item : Item} {items : List Item} : Produces pos (.items (item :: items)) [.item item, .items items]

/-- The tokens from `i` up to `j` are phrases, one behind the other. -/
inductive Yields (s : TokenStream) : List Phrase → Nat → Nat → Prop where
  | nil {i : Nat} : Yields s [] i i
  | token {kind : TokenKind} {phrases : List Phrase} {i j : Nat} (found : (s.cursor i).kind = some kind)
      (rest : Yields s phrases (i + 1) j) : Yields s (.token kind :: phrases) i j
  | expr {levels : Nat} {e : Expr} {phrases : List Phrase} {i j k : Nat}
      (read : Parser.expression levels (s.cursor i) = .ok e (s.cursor j))
      (derives : Derives s (lineRule s) levels 0 e i j) (rest : Yields s phrases j k) :
      Yields s (.expr levels e :: phrases) i k
  | phrase {p : Phrase} {parts phrases : List Phrase} {i j k : Nat} (rule : Produces (s.cursor i).pos p parts)
      (inner : Yields s parts i j) (rest : Yields s phrases j k) : Yields s (p :: phrases) i k

namespace Yields

variable {s : TokenStream} {p : Phrase} {parts phrases more : List Phrase} {i j k : Nat}

theorem of (rule : Produces (s.cursor i).pos p parts) (inner : Yields s parts i j) : Yields s [p] i j :=
  .phrase rule inner .nil

theorem append (first : Yields s phrases i j) (second : Yields s more j k) : Yields s (phrases ++ more) i k := by
  induction first with
  | nil => exact second
  | token found rest ih => exact .token found (ih second)
  | expr read derives rest ih => exact .expr read derives (ih second)
  | phrase rule inner rest _ ih => exact .phrase rule inner (ih second)

theorem token_inv {kind : TokenKind} (yields : Yields s (.token kind :: phrases) i k) :
    (s.cursor i).kind = some kind ∧ Yields s phrases (i + 1) k := by
  cases yields with
  | token found rest => exact ⟨found, rest⟩
  | phrase rule => cases rule

/-- No parenthesis is closed among parameters. -/
theorem behindParams {params : List Param} (yields : Yields s (.params params :: phrases) i k) :
    ∃ j, i ≤ j ∧ s.Avoids i (· = sym .rparen) j ∧ Yields s phrases j k := by
  induction params generalizing i with
  | nil =>
    cases yields with
    | phrase rule inner rest =>
      cases rule
      cases inner
      exact ⟨i, Nat.le_refl i, .nil, rest⟩
  | cons param params ih =>
    cases yields with
    | phrase rule inner rest =>
      cases rule with
      | param =>
        obtain ⟨named, nothing⟩ := inner.token_inv
        cases nothing
        exact ⟨i + 1, Nat.le_succ i, .cons named rfl .nil, rest⟩
      | paramsCons =>
        obtain ⟨named, inner⟩ := inner.token_inv
        obtain ⟨comma, inner⟩ := inner.token_inv
        obtain ⟨j, forward, others, rest⟩ := ih (inner.append rest)
        exact ⟨j, by omega, .cons named rfl (.cons comma rfl others), rest⟩

theorem le (yields : Yields s phrases i j) : i ≤ j := by
  induction yields with
  | nil => exact Nat.le_refl _
  | token found rest fromRest => exact Nat.le_of_lt fromRest
  | expr read derives rest fromRest => exact Nat.le_trans (Nat.le_of_lt derives.lt) fromRest
  | phrase rule inner rest fromInner fromRest => exact Nat.le_trans fromInner fromRest

/-- Phrases go forward, up to the end of the tokens at most. -/
theorem bounds (yields : Yields s phrases i j) (inside : i ≤ s.tokens.length) : i ≤ j ∧ j ≤ s.tokens.length := by
  refine ⟨yields.le, ?_⟩
  induction yields with
  | nil => exact inside
  | token found rest fromRest => exact fromRest (TokenStream.lt_of_cursor_kind found)
  | expr read derives rest fromRest => exact fromRest derives.le_length
  | phrase rule inner rest fromInner fromRest => exact fromRest (fromInner inside)

end Yields

/-- Whether a phrase has a token in any case. -/
def Phrase.isSolid : Phrase → Bool
  | .token _ | .expr .. | .simple .. | .stmt .. | .braces .. | .item _ => true
  | .block .. | .loop .. | .chain .. | .params _ | .items _ => false

theorem Produces.solid {pos : Pos} {p : Phrase} {parts : List Phrase} (rule : Produces pos p parts)
    (solid : p.isSolid = true) : ∃ q ∈ parts, q.isSolid = true := by
  revert solid
  cases rule with
  | bracedFunction present | keywordFunction present => exact fun _ => ⟨.token (sym .lparen), by simp, rfl⟩
  | _ => simp [Phrase.isSolid]

variable {s : TokenStream}

theorem Yields.lt {phrases : List Phrase} {i j : Nat} (yields : Yields s phrases i j)
    (solid : ∃ q ∈ phrases, q.isSolid = true) : i < j := by
  induction yields with
  | nil =>
    obtain ⟨q, mem, -⟩ := solid
    cases mem
  | token found rest fromRest => exact rest.le
  | expr read derives rest fromRest => exact Nat.lt_of_lt_of_le derives.lt rest.le
  | phrase rule inner rest fromInner fromRest =>
    obtain ⟨q, mem, solid⟩ := solid
    rcases List.mem_cons.mp mem with rfl | mem
    · exact Nat.lt_of_lt_of_le (fromInner (rule.solid solid)) rest.le
    · exact Nat.lt_of_le_of_lt inner.le (fromRest ⟨q, mem, solid⟩)

/-! ### The parser reads by the grammar -/

namespace InStep

variable {α β : Type} [Movable α] [Movable β] {s : TokenStream} {m : Walk}

variable {i : Nat}

theorem returnsNothing {pos : Pos} {f g : Bool → Parse β} {h : Bool → Read β} {T : β → Nat → Prop}
    (next : ∀ ended, InStep s m (f ended) (g ended) (h ended) i T) :
    InStep s m (Parser.returnsNothing pos.line >>= f) (Parser.returnsNothing (m.move pos).line >>= g)
      (IndexParser.returnsNothing s pos.line >>= h) i T := by
  refine look rfl ?_ (fun inside => IndexParser.bind_of_ok (IndexParser.mark_eq inside)) (next _)
  rw [Parser.returnsNothing, TokenStream.cursor_relocate_kind, TokenStream.cursor_relocate_pos, m.keeps, m.keeps]

/-- Separators in front of something that holds with one more in front. -/
theorem separators {f g : Unit → Parse β} {h : Unit → Read β} {T : Nat → β → Nat → Prop}
    (back : ∀ i b k, (s.cursor i).kind = some (sym .semicolon) → T (i + 1) b k → T i b k) (i : Nat)
    (next : ∀ j, i ≤ j → InStep s m (f ()) (g ()) (h ()) j (T j)) :
    InStep s m (Parser.skipSemicolons >>= f) (Parser.skipSemicolons >>= g) (IndexParser.skipSemicolons s >>= h) i
      (T i) := by
  have moved : ((s.relocate m.move).cursor i).kind = (s.cursor i).kind := TokenStream.cursor_relocate_kind
  by_cases found : (s.cursor i).kind = some (sym .semicolon)
  · have within := TokenStream.lt_of_cursor_kind found
    have more : (s.cursor i).kind.any (· = sym .semicolon) = true := by simp [found]
    have more' : ((s.relocate m.move).cursor i).kind.any (· = sym .semicolon) = true := by rwa [moved]
    have rest := separators back (i + 1) fun j behind => next j (Nat.le_of_lt behind)
    refine (skip (f := fun _ => Parser.skipSemicolons >>= f) (g := fun _ => Parser.skipSemicolons >>= g)
      (h := fun _ => IndexParser.skipSemicolons s >>= h) found rfl
      (rest.mono fun b j holds => back i b j found holds)).congr ?_ ?_ fun _ _ => ?_
    · exact congrArg (f ()) (Cursor.pass_of_true more)
    · exact congrArg (g ()) (Cursor.pass_of_true more')
    · rw [IndexParser.bind_of_ok (IndexParser.skip_eq within)]
      exact congrArg (Option.bind · _) (IndexParser.pass_of_any more)
  · have other : (s.cursor i).kind.any (· = sym .semicolon) = false := by
      cases kind : (s.cursor i).kind with
      | none => rfl
      | some kind' => simpa [kind] using found
    have other' : ((s.relocate m.move).cursor i).kind.any (· = sym .semicolon) = false := by rwa [moved]
    refine (next i (Nat.le_refl i)).congr ?_ ?_ fun _ inside => ?_
    · exact congrArg (f ()) (Cursor.pass_of_false other)
    · exact congrArg (g ()) (Cursor.pass_of_false other')
    · exact IndexParser.bind_of_ok (IndexParser.pass_of_not_any inside other)
termination_by s.tokens.length - i

theorem separatorsEnd {p q : Parse α} {h : Unit → Read α} {R : α → Nat → Prop}
    (enough : s.tokens.length - i ≤ ([] : List Token).length) (inStep : InStep s m p q (h ()) i R) :
    InStep s m p q (IndexParser.skipSemicolons s >>= h) i R := by
  refine inStep.congr rfl rfl fun _ inside => IndexParser.bind_of_ok (IndexParser.pass_of_not_any inside ?_)
  rw [TokenStream.cursor_kind_end (ended enough)]
  rfl

theorem get {p q : Parse α} {h : Books → Read α} {R : α → Nat → Prop}
    (inStep : InStep s m p q (h (m.books i)) i R) : InStep s m p q (MonadState.get >>= h) i R :=
  inStep.congr rfl rfl fun _ _ => rfl

/-- What is read in a function. -/
theorem entered {p q : Parse α} {c : Read α} {R : α → Nat → Prop} (inStep : InStep s m.enter p q c i R) :
    InStep s m p q (IndexParser.between Books.enter Books.leave c) i R := by
  refine fun behind => (inStep behind).weaken (.refl i) (fun _ _ _ => id) fun _ _ outcome k same => ?_
  change (c (m.enter.books i)).map _ = _
  rw [same]
  rfl

end InStep

section Statements

variable {s : TokenStream} {m : Walk} {levels i : Nat} {stmt : Parse Stmt}

section Simple

variable (room : m.Room levels) (i : Nat)

include room

theorem expression_yields : Traverses s m (Parser.expression levels) (IndexParser.expression s) i fun e j =>
    Yields s [.expr levels e] i j :=
  (expression_traverses room i).read.mono fun _ _ ⟨read, derives⟩ => .expr read derives .nil

theorem behind_yields {symbol : Punct} : Traverses s m (Parser.behind (sym symbol) (Parser.expression levels))
    (IndexParser.behind s (sym symbol) (IndexParser.expression s)) i fun part j =>
      Yields s (part.toList.flatMap fun e => [.token (sym symbol), .expr levels e]) i j := by
  rw [Parser.behind, IndexParser.behind]
  refine .accept rfl (fun found => .map ?_ fun _ => rfl) (.pure .nil)
  exact (expression_yields room _).mono fun e j read => .token found read

omit room in
theorem unlessNext_yields {α : Type} [Movable α] {symbol : TokenKind} {p : Parse α} {c : Read α} {phrase : α → Phrase}
    (yields : ∀ i, Traverses s m p c i fun a j => Yields s [phrase a] i j) :
    Traverses s m (Parser.unlessNext symbol p) (IndexParser.unlessNext s symbol c) i fun part j =>
      Yields s (part.toList.map phrase) i j := by
  rw [Parser.unlessNext, IndexParser.unlessNext]
  refine .check fun found => ?_
  cases found with
  | true => exact .pure .nil
  | false => exact .map (yields i) fun _ => rfl

omit room in
theorem target?_relocate (f : Pos → Pos) (e : Expr) :
    Parser.target? (e.relocate f) = (Parser.target? e).map (Target.relocate f) := by
  cases e <;> rfl

/-- An expression or an assignment. -/
theorem evalOrAssign_yields : Traverses s m (Parser.evalOrAssign (Parser.expression levels))
    (IndexParser.evalOrAssign s) i fun t j => Yields s [.simple levels t] i j := by
  rw [Parser.evalOrAssign, IndexParser.evalOrAssign]
  refine .of_behind fun behind => .here ((expression_yields room i).bind fun e j read => .peek fun found next => ?_)
  cases assigns : found.bind Parser.assignOp? with
  | none => exact .pure (.of .eval read)
  | some op =>
    obtain ⟨kind, rfl, assigns⟩ := Option.bind_eq_some_iff.mp assigns
    have plain : kind.isFunction = false := by
      cases kind with
      | keyword => cases assigns
      | number | bool | string | ident | punct => rfl
    refine .skip next plain ?_
    rw [Movable.relocate, instMovableExpr, target?_relocate]
    cases named : Parser.target? e with
    | none => exact .failAt behind (Nat.le_succ_of_le read.le) nofun
    | some target =>
      refine (expression_yields room _).bind fun value k readValue => .pure ?_
      exact .of (.assign assigns named) (read.append (.token next readValue))

theorem declaration_yields : Traverses s m (Parser.declaration (Parser.expression levels)) (IndexParser.declaration s) i
    fun t j => Yields s [.stmt (levels + 1) t] i j := by
  rw [Parser.declaration, IndexParser.declaration]
  refine .here (.expect rfl fun isVar => .identifier fun name named => ?_)
  refine (behind_yields room _).bind fun init j read => ?_
  exact .pure (.of .declare (.token isVar (.token named read)))

variable {i}

/-- A `return` in a function, or a stray one. -/
theorem returning_yields (outer : m.functions = 0 → m.outside) (found : (s.cursor i).kind = some (kw .returnKw)) :
    Traverses s m (Parser.returning (m.functions != 0) (Parser.expression levels)) (IndexParser.returning s) i
      fun t j => Yields s [.stmt (levels + 1) t] i j := by
  rw [Parser.returning, IndexParser.returning]
  refine .here (.get ?_)
  rcases m with ⟨shift, nesting, _ | functions, start, outside, fits⟩
  · exact fun behind => .mistake (.refl i) behind (Nat.le_refl i) rfl (fun _ => ⟨outer rfl, found, rfl⟩) fun _ _ => rfl
  · refine .expect rfl fun isReturn => .returnsNothing fun ended => ?_
    cases ended with
    | true => exact .pure (.of .ret (.token isReturn .nil))
    | false =>
      exact (expression_yields room _).bind fun value j read => .pure (.of .ret (.token isReturn read))

end Simple

section Blocks

variable (stmts : ∀ i, Traverses s m stmt (IndexParser.statement s) i fun t j => Yields s [.stmt levels t] i j)

include stmts

/-- Statements up to the end of their block. -/
theorem statementsUntil_yields {stops : Option TokenKind → Bool} (stopsAtEnd : stops none = true) (fuel : List Token)
    (enough : s.tokens.length - i ≤ fuel.length) :
    InStep s m (Parser.statementsUntil stops stmt fuel)
      (Parser.statementsUntil stops stmt (fuel.map (Token.relocate m.move))) (IndexParser.statementsUntil s stops) i
      fun body j => Yields s [.block levels body] i j := by
  induction fuel generalizing i with
  | nil =>
    rw [IndexParser.statementsUntil]
    refine .separatorsEnd enough (.peekEnd enough ?_)
    rw [if_pos stopsAtEnd]
    exact .pure (.of .blockEnd .nil)
  | cons _ fuel ih =>
    rw [List.map_cons, Parser.statementsUntil, Parser.statementsUntil, IndexParser.statementsUntil]
    refine .separators (T := fun i body j => Yields s [.block levels body] i j) (fun i body k found rest => ?_) i
      fun j skipped => .peek fun found _ => ?_
    · exact .of .blockSeparator (.token found rest)
    · cases stops found with
      | true => exact .pure (.of .blockEnd .nil)
      | false =>
        refine (stmts j).bind fun t k first => ?_
        have onward := first.lt ⟨_, List.mem_singleton_self _, rfl⟩
        rw [List.length_cons] at enough
        exact (ih (by omega)).bind fun body l rest => .pure (.of .blockCons (first.append rest))

variable (i : Nat)

theorem keywordBlock_yields : Traverses s m (Parser.keywordBlock stmt)
    (IndexParser.statementsUntil s Parser.endsBlock) i fun body j => Yields s [.block levels body] i j := by
  rw [Parser.keywordBlock]
  exact .withFuel (statementsUntil_yields stmts rfl)

theorem braceBlock_yields : Traverses s m (Parser.braceBlock stmt) (IndexParser.braceBlock s) i fun body j =>
    Yields s [.braces levels body] i j := by
  rw [Parser.braceBlock, IndexParser.braceBlock]
  refine .expect rfl fun opens => .bind (.withFuel (statementsUntil_yields stmts rfl)) fun body j inner => ?_
  exact .expect rfl fun closes => .pure (.of .braces (.token opens (inner.append (.token closes .nil))))

theorem endBlock_yields : Traverses s m (Parser.endBlock stmt) (IndexParser.endBlock s) i fun body j =>
    Yields s [.block levels body, .token (kw .endKw)] i j := by
  rw [Parser.endBlock, IndexParser.endBlock]
  exact (keywordBlock_yields stmts i).bind fun body j inner =>
    .expect rfl fun closes => .pure (inner.append (.token closes .nil))

theorem thenBlock_yields : Traverses s m (Parser.thenBlock stmt) (IndexParser.thenBlock s) i fun body j =>
    ∃ present, ∀ phrases k, Yields s phrases j k →
      Yields s (Phrase.perhaps present (kw .thenKw) ++ .block levels body :: phrases) i k := by
  rw [Parser.thenBlock, IndexParser.thenBlock]
  refine .accept rfl (fun found => ?_) ?_
  · refine (keywordBlock_yields stmts _).mono fun body j inner => ⟨true, fun phrases k rest => ?_⟩
    exact .token found (inner.append rest)
  · exact (keywordBlock_yields stmts i).mono fun body j inner => ⟨false, fun phrases k rest => inner.append rest⟩

theorem loopBody_yields : Traverses s m (Parser.loopBody stmt) (IndexParser.loopBody s) i fun body j =>
    Yields s [.loop levels body] i j := by
  rw [Parser.loopBody, IndexParser.loopBody]
  refine .check fun braced => ?_
  cases braced with
  | true => exact (braceBlock_yields stmts i).mono fun body j inner => .of .bracedLoop inner
  | false =>
    refine .accept rfl (fun found => ?_) ?_
    · exact (endBlock_yields stmts _).mono fun body j inner => .of (.keywordLoop true) (.token found inner)
    · exact (endBlock_yields stmts i).mono fun body j inner => .of (.keywordLoop false) inner

end Blocks

variable (room : m.Room levels)
  (stmts : ∀ i, Traverses s m stmt (IndexParser.statement s) i fun t j => Yields s [.stmt levels t] i j)

include room stmts

/-- Further branches in braces. -/
theorem braceBranches_yields (fuel : List Token) (enough : s.tokens.length - i ≤ fuel.length) :
    InStep s m (Parser.braceBranches (Parser.expression levels) stmt fuel)
      (Parser.braceBranches (Parser.expression levels) stmt (fuel.map (Token.relocate m.move)))
      (IndexParser.braceBranches s) i fun chain j => Yields s [.chain true levels chain] i j := by
  induction fuel generalizing i with
  | nil =>
    rw [IndexParser.braceBranches]
    exact .acceptEnd enough (.acceptEnd enough (.pure (.of .bracedEnd .nil)))
  | cons _ fuel ih =>
    rw [List.length_cons] at enough
    let branch (fuel : List Token) : Parse Chain := do
      let test ← Parser.expression levels
      let body ← Parser.braceBlock stmt
      let rest ← Parser.braceBranches (Parser.expression levels) stmt fuel
      pure ((test, body) :: rest.1, rest.2)
    have branches {j : Nat} (further : i < j) :
        InStep s m (branch fuel) (branch (fuel.map (Token.relocate m.move)))
          (do
            let test ← IndexParser.expression s
            let body ← IndexParser.braceBlock s
            let rest ← IndexParser.braceBranches s
            pure ((test, body) :: rest.1, rest.2))
          j fun chain k => ∃ test body rest, chain = ((test, body) :: rest.1, rest.2) ∧
            Yields s [.expr levels test, .braces levels body, .chain true levels rest] j k := by
      refine (expression_yields room j).bind fun test _ read => (braceBlock_yields stmts _).bind fun body _ inner => ?_
      have onward := Nat.le_trans read.le inner.le
      refine (ih (by omega)).bind fun rest _ others => .pure ?_
      exact ⟨test, body, rest, rfl, read.append (inner.append others)⟩
    rw [List.map_cons, Parser.braceBranches, Parser.braceBranches, IndexParser.braceBranches]
    refine .accept rfl (fun isElseif => ?_) (.accept rfl (fun isElse => .accept rfl (fun isIf => ?_) ?_)
      (.pure (.of .bracedEnd .nil)))
    · refine (branches (by omega)).mono ?_
      rintro _ j ⟨test, body, rest, rfl, inner⟩
      exact .of (.bracedElseif (.inl rfl)) (.token isElseif inner)
    · refine (branches (by omega)).mono ?_
      rintro _ j ⟨test, body, rest, rfl, inner⟩
      exact .of (.bracedElseif (.inr rfl)) (.token isElse (.token isIf inner))
    · exact (braceBlock_yields stmts _).bind fun body _ inner => .pure (.of .bracedElse (.token isElse inner))

/-- Further branches up to `end`. -/
theorem keywordBranches_yields (fuel : List Token) (enough : s.tokens.length - i ≤ fuel.length) :
    InStep s m (Parser.keywordBranches (Parser.expression levels) stmt fuel)
      (Parser.keywordBranches (Parser.expression levels) stmt (fuel.map (Token.relocate m.move)))
      (IndexParser.keywordBranches s) i fun chain j => Yields s [.chain false levels chain] i j := by
  induction fuel generalizing i with
  | nil =>
    rw [IndexParser.keywordBranches]
    refine .acceptEnd enough (.acceptEnd enough ?_)
    exact .expect rfl fun closes => .pure (.of .keywordEnd (.token closes .nil))
  | cons _ fuel ih =>
    rw [List.length_cons] at enough
    rw [List.map_cons, Parser.keywordBranches, Parser.keywordBranches, IndexParser.keywordBranches]
    refine .accept rfl (fun isElseif => ?_) (.accept rfl (fun isElse => ?_) ?_)
    · refine (expression_yields room _).bind fun test _ read => (thenBlock_yields stmts _).bind ?_
      rintro body _ ⟨present, inner⟩
      have onward := Nat.le_trans read.le (inner _ _ .nil).le
      refine (ih (by omega)).bind fun rest _ others => .pure ?_
      exact .of (.keywordElseif present) (.token isElseif (read.append (inner _ _ others)))
    · exact (endBlock_yields stmts _).bind fun body _ inner => .pure (.of .keywordElse (.token isElse inner))
    · exact .expect rfl fun closes => .pure (.of .keywordEnd (.token closes .nil))

variable (i : Nat)

/-- A chain of branches in either style. -/
theorem branching_yields : Traverses s m (Parser.branching (Parser.expression levels) stmt) (IndexParser.branching s) i
    fun t j => Yields s [.stmt (levels + 1) t] i j := by
  rw [Parser.branching, IndexParser.branching]
  refine .here (.expect rfl fun isIf => (expression_yields room _).bind fun test _ read => .check fun braced => ?_)
  cases braced with
  | true =>
    refine (braceBlock_yields stmts _).bind fun body j inner => ?_
    refine .bind (.withFuel (braceBranches_yields room stmts)) fun rest _ others => .pureOf
      (by simp [Movable.relocate, Stmt.relocate, relocateBranch]) ?_
    exact .of .bracedBranch (.token isIf (read.append (inner.append others)))
  | false =>
    refine (thenBlock_yields stmts _).bind ?_
    rintro body j ⟨present, inner⟩
    refine .bind (.withFuel (keywordBranches_yields room stmts)) fun rest _ others => .pureOf
      (by simp [Movable.relocate, Stmt.relocate, relocateBranch]) ?_
    exact .of (.keywordBranch present) (.token isIf (read.append (inner _ _ others)))

theorem whileLoop_yields : Traverses s m (Parser.whileLoop (Parser.expression levels) stmt) (IndexParser.whileLoop s) i
    fun t j => Yields s [.stmt (levels + 1) t] i j := by
  rw [Parser.whileLoop, IndexParser.whileLoop]
  refine .here (.expect rfl fun isWhile => (expression_yields room _).bind fun test _ read => ?_)
  refine (loopBody_yields stmts _).bind fun body _ inner => .pureOf (by simp [Movable.relocate, Stmt.relocate]) ?_
  exact .of .whileDo (.token isWhile (read.append inner))

/-- Both loops that begin with `for`. -/
theorem forLoop_yields : Traverses s m (Parser.forLoop (Parser.expression levels) stmt) (IndexParser.forLoop s) i
    fun t j => Yields s [.stmt (levels + 1) t] i j := by
  rw [Parser.forLoop, IndexParser.forLoop]
  refine .here (.expect rfl fun isFor => .check fun clauses => ?_)
  cases clauses with
  | true =>
    rw [if_pos rfl, if_pos rfl, if_pos rfl, Parser.clauseLoop, Parser.clauseLoop, IndexParser.clauseLoop,
      IndexParser.firstClause]
    refine .expect rfl fun opens => (unlessNext_yields _ stmts).bind fun init _ first => .expect rfl fun semicolon => ?_
    refine (unlessNext_yields _ (expression_yields room)).bind fun test _ second => .expect rfl fun semicolon' => ?_
    refine (unlessNext_yields _ (evalOrAssign_yields room)).bind fun step _ third => .expect rfl fun closes => ?_
    refine (loopBody_yields stmts _).bind fun body _ inner => .pureOf
      (by simp [Movable.relocate, Stmt.relocate]) (.of .clauses (.token isFor (.token opens ?_)))
    exact first.append (.token semicolon (second.append (.token semicolon' (third.append (.token closes inner)))))
  | false =>
    refine .identifier fun var named => .expect rfl fun isEq => (expression_yields room _).bind fun start _ first => ?_
    refine .expect rfl fun comma => (expression_yields room _).bind fun stop _ second => ?_
    refine (behind_yields room _).bind fun step _ third => (loopBody_yields stmts _).bind fun body _ inner => ?_
    refine .pureOf (by simp [Movable.relocate, Stmt.relocate]) (.of .count ?_)
    refine .token isFor (.token named (.token isEq ?_))
    exact first.append (.token comma (second.append (third.append inner)))

end Statements

/-- Every statement that is read is one of the grammar. -/
theorem statement_yields {m : Walk} {levels : Nat} (room : m.Room levels)
    (outer : m.functions = 0 → m.outside) (i : Nat) :
    Traverses s m (Parser.statement (m.functions != 0) levels) (IndexParser.statement s) i fun t j =>
      Yields s [.stmt levels t] i j := by
  induction levels generalizing m i with
  | zero => exact .tooDeep (IndexParser.statement.eq_1 s) room
  | succ levels ih =>
    refine .nested (IndexParser.statement.eq_1 s) room ?_
    have stmts := ih room.nest outer
    have otherwise : Traverses s m.nest (Parser.evalOrAssign (Parser.expression levels)) (IndexParser.evalOrAssign s) i
        fun t j => Yields s [.stmt (levels + 1) t] i j :=
      (evalOrAssign_yields room.nest i).mono fun t j inner => .of .plain inner
    rw [Parser.statement, Parser.statementWith, IndexParser.statementWith]
    refine .peek fun found next => ?_
    rcases found with _ | kind
    · exact otherwise
    cases kind with
    | number | bool | string | ident | punct => exact otherwise
    | keyword word =>
      cases word
      case varKw => exact declaration_yields room.nest i
      case ifKw => exact branching_yields room.nest stmts i
      case whileKw => exact whileLoop_yields room.nest stmts i
      case forKw => exact forLoop_yields room.nest stmts i
      case returnKw => exact returning_yields room.nest outer next
      case functionKw => exact .failHere nofun
      all_goals exact otherwise

/-! ### Functions -/

section Functions

variable {s : TokenStream} {m : Walk} {i : Nat}

/-- A parameter is a name that stands at a place. -/
def ParamAt (s : TokenStream) (param : Param) (i j : Nat) : Prop :=
  param.pos = (s.cursor i).pos ∧ (s.cursor i).kind = some (.ident param.name) ∧ j = i + 1

variable {j : Nat}

theorem ParamAt.lt {param : Param} {i : Nat} (stands : ParamAt s param i j) : i < j :=
  Nat.lt_of_lt_of_eq (Nat.lt_succ_self i) stands.2.2.symm

theorem parameter_stands (i : Nat) : Traverses s m Parser.parameter (IndexParser.parameter s) i (ParamAt s · i) := by
  rw [Parser.parameter, IndexParser.parameter]
  exact .here (.identifier fun name named => .pure ⟨rfl, named, rfl⟩)

/-- Names between commas are parameters. -/
theorem Listed.params_yield {params : List Param} {parts : List (Nat × Nat)} (listed : Listed s j i parts)
    (complete : params.length = parts.length)
    (each : ∀ part ∈ params.zip parts, ParamAt s part.1 part.2.1 part.2.2) : Yields s [.params params] i j := by
  induction params generalizing i parts with
  | nil =>
    obtain rfl := List.length_eq_zero_iff.mp complete.symm
    obtain rfl : j = i := listed
    exact .of .paramsEnd .nil
  | cons param params ih =>
    rcases parts with _ | ⟨⟨first, next⟩, parts⟩
    · cases complete
    obtain ⟨⟨place, named, ends⟩, others⟩ := List.forall_mem_cons.mp each
    obtain ⟨name, pos⟩ := param
    obtain ⟨starts, rest⟩ := listed
    simp only at place named ends starts rest
    subst starts place ends
    rcases rest with ⟨rfl, rfl⟩ | ⟨comma, listed⟩
    · obtain rfl := List.length_eq_zero_iff.mp (Nat.succ.inj complete)
      exact .of .param (.token named .nil)
    · exact .of .paramsCons (.token named (.token comma (ih listed (Nat.succ.inj complete) others)))

/-- What comes behind the keyword of a function, if that is there. -/
theorem functionRest_yields {start : Nat} (room : m.Room maxNesting) (present : Bool) (lead : ∀ phrases k,
    Yields s phrases i k → Yields s (Phrase.perhaps present (kw .functionKw) ++ phrases) start k) :
    InStep s m (Parser.functionRest (s.cursor start).pos) (Parser.functionRest (m.move (s.cursor start).pos))
      (IndexParser.functionRest s (s.cursor start).pos) i fun f j => Yields s [.item (.function f)] start j := by
  have stmts := statement_yields (s := s) (m := m.enter) room (nofun : m.functions + 1 = 0 → _)
  rw [Parser.functionRest, Parser.functionRest, IndexParser.functionRest]
  refine .identifier fun name named => .expect rfl fun opens => ?_
  refine .bind (.withFuel (commaSeparated_traverses (IndexParser.parameters.eq_1 s) parameter_stands ParamAt.lt)) ?_
  rintro params j ⟨parts, listed, complete, each⟩
  have inside := listed.params_yield complete each
  refine .expect rfl fun closes => ?_
  rw [Parser.functionBody, IndexParser.functionBody]
  refine .bind (R := fun body k => Yields s [.braces maxNesting body] (j + 1) k ∨
    Yields s [.block maxNesting body, .token (kw .endKw)] (j + 1) k) (.entered (.check fun braced => ?_)) ?_
  · cases braced with
    | true => exact (braceBlock_yields stmts _).mono fun body k => .inl
    | false => exact (endBlock_yields stmts _).mono fun body k => .inr
  · rintro body k (inner | inner)
    · refine .pure (.of (.bracedFunction present) (lead _ _ (.token named (.token opens ?_))))
      exact inside.append (.token closes inner)
    · refine .pure (.of (.keywordFunction present) (lead _ _ (.token named (.token opens ?_))))
      exact inside.append (.token closes inner)

/-- A declaration with its keyword. -/
theorem functionDef_passage (room : m.Room maxNesting) (behind : m.start ≤ i)
    (isFunction : (s.cursor i).kind = some (kw .functionKw)) :
    Passage s m (i + 1) (fun f j => Yields s [.item (.function f)] i j) (Parser.functionDef (s.cursor i))
      (Parser.functionDef ((s.relocate m.move).cursor i)) (IndexParser.functionDef s (m.books i)) := by
  have same {s : TokenStream} (isFunction : (s.cursor i).kind = some (kw .functionKw)) :
      Parser.functionDef (s.cursor i) = Parser.functionRest (s.cursor i).pos (s.cursor (i + 1)) := by
    change EStateM.bind (Parser.expect (kw .functionKw)) _ (s.cursor i) = _
    rw [EStateM.bind, Parser.expect, if_pos isFunction,
      TokenStream.cursor_advance (TokenStream.lt_of_cursor_kind isFunction)]
  have inside := Nat.le_of_lt (TokenStream.lt_of_cursor_kind isFunction)
  rw [same isFunction, same (TokenStream.cursor_relocate_kind.trans isFunction), TokenStream.cursor_relocate_pos,
    IndexParser.functionDef, IndexParser.bind_of_ok (IndexParser.here_eq inside),
    IndexParser.bind_of_ok (IndexParser.expect_of_eq isFunction)]
  exact functionRest_yields room true (fun phrases k => .token isFunction) (Nat.le_succ_of_le behind)

end Functions

/-! ### Rounds -/

section Rounds

variable {s : TokenStream} {m : Shift} {hadMistake : Bool} {i : Nat}

/-- Where a round reads: behind the keyword of a function, if there is one. -/
def TokenStream.entry (s : TokenStream) (i : Nat) : Nat := if (s.cursor i).kind.any (·.isFunction) then i + 1 else i

theorem TokenStream.le_entry : i ≤ s.entry i := by
  rw [entry]
  split <;> omega

/-- What a round that starts in front of the token at `i` can come to, and where. -/
inductive Tries (s : TokenStream) (hadMistake : Bool) (i : Nat) : Round → Nat → Prop where
  | nothing {kind : TokenKind} (found : (s.cursor i).kind = some kind) (plain : kind.isFunction = false)
      (idle : kind = sym .semicolon ∨ hadMistake = true) : Tries s hadMistake i .nothing (i + 1)
  | item {item : Item} {j : Nat} (free : FunctionFree s (s.entry i) j) (yields : Yields s [.item item] i j)
      (declared : s.entry i ≠ i → ∃ f, item = .function f) : Tries s hadMistake i (.item item) j
  | mistake {d : Diagnostic} {j k l : Nat} (free : FunctionFree s (s.entry i) j) (behind : i ≤ k) (before : k ≤ j)
      (place : (s.cursor k).pos = d.pos)
      (stray : d.fault = .strayReturn →
        s.entry i = i ∧ (s.cursor j).kind = some (kw .returnKw) ∧ (s.cursor j).pos = d.pos)
      (recovers : IndexParser.Recovers s j l) : Tries s hadMistake i (.mistake d) l
  | swallowed {d : Diagnostic} {j l : Nat} (free : FunctionFree s (s.entry i) j) (other : d.fault ≠ .strayReturn)
      (place : (s.cursor j).pos = d.pos) (recovers : IndexParser.Recovers s (j + 1) l) :
      Tries s hadMistake i (.mistake d) l

namespace Tries

variable {r : Round} {j : Nat}

theorem forward (tries : Tries s hadMistake i r j) : i ≤ j := by
  have entry : i ≤ s.entry i := TokenStream.le_entry
  cases tries with
  | nothing => exact Nat.le_succ i
  | item free => exact Nat.le_trans entry free.forward
  | mistake free _ _ _ _ recovers => exact Nat.le_trans entry (Nat.le_trans free.forward recovers.forward)
  | swallowed free _ _ recovers =>
    exact Nat.le_trans entry (Nat.le_trans free.forward (Nat.le_of_lt recovers.forward))

/-- A mistake sits at a place between the start of a round and its end. -/
theorem place {d : Diagnostic} (tries : Tries s hadMistake i (.mistake d) j) :
    ∃ k, i ≤ k ∧ k ≤ j ∧ (s.cursor k).pos = d.pos := by
  cases tries with
  | mistake _ behind before place _ recovers => exact ⟨_, behind, Nat.le_trans before recovers.forward, place⟩
  | swallowed free _ place recovers =>
    exact ⟨_, Nat.le_trans TokenStream.le_entry free.forward, Nat.le_of_lt recovers.forward, place⟩

end Tries

/-- The same round at other places. -/
def Parser.Round.relocate (f : Pos → Pos) : Round → Round
  | .item i => .item (i.relocate f)
  | .mistake d => .mistake (d.relocate f)
  | .nothing => .nothing

/-- A round comes to something at a place, wherever its tokens moved, and with books. -/
structure Comes (s : TokenStream) (m : Shift) (hadMistake : Bool) (i : Nat) (r : Round) (j : Nat)
    (did moved : Round × Cursor) (books : Option (Except Halt Round × Books)) : Prop where
  inside : j ≤ s.tokens.length
  tries : Tries s hadMistake i r j
  did : did = (r, s.cursor j)
  moved : moved = (r.relocate m.move, (s.relocate m.move).cursor j)
  books : books = some (.ok r, ⟨j, 0, 0⟩)

variable {kind : TokenKind} {j : Nat} {p : Program}

/-- A round steps over a token and reads nothing. -/
theorem skipped_comes (found : (s.cursor i).kind = some kind) (plain : kind.isFunction = false)
    (idle : kind = sym .semicolon ∨ hadMistake = true) :
    ∃ r j, Comes s m hadMistake i r j (.nothing, (s.cursor i).advance)
      (.nothing, ((s.relocate m.move).cursor i).advance) ((do IndexParser.skip s; pure Round.nothing) ⟨i, 0, 0⟩) := by
  have within := TokenStream.lt_of_cursor_kind found
  have found' : ((s.relocate m.move).cursor i).kind = some kind := TokenStream.cursor_relocate_kind.trans found
  refine ⟨.nothing, i + 1, within, .nothing found plain idle, ?_, ?_, ?_⟩
  · rw [TokenStream.cursor_advance within]
  · rw [TokenStream.cursor_advance (TokenStream.lt_of_cursor_kind found')]
    rfl
  · exact IndexParser.bind_of_ok (IndexParser.skip_eq within)

/-- At the top level no level and no function is entered. -/
abbrev Shift.top (m : Shift) (i : Nat) (outside : Prop) : Walk := ⟨m, 0, 0, i, outside, True⟩

/-- An item that is tried at the top level. -/
theorem attempt_comes {α : Type} [Movable α] {outside : Prop} {p : Parse α} {c : Read α} {wrap : α → Item}
    (within : i < s.tokens.length) (alone : outside → s.entry i = i)
    (declared : s.entry i ≠ i → ∀ a, ∃ f, wrap a = .function f)
    (passage : Passage s (m.top i outside) (s.entry i) (fun a j => Yields s [.item (wrap a)] i j) (p (s.cursor i))
      (p ((s.relocate m.move).cursor i)) (c ⟨i, 0, 0⟩))
    (same : ∀ a, wrap (Movable.relocate m.move a) = (wrap a).relocate m.move) :
    ∃ r j, Comes s m hadMistake i r j (Parser.attempt p wrap (s.cursor i))
      (Parser.attempt p wrap ((s.relocate m.move).cursor i)) (IndexParser.attempt s c wrap ⟨i, 0, 0⟩) := by
  have entry : s.entry i ≤ s.tokens.length := by
    rw [TokenStream.entry]
    split <;> omega
  rw [Parser.attempt, Parser.attempt]
  generalize p (s.cursor i) = r, p ((s.relocate m.move).cursor i) = r', books : c ⟨i, 0, 0⟩ = o at passage
  have recovering {d : Diagnostic} {j l : Nat} (noted : o = some (.error (.mistake d), ⟨j, 0, 0⟩))
      (recovers : IndexParser.Recovers s j l) (tries : Tries s hadMistake i (.mistake d) l) :
      Comes s m hadMistake i (.mistake d) l (.mistake d, (s.cursor j).recover)
        (.mistake (d.relocate m.move), ((s.relocate m.move).cursor j).recover)
        (IndexParser.attempt s c wrap ⟨i, 0, 0⟩) := by
    refine ⟨recovers.inside, tries, ?_, ?_, ?_⟩
    · rw [recovers.read s rfl]
    · rw [recovers.read _ TokenStream.relocate_kinds]
      rfl
    · exact (IndexParser.tryCatch_of_error (IndexParser.bind_of_error (books.trans noted))).trans
        (IndexParser.bind_of_ok (recovers.books 0 0))
  cases passage with
  | value free yields noted =>
    refine ⟨_, _, free.inside entry, .item free yields fun moved => declared moved _, rfl, ?_, ?_⟩
    · simp only [same]
      rfl
    · exact IndexParser.tryCatch_of_ok (IndexParser.bind_of_ok (books.trans (noted trivial entry)))
  | mistake free behind before place stray noted =>
    obtain ⟨l, recovers⟩ := IndexParser.exists_recovers (free.inside entry)
    refine ⟨_, _, recovering (noted trivial entry) recovers (.mistake free behind before place ?_ recovers)⟩
    exact fun isStray => ⟨alone (stray isStray).1, (stray isStray).2⟩
  | swallowed within free behind other place noted =>
    obtain ⟨l, recovers⟩ := IndexParser.exists_recovers within
    exact ⟨_, _, recovering (noted trivial entry) recovers (.swallowed free other place recovers)⟩

/-- A round that starts neither with a separator nor with the keyword of a function. -/
theorem itemRound_comes (found : (s.cursor i).kind = some kind) (plain : kind.isFunction = false) :
    ∃ r j, Comes s m hadMistake i r j
      (if Parser.isShorthand (s.cursor i).ahead then Parser.attempt Parser.shorthandDef .function (s.cursor i)
      else if hadMistake ∧ (kind = sym .rbrace ∨ kind = kw .endKw) then (.nothing, (s.cursor i).advance)
      else Parser.attempt (Parser.statement false maxNesting) .stmt (s.cursor i))
      (let c := (s.relocate m.move).cursor i
      if Parser.isShorthand c.ahead then Parser.attempt Parser.shorthandDef .function c
      else if hadMistake ∧ (kind = sym .rbrace ∨ kind = kw .endKw) then (.nothing, c.advance)
      else Parser.attempt (Parser.statement false maxNesting) .stmt c)
      ((do
        if ← IndexParser.startsShorthand s then IndexParser.attempt s (IndexParser.shorthandDef s) .function
        else if hadMistake ∧ (kind = sym .rbrace ∨ kind = kw .endKw) then
          IndexParser.skip s
          pure .nothing
        else IndexParser.attempt s (IndexParser.statement s) .stmt : Read Round) ⟨i, 0, 0⟩) := by
  have within := TokenStream.lt_of_cursor_kind found
  have here : s.entry i = i := by simp [TokenStream.entry, found, plain]
  have moved : Parser.isShorthand ((s.relocate m.move).cursor i).ahead = Parser.isShorthand (s.cursor i).ahead :=
    IndexParser.isShorthand_congr (IndexParser.map_drop_congr TokenStream.relocate_kinds i)
  have starts : IndexParser.startsShorthand s ⟨i, 0, 0⟩ =
      some (.ok (Parser.isShorthand (s.cursor i).ahead), ⟨i, 0, 0⟩) := by
    rw [IndexParser.startsShorthand, IndexParser.isShorthand_eq]
    rfl
  have room {outside : Prop} : (m.top i outside).Room maxNesting := fun _ => Nat.zero_add maxNesting
  dsimp only
  rw [moved, IndexParser.bind_of_ok starts]
  cases Parser.isShorthand (s.cursor i).ahead with
  | true =>
    refine attempt_comes within False.elim (fun _ f => ⟨f, rfl⟩) ?_ fun _ => rfl
    rw [here]
    exact InStep.here (functionRest_yields room false fun phrases k rest => rest) (Nat.le_refl i)
  | false =>
    by_cases closes : hadMistake ∧ (kind = sym .rbrace ∨ kind = kw .endKw)
    · simp only [if_pos closes]
      exact skipped_comes found plain (.inr closes.1)
    · simp only [if_neg closes]
      refine attempt_comes within (fun alone : s.entry i = i => alone) (fun moved => absurd here moved) ?_ fun _ => rfl
      rw [here]
      exact (statement_yields room (fun _ => rfl) i).mono (fun t j inner => .of .top inner) (Nat.le_refl i)

/-- One round of the top level, by its first token. -/
theorem round_comes (m : Shift) (hadMistake : Bool) (within : i < s.tokens.length) :
    ∃ r j, Comes s m hadMistake i r j (Parser.round hadMistake (s.cursor i))
      (Parser.round hadMistake ((s.relocate m.move).cursor i)) (IndexParser.round s hadMistake ⟨i, 0, 0⟩) := by
  rw [Parser.round, Parser.round, TokenStream.cursor_relocate_kind, IndexParser.round,
    IndexParser.bind_of_ok (IndexParser.peek_eq (Nat.le_of_lt within))]
  cases found : (s.cursor i).kind with
  | none =>
    rw [TokenStream.cursor_kind, List.getElem?_eq_getElem within] at found
    cases found
  | some kind =>
    cases kind with
    | number | bool | string | ident => exact itemRound_comes found rfl
    | punct symbol =>
      cases symbol
      case semicolon => exact skipped_comes found rfl (.inl rfl)
      all_goals exact itemRound_comes found rfl
    | keyword word =>
      cases word
      case functionKw =>
        refine attempt_comes within False.elim (fun _ f => ⟨f, rfl⟩) ?_ fun _ => rfl
        have behind : s.entry i = i + 1 := by simp [TokenStream.entry, found, TokenKind.isFunction]
        rw [behind]
        exact functionDef_passage (fun _ => Nat.zero_add maxNesting) (Nat.le_refl i) found
      all_goals exact itemRound_comes found rfl

/-- What a round does, where it is known to what it comes. -/
theorem round_tries {r : Round} (did : Parser.round hadMistake (s.cursor i) = (r, s.cursor j))
    (within : i < s.tokens.length) (inside : j ≤ s.tokens.length) : Tries s hadMistake i r j := by
  obtain ⟨r', j', comes⟩ := round_comes .still hadMistake within
  obtain ⟨rfl, next⟩ := Prod.mk.inj (did.symm.trans comes.did)
  obtain rfl := TokenStream.cursor_inj inside comes.inside next
  exact comes.tries

/-- What a round accepts is an item. -/
theorem round_item {item : Item} (did : Parser.round false (s.cursor i) = (.item item, s.cursor j))
    (inside : i ≤ s.tokens.length) (inside' : j ≤ s.tokens.length) : i < j ∧ Yields s [.item item] i j := by
  rcases Nat.lt_or_eq_of_le inside with within | rfl
  · cases round_tries did within inside' with
    | item free yields => exact ⟨yields.lt ⟨_, List.mem_singleton_self _, rfl⟩, yields⟩
  · rw [Parser.round, TokenStream.cursor_kind_end (Nat.le_refl _)] at did
    cases did

/-- The items that the parser reads from an index on, with the indices that they begin at. -/
inductive Reads (s : TokenStream) : Nat → List (Nat × Item) → Prop where
  | done : Reads s s.tokens.length []
  | separator {i : Nat} {reads : List (Nat × Item)} (found : (s.cursor i).kind = some (sym .semicolon))
      (rest : Reads s (i + 1) reads) : Reads s i reads
  | item {i j : Nat} {item : Item} {reads : List (Nat × Item)} (inside : j ≤ s.tokens.length)
      (did : Parser.round false (s.cursor i) = (.item item, s.cursor j)) (rest : Reads s j reads) :
      Reads s i ((i, item) :: reads)

/-- Without a mistake, items are read up to the last token. -/
theorem rounds_reads {fuel : List Token} {items : List Item} (inside : i ≤ s.tokens.length)
    (enough : s.tokens.length - i ≤ fuel.length) (accepted : Parser.rounds fuel false (s.cursor i) = (items, [])) :
    ∃ reads, Reads s i reads ∧ reads.map (·.2) = items := by
  induction fuel generalizing i items with
  | nil =>
    obtain rfl : i = s.tokens.length := Nat.le_antisymm inside (Nat.le_of_sub_eq_zero (Nat.le_zero.mp enough))
    cases accepted
    exact ⟨[], .done, rfl⟩
  | cons _ fuel ih =>
    rcases Nat.lt_or_eq_of_le inside with within | rfl
    · obtain ⟨r, j, inside', tries, did, -, -⟩ := round_comes .still false within
      have behind := IndexParser.nextStart_le within inside'
      have onward := IndexParser.lt_nextStart tries.forward
      rw [List.length_cons] at enough
      rw [IndexParser.rounds_cons within inside' did] at accepted
      cases tries with
      | mistake | swallowed => cases (Prod.mk.inj accepted).2
      | nothing separator plain idle =>
        obtain rfl := idle.resolve_right nofun
        obtain ⟨reads, rest, same⟩ := ih behind (by omega) accepted
        rw [IndexParser.nextStart, if_neg (Nat.ne_of_gt (Nat.lt_succ_self i))] at rest
        exact ⟨reads, .separator separator rest, same⟩
      | item free yields =>
        have forward := (round_item did inside inside').1
        obtain ⟨whole, none⟩ := Prod.mk.inj accepted
        obtain ⟨reads, rest, items⟩ := ih behind (by omega) (Prod.ext rfl none)
        rw [IndexParser.nextStart, if_neg (Nat.ne_of_gt forward)] at whole rest items
        refine ⟨_, .item inside' did rest, ?_⟩
        rw [← whole, List.map_cons, items]
        rfl
    · rw [Parser.rounds, TokenStream.cursor, List.drop_length] at accepted
      cases accepted
      exact ⟨[], .done, rfl⟩

theorem parse_reads (accepted : Parser.parse s = .ok p) : ∃ reads, Reads s 0 reads ∧ reads.map (·.2) = p.items := by
  rw [Parser.parse] at accepted
  cases done : Parser.rounds s.tokens false (.ofStream s) with
  | mk items mistakes =>
    rw [done] at accepted
    cases mistakes with
    | nil =>
      cases accepted
      exact rounds_reads (Nat.zero_le _) (Nat.le_refl _) done
    | cons => cases accepted

theorem Reads.yields {reads : List (Nat × Item)} (reading : Reads s i reads) (inside : i ≤ s.tokens.length) :
    Yields s [.items (reads.map (·.2))] i s.tokens.length := by
  induction reading with
  | done => exact .of .itemsEnd .nil
  | separator found rest ih =>
    exact .of .itemsSeparator (.token found (ih (TokenStream.lt_of_cursor_kind found)))
  | item inside' did rest ih =>
    exact .of .itemsCons ((round_item did inside inside').2.append (ih inside'))

/-- An accepted program is the tokens from the first to the last. -/
theorem parse_yields (accepted : Parser.parse s = .ok p) : Yields s [.items p.items] 0 s.tokens.length := by
  obtain ⟨reads, reading, same⟩ := parse_reads accepted
  rw [← same]
  exact reading.yields (Nat.zero_le _)

end Rounds

end Sketch
