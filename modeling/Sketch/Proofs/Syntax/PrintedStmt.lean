import Sketch.Proofs.Syntax.PrintedExpr

/-!
The parser reads a printed statement back, in front of its semicolon and with its blocks in any style.
-/

namespace Sketch.Parser

variable {line levels : Nat} {stmt : Parse Stmt} {s : Stmt} {body : List Stmt}

/-! ### Blocks -/

/-- Whether a statement can begin with a token. -/
def startsStmt : TokenKind → Bool
  | .keyword .varKw | .keyword .ifKw | .keyword .whileKw | .keyword .forKw | .keyword .returnKw => true
  | kind => opensExpr kind

theorem startsStmt_of_opensExpr {kind : TokenKind} (opens : opensExpr kind) : startsStmt kind := by
  cases kind with
  | number | bool | string | ident | punct => exact opens
  | keyword word =>
    cases word
    case varKw | ifKw | whileKw | forKw | returnKw => rfl
    all_goals exact opens

/-- A parser reads a statement in front of a semicolon, in any styling. -/
abbrev RecoversStmt (line : Nat) (stmt : Parse Stmt) (s : Stmt) : Prop :=
  ∀ σ, Yields line stmt (s.print σ) (· = some (sym .semicolon)) (·.bare = s.bare)

/-- The same of a statement that cannot be taken for the end of its block. -/
structure Rereads (line : Nat) (stmt : Parse Stmt) (s : Stmt) : Prop where
  begins : ∀ σ, BeginsWith (startsStmt ·) (s.print σ)
  reads : RecoversStmt line stmt s

/-- Statements up to the end of their block, with further semicolons in front. -/
theorem statementsUntil_recovers {ends : Option TokenKind → Bool} {rest : List TokenKind}
    (rereads : ∀ s ∈ body, Rereads line stmt s) (goesOn : ∀ kind, startsStmt kind → ends (some kind) = false)
    (ended : ends rest.head?) (noMore : rest.head? ≠ some (sym .semicolon)) :
    ∀ (σ : Styling) n fuel c, body.length < fuel.length →
      Midway line (List.replicate n (sym .semicolon) ++ (Stmt.printBlock body σ ++ rest)) c →
      Gets (statementsUntil ends stmt fuel) c fun body' c' =>
        Stmt.bareBlock body' = Stmt.bareBlock body ∧ Midway line rest c' := by
  induction body with
  | nil =>
    intro σ n fuel c enough midway
    obtain ⟨t, fuel, rfl, -⟩ := cons_of_length_le enough
    rw [Stmt.printBlock, List.nil_append] at midway
    rw [statementsUntil]
    apply Gets.skipSemicolons midway noMore
    intro c₁ midway₁
    apply Gets.peek midway₁.toAhead
    rw [if_pos ended]
    exact .pure ⟨rfl, midway₁⟩
  | cons s body ih =>
    intro σ n fuel c enough midway
    obtain ⟨t, fuel, rfl, enough'⟩ := cons_of_length_le enough
    rw [List.forall_mem_cons] at rereads
    obtain ⟨kind, more, first, starts⟩ := (rereads.1.begins (σ.inner 0)).append
      (sym .semicolon :: Stmt.printBlock body σ.tail ++ rest)
    rw [Stmt.printBlock, List.append_assoc, first] at midway
    rw [statementsUntil]
    apply Gets.skipSemicolons midway
    · rintro ⟨⟩
      cases starts
    intro c₁ midway₁
    apply Gets.peek midway₁.toAhead
    rw [List.head?_cons, if_neg (by simp [goesOn kind starts])]
    rw [← first] at midway₁
    apply Gets.bind (rereads.1.reads _ c₁ _ midway₁.toAhead rfl)
    rintro s' c₂ ⟨same, midway₂⟩
    -- The semicolon behind this statement stands in front of the others.
    apply Gets.bind (ih rereads.2 σ.tail 1 fuel c₂ enough' midway₂)
    rintro body' c₃ ⟨same', midway₃⟩
    refine .pure ⟨?_, midway₃⟩
    rw [Stmt.bareBlock, Stmt.bareBlock, same, same']

theorem length_le_printBlock (body : List Stmt) (σ : Styling) : body.length ≤ (Stmt.printBlock body σ).length := by
  induction body generalizing σ with
  | nil => exact Nat.le_refl 0
  | cons s body ih =>
    have := ih σ.tail
    rw [Stmt.printBlock, List.length_append, List.length_cons, List.length_cons]
    omega

section Blocks

variable {rest : List TokenKind} {σ : Styling} {c : Cursor} {n : Nat}

/-- The same with as many rounds as there are tokens. -/
theorem Gets.block {ends : Option TokenKind → Bool} {close : TokenKind}
    (rereads : ∀ s ∈ body, Rereads line stmt s) (goesOn : ∀ kind, startsStmt kind → ends (some kind) = false)
    (ended : ends (some close)) (noMore : close ≠ sym .semicolon)
    (midway : Midway line
      (List.replicate n (sym .semicolon) ++ (Stmt.printBlock body σ ++ close :: rest)) c) :
    Gets (withFuel (statementsUntil ends stmt)) c fun body' c' =>
      Stmt.bareBlock body' = Stmt.bareBlock body ∧ Midway line (close :: rest) c' := by
  have enough : body.length < c.ahead.length := by
    have := length_le_printBlock body σ
    rw [midway.length_eq, List.length_append, List.length_append, List.length_cons]
    omega
  have ended' : ends (close :: rest).head? := ended
  have noMore' : (close :: rest).head? ≠ some (sym .semicolon) := by simpa using noMore
  exact statementsUntil_recovers rereads goesOn ended' noMore' σ n c.ahead c enough midway

/-- Blocks read up to positions. -/
abbrev RecoversBlock (line : Nat) (p : Parse (List Stmt)) (kinds : List TokenKind) (body : List Stmt) :
    Prop :=
  Yields line p kinds (fun _ => True) fun body' => Stmt.bareBlock body' = Stmt.bareBlock body

theorem endsBlock_of_startsStmt (kind : TokenKind) (starts : startsStmt kind) : endsBlock (some kind) = false := by
  cases kind with
  | number | bool | string | ident | punct => rfl
  | keyword word =>
    cases word
    case endKw | elseKw | elseifKw => cases starts
    all_goals rfl

variable (rereads : ∀ s ∈ body, Rereads line stmt s)

include rereads

theorem braceBlock_recovers (σ : Styling) :
    RecoversBlock line (braceBlock stmt) (sym .lbrace :: Stmt.printBlock body σ ++ [sym .rbrace]) body := by
  intro c rest ahead _
  rw [List.append_assoc] at ahead
  apply Gets.expect ahead
  intro c₁ midway₁
  refine .bind (.block (n := 0) rereads ?_ (by simp) (by simp) midway₁) ?_
  · rintro kind starts
    rw [decide_eq_false_iff_not]
    rintro (isEnd | isBrace)
    · cases isEnd
    · cases isBrace
      cases starts
  · exact fun body' c₂ ⟨same, midway₂⟩ =>
    .expect midway₂.toAhead fun c₃ midway₃ => .pure ⟨same, midway₃⟩

variable {close : Keyword}

/-- Statements in front of a keyword that ends their block. -/
theorem Gets.keywordBlock (ended : endsBlock (some (kw close)))
    (midway : Midway line
      (List.replicate n (sym .semicolon) ++ (Stmt.printBlock body σ ++ kw close :: rest)) c) :
    Gets (keywordBlock stmt) c fun body' c' =>
      Stmt.bareBlock body' = Stmt.bareBlock body ∧ Midway line (kw close :: rest) c' :=
  .block rereads endsBlock_of_startsStmt ended (by simp) midway

theorem Gets.endBlock (midway : Midway line
      (List.replicate n (sym .semicolon) ++ (Stmt.printBlock body σ ++ kw .endKw :: rest)) c) :
    Gets (endBlock stmt) c fun body' c' =>
      Stmt.bareBlock body' = Stmt.bareBlock body ∧ Midway line rest c' :=
  (Gets.keywordBlock rereads rfl midway).bind fun _ _ ⟨same, midway₁⟩ =>
    .expect midway₁.toAhead fun _ midway₂ => .pure ⟨same, midway₂⟩

theorem Gets.thenBlock (ended : endsBlock (some (kw close)))
    (midway : Midway line (kw .thenKw :: Stmt.printBlock body σ ++ kw close :: rest) c) :
    Gets (thenBlock stmt) c fun body' c' =>
      Stmt.bareBlock body' = Stmt.bareBlock body ∧ Midway line (kw close :: rest) c' :=
  .accept midway.toAhead fun _ midway₁ => .keywordBlock (n := 0) rereads ended midway₁

/-- The body of a loop in either style. -/
theorem loopBody_recovers (style : BlockStyle) (σ : Styling) :
    RecoversBlock line (loopBody stmt)
      (style.opening (kw .doKw) :: Stmt.printBlock body σ ++ [style.closing]) body := by
  intro c rest ahead _
  apply Gets.check ahead
  cases style with
  | braces => exact braceBlock_recovers rereads σ c rest ahead trivial
  | keywords =>
    rw [List.append_assoc] at ahead
    exact .accept ahead fun c₁ midway₁ => .endBlock (n := 0) rereads midway₁

end Blocks

/-! ### Branches -/

/-- A chain of branches read up to positions. -/
def SameChain (branches : List (Expr × List Stmt)) (otherwise : Option (List Stmt))
    (chain : List (Expr × List Stmt) × Option (List Stmt)) : Prop :=
  Stmt.bareBranches chain.1 = Stmt.bareBranches branches ∧
    Stmt.bareOtherwise chain.2 = Stmt.bareOtherwise otherwise

theorem SameChain.cons {test test' : Expr} {body' : List Stmt} {branches : List (Expr × List Stmt)}
    {otherwise : Option (List Stmt)} {chain : List (Expr × List Stmt) × Option (List Stmt)}
    (sameTest : test'.bare = test.bare) (sameBody : Stmt.bareBlock body' = Stmt.bareBlock body)
    (same : SameChain branches otherwise chain) :
    SameChain ((test, body) :: branches) otherwise ((test', body') :: chain.1, chain.2) := by
  refine ⟨?_, same.2⟩
  rw [Stmt.bareBranches, Stmt.bareBranches, sameTest, sameBody, same.1]

section Branches

variable {branches : List (Expr × List Stmt)} {otherwise : Option (List Stmt)} {rest : List TokenKind}
variable {σ σ' : Styling} {c : Cursor} {fuel : List Token}

theorem length_le_printBranches (branches : List (Expr × List Stmt)) (intro : List TokenKind)
    (style : BlockStyle) (σ : Styling) : branches.length ≤ (Stmt.printBranches branches intro style σ).length := by
  induction branches generalizing intro σ with
  | nil => exact Nat.zero_le _
  | cons branch branches ih =>
    have := ih style.elseIf σ.tail
    simp only [Stmt.printBranches, List.length_append, List.length_cons]
    omega

variable {test : Expr}

theorem Gets.braceBranch {α : Type} {f : Expr → List Stmt → Parse α} {R : α → Cursor → Prop}
    (shallow : test.depth ≤ levels) (rereads : ∀ s ∈ body, Rereads line stmt s) (midway : Midway line
      (test.print ++ (sym .lbrace :: Stmt.printBlock body σ ++ ([sym .rbrace] ++ rest))) c)
    (next : ∀ test' body' c', test'.bare = test.bare → Stmt.bareBlock body' = Stmt.bareBlock body →
      Midway line rest c' → Gets (f test' body') c' R) : Gets (do
      let test' ← expression levels
      let body' ← braceBlock stmt
      f test' body') c R := by
  apply Gets.bind (expression_recovers shallow c _ midway.toAhead rfl)
  rintro test' c₁ ⟨sameTest, midway₁⟩
  rw [← List.append_assoc] at midway₁
  apply Gets.bind (braceBlock_recovers rereads σ c₁ rest midway₁.toAhead trivial)
  exact fun body' c₂ ⟨sameBody, midway₂⟩ => next test' body' c₂ sameTest sameBody midway₂

/-- Behind the body of a branch comes the keyword of the next branch or the end. -/
theorem keywords_follow (branches : List (Expr × List Stmt)) (otherwise : Option (List Stmt))
    (σ σ' : Styling) (rest : List TokenKind) :
    ∃ close more, Stmt.printBranches branches BlockStyle.keywords.elseIf .keywords σ ++
      (Stmt.printOtherwise otherwise .keywords σ' ++ rest) = kw close :: more ∧
      endsBlock (some (kw close)) := by
  cases branches with
  | cons branch branches =>
    simp only [Stmt.printBranches, List.append_assoc]
    exact ⟨_, _, rfl, rfl⟩
  | nil =>
    cases otherwise with
    | none => exact ⟨_, _, rfl, rfl⟩
    | some body => exact ⟨_, _, rfl, rfl⟩

section Chains

variable (shallow : ∀ branch ∈ branches, branch.1.depth ≤ levels)
  (rereads : ∀ branch ∈ branches, ∀ s ∈ branch.2, Rereads line stmt s)
  (rereadsLast : ∀ body ∈ otherwise, ∀ s ∈ body, Rereads line stmt s)

include shallow rereads rereadsLast

/-- Further branches in braces are read back. -/
theorem braceBranches_recovers {split : Bool}
    (ended : rest.head? = some (sym .semicolon)) (enough : branches.length < fuel.length)
    (midway : Midway line
      (Stmt.printBranches branches (BlockStyle.braces split).elseIf (.braces split) σ ++
        (Stmt.printOtherwise otherwise (.braces split) σ' ++ rest)) c) :
    Gets (braceBranches (expression levels) stmt fuel) c fun chain c' =>
      SameChain branches otherwise chain ∧ Midway line rest c' := by
  induction branches generalizing fuel c σ with
  | nil =>
    obtain ⟨t, fuel, rfl, -⟩ := cons_of_length_le enough
    rw [braceBranches]
    cases otherwise with
    | none =>
      have midway : Midway line rest c := midway
      apply Gets.decline midway.toAhead
      · simp [ended]
      apply Gets.decline midway.toAhead
      · simp [ended]
      exact .pure ⟨⟨rfl, rfl⟩, midway⟩
    | some body =>
      have midway : Midway line
          (kw .elseKw :: (sym .lbrace :: Stmt.printBlock body σ' ++ [sym .rbrace] ++ rest)) c := midway
      apply Gets.decline midway.toAhead
      · simp
      apply Gets.accept midway.toAhead
      intro c₁ midway₁
      apply Gets.decline midway₁.toAhead
      · simp
      apply Gets.bind (braceBlock_recovers (rereadsLast body rfl) σ' c₁ rest midway₁.toAhead trivial)
      exact fun body' c₂ ⟨same, midway₂⟩ => .pure ⟨⟨rfl, congrArg some same⟩, midway₂⟩
  | cons branch branches ih =>
    obtain ⟨t, fuel, rfl, enough'⟩ := cons_of_length_le enough
    obtain ⟨test, body⟩ := branch
    rw [List.forall_mem_cons] at shallow rereads
    simp only [Stmt.printBranches, BlockStyle.opening, List.append_assoc] at midway
    rw [braceBranches]
    -- There are two ways to introduce a further branch, and the same comes behind both.
    have last (test' : Expr) (body' : List Stmt) (c' : Cursor) (sameTest : test'.bare = test.bare)
        (sameBody : Stmt.bareBlock body' = Stmt.bareBlock body)
        (midway' : Midway line
          (Stmt.printBranches branches (BlockStyle.braces split).elseIf (.braces split) σ.tail ++
            (Stmt.printOtherwise otherwise (.braces split) σ' ++ rest)) c') :
        Gets (do
          let chain ← braceBranches (expression levels) stmt fuel
          pure ((test', body') :: chain.1, chain.2)) c' fun chain c'' =>
            SameChain ((test, body) :: branches) otherwise chain ∧ Midway line rest c'' := by
      apply Gets.bind (ih shallow.2 rereads.2 enough' midway')
      exact fun chain c'' ⟨same, midway''⟩ => .pure ⟨same.cons sameTest sameBody, midway''⟩
    cases split with
    | true =>
      apply Gets.decline midway.toAhead
      · simp [BlockStyle.elseIf]
      apply Gets.accept midway.toAhead
      intro c₁ midway₁
      apply Gets.accept midway₁.toAhead
      intro c₂ midway₂
      exact .braceBranch shallow.1 rereads.1 midway₂ last
    | false =>
      apply Gets.accept midway.toAhead
      intro c₁ midway₁
      exact .braceBranch shallow.1 rereads.1 midway₁ last

/-- Further branches up to `end` are read back. -/
theorem keywordBranches_recovers (enough : branches.length < fuel.length)
    (midway : Midway line
      (Stmt.printBranches branches BlockStyle.keywords.elseIf .keywords σ ++
        (Stmt.printOtherwise otherwise .keywords σ' ++ rest)) c) :
    Gets (keywordBranches (expression levels) stmt fuel) c fun chain c' =>
      SameChain branches otherwise chain ∧ Midway line rest c' := by
  induction branches generalizing fuel c σ with
  | nil =>
    obtain ⟨t, fuel, rfl, -⟩ := cons_of_length_le enough
    rw [keywordBranches]
    cases otherwise with
    | none =>
      have midway : Midway line (kw .endKw :: rest) c := midway
      apply Gets.decline midway.toAhead
      · simp
      apply Gets.decline midway.toAhead
      · simp
      exact .expect midway.toAhead fun c₁ midway₁ => .pure ⟨⟨rfl, rfl⟩, midway₁⟩
    | some body =>
      have midway : Midway line
          (kw .elseKw :: (Stmt.printBlock body σ' ++ [kw .endKw] ++ rest)) c := midway
      rw [List.append_assoc] at midway
      apply Gets.decline midway.toAhead
      · simp
      apply Gets.accept midway.toAhead
      intro c₁ midway₁
      apply Gets.bind (Gets.endBlock (n := 0) (rereadsLast body rfl) midway₁)
      exact fun body' c₂ ⟨same, midway₂⟩ => .pure ⟨⟨rfl, congrArg some same⟩, midway₂⟩
  | cons branch branches ih =>
    obtain ⟨t, fuel, rfl, enough'⟩ := cons_of_length_le enough
    obtain ⟨test, body⟩ := branch
    rw [List.forall_mem_cons] at shallow rereads
    simp only [Stmt.printBranches, BlockStyle.opening, List.append_assoc, List.nil_append] at midway
    -- The body ends where the next keyword comes, which depends on what is left of the chain.
    obtain ⟨close, more, follows, ended⟩ := keywords_follow branches otherwise σ.tail σ' rest
    rw [follows] at midway
    rw [keywordBranches]
    apply Gets.accept midway.toAhead
    intro c₁ midway₁
    apply Gets.bind (expression_recovers shallow.1 c₁ _ midway₁.toAhead rfl)
    rintro test' c₂ ⟨sameTest, midway₂⟩
    apply Gets.bind (Gets.thenBlock rereads.1 ended midway₂)
    rintro body' c₃ ⟨sameBody, midway₃⟩
    rw [← follows] at midway₃
    apply Gets.bind (ih shallow.2 rereads.2 enough' midway₃)
    exact fun chain c₄ ⟨same, midway₄⟩ => .pure ⟨same.cons sameTest sameBody, midway₄⟩

end Chains

/-- A whole chain in either style. -/
theorem branching_recovers {pos : Pos} (style : BlockStyle)
    (shallow : ∀ branch ∈ (test, body) :: branches, branch.1.depth ≤ levels)
    (rereads : ∀ branch ∈ (test, body) :: branches, ∀ s ∈ branch.2, Rereads line stmt s)
    (rereadsLast : ∀ body ∈ otherwise, ∀ s ∈ body, Rereads line stmt s) :
    Yields line (branching (expression levels) stmt)
      (Stmt.printBranches ((test, body) :: branches) [kw .ifKw] style σ ++
        Stmt.printOtherwise otherwise style σ') (· = some (sym .semicolon))
      (·.bare = (Stmt.branch ((test, body) :: branches) otherwise pos).bare) := by
  intro c rest ahead ended
  rw [List.forall_mem_cons] at shallow rereads
  simp only [Stmt.printBranches, List.append_assoc] at ahead
  apply Gets.here
  apply Gets.expect ahead
  intro c₁ midway₁
  have done {body' : List Stmt} {test' : Expr} {chain : List (Expr × List Stmt) × Option (List Stmt)}
      (sameTest : test'.bare = test.bare) (sameBody : Stmt.bareBlock body' = Stmt.bareBlock body)
      (same : SameChain branches otherwise chain) :
      (Stmt.branch ((test', body') :: chain.1) chain.2 c.pos).bare =
        (Stmt.branch ((test, body) :: branches) otherwise pos).bare := by
    have same := same.cons sameTest sameBody
    rw [Stmt.bare, Stmt.bare, same.1, same.2]
  have enough {c : Cursor} (midway : Midway line (Stmt.printBranches branches style.elseIf style σ.tail ++
      (Stmt.printOtherwise otherwise style σ' ++ rest)) c) : branches.length < c.ahead.length := by
    have := length_le_printBranches branches style.elseIf style σ.tail
    obtain ⟨more, rfl⟩ := List.head?_eq_some_iff.mp ended
    rw [midway.length_eq]
    simp only [List.length_append, List.length_cons]
    omega
  cases style with
  | braces split =>
    apply Gets.bind (expression_recovers shallow.1 c₁ _ midway₁.toAhead rfl)
    rintro test' c₂ ⟨sameTest, midway₂⟩
    apply Gets.check midway₂.toAhead
    simp only [BlockStyle.opening] at midway₂
    rw [← List.append_assoc] at midway₂
    apply Gets.bind (braceBlock_recovers rereads.1 _ c₂ _ midway₂.toAhead trivial)
    rintro body' c₃ ⟨sameBody, midway₃⟩
    have read := braceBranches_recovers shallow.2 rereads.2 rereadsLast ended (enough midway₃) midway₃
    apply Gets.bind read
    rintro chain c₄ ⟨same, midway₄⟩
    exact .pure ⟨done sameTest sameBody same, midway₄⟩
  | keywords =>
    obtain ⟨close, more, follows, closes⟩ := keywords_follow branches otherwise σ.tail σ' rest
    apply Gets.bind (expression_recovers shallow.1 c₁ _ midway₁.toAhead rfl)
    rintro test' c₂ ⟨sameTest, midway₂⟩
    apply Gets.check midway₂.toAhead
    simp only [BlockStyle.opening, List.nil_append, follows] at midway₂
    apply Gets.bind (Gets.thenBlock rereads.1 closes midway₂)
    rintro body' c₃ ⟨sameBody, midway₃⟩
    rw [← follows] at midway₃
    have read := keywordBranches_recovers shallow.2 rereads.2 rereadsLast (enough midway₃) midway₃
    apply Gets.bind read
    rintro chain c₄ ⟨same, midway₄⟩
    exact .pure ⟨done sameTest sameBody same, midway₄⟩

end Branches

/-! ### Optional parts -/

section Options

variable {symbol : TokenKind}

/-- An expression behind a symbol, or nothing. -/
theorem behind_recovers (optional : Option Expr) (shallow : optional.elim 0 Expr.depth ≤ levels) :
    YieldsMidway line (behind symbol (expression levels)) (optional.elim [] (symbol :: ·.print))
      (fun next => next ≠ some symbol ∧ stops 0 next) (·.map Expr.bare = optional.map Expr.bare) := by
  intro c rest midway ⟨other, stopped⟩
  cases optional with
  | none => exact .decline midway.toAhead other (.pure ⟨rfl, midway⟩)
  | some e =>
    apply Gets.accept midway.toAhead
    intro c₁ midway₁
    apply Gets.map
    apply Gets.mono (expression_recovers shallow c₁ rest midway₁.toAhead stopped)
    exact fun e' c₂ ⟨same, midway₂⟩ => ⟨congrArg some same, midway₂⟩

/-- A part that is there unless a symbol comes next. -/
theorem unlessNext_recovers {α : Type} {p : Parse α} {print : α → List TokenKind} {view : α → α}
    {optional : Option α}
    (reads : ∀ x ∈ optional, Yields line p (print x) (· = some symbol) (view · = view x))
    (begins : ∀ x ∈ optional, BeginsWith (· ≠ symbol) (print x)) :
    YieldsMidway line (unlessNext symbol p) (optional.elim [] print) (· = some symbol)
      (·.map view = optional.map view) := by
  intro c rest midway isNext
  apply Gets.check midway.toAhead
  cases optional with
  | none =>
    have isNext : (Option.elim none [] print ++ rest).head? = some symbol := isNext
    rw [decide_eq_true isNext]
    exact .pure ⟨rfl, midway⟩
  | some x =>
    obtain ⟨kind, more, first, other⟩ := (begins x rfl).append rest
    have noSymbol : (print x ++ rest).head? ≠ some symbol := by
      rw [first]
      simpa using other
    rw [Option.elim_some, decide_eq_false noSymbol]
    apply Gets.map
    apply Gets.mono (reads x rfl c rest midway.toAhead isNext)
    exact fun x' c₁ ⟨same, midway₁⟩ => ⟨congrArg some same, midway₁⟩

end Options

/-! ### Assignments and expressions -/

/-- What comes behind a statement, or behind the last clause of a loop. -/
def endsSimple (next : Option TokenKind) : Bool :=
  next = some (sym .semicolon) || next = some (sym .rparen)

theorem stops_of_endsSimple {next : Option TokenKind} (ends : endsSimple next) :
    stops 0 next ∧ next.bind assignOp? = none := by
  simp only [endsSimple, Bool.or_eq_true, decide_eq_true_iff] at ends
  rcases ends with rfl | rfl <;> exact ⟨rfl, rfl⟩

/-- What an assignment writes to, as an expression. -/
def targetExpr : Target → Expr
  | .name n => .ident n default
  | .index object key => .index object key default
  | .field object n => .field object n default

theorem print_targetExpr (target : Target) : (targetExpr target).print = target.print := by
  cases target <;> rfl

theorem depth_targetExpr (target : Target) : (targetExpr target).depth = target.depth := by
  cases target <;> rfl

theorem target?_of_bare_eq {e : Expr} {target : Target} (same : e.bare = (targetExpr target).bare) :
    ∃ target', target? e = some target' ∧ target'.bare = target.bare := by
  cases target with
  | name n =>
    cases e <;> simp only [targetExpr, Expr.bare, reduceCtorEq, Expr.ident.injEq] at same
    exact ⟨_, rfl, by rw [same.1]⟩
  | index object key =>
    cases e <;> simp only [targetExpr, Expr.bare, reduceCtorEq, Expr.index.injEq] at same
    exact ⟨_, rfl, by rw [Target.bare, Target.bare, same.1, same.2.1]⟩
  | field object n =>
    cases e <;> simp only [targetExpr, Expr.bare, reduceCtorEq, Expr.field.injEq] at same
    exact ⟨_, rfl, by rw [Target.bare, Target.bare, same.1, same.2.1]⟩

theorem assignSymbol_reads {op : Option BinOp} (basic : op.all (·.assignToken?.isSome)) :
    stops 0 (some (assignSymbol op)) ∧ assignOp? (assignSymbol op) = some op := by
  cases op with
  | none => exact ⟨rfl, rfl⟩
  | some op =>
    cases op
    case add | sub | mul | div => exact ⟨rfl, rfl⟩
    all_goals cases basic

variable {inFunction : Bool}

/-- An assignment or an expression is read back. -/
theorem evalOrAssign_recovers (simple : s.isSimple) (printable : s.isPrintable inFunction)
    (shallow : s.depth ≤ levels + 1) (σ : Styling) :
    Yields line (evalOrAssign (expression levels)) (s.print σ) (endsSimple ·) (·.bare = s.bare) := by
  intro c rest ahead ends
  obtain ⟨stopped, noAssign⟩ := stops_of_endsSimple ends
  cases s with
  | declare | branch | count | clauses | whileDo | ret => cases simple
  | eval value =>
    have shallow : value.depth ≤ levels := Nat.le_of_succ_le_succ shallow
    apply Gets.here
    apply Gets.bind (expression_recovers shallow c rest ahead stopped)
    rintro value' c₁ ⟨same, midway₁⟩
    apply Gets.peek midway₁.toAhead
    rw [noAssign]
    exact .pure ⟨congrArg Stmt.eval same, midway₁⟩
  | assign target op value pos =>
    have shallow : max target.depth value.depth ≤ levels := Nat.le_of_succ_le_succ shallow
    rw [Nat.max_le, ← depth_targetExpr] at shallow
    obtain ⟨stopped', isAssign⟩ := assignSymbol_reads printable
    rw [Stmt.print, ← print_targetExpr, List.append_assoc] at ahead
    apply Gets.here
    apply Gets.bind (expression_recovers shallow.1 c _ ahead stopped')
    rintro place c₁ ⟨samePlace, midway₁⟩
    apply Gets.peek midway₁.toAhead
    obtain ⟨target', found, sameTarget⟩ := target?_of_bare_eq samePlace
    simp only [List.cons_append, List.head?_cons, Option.bind_some, isAssign, found]
    apply Gets.skip midway₁.toAhead
    intro c₂ midway₂
    apply Gets.bind (expression_recovers shallow.2 c₂ rest midway₂.toAhead stopped)
    rintro value' c₃ ⟨sameValue, midway₃⟩
    refine .pure ⟨?_, midway₃⟩
    simp only [Stmt.bare, sameTarget, sameValue]

/-! ### First tokens -/

theorem print_begins_of_isSimple (simple : s.isSimple) (σ : Styling) : BeginsWith (opensExpr ·) (s.print σ) := by
  have expression (e : Expr) : BeginsWith (opensExpr ·) e.print := by
    obtain ⟨kind, rest, first, opens, -⟩ := print_begins e
    exact ⟨kind, rest, first, opens⟩
  cases s with
  | declare | branch | count | clauses | whileDo | ret => cases simple
  | eval value => exact expression value
  | assign target op value pos =>
    rw [Stmt.print, ← print_targetExpr]
    exact (expression (targetExpr target)).append _

/-- What is neither an assignment nor an expression has a keyword of its own. -/
theorem print_begins_of_not_isSimple (printable : s.isPrintable inFunction) (other : s.isSimple = false) (σ : Styling) :
    BeginsWith (fun kind => startsStmt kind ∧ opensExpr kind = false) (s.print σ) := by
  cases s with
  | assign | eval => cases other
  | declare | count | clauses | whileDo | ret => exact ⟨_, _, rfl, rfl, rfl⟩
  | branch branches otherwise pos =>
    cases branches with
    | nil => cases printable
    | cons branch branches =>
      obtain ⟨test, body⟩ := branch
      simp only [Stmt.print, Stmt.printBranches, List.append_assoc]
      exact ⟨_, _, rfl, rfl, rfl⟩

theorem print_begins_stmt (printable : s.isPrintable inFunction) (σ : Styling) :
    BeginsWith (startsStmt ·) (s.print σ) := by
  cases simple : s.isSimple with
  | true =>
    obtain ⟨kind, rest, first, opens⟩ := print_begins_of_isSimple simple σ
    exact ⟨kind, rest, first, startsStmt_of_opensExpr opens⟩
  | false =>
    obtain ⟨kind, rest, first, starts, -⟩ := print_begins_of_not_isSimple printable simple σ
    exact ⟨kind, rest, first, starts⟩

/-! ### Other statements -/

section Statements

variable {pos : Pos}

theorem declaration_recovers {name : String} {init : Option Expr}
    (shallow : init.elim 0 Expr.depth ≤ levels) :
    RecoversStmt line (declaration (expression levels)) (.declare name init pos) := by
  intro σ c rest ahead ended
  apply Gets.here
  apply Gets.expect ahead
  intro c₁ midway₁
  apply Gets.identifier midway₁.toAhead
  intro c₂ midway₂
  have fits : rest.head? ≠ some (sym .eq) ∧ stops 0 rest.head? := by
    rw [ended]
    exact ⟨by simp, rfl⟩
  apply Gets.bind (behind_recovers init shallow c₂ rest midway₂ fits)
  rintro init' c₃ ⟨same, midway₃⟩
  exact .pure ⟨congrArg (Stmt.declare name · default) same, midway₃⟩

theorem stops_opening (style : BlockStyle) : stops 0 (some (style.opening (kw .doKw))) := by
  cases style <;> rfl

theorem whileLoop_recovers {test : Expr} (shallow : test.depth ≤ levels)
    (rereads : ∀ s ∈ body, Rereads line stmt s) :
    RecoversStmt line (whileLoop (expression levels) stmt) (.whileDo test body pos) := by
  intro σ c rest ahead _
  rw [Stmt.print_whileDo_append] at ahead
  apply Gets.here
  apply Gets.expect ahead
  intro c₁ midway₁
  apply Gets.bind (expression_recovers shallow c₁ _ midway₁.toAhead (stops_opening (σ [])))
  rintro test' c₂ ⟨sameTest, midway₂⟩
  apply Gets.bind (loopBody_recovers rereads (σ []) _ c₂ rest midway₂.toAhead trivial)
  rintro body' c₃ ⟨sameBody, midway₃⟩
  refine .pure ⟨?_, midway₃⟩
  simp only [Stmt.bare, sameTest, sameBody]

/-- A loop that counts is read back. -/
theorem forLoop_recovers_count {var : String} {start stop : Expr} {step : Option Expr}
    (startShallow : start.depth ≤ levels) (stopShallow : stop.depth ≤ levels)
    (stepShallow : step.elim 0 Expr.depth ≤ levels) (rereads : ∀ s ∈ body, Rereads line stmt s) :
    RecoversStmt line (forLoop (expression levels) stmt) (.count var start stop step body pos) := by
  intro σ c rest ahead _
  have stopFollow : stops 0 (step.elim [] (sym .comma :: ·.print) ++ ((σ []).opening (kw .doKw) ::
      Stmt.printBlock body (σ.inner 0) ++ [(σ []).closing] ++ rest)).head? := by
    cases step with
    | none => exact stops_opening (σ [])
    | some step => rfl
  have stepFollow : some ((σ []).opening (kw .doKw)) ≠ some (sym .comma) := by
    cases σ [] <;> simp [BlockStyle.opening]
  rw [Stmt.print_count_append] at ahead
  apply Gets.here
  apply Gets.expect ahead
  intro c₁ midway₁
  apply Gets.check midway₁.toAhead
  apply Gets.identifier midway₁.toAhead
  intro c₂ midway₂
  apply Gets.expect midway₂.toAhead
  intro c₃ midway₃
  apply Gets.bind (expression_recovers startShallow c₃ _ midway₃.toAhead rfl)
  rintro start' c₄ ⟨sameStart, midway₄⟩
  apply Gets.expect midway₄.toAhead
  intro c₅ midway₅
  apply Gets.bind (expression_recovers stopShallow c₅ _ midway₅.toAhead stopFollow)
  rintro stop' c₆ ⟨sameStop, midway₆⟩
  apply Gets.bind (behind_recovers step stepShallow c₆ _ midway₆ ⟨stepFollow, stops_opening (σ [])⟩)
  rintro step' c₇ ⟨sameStep, midway₇⟩
  apply Gets.bind (loopBody_recovers rereads (σ []) _ c₇ rest midway₇.toAhead trivial)
  rintro body' c₈ ⟨sameBody, midway₈⟩
  refine .pure ⟨?_, midway₈⟩
  simp only [Stmt.bare, sameStart, sameStop, sameStep, sameBody]

theorem bareClause_eq_map (clause : Option Stmt) : Stmt.bareClause clause = clause.map Stmt.bare := by
  cases clause <;> rfl

variable {inFunction : Bool} {c : Cursor} {kind : TokenKind} {rest : List TokenKind}

/-- A loop with three clauses, the last of which may take one level more. -/
theorem forLoop_recovers_clauses {init step : Option Stmt} {test : Option Expr}
    (rereadsInit : ∀ s ∈ init, Rereads line stmt s) (testShallow : test.elim 0 Expr.depth ≤ levels)
    (stepPrintable : ∀ s ∈ step, s.isPrintable inFunction) (stepSimple : ∀ s ∈ step, s.isSimple)
    (stepShallow : ∀ s ∈ step, s.depth ≤ levels + 1) (rereads : ∀ s ∈ body, Rereads line stmt s) :
    RecoversStmt line (forLoop (expression levels) stmt) (.clauses init test step body pos) := by
  intro σ c rest ahead _
  rw [Stmt.print_clauses_append] at ahead
  apply Gets.here
  apply Gets.expect ahead
  intro c₁ midway₁
  apply Gets.check midway₁.toAhead
  apply Gets.expect midway₁.toAhead
  intro c₂ midway₂
  have initRead := unlessNext_recovers (fun s mem => (rereadsInit s mem).reads (σ.inner 0))
    fun s mem => ((rereadsInit s mem).begins (σ.inner 0)).ne (by simp [startsStmt, opensExpr])
  apply Gets.bind (initRead c₂ _ midway₂ rfl)
  rintro init' c₃ ⟨sameInit, midway₃⟩
  have testRead : YieldsMidway line (unlessNext (sym .semicolon) (expression levels))
      (test.elim [] Expr.print) (· = some (sym .semicolon)) (·.map Expr.bare = test.map Expr.bare) := by
    refine unlessNext_recovers (fun e mem c' rest' ahead' isNext => ?_)
      fun e _ => (print_begins e).ne (by simp [opensExpr])
    obtain rfl := Option.mem_def.mp mem
    exact expression_recovers testShallow c' rest' ahead' (by rw [isNext]; rfl)
  have stepRead : YieldsMidway line (unlessNext (sym .rparen) (evalOrAssign (expression levels)))
      (step.elim [] (·.print (σ.inner 1))) (· = some (sym .rparen))
      (·.map Stmt.bare = step.map Stmt.bare) := by
    refine unlessNext_recovers (fun s mem c' rest' ahead' isNext => ?_)
      fun s mem => (print_begins_stmt (stepPrintable s mem) (σ.inner 1)).ne (by simp [startsStmt, opensExpr])
    apply evalOrAssign_recovers (stepSimple s mem) (stepPrintable s mem) (stepShallow s mem) _ c' rest' ahead'
    rw [isNext]
    rfl
  apply Gets.expect midway₃.toAhead
  intro c₄ midway₄
  apply Gets.bind (testRead c₄ _ midway₄ rfl)
  rintro test' c₅ ⟨sameTest, midway₅⟩
  apply Gets.expect midway₅.toAhead
  intro c₆ midway₆
  apply Gets.bind (stepRead c₆ _ midway₆ rfl)
  rintro step' c₇ ⟨sameStep, midway₇⟩
  apply Gets.expect midway₇.toAhead
  intro c₈ midway₈
  apply Gets.bind (loopBody_recovers rereads (σ []) _ c₈ rest midway₈.toAhead trivial)
  rintro body' c₉ ⟨sameBody, midway₉⟩
  refine .pure ⟨?_, midway₉⟩
  simp only [Stmt.bare, bareClause_eq_map, sameInit, sameTest, sameStep, sameBody]

/-- A `return` has a value if an expression begins on its line. -/
theorem returnsNothing_of_opensExpr (ahead : Ahead line (kind :: rest) c) (opens : opensExpr kind) :
    returnsNothing line c = .ok false c := by
  rw [returnsNothing, ahead.cons.1, ahead.cons.2.1]
  cases kind with
  | number | bool | string | ident => simp
  | keyword word =>
    cases word
    case endKw | elseKw | elseifKw => cases opens
    all_goals simp
  | punct symbol =>
    cases symbol
    case rbrace | semicolon => cases opens
    all_goals simp

/-- A `return` is read back, with or without a value. -/
theorem returning_recovers {value : Option Expr} (shallow : value.elim 0 Expr.depth ≤ levels) :
    RecoversStmt line (returning true (expression levels)) (.ret value pos) := by
  intro σ c rest ahead ended
  apply Gets.here
  apply Gets.expect ahead
  intro c₁ midway₁
  have here : c.pos.line = line := ahead.cons.2.1
  cases value with
  | none =>
    have midway₁ : Midway line rest c₁ := midway₁
    have nothing : Gets (returnsNothing c.pos.line) c₁ fun b c' => b = true ∧ c' = c₁ := by
      refine ⟨_, c₁, rfl, ?_, rfl⟩
      rw [midway₁.kind_eq, ended, Bool.or_true]
    apply Gets.bind nothing
    rintro b c₂ ⟨yes, same⟩
    rw [yes, same]
    exact .pure ⟨rfl, midway₁⟩
  | some value =>
    have something : Gets (returnsNothing c.pos.line) c₁ fun b c' => b = false ∧ c' = c₁ := by
      obtain ⟨kind, more, first, opens, -⟩ := (print_begins value).append rest
      have ahead₁ : Ahead line (kind :: more) c₁ := first ▸ midway₁.toAhead
      rw [here]
      exact ⟨false, c₁, returnsNothing_of_opensExpr ahead₁ opens, rfl, rfl⟩
    apply Gets.bind something
    rintro b c₂ ⟨no, same⟩
    rw [no, same]
    have stopped : stops 0 rest.head? := by
      rw [ended]
      rfl
    apply Gets.bind (expression_recovers shallow c₁ rest midway₁.toAhead stopped)
    rintro value' c₃ ⟨same, midway₃⟩
    exact .pure ⟨congrArg (fun e => Stmt.ret (some e) default) same, midway₃⟩

/-- What begins as an expression is an expression or an assignment. -/
theorem Gets.simple {expr : Parse Expr}
    {R : Stmt → Cursor → Prop} (ahead : Ahead line (kind :: rest) c) (opens : opensExpr kind)
    (next : Gets (evalOrAssign expr) c R) : Gets (statementWith inFunction expr stmt) c R := by
  apply Gets.peek ahead
  cases kind with
  | number | bool | string | ident | punct => exact next
  | keyword word =>
    cases word
    case nilKw | notKw => exact next
    all_goals cases opens

end Statements

/-- A statement is read back wherever it is allowed. -/
def Legible (line : Nat) (inFunction : Bool) (s : Stmt) : Prop :=
  ∀ levels, s.isPrintable inFunction → s.depth ≤ levels → Rereads line (statement inFunction levels) s

namespace Legible

variable {inFunction : Bool}

theorem of_statementWith
    (reads : ∀ levels, s.isPrintable inFunction → s.depth ≤ levels + 1 →
      RecoversStmt line (statementWith inFunction (expression levels) (statement inFunction levels)) s) :
    Legible line inFunction s := by
  intro levels printable shallow
  have positive : 0 < s.depth := by cases s <;> exact Nat.succ_pos _
  obtain ⟨levels, rfl⟩ := Nat.exists_eq_add_of_le' (Nat.lt_of_lt_of_le positive shallow)
  exact ⟨print_begins_stmt printable, reads levels printable shallow⟩

theorem of_isSimple (simple : s.isSimple) : Legible line inFunction s := by
  refine of_statementWith fun levels printable shallow σ c rest ahead ended => ?_
  obtain ⟨kind, more, first, opens⟩ := (print_begins_of_isSimple simple σ).append rest
  apply Gets.simple (first ▸ ahead) opens
  apply evalOrAssign_recovers simple printable shallow σ c rest ahead
  rw [ended]
  rfl

theorem block (each : ∀ s ∈ body, Legible line inFunction s)
    (printable : Stmt.arePrintable inFunction body) (shallow : Stmt.depthBlock body ≤ levels) :
    ∀ s ∈ body, Rereads line (statement inFunction levels) s := by
  intro s mem
  rw [Stmt.arePrintable_eq_all, List.all_eq_true] at printable
  exact each s mem levels (printable s mem) (Nat.le_trans (Stmt.depth_le_depthBlock mem) shallow)

end Legible

/-- Every printed statement is read back. -/
theorem legible (line : Nat) (inFunction : Bool) (s : Stmt) : Legible line inFunction s := by
  induction s using Stmt.inductionOn with
  | assign | eval => exact .of_isSimple rfl
  | declare name init pos =>
    refine .of_statementWith fun levels _ shallow σ c rest ahead ended => .peek ahead ?_
    exact declaration_recovers (Nat.le_of_succ_le_succ shallow) σ c rest ahead ended
  | ret value pos =>
    refine .of_statementWith fun levels printable shallow σ c rest ahead ended => .peek ahead ?_
    obtain rfl : inFunction = true := printable
    exact returning_recovers (Nat.le_of_succ_le_succ shallow) σ c rest ahead ended
  | whileDo test body pos each =>
    refine .of_statementWith fun levels printable shallow σ c rest ahead ended => .peek ahead ?_
    obtain ⟨testShallow, bodyShallow⟩ := Nat.max_le.mp (Nat.le_of_succ_le_succ shallow)
    exact whileLoop_recovers testShallow (Legible.block each printable bodyShallow) σ c rest ahead ended
  | count var start stop step body pos each =>
    refine .of_statementWith fun levels printable shallow σ c rest ahead ended => .peek ahead ?_
    simp only [Stmt.depth, Nat.add_le_add_iff_right, Nat.max_le] at shallow
    obtain ⟨⟨startShallow, stopShallow⟩, stepShallow, bodyShallow⟩ := shallow
    exact forLoop_recovers_count startShallow stopShallow stepShallow
      (Legible.block each printable bodyShallow) σ c rest ahead ended
  | clauses init test step body pos initEach stepEach each =>
    refine .of_statementWith fun levels printable shallow σ c rest ahead ended => .peek ahead ?_
    simp only [Stmt.depth, Nat.add_le_add_iff_right, Nat.max_le] at shallow
    obtain ⟨⟨initShallow, testShallow⟩, stepShallow, bodyShallow⟩ := shallow
    simp only [Stmt.isPrintable, Bool.and_eq_true] at printable
    obtain ⟨⟨⟨initPrintable, stepPrintable⟩, stepSimple⟩, bodyPrintable⟩ := printable
    have stepPrintable' : ∀ s ∈ step, s.isPrintable inFunction := by
      rintro s ⟨⟩
      exact stepPrintable
    refine forLoop_recovers_clauses ?_ testShallow stepPrintable' ?_ ?_
      (Legible.block each bodyPrintable bodyShallow) σ c rest ahead ended
    · rintro s ⟨⟩
      exact initEach s rfl levels initPrintable initShallow
    · rintro s ⟨⟩
      exact stepSimple
    · rintro s ⟨⟩
      exact Nat.sub_le_iff_le_add.mp stepShallow
  | branch branches otherwise pos each eachLast =>
    refine .of_statementWith fun levels printable shallow σ c rest ahead ended => ?_
    simp only [Stmt.depth, Nat.add_le_add_iff_right, Nat.max_le] at shallow
    simp only [Stmt.isPrintable, Bool.and_eq_true, Stmt.arePrintableBranches_eq_all,
      List.all_eq_true] at printable
    obtain ⟨⟨nonempty, branchesPrintable⟩, lastPrintable⟩ := printable
    have parts (branch) (mem : branch ∈ branches) := Nat.max_le.mp
      (Nat.le_trans (Stmt.depth_le_depthBranches mem) shallow.1)
    have rereads (branch) (mem : branch ∈ branches) :=
      Legible.block (each branch mem) (branchesPrintable branch mem) (parts branch mem).2
    have rereadsLast : ∀ body ∈ otherwise, ∀ s ∈ body, Rereads line (statement inFunction levels) s := by
      rintro body ⟨⟩
      exact Legible.block (eachLast body rfl) lastPrintable shallow.2
    cases branches with
    | nil => cases nonempty
    | cons branch branches =>
      obtain ⟨test, body⟩ := branch
      exact .peek ahead (branching_recovers (σ []) (fun branch mem => (parts branch mem).1) rereads
        rereadsLast c rest ahead ended)

end Sketch.Parser
