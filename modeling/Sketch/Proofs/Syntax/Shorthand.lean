import Sketch.Proofs.Syntax.Recovery

/-!
Functions without their keyword. The parser looks ahead over names and commas before it takes a name for that of a
function, and does not know of a comma behind the last parameter.
-/

namespace Sketch.Parser

/-- Names with commas between them. There may be a comma behind the last. -/
inductive ParameterList : List Token → Prop where
  | nil : ParameterList []
  | last {name : String} {pos : Pos} : ParameterList [⟨.ident name, pos⟩]
  | cons {name : String} {pos comma : Pos} {ps : List Token} (rest : ParameterList ps) :
      ParameterList (⟨.ident name, pos⟩ :: ⟨sym .comma, comma⟩ :: ps)

/-- Whether a comma stands behind the last parameter. -/
def endsInComma (ps : List Token) : Bool := ps.getLast?.any (·.kind = sym .comma)

/-- The tokens of `function name ( params ) { body }`, wherever they stand. -/
structure Declaration where
  keyword : Pos
  name : String
  place : Pos
  opens : Pos
  params : List Token
  listed : ParameterList params
  closes : Pos
  begins : Pos
  body : List Token
  ends : Pos
  stop : Pos

namespace Declaration

/-- The body in its braces. -/
def block (d : Declaration) : List Token := ⟨sym .lbrace, d.begins⟩ :: (d.body ++ [⟨sym .rbrace, d.ends⟩])

/-- What stands behind the opening parenthesis. -/
def inside (d : Declaration) : List Token := d.params ++ ⟨sym .rparen, d.closes⟩ :: d.block

/-- The declaration without its keyword. -/
def shorthand (d : Declaration) : TokenStream :=
  ⟨⟨.ident d.name, d.place⟩ :: ⟨sym .lparen, d.opens⟩ :: d.inside, d.stop⟩

/-- The declaration with its keyword. -/
def full (d : Declaration) : TokenStream := ⟨⟨kw .functionKw, d.keyword⟩ :: d.shorthand.tokens, d.stop⟩

end Declaration

/-! ### Looking ahead -/

variable {t : Token} {ps rest : List Token} {c : Cursor} {s : TokenStream} {i : Nat}

theorem endsInComma_cons {comma : Token} (isComma : comma.kind = sym .comma) :
    endsInComma (t :: comma :: ps) = (ps.isEmpty || endsInComma ps) := by
  cases ps with
  | nil => simp [endsInComma, isComma]
  | cons => simp [endsInComma]

/-- The look ahead goes up to the bracket if a name stands behind each comma. -/
theorem closesParameters_comma {comma closes begins : Pos} (listed : ParameterList ps) :
    closesParameters (⟨sym .comma, comma⟩ :: (ps ++ ⟨sym .rparen, closes⟩ :: ⟨sym .lbrace, begins⟩ :: rest)) =
      !(ps.isEmpty || endsInComma ps) := by
  induction listed generalizing comma with
  | nil => rfl
  | last => rfl
  | cons _ ih =>
    rw [endsInComma_cons rfl]
    exact ih

theorem isShorthand_declaration (d : Declaration) : isShorthand d.shorthand.tokens = !endsInComma d.params := by
  obtain ⟨_, _, _, _, _, listed, _, _, _, _, _⟩ := d
  cases listed with
  | nil => rfl
  | last => rfl
  | cons listed =>
    rw [endsInComma_cons rfl]
    exact closesParameters_comma listed

/-! ### The keyword makes no difference -/

/-- Nothing that is read of a function depends on where it is said to stand. -/
theorem functionRest_pos (pos pos' : Pos) :
    functionRest pos' = (fun f => { f with pos := pos' }) <$> functionRest pos := by
  simp only [functionRest, map_bind, map_pure]

/-- Nor does it depend on what was read before. -/
theorem functionRest_lastLine {pos : Pos} {stop : Pos} (line line' : Nat) :
    functionRest pos ⟨t :: rest, stop, line⟩ = functionRest pos ⟨t :: rest, stop, line'⟩ := by
  have same : identifier ⟨t :: rest, stop, line⟩ = identifier ⟨t :: rest, stop, line'⟩ := rfl
  change EStateM.bind _ _ _ = EStateM.bind _ _ _
  rw [EStateM.bind, EStateM.bind, same]

theorem shorthandDef_eq (d : Declaration) {f : FnDef} (read : functionDef (.ofStream d.full) = .ok f c) :
    shorthandDef (.ofStream d.shorthand) = .ok { f with pos := d.place } c := by
  have behind : functionRest d.keyword ⟨d.shorthand.tokens, d.stop, d.keyword.line⟩ = .ok f c := read
  have rest : functionRest d.keyword (.ofStream d.shorthand) = .ok f c :=
    (functionRest_lastLine _ _).trans behind
  change functionRest d.place (.ofStream d.shorthand) = _
  rw [functionRest_pos d.keyword]
  change EStateM.map _ _ _ = _
  rw [EStateM.map, rest]

/-- How many rounds are allowed makes no difference if there are enough. -/
theorem rounds_fuel {fuel fuel' : List Token} (hadMistake : Bool)
    (inside : i ≤ s.tokens.length) (enough : s.tokens.length - i ≤ fuel.length)
    (enough' : s.tokens.length - i ≤ fuel'.length) :
    rounds fuel hadMistake (s.cursor i) = rounds fuel' hadMistake (s.cursor i) := by
  obtain ⟨log, -, read, books⟩ := IndexParser.rounds_same hadMistake inside enough
  obtain ⟨log', -, read', books'⟩ := IndexParser.rounds_same hadMistake inside enough'
  obtain rfl : log = log' := by
    rw [books] at books'
    cases books'
    rfl
  rw [read, read']

/-- What follows an item does not depend on what it was read from. -/
theorem parse_of_item {item : Item} (first : round false (.ofStream s) = (.item item, c)) : parse s =
      if (rounds c.ahead false c).2.isEmpty then .ok ⟨item :: (rounds c.ahead false c).1⟩
      else .error (rounds c.ahead false c).2 := by
  have within : 0 < s.tokens.length := by
    rcases s with ⟨_ | _, _⟩
    · cases first
    · exact Nat.succ_pos _
  obtain ⟨r, j, inside, -, did, -, -⟩ := round_comes .still false within
  obtain ⟨rfl, rfl⟩ := Prod.mk.inj (first.symm.trans did)
  have onward : 0 < j := (round_item did (Nat.zero_le _) inside).1
  have next : IndexParser.nextStart 0 j = j := if_neg (Nat.ne_of_gt onward)
  have enough : s.tokens.length - j ≤ (s.cursor j).ahead.length := Nat.le_of_eq (List.length_drop ..).symm
  rw [parse, ← TokenStream.cursor_zero]
  cases tokens : s.tokens with
  | nil => exact absurd within (by rw [tokens]; exact Nat.lt_irrefl 0)
  | cons t fuel =>
    have left : s.tokens.length - j ≤ fuel.length := by
      rw [tokens, List.length_cons]
      omega
    rw [IndexParser.rounds_cons within inside did, next]
    rw [IndexParser.item?, IndexParser.mistake?, Option.isSome_none, Bool.or_false,
      rounds_fuel false inside left enough]
    rfl

theorem attempt_eq_item {α : Type} {p : Parse α} {wrap : α → Item} {item : Item} {c' : Cursor}
    (did : attempt p wrap c = (.item item, c')) : ∃ a, p c = .ok a c' ∧ item = wrap a := by
  rw [attempt] at did
  split at did
  · cases did
    exact ⟨_, ‹_›, rfl⟩
  · cases did

/-- Where no separator comes next, an item is read. -/
theorem round_of_reads {reads : List (Nat × Item)} {kind : TokenKind}
    (reading : Reads s i reads) (found : (s.cursor i).kind = some kind) (other : kind ≠ sym .semicolon) :
    ∃ item j rest, reads = (i, item) :: rest ∧ j ≤ s.tokens.length ∧
      Parser.round false (s.cursor i) = (.item item, s.cursor j) := by
  cases reading with
  | done =>
    rw [TokenStream.cursor_kind_end (Nat.le_refl _)] at found
    cases found
  | separator separator _ =>
    rw [separator] at found
    exact absurd (Option.some.inj found).symm other
  | item inside did rest => exact ⟨_, _, _, rfl, inside, did⟩

/-- Without its keyword, a declaration is tried as a function if no comma stands behind its last parameter. -/
theorem round_shorthand (d : Declaration) : round false (.ofStream d.shorthand) =
    if endsInComma d.params then attempt (statement false maxNesting) .stmt (.ofStream d.shorthand)
    else attempt shorthandDef .function (.ofStream d.shorthand) := by
  have recognised : isShorthand (Cursor.ofStream d.shorthand).ahead = !endsInComma d.params := isShorthand_declaration d
  change (if isShorthand (Cursor.ofStream d.shorthand).ahead then _ else _) = _
  rw [recognised]
  cases endsInComma d.params <;> rfl

theorem statement_of_endsInComma (d : Declaration) (ended : endsInComma d.params) {program : Program}
    (accepted : parse d.shorthand = .ok program) : ∃ t more, program.items = .stmt t :: more := by
  obtain ⟨reads, reading, same⟩ := parse_reads accepted
  obtain ⟨item, j, rest, rfl, -, did⟩ := round_of_reads reading rfl (by simp)
  rw [TokenStream.cursor_zero, round_shorthand, if_pos ended] at did
  obtain ⟨t, -, rfl⟩ := attempt_eq_item did
  exact ⟨t, _, same.symm⟩

/-- A function without its keyword is read as it is with it, if there is no comma behind its last parameter: the same
    function comes first, up to the place that it is said to stand at, and the same items follow. With such a comma
    there is no function, but a statement, in case the program is accepted at all. -/
theorem shorthand_reads_as_declaration (d : Declaration) {program : Program} (accepted : parse d.full = .ok program) :
    ∃ f rest, program.items = .function f :: rest ∧
      (endsInComma d.params = false → parse d.shorthand = .ok ⟨.function { f with pos := d.place } :: rest⟩) ∧
      (endsInComma d.params = true → ∀ other, parse d.shorthand = .ok other →
        ∃ t more, other.items = .stmt t :: more) := by
  obtain ⟨reads, reading, same⟩ := parse_reads accepted
  obtain ⟨item, j, rest, rfl, -, did⟩ := round_of_reads reading rfl (by simp)
  obtain ⟨f, read, rfl⟩ := attempt_eq_item did
  refine ⟨f, _, same.symm, fun notEnded => ?_, fun ended other => statement_of_endsInComma d ended⟩
  have short : round false (.ofStream d.shorthand) =
      (.item (.function { f with pos := d.place }), d.full.cursor j) := by
    rw [round_shorthand, notEnded, if_neg Bool.false_ne_true, attempt, shorthandDef_eq d read]
  rw [parse_of_item did] at accepted
  rw [parse_of_item short]
  by_cases clean : (rounds (d.full.cursor j).ahead false (d.full.cursor j)).2.isEmpty
  · rw [if_pos clean] at accepted ⊢
    cases accepted
    rw [← (List.cons.inj same).2]
  · rw [if_neg clean] at accepted
    cases accepted

/-- The tokens `function f ( a , b ) { return b }`, each on a line of its own. -/
def apart : Declaration where
  keyword := ⟨1, 1⟩
  name := "f"
  place := ⟨2, 1⟩
  opens := ⟨3, 1⟩
  params := [⟨.ident "a", ⟨4, 1⟩⟩, ⟨sym .comma, ⟨5, 1⟩⟩, ⟨.ident "b", ⟨6, 1⟩⟩]
  listed := .cons .last
  closes := ⟨7, 1⟩
  begins := ⟨8, 1⟩
  body := [⟨kw .returnKw, ⟨9, 1⟩⟩, ⟨.ident "b", ⟨9, 8⟩⟩]
  ends := ⟨10, 1⟩
  stop := ⟨10, 2⟩

/-- What `apart` declares, at a place. -/
def apartFn (pos : Pos) : FnDef where
  name := "f"
  params := [⟨"a", ⟨4, 1⟩⟩, ⟨"b", ⟨6, 1⟩⟩]
  body := [.ret (some (.ident "b" ⟨9, 8⟩)) ⟨9, 1⟩]
  pos := pos

theorem apart_reads_as_declaration :
    parse apart.full = .ok ⟨[.function (apartFn ⟨1, 1⟩)]⟩ ∧ endsInComma apart.params = false ∧
      parse apart.shorthand = .ok ⟨[.function (apartFn ⟨2, 1⟩)]⟩ := by
  have accepted : parse apart.full = .ok ⟨[.function (apartFn ⟨1, 1⟩)]⟩ := rfl
  obtain ⟨f, rest, same, read, -⟩ := shorthand_reads_as_declaration apart accepted
  cases same
  exact ⟨accepted, rfl, read rfl⟩

/-- The tokens `function f(a,) { }`. -/
def trailing : Declaration where
  keyword := ⟨1, 1⟩
  name := "f"
  place := ⟨1, 10⟩
  opens := ⟨1, 11⟩
  params := [⟨.ident "a", ⟨1, 12⟩⟩, ⟨sym .comma, ⟨1, 13⟩⟩]
  listed := .cons .nil
  closes := ⟨1, 14⟩
  begins := ⟨1, 16⟩
  body := []
  ends := ⟨1, 18⟩
  stop := ⟨1, 19⟩

/-- An accepted function need not be one without its keyword: `f(a,) { }` is a call and an empty map. -/
theorem trailing_is_call :
    ¬ ∀ (d : Declaration) (f : FnDef), parse d.full = .ok ⟨[.function f]⟩ →
      ∃ g, parse d.shorthand = .ok ⟨[.function g]⟩ ∧
        g.relocate (fun _ => .nowhere) = f.relocate fun _ => .nowhere := by
  intro always
  obtain ⟨g, read, -⟩ := always trailing ⟨"f", [⟨"a", ⟨1, 12⟩⟩], [], ⟨1, 1⟩⟩ rfl
  have called : parse trailing.shorthand =
      .ok ⟨[.stmt (.eval (.call "f" [.ident "a" ⟨1, 12⟩] ⟨1, 10⟩)), .stmt (.eval (.map [] ⟨1, 16⟩))]⟩ := rfl
  rw [called] at read
  cases read

end Sketch.Parser
