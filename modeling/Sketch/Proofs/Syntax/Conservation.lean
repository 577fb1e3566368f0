import Sketch.Proofs.Syntax.Phrases
import Sketch.Proofs.Syntax.Words

/-!
The parser neither drops nor repeats nor reorders a word: what it accepts is spelt by the whole text.
-/

namespace Sketch

open Sketch.Parser (sym kw)

/-- The tokens from `i` up to `j` spell words, with any frame around them. -/
inductive Spelt (s : TokenStream) : List Word → Nat → Nat → Prop where
  | nil {i : Nat} : Spelt s [] i i
  | frame {words : List Word} {kind : TokenKind} {i j : Nat} (found : (s.cursor i).kind = some kind)
      (frames : kind.isWord = false) (rest : Spelt s words (i + 1) j) : Spelt s words i j
  | word {word : Word} {words : List Word} {kind : TokenKind} {i j : Nat} (found : (s.cursor i).kind = some kind)
      (isWord : kind.isWord = true) (speltBy : word.SpeltBy kind) (rest : Spelt s words (i + 1) j) :
      Spelt s (word :: words) i j

namespace Spelt

variable {s : TokenStream} {words words' : List Word} {kind : TokenKind} {word : Word} {i j k : Nat}

theorem append (first : Spelt s words i j) (second : Spelt s words' j k) : Spelt s (words ++ words') i k := by
  induction first with
  | nil => exact second
  | frame found frames rest ih => exact .frame found frames (ih second)
  | word found isWord speltBy rest ih => exact .word found isWord speltBy (ih second)

/-- A frame behind words. -/
theorem close (inner : Spelt s words i j) (found : (s.cursor j).kind = some kind) (frames : kind.isWord = false) :
    Spelt s words i (j + 1) := by
  have closed := inner.append (.frame found frames .nil)
  rwa [List.append_nil] at closed

/-- What is spelt from a place on accounts for all tokens. -/
theorem spell (spelt : Spelt s words i s.tokens.length) : Spell words (s.tokens.drop i) := by
  generalize whole : s.tokens.length = j at spelt
  have ahead {i : Nat} {kind : TokenKind} (found : (s.cursor i).kind = some kind) :
      ∃ t : Token, s.tokens.drop i = t :: s.tokens.drop (i + 1) ∧ t.kind = kind := by
    have within := TokenStream.lt_of_cursor_kind found
    rw [TokenStream.cursor_kind, List.getElem?_eq_getElem within] at found
    exact ⟨_, List.drop_eq_getElem_cons within, Option.some.inj found⟩
  induction spelt with
  | nil =>
    rw [← whole, List.drop_length]
    exact .nil
  | frame found frames rest ih =>
    obtain ⟨t, next, rfl⟩ := ahead found
    rw [next]
    exact .frame frames (ih whole)
  | word found isWord speltBy rest ih =>
    obtain ⟨t, next, rfl⟩ := ahead found
    rw [next]
    exact .word isWord speltBy (ih whole)

end Spelt

/-! ### Expressions -/

section Expressions

variable {s : TokenStream} {rule : Bracket → Nat → Prop} {levels tier i j : Nat} {e : Expr}

theorem Listed.spelt {α : Type} (words : α → List Word) {items : List α} {parts : List (Nat × Nat)}
    (listed : Listed s j i parts) (complete : items.length = parts.length)
    (each : ∀ item ∈ items.zip parts, Spelt s (words item.1) item.2.1 item.2.2) :
    Spelt s (items.flatMap words) i j := by
  induction parts generalizing i items with
  | nil =>
    obtain rfl := listed
    obtain rfl := List.eq_nil_of_length_eq_zero complete
    exact .nil
  | cons part parts ih =>
    rcases items with _ | ⟨item, items⟩
    · cases complete
    rw [List.zip_cons_cons, List.forall_mem_cons] at each
    obtain ⟨rfl, ⟨rfl, rfl⟩ | ⟨comma, listed⟩⟩ := listed
    · obtain rfl := List.eq_nil_of_length_eq_zero (Nat.succ.inj complete)
      rw [List.flatMap_singleton]
      exact each.1
    · exact each.1.append (.frame comma rfl (ih listed (Nat.succ.inj complete) each.2))

theorem spelt_mapKey {key : String} {c : Parser.Cursor} (read : Parser.mapKey (s.cursor i) = .ok key c) :
    Spelt s [.key key] i (i + 1) := by
  rw [Parser.mapKey] at read
  split at read
  case h_1 found =>
    cases read
    exact .word found rfl (.keyName _) .nil
  case h_2 found =>
    cases read
    exact .word found rfl (.keyText _) .nil
  case h_3 found =>
    cases read
    exact .word found rfl (.keyNumber _) .nil
  case h_4 => cases read

theorem spelt_atom {kind : TokenKind} {pos : Pos} (found : (s.cursor i).kind = some kind)
    (spelt : atom? pos kind = some e) : Spelt s e.words i (i + 1) := by
  cases kind with
  | number value =>
    cases spelt
    exact .word found rfl (.number value) .nil
  | bool value =>
    cases spelt
    exact .word found rfl (.bool value) .nil
  | string text =>
    cases spelt
    exact .word found rfl (.text text) .nil
  | ident name =>
    cases spelt
    exact .word found rfl (.name name) .nil
  | punct => cases spelt
  | keyword word =>
    cases word
    case nilKw =>
      cases spelt
      exact .word found rfl .nil .nil
    all_goals cases spelt

/-- The tokens of an expression spell its words. -/
theorem Derives.spelt (derives : Derives s rule levels tier e i j) : Spelt s e.words i j := by
  induction derives with
  | atom found spelt => exact spelt_atom found spelt
  | paren opens inner closes fromInner => exact .frame opens rfl (fromInner.close closes rfl)
  | list opens listed complete each closes fromEach =>
    rw [Expr.words, Expr.listWords_eq_flatMap]
    exact .frame opens rfl ((listed.spelt _ complete fromEach).close closes rfl)
  | @map levels i j entries parts opens listed complete keys each closes fromEach =>
    have inner := listed.spelt (fun entry => .key entry.1 :: entry.2.words) complete fun entry mem => by
      obtain ⟨⟨c, read⟩, colon⟩ := keys entry mem
      exact (spelt_mapKey read).append (.frame colon rfl (fromEach entry mem))
    rw [Expr.words, Expr.entryWords_eq_flatMap]
    exact .frame opens rfl (inner.close closes rfl)
  | call named opens allowed listed complete each closes fromEach =>
    rw [Expr.words, Expr.listWords_eq_flatMap]
    exact .word named rfl (.name _) (.frame opens rfl ((listed.spelt _ complete fromEach).close closes rfl))
  | field receiver dot named fromReceiver =>
    exact fromReceiver.append (.frame dot rfl (.word named rfl (.name _) .nil))
  | method receiver dot named opens allowed listed complete each closes fromReceiver fromEach =>
    rw [Expr.words, Expr.listWords_eq_flatMap]
    refine fromReceiver.append (.frame dot rfl (.word named rfl (.name _) (.frame opens rfl ?_)))
    exact (listed.spelt _ complete fromEach).close closes rfl
  | index receiver opens allowed inner closes fromReceiver fromInner =>
    exact fromReceiver.append (.frame opens rfl (fromInner.close closes rfl))
  | @un levels i j op e signs operand fromOperand =>
    exact .word signs (by cases op <;> rfl) (.unary op) fromOperand
  | tighter below inner fromInner => exact fromInner
  | @bin levels i j k op left right first joins second fromFirst fromSecond =>
    exact fromFirst.append (.word joins op.isWord_token (.binary op) fromSecond)

end Expressions

/-! ### Phrases -/

/-- The words of a token outside expressions. -/
def TokenKind.words : TokenKind → List Word
  | .ident name => [.name name]
  | .punct .plusEq => [.compound .add]
  | .punct .minusEq => [.compound .sub]
  | .punct .starEq => [.compound .mul]
  | .punct .slashEq => [.compound .div]
  | _ => []

/-- Whether a token is a word only if it stands for one outside expressions. -/
def TokenKind.isPlain (kind : TokenKind) : Bool := kind.isWord = !kind.words.isEmpty

/-- Whether a phrase is none of the tokens that stand in expressions only. -/
def Phrase.isPlain : Phrase → Bool
  | .token kind => kind.isPlain
  | _ => true

def Phrase.words : Phrase → List Word
  | .token kind => kind.words
  | .expr _ e => e.words
  | .simple _ t | .stmt _ t => t.words
  | .block _ body | .braces _ body | .loop _ body => Stmt.blockWords body
  | .chain _ _ rest => Stmt.branchWords rest.1 ++ Stmt.otherwiseWords rest.2
  | .params ps => ps.map (.name ·.name)
  | .item i => i.words
  | .items is => is.flatMap Item.words

section Phrases

variable {s : TokenStream} {kind : TokenKind} {i j : Nat}

theorem spelt_token (found : (s.cursor i).kind = some kind) (isPlain : kind.isPlain = true) :
    Spelt s kind.words i (i + 1) := by
  cases kind with
  | number | bool | string => cases isPlain
  | ident name => exact .word found rfl (.name name) .nil
  | keyword word => cases word <;> first | exact .frame found rfl .nil | cases isPlain
  | punct symbol =>
    cases symbol
    case plusEq | minusEq | starEq | slashEq => exact .word found rfl (.compound rfl) .nil
    all_goals first | exact .frame found rfl .nil | cases isPlain

theorem words_of_target? {e : Expr} {target : Target} (found : Parser.target? e = some target) :
    target.words = e.words := by
  cases e with
  | ident | index | field =>
    obtain rfl := Option.some.inj found
    rfl
  | num | bool | str | nil | bin | un | call | method | list | map => cases found

/-- An assignment symbol is a word exactly if it combines values. -/
theorem words_of_assignOp? {op : Option BinOp} (found : Parser.assignOp? kind = some op) :
    kind.words = (op.elim [] fun op => [.compound op]) ∧ kind.isPlain = true := by
  cases kind with
  | number | bool | string | ident | keyword => cases found
  | punct symbol =>
    cases symbol
    case eq | plusEq | minusEq | starEq | slashEq =>
      obtain rfl := Option.some.inj found
      exact ⟨rfl, rfl⟩
    all_goals cases found

/-- The words of a phrase are those of its parts. -/
theorem Produces.words {pos : Pos} {p : Phrase} {parts : List Phrase} (rule : Produces pos p parts) :
    parts.flatMap Phrase.words = p.words := by
  cases rule with
  | assign assigns named =>
    simp [Phrase.words, Stmt.words, words_of_target? named, (words_of_assignOp? assigns).1]
  | @declare levels name part | @ret levels part | @count levels var start stop part body =>
    cases part <;> simp [Phrase.words, Stmt.words, TokenKind.words]
  | @clauses levels init step test body =>
    cases init <;> cases step <;> cases test <;> simp [Phrase.words, Stmt.words, Stmt.clauseWords, TokenKind.words]
  | bracedElseif either => rcases either with rfl | rfl <;> simp [Phrase.words, Stmt.branchWords, TokenKind.words]
  | keywordBranch present | keywordLoop present | keywordElseif present | bracedFunction present
  | keywordFunction present =>
    cases present <;> simp [Phrase.words, Stmt.words, Stmt.branchWords, Item.words, FnDef.words, Phrase.perhaps,
      TokenKind.words]
  | _ => simp [Phrase.words, Stmt.words, Stmt.blockWords, Stmt.branchWords, Stmt.otherwiseWords, Item.words,
      TokenKind.words]

theorem Produces.allPlain {pos : Pos} {p : Phrase} {parts : List Phrase} (rule : Produces pos p parts) :
    parts.all Phrase.isPlain = true := by
  cases rule with
  | assign assigns named => simp [Phrase.isPlain, (words_of_assignOp? assigns).2]
  | @declare levels name part | @ret levels part | @count levels var start stop part body => cases part <;> rfl
  | @clauses levels init step test body => cases init <;> cases step <;> cases test <;> rfl
  | bracedElseif either => rcases either with rfl | rfl <;> rfl
  | keywordBranch present | keywordLoop present | keywordElseif present | bracedFunction present
  | keywordFunction present => cases present <;> rfl
  | _ => rfl

theorem Yields.spelt {phrases : List Phrase} (yields : Yields s phrases i j)
    (plain : phrases.all Phrase.isPlain = true) : Spelt s (phrases.flatMap Phrase.words) i j := by
  induction yields with
  | nil => exact .nil
  | token found rest fromRest =>
    rw [List.all_cons, Bool.and_eq_true] at plain
    exact (spelt_token found plain.1).append (fromRest plain.2)
  | expr read derives rest fromRest =>
    rw [List.all_cons, Bool.and_eq_true] at plain
    exact derives.spelt.append (fromRest plain.2)
  | phrase rule inner rest fromInner fromRest =>
    rw [List.all_cons, Bool.and_eq_true] at plain
    rw [List.flatMap_cons, ← rule.words]
    exact (fromInner rule.allPlain).append (fromRest plain.2)

end Phrases

namespace Parser

theorem spell_of_parse {s : TokenStream} {p : Program} (accepted : parse s = .ok p) : Spell p.words s.tokens := by
  have spelt := (parse_yields accepted).spelt rfl
  rw [List.flatMap_singleton] at spelt
  exact spelt.spell

/-- The words of an accepted program are, in order, the names, literals and operators of its text, and
    whatever else stands in the text is part of the frame. -/
theorem words_of_parse {s : TokenStream} {p : Program} (accepted : parse s = .ok p) :
    List.Forall₂ Word.SpeltBy p.words ((s.tokens.map (·.kind)).filter TokenKind.isWord) ∧
      ∀ t ∈ s.tokens, t.kind.isWord = false → t.kind.isFrame = true := by
  constructor
  · exact spell_of_parse accepted
  · intro t _ noWord
    rw [TokenKind.isFrame_eq_not_isWord, noWord]
    rfl

/-- The words of `f(a) { m = {k: not a, "t": nil}; m.k *= f(m[a]) }`. -/
theorem words_of_shorthand_function :
    ∃ (s : TokenStream) (p : Program), parse s = .ok p ∧
      p.words = [.name "f", .name "a", .name "m", .key "k", .unary .not, .name "a", .key "t", .nil,
        .name "m", .name "k", .compound .mul, .name "f", .name "m", .name "a"] ∧
      List.Forall₂ Word.SpeltBy p.words ((s.tokens.map (·.kind)).filter TokenKind.isWord) := by
  let kinds : List TokenKind :=
    [.ident "f", sym .lparen, .ident "a", sym .rparen, sym .lbrace,
      .ident "m", sym .eq, sym .lbrace, .ident "k", sym .colon, kw .notKw, .ident "a", sym .comma,
      .string "t", sym .colon, kw .nilKw, sym .rbrace, sym .semicolon,
      .ident "m", sym .dot, .ident "k", sym .starEq, .ident "f", sym .lparen, .ident "m",
      sym .lbracket, .ident "a", sym .rbracket, sym .rparen, sym .rbrace]
  let s : TokenStream := ⟨kinds.map (⟨·, ⟨1, 1⟩⟩), ⟨1, 1⟩⟩
  have accepted : (parse s).toOption.map Program.words = some
      [.name "f", .name "a", .name "m", .key "k", .unary .not, .name "a", .key "t", .nil,
        .name "m", .name "k", .compound .mul, .name "f", .name "m", .name "a"] := by
    decide +kernel
  cases parsed : parse s with
  | error mistakes =>
      rw [parsed] at accepted
      cases accepted
  | ok p =>
      rw [parsed] at accepted
      exact ⟨s, p, parsed, Option.some.inj accepted, (words_of_parse parsed).1⟩

end Parser

end Sketch
