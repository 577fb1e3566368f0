import Sketch.Proofs.Syntax.IndexSteps
import Sketch.Proofs.Syntax.Relocation

/-!
The grammar of expressions, and that the parser reads by it. A derivation says which tokens an expression is read
from, place by place.
-/

namespace Sketch

open Sketch.Parser (Parse Cursor sym kw tierOps)
open Sketch.IndexParser (Books Halt Read)

/-! ### Brackets -/

/-- The closer that an opening bracket wants. -/
def Punct.closer? : Punct → Option Punct
  | .lparen => some .rparen
  | .lbracket => some .rbracket
  | .lbrace => some .rbrace
  | _ => none

def Punct.isCloser : Punct → Bool
  | .rparen | .rbracket | .rbrace => true
  | _ => false

/-- Whether a token can stand in an expression and is no bracket. -/
def TokenKind.isInner : TokenKind → Bool
  | .number _ | .bool _ | .string _ | .ident _ => true
  | .keyword word => word = .nilKw ∨ word = .andKw ∨ word = .orKw ∨ word = .notKw
  | .punct symbol => symbol.closer?.isNone && !symbol.isCloser && symbol ≠ .semicolon

/-! ### Derivations -/

/-- The sorts of brackets that open behind something. -/
inductive Bracket where
  | call
  | method
  | index
deriving DecidableEq, Repr, Inhabited

/-- The expression that a single token spells. -/
def atom? (pos : Pos) : TokenKind → Option Expr
  | .number value => some (.num value pos)
  | .bool value => some (.bool value pos)
  | .string text => some (.str text pos)
  | .keyword .nilKw => some (.nil pos)
  | .ident name => some (.ident name pos)
  | _ => none

/-- A token stands on the line of the token before it. -/
def OnLine (s : TokenStream) (k : Nat) : Prop := (s.cursor k).pos.line = (s.cursor k).lastLine

instance (s : TokenStream) (k : Nat) : Decidable (OnLine s k) := inferInstanceAs (Decidable (_ = _))

/-- Parts stand one behind the other up to `j`, with commas between them, and maybe one behind. -/
def Listed (s : TokenStream) (j : Nat) : Nat → List (Nat × Nat) → Prop
  | i, [] => j = i
  | i, part :: parts =>
    part.1 = i ∧ ((parts = [] ∧ j = part.2) ∨
      ((s.cursor part.2).kind = some (sym .comma) ∧ Listed s j (part.2 + 1) parts))

/-- The tokens from `i` up to `j` are an expression of a tier that nests `levels` deep at most. Operators have the
    tiers 0 to 6, and what needs none has tier 7. A bracket opens behind something only where the rule allows its
    sort. -/
inductive Derives (s : TokenStream) (rule : Bracket → Nat → Prop) : Nat → Nat → Expr → Nat → Nat → Prop where
  | atom {levels i : Nat} {kind : TokenKind} {e : Expr} (found : (s.cursor i).kind = some kind)
      (spelt : atom? (s.cursor i).pos kind = some e) : Derives s rule (levels + 1) 7 e i (i + 1)
  | paren {levels i j : Nat} {e : Expr} (opens : (s.cursor i).kind = some (sym .lparen))
      (inner : Derives s rule levels 0 e (i + 1) j) (closes : (s.cursor j).kind = some (sym .rparen)) :
      Derives s rule (levels + 1) 7 e i (j + 1)
  | list {levels i j : Nat} {items : List Expr} {parts : List (Nat × Nat)}
      (opens : (s.cursor i).kind = some (sym .lbracket)) (listed : Listed s j (i + 1) parts)
      (complete : items.length = parts.length)
      (each : ∀ item ∈ items.zip parts, Derives s rule levels 0 item.1 item.2.1 item.2.2)
      (closes : (s.cursor j).kind = some (sym .rbracket)) :
      Derives s rule (levels + 1) 7 (.list items (s.cursor i).pos) i (j + 1)
  | map {levels i j : Nat} {entries : List (String × Expr)} {parts : List (Nat × Nat)}
      (opens : (s.cursor i).kind = some (sym .lbrace)) (listed : Listed s j (i + 1) parts)
      (complete : entries.length = parts.length)
      (keys : ∀ entry ∈ entries.zip parts, (∃ c, Parser.mapKey (s.cursor entry.2.1) = .ok entry.1.1 c) ∧
        (s.cursor (entry.2.1 + 1)).kind = some (sym .colon))
      (each : ∀ entry ∈ entries.zip parts, Derives s rule levels 0 entry.1.2 (entry.2.1 + 2) entry.2.2)
      (closes : (s.cursor j).kind = some (sym .rbrace)) :
      Derives s rule (levels + 1) 7 (.map entries (s.cursor i).pos) i (j + 1)
  | call {levels i j : Nat} {name : String} {args : List Expr} {parts : List (Nat × Nat)}
      (named : (s.cursor i).kind = some (.ident name)) (opens : (s.cursor (i + 1)).kind = some (sym .lparen))
      (allowed : rule .call (i + 1)) (listed : Listed s j (i + 2) parts) (complete : args.length = parts.length)
      (each : ∀ arg ∈ args.zip parts, Derives s rule levels 0 arg.1 arg.2.1 arg.2.2)
      (closes : (s.cursor j).kind = some (sym .rparen)) :
      Derives s rule (levels + 1) 7 (.call name args (s.cursor i).pos) i (j + 1)
  | field {levels i j : Nat} {object : Expr} {name : String} (receiver : Derives s rule (levels + 1) 7 object i j)
      (dot : (s.cursor j).kind = some (sym .dot)) (named : (s.cursor (j + 1)).kind = some (.ident name)) :
      Derives s rule (levels + 1) 7 (.field object name object.pos) i (j + 2)
  | method {levels i j k : Nat} {object : Expr} {name : String} {args : List Expr} {parts : List (Nat × Nat)}
      (receiver : Derives s rule (levels + 1) 7 object i j) (dot : (s.cursor j).kind = some (sym .dot))
      (named : (s.cursor (j + 1)).kind = some (.ident name)) (opens : (s.cursor (j + 2)).kind = some (sym .lparen))
      (allowed : rule .method (j + 2)) (listed : Listed s k (j + 3) parts) (complete : args.length = parts.length)
      (each : ∀ arg ∈ args.zip parts, Derives s rule levels 0 arg.1 arg.2.1 arg.2.2)
      (closes : (s.cursor k).kind = some (sym .rparen)) :
      Derives s rule (levels + 1) 7 (.method object name args object.pos) i (k + 1)
  | index {levels i j k : Nat} {object key : Expr} (receiver : Derives s rule (levels + 1) 7 object i j)
      (opens : (s.cursor j).kind = some (sym .lbracket)) (allowed : rule .index j)
      (inner : Derives s rule levels 0 key (j + 1) k) (closes : (s.cursor k).kind = some (sym .rbracket)) :
      Derives s rule (levels + 1) 7 (.index object key (s.cursor j).pos) i (k + 1)
  | un {levels i j : Nat} {op : UnOp} {e : Expr} (signs : (s.cursor i).kind = some op.token)
      (operand : Derives s rule levels 6 e (i + 1) j) : Derives s rule (levels + 1) 6 (.un op e (s.cursor i).pos) i j
  | tighter {levels tier i j : Nat} {e : Expr} (below : tier < 7) (inner : Derives s rule levels (tier + 1) e i j) :
      Derives s rule levels tier e i j
  | bin {levels i j k : Nat} {op : BinOp} {left right : Expr} (first : Derives s rule levels op.tier left i j)
      (joins : (s.cursor j).kind = some op.token) (second : Derives s rule levels (op.tier + 1) right (j + 1) k) :
      Derives s rule levels op.tier (.bin op left right (s.cursor j).pos) i k

/-! ### Places in a derivation -/

section Places

variable {s : TokenStream} {rule : Bracket → Nat → Prop} {levels tier i j : Nat} {e : Expr}

variable {α : Type} {parts : List (Nat × Nat)}

/-- What holds of the items at the places of a list holds of all of them. -/
theorem forall_of_forall_zip {P : α → Prop} {items : List α}
    (complete : items.length = parts.length) (each : ∀ item ∈ items.zip parts, P item.1) : ∀ item ∈ items, P item := by
  rw [← List.map_fst_zip (Nat.le_of_eq complete)]
  exact List.forall_mem_map.mpr each

/-- What holds of the places of all items holds of all places. -/
theorem forall_part_of_forall_zip {P : Nat × Nat → Prop} {items : List α}
    (complete : items.length = parts.length) (each : ∀ item ∈ items.zip parts, P item.2) : ∀ part ∈ parts, P part := by
  rw [← List.map_snd_zip (Nat.le_of_eq complete.symm)]
  exact List.forall_mem_map.mpr each

theorem Listed.bounds (listed : Listed s j i parts)
    (forward : ∀ part ∈ parts, part.1 < part.2) : i ≤ j ∧ ∀ part ∈ parts, i ≤ part.1 ∧ part.2 ≤ j := by
  induction parts generalizing i with
  | nil => exact ⟨Nat.le_of_eq listed.symm, List.forall_mem_nil _⟩
  | cons part parts ih =>
    obtain ⟨ofPart, ofParts⟩ := List.forall_mem_cons.mp forward
    obtain ⟨rfl, ⟨rfl, rfl⟩ | ⟨-, listed⟩⟩ := listed
    · exact ⟨Nat.le_of_lt ofPart, List.forall_mem_singleton.mpr ⟨Nat.le_refl _, Nat.le_refl _⟩⟩
    · obtain ⟨ends, rest⟩ := ih listed ofParts
      refine ⟨by omega, List.forall_mem_cons.mpr ⟨⟨Nat.le_refl _, by omega⟩, fun other mem => ?_⟩⟩
      obtain ⟨starts, stops⟩ := rest other mem
      exact ⟨by omega, stops⟩

theorem Listed.le {items : List α} (listed : Listed s j i parts)
    (complete : items.length = parts.length) (forward : ∀ item ∈ items.zip parts, item.2.1 < item.2.2) : i ≤ j :=
  (listed.bounds (forall_part_of_forall_zip complete forward)).1

theorem atom_isInner {pos : Pos} {kind : TokenKind} (spelt : atom? pos kind = some e) : kind.isInner = true := by
  rw [atom?.eq_def] at spelt
  split at spelt
  case h_6 => cases spelt
  all_goals rfl

theorem key_isInner {key : String} {c : Cursor} (read : Parser.mapKey (s.cursor i) = .ok key c) :
    ∃ kind, (s.cursor i).kind = some kind ∧ kind.isInner = true := by
  rw [Parser.mapKey] at read
  split at read
  case h_4 => cases read
  all_goals exact ⟨_, ‹_›, rfl⟩

section Spans

variable {P : Nat → Nat → Prop}
  (single : ∀ {i kind}, (s.cursor i).kind = some kind → kind.isInner = true → P i (i + 1))
  (join : ∀ {i j k}, P i j → P j k → P i k)
  (enclose : ∀ {i j p closer}, Punct.closer? p = some closer → (s.cursor i).kind = some (sym p) →
    j = i + 1 ∨ P (i + 1) j → (s.cursor j).kind = some (sym closer) → P i (j + 1))

include single join

theorem Listed.spans {α : Type} {items : List α} {parts : List (Nat × Nat)} (listed : Listed s j i parts)
    (complete : items.length = parts.length) (each : ∀ item ∈ items.zip parts, P item.2.1 item.2.2) :
    j = i ∨ P i j := by
  replace each := forall_part_of_forall_zip (P := fun part => P part.1 part.2) complete each
  clear complete
  induction parts generalizing i with
  | nil => exact .inl listed
  | cons part parts ih =>
    obtain ⟨ofPart, ofParts⟩ := List.forall_mem_cons.mp each
    obtain ⟨rfl, ⟨rfl, rfl⟩ | ⟨comma, listed⟩⟩ := listed
    · exact .inr ofPart
    · have first := join ofPart (single comma rfl)
      rcases ih listed ofParts with rfl | rest
      · exact .inr first
      · exact .inr (join first rest)

include enclose

/-- What holds of tokens and brackets, and of two stretches as of one, holds of expressions. -/
theorem Derives.spans (derives : Derives s rule levels tier e i j) : P i j := by
  induction derives with
  | atom found spelt => exact single found (atom_isInner spelt)
  | paren opens inner closes fromInner => exact enclose rfl opens (.inr fromInner) closes
  | list opens listed complete each closes fromEach =>
    exact enclose rfl opens (listed.spans single join complete fromEach) closes
  | map opens listed complete keys each closes fromEach =>
    refine enclose rfl opens (listed.spans single join complete fun entry mem => ?_) closes
    obtain ⟨⟨_, read⟩, colon⟩ := keys entry mem
    obtain ⟨_, key, inner⟩ := key_isInner read
    exact join (join (single key inner) (single colon rfl)) (fromEach entry mem)
  | call named opens allowed listed complete each closes fromEach =>
    exact join (single named rfl) (enclose rfl opens (listed.spans single join complete fromEach) closes)
  | field receiver dot named fromReceiver => exact join (join fromReceiver (single dot rfl)) (single named rfl)
  | method receiver dot named opens allowed listed complete each closes fromReceiver fromEach =>
    have name := join (join fromReceiver (single dot rfl)) (single named rfl)
    exact join name (enclose rfl opens (listed.spans single join complete fromEach) closes)
  | index receiver opens allowed inner closes fromReceiver fromInner =>
    exact join fromReceiver (enclose rfl opens (.inr fromInner) closes)
  | @un _ _ _ op _ signs operand fromOperand => exact join (single signs (by cases op <;> rfl)) fromOperand
  | tighter below inner fromInner => exact fromInner
  | @bin _ _ _ _ op _ _ first joins second fromFirst fromSecond =>
    exact join (join fromFirst (single joins (by cases op <;> rfl))) fromSecond

end Spans

theorem Derives.lt (derives : Derives s rule levels tier e i j) : i < j := by
  refine derives.spans (fun _ _ => Nat.lt_succ_self _) Nat.lt_trans fun _ _ inner _ => ?_
  rcases inner with rfl | inner <;> omega

/-- An expression ends behind a token. -/
theorem Derives.le_length (derives : Derives s rule levels tier e i j) : j ≤ s.tokens.length :=
  derives.spans (P := fun _ j => j ≤ s.tokens.length) (fun found _ => TokenStream.lt_of_cursor_kind found)
    (fun _ second => second) fun _ _ _ closes => TokenStream.lt_of_cursor_kind closes

end Places

/-! ### What a parser steps over -/

/-- Whether a token is the keyword of a function. -/
def TokenKind.isFunction : TokenKind → Bool
  | .keyword .functionKw => true
  | _ => false

/-- There is no keyword of a function from one token up to another. -/
structure FunctionFree (s : TokenStream) (i j : Nat) : Prop where
  forward : i ≤ j
  inside : i ≤ s.tokens.length → j ≤ s.tokens.length
  avoids : s.Avoids i (·.isFunction) j

namespace FunctionFree

variable {s : TokenStream} {i j k : Nat}

theorem refl (i : Nat) : FunctionFree s i i := ⟨Nat.le_refl i, id, .nil⟩

theorem trans (first : FunctionFree s i j) (second : FunctionFree s j k) : FunctionFree s i k :=
  ⟨Nat.le_trans first.forward second.forward, second.inside ∘ first.inside, first.avoids.append second.avoids⟩

theorem single {kind : TokenKind} (found : (s.cursor i).kind = some kind) (plain : kind.isFunction = false) :
    FunctionFree s i (i + 1) :=
  ⟨Nat.le_succ i, fun _ => TokenStream.lt_of_cursor_kind found, .cons found plain .nil⟩

end FunctionFree

/-- How the tokens move, and where a parser reads them. Its books count levels and functions, if it `fits` them. There
    is no mistake in front of `start`, and a stray `return` only `outside` of functions. -/
structure Walk extends Shift where
  nesting : Nat
  functions : Nat
  start : Nat
  outside : Prop
  fits : Prop

namespace Walk

variable (m : Walk)

abbrev books (i : Nat) : Books := ⟨i, m.nesting, m.functions⟩

/-- One level deeper. -/
def nest : Walk := { m with nesting := m.nesting + 1 }

/-- In one more function. -/
def enter : Walk := { m with functions := m.functions + 1 }

/-- So many levels are left by the books. -/
def Room (levels : Nat) : Prop := m.fits → m.nesting + levels = maxNesting

theorem Room.nest {m : Walk} {levels : Nat} (room : m.Room (levels + 1)) : m.nest.Room levels := by
  intro fits
  rw [← room fits, Nat.add_comm levels, ← Nat.add_assoc]
  rfl

/-- From `i` on, the parser with books comes to an outcome at `j`, and keeps its counts. -/
def Notes {α : Type} (s : TokenStream) (i : Nat) (o : Option (Except Halt α × Books)) (outcome : Except Halt α)
    (j : Nat) : Prop := m.fits → i ≤ s.tokens.length → o = some (outcome, m.books j)

end Walk

/-- What a parser that starts at `i` comes to. It steps over no keyword of a function, unless it wants a name there. A
    mistake sits at a token. In front of tokens that moved, it comes to the same at the new places, and so does the
    parser with books. -/
inductive Passage {α : Type} [Movable α] (s : TokenStream) (m : Walk) (i : Nat) (R : α → Nat → Prop) :
    EStateM.Result Diagnostic Cursor α → EStateM.Result Diagnostic Cursor α → Option (Except Halt α × Books) →
    Prop where
  | value {a : α} {j : Nat} {o : Option (Except Halt α × Books)} (free : FunctionFree s i j) (holds : R a j)
      (noted : m.Notes s i o (.ok a) j) :
      Passage s m i R (.ok a (s.cursor j)) (.ok (Movable.relocate m.move a) ((s.relocate m.move).cursor j)) o
  | mistake {d : Diagnostic} {j k : Nat} {o : Option (Except Halt α × Books)} (free : FunctionFree s i j)
      (behind : m.start ≤ k) (before : k ≤ j) (place : (s.cursor k).pos = d.pos)
      (stray : d.fault = .strayReturn →
        m.outside ∧ (s.cursor j).kind = some (kw .returnKw) ∧ (s.cursor j).pos = d.pos)
      (noted : m.Notes s i o (.error (.mistake d)) j) :
      Passage s m i R (.error d (s.cursor j)) (.error (d.relocate m.move) ((s.relocate m.move).cursor j)) o
  | swallowed {d : Diagnostic} {j : Nat} {o : Option (Except Halt α × Books)} (within : j < s.tokens.length)
      (free : FunctionFree s i j) (behind : m.start ≤ j) (other : d.fault ≠ .strayReturn)
      (place : (s.cursor j).pos = d.pos) (noted : m.Notes s i o (.error (.mistake d)) (j + 1)) :
      Passage s m i R (.error d (s.cursor (j + 1)))
        (.error (d.relocate m.move) ((s.relocate m.move).cursor (j + 1))) o

variable {α : Type} {s : TokenStream} {i : Nat}

/-- What follows for a start further in front, and for books with other counts. -/
theorem Passage.weaken [Movable α] {m : Walk} {j nesting functions : Nat}
    {R S : α → Nat → Prop} {r r' : EStateM.Result Diagnostic Cursor α} {o o' : Option (Except Halt α × Books)}
    (passage : Passage s { m with nesting, functions } j R r r' o) (free : FunctionFree s i j)
    (weaker : ∀ a k, r = .ok a (s.cursor k) → R a k → S a k)
    (noted : m.fits → i ≤ s.tokens.length → ∀ outcome k, o = some (outcome, ⟨k, nesting, functions⟩) →
      o' = some (outcome, m.books k)) : Passage s m i S r r' o' := by
  have notes {outcome : Except Halt α} {k : Nat}
      (same : Walk.Notes { m with nesting, functions } s j o outcome k) : m.Notes s i o' outcome k :=
    fun fits inside => noted fits inside outcome k (same fits (free.inside inside))
  cases passage with
  | value free' holds same => exact .value (free.trans free') (weaker _ _ rfl holds) (notes same)
  | mistake free' behind before place stray same =>
    exact .mistake (free.trans free') behind before place stray (notes same)
  | swallowed within free' behind other place same =>
    exact .swallowed within (free.trans free') behind other place (notes same)

/-- What `p` comes to at `i`, `q` when the tokens moved, and `c` with books. -/
def InStep {α : Type} [Movable α] (s : TokenStream) (m : Walk) (p q : Parse α) (c : Read α) (i : Nat)
    (R : α → Nat → Prop) : Prop :=
  m.start ≤ i → Passage s m i R (p (s.cursor i)) (q ((s.relocate m.move).cursor i)) (c (m.books i))

/-- What a parser comes to at `i`, wherever the token stands, and with books. -/
abbrev Traverses {α : Type} [Movable α] (s : TokenStream) (m : Walk) (p : Parse α) (c : Read α) (i : Nat)
    (R : α → Nat → Prop) : Prop := InStep s m p p c i R

namespace InStep

variable {α β : Type} [Movable α] [Movable β] {s : TokenStream} {m : Walk} {i : Nat}
variable {p q : Parse α} {c : Read α} {f g : α → Parse β} {h : α → Read β} {R : α → Nat → Prop} {T : β → Nat → Prop}

theorem read (inStep : InStep s m p q c i R) :
    InStep s m p q c i fun a j => p (s.cursor i) = .ok a (s.cursor j) ∧ R a j :=
  fun behind => (inStep behind).weaken (.refl i) (fun _ _ => And.intro) fun _ _ _ _ => id

theorem mono {S : α → Nat → Prop} (inStep : InStep s m p q c i R) (weaker : ∀ a j, R a j → S a j) :
    InStep s m p q c i S :=
  fun behind => (inStep behind).weaken (.refl i) (fun a j _ => weaker a j) fun _ _ _ _ => id

theorem congr {p' q' : Parse α} {c' : Read α} (inStep : InStep s m p q c i R)
    (read : p' (s.cursor i) = p (s.cursor i))
    (moved : q' ((s.relocate m.move).cursor i) = q ((s.relocate m.move).cursor i))
    (books : m.fits → i ≤ s.tokens.length → c' (m.books i) = c (m.books i)) : InStep s m p' q' c' i R := by
  intro behind
  rw [read, moved]
  exact (inStep behind).weaken (.refl i) (fun _ _ _ => id) fun fits inside _ _ => (books fits inside).trans

theorem of_behind (inStep : m.start ≤ i → InStep s m p q c i R) : InStep s m p q c i R :=
  fun behind => inStep behind behind

theorem pureOf {a b : α} (same : b = Movable.relocate m.move a) (holds : R a i) :
    InStep s m (Pure.pure a) (Pure.pure b) (Pure.pure a) i R := fun _ => same ▸ .value (.refl i) holds fun _ _ => rfl

theorem pure {a : α} (holds : R a i) :
    InStep s m (Pure.pure a) (Pure.pure (Movable.relocate m.move a)) (Pure.pure a) i R := pureOf rfl holds

variable {fault : Fault} {kind : TokenKind}

theorem failAt {k : Nat} (behind : m.start ≤ k) (before : k ≤ i) (other : fault ≠ .strayReturn) :
    InStep s m (Parser.failAt fault (s.cursor k).pos) (Parser.failAt fault (m.move (s.cursor k).pos))
      (IndexParser.failAt fault (s.cursor k).pos) i R := fun _ =>
  .mistake (d := ⟨fault, (s.cursor k).pos⟩) (.refl i) behind before rfl (fun stray => absurd stray other) fun _ _ => rfl

theorem failHere (other : fault ≠ .strayReturn) :
    InStep s m (Parser.failHere fault) (Parser.failHere fault) (IndexParser.failHere s fault) i R := by
  refine .of_behind fun behind => (failAt behind (Nat.le_refl i) other).congr rfl ?_ fun _ inside =>
    IndexParser.failHere_eq inside fault
  rw [Parser.failHere, TokenStream.cursor_relocate_pos]
  rfl

/-- One part behind another. -/
theorem bind (first : InStep s m p q c i R)
    (second : ∀ a j, R a j → InStep s m (f a) (g (Movable.relocate m.move a)) (h a) j T) :
    InStep s m (p >>= f) (q >>= g) (c >>= h) i T := by
  intro behind
  have first := first behind
  change Passage s m i T (EStateM.bind p f _) (EStateM.bind q g _) _
  rw [EStateM.bind, EStateM.bind]
  generalize p (s.cursor i) = r, q _ = r', books : c _ = o at first
  cases first with
  | value free holds noted =>
    refine (second _ _ holds (Nat.le_trans behind free.forward)).weaken free (fun _ _ _ => id) ?_
    exact fun fits inside _ _ => (IndexParser.bind_of_ok (books.trans (noted fits inside))).trans
  | mistake free behind before place stray noted =>
    exact .mistake free behind before place stray fun fits inside =>
      IndexParser.bind_of_error (books.trans (noted fits inside))
  | swallowed within free behind other place noted =>
    exact .swallowed within free behind other place fun fits inside =>
      IndexParser.bind_of_error (books.trans (noted fits inside))

theorem map {k k' : α → β} (inStep : InStep s m p q c i fun a j => T (k a) j)
    (same : ∀ a, k' (Movable.relocate m.move a) = Movable.relocate m.move (k a)) :
    InStep s m (k <$> p) (k' <$> q) (do let a ← c; Pure.pure (k a)) i T := by
  rw [map_eq_pure_bind, map_eq_pure_bind]
  exact inStep.bind fun a j holds => pureOf (same a) holds

/-! One rule for each small step. Nothing else looks into them. -/

omit [Movable α] in
/-- A first step that leads to one place in any case. -/
theorem step {a a' : α} {j : Nat} (free : FunctionFree s i j) (read : p (s.cursor i) = .ok a (s.cursor j))
    (moved : q ((s.relocate m.move).cursor i) = .ok a' ((s.relocate m.move).cursor j))
    (books : i ≤ s.tokens.length → c (m.books i) = some (.ok a, m.books j))
    (next : InStep s m (f a) (g a') (h a) j T) : InStep s m (p >>= f) (q >>= g) (c >>= h) i T := by
  intro behind
  change Passage s m i T (EStateM.bind p f _) (EStateM.bind q g _) _
  rw [EStateM.bind, EStateM.bind, read, moved]
  refine (next (Nat.le_trans behind free.forward)).weaken free (fun _ _ _ => id) ?_
  exact fun _ inside _ _ => (IndexParser.bind_of_ok (books inside)).trans

omit [Movable α] in
/-- A first step that looks at what does not depend on places. -/
theorem look {a : α} (read : p (s.cursor i) = .ok a (s.cursor i))
    (moved : q ((s.relocate m.move).cursor i) = .ok a ((s.relocate m.move).cursor i))
    (books : i ≤ s.tokens.length → c (m.books i) = some (.ok a, m.books i))
    (next : InStep s m (f a) (g a) (h a) i T) : InStep s m (p >>= f) (q >>= g) (c >>= h) i T :=
  step (.refl i) read moved books next

omit [Movable α] in
/-- A first step over a token that is there. -/
theorem past {a : α} (found : (s.cursor i).kind = some kind) (plain : kind.isFunction = false)
    (read : ∀ c : Cursor, c.kind = some kind → p c = .ok a c.advance)
    (books : i < s.tokens.length → c (m.books i) = some (.ok a, m.books (i + 1)))
    (next : InStep s m (f a) (g a) (h a) (i + 1) T) : InStep s m (p >>= f) (p >>= g) (c >>= h) i T := by
  have within := TokenStream.lt_of_cursor_kind found
  have found' : ((s.relocate m.move).cursor i).kind = some kind := TokenStream.cursor_relocate_kind.trans found
  refine step (.single found plain) ?_ ?_ (fun _ => books within) next
  · rw [read _ found, TokenStream.cursor_advance within]
  · rw [read _ found', TokenStream.cursor_advance (TokenStream.lt_of_cursor_kind found')]

theorem peek {f g : Option TokenKind → Parse β} {h : Option TokenKind → Read β}
    (next : ∀ found, (s.cursor i).kind = found → InStep s m (f found) (g found) (h found) i T) :
    InStep s m (Parser.peek >>= f) (Parser.peek >>= g) (IndexParser.peek s >>= h) i T :=
  look rfl (congrArg (EStateM.Result.ok · _) TokenStream.cursor_relocate_kind) IndexParser.peek_eq (next _ rfl)

theorem here {f g : Pos → Parse β} {h : Pos → Read β}
    (next : InStep s m (f (s.cursor i).pos) (g (m.move (s.cursor i).pos)) (h (s.cursor i).pos) i T) :
    InStep s m (Parser.here >>= f) (Parser.here >>= g) (IndexParser.here s >>= h) i T :=
  step (.refl i) rfl (congrArg (EStateM.Result.ok · _) TokenStream.cursor_relocate_pos) IndexParser.here_eq next

theorem check {f g : Bool → Parse β} {h : Bool → Read β}
    (next : ∀ found, InStep s m (f found) (g found) (h found) i T) :
    InStep s m (Parser.check kind >>= f) (Parser.check kind >>= g) (IndexParser.check s kind >>= h) i T := by
  refine look rfl ?_ (IndexParser.check_eq · kind) (next _)
  rw [Parser.check, TokenStream.cursor_relocate_kind]

theorem skip {f g : Unit → Parse β} {h : Unit → Read β} (found : (s.cursor i).kind = some kind)
    (plain : kind.isFunction = false) (next : InStep s m (f ()) (g ()) (h ()) (i + 1) T) :
    InStep s m (Parser.skip >>= f) (Parser.skip >>= g) (IndexParser.skip s >>= h) i T :=
  past found plain (fun _ _ => rfl) IndexParser.skip_eq next

theorem accept {f g : Bool → Parse β} {h : Bool → Read β} (plain : kind.isFunction = false)
    (yes : (s.cursor i).kind = some kind → InStep s m (f true) (g true) (h true) (i + 1) T)
    (no : InStep s m (f false) (g false) (h false) i T) :
    InStep s m (Parser.accept kind >>= f) (Parser.accept kind >>= g) (IndexParser.accept s kind >>= h) i T := by
  by_cases found : (s.cursor i).kind = some kind
  · exact past found plain (fun _ found => if_pos found) (fun _ => IndexParser.accept_of_eq found) (yes found)
  · refine look (if_neg found) (if_neg ?_) (IndexParser.accept_of_ne · found) no
    rwa [TokenStream.cursor_relocate_kind]

theorem expect {f g : Unit → Parse β} {h : Unit → Read β} (plain : kind.isFunction = false)
    (next : (s.cursor i).kind = some kind → InStep s m (f ()) (g ()) (h ()) (i + 1) T) :
    InStep s m (Parser.expect kind >>= f) (Parser.expect kind >>= g) (IndexParser.expect s kind >>= h) i T := by
  by_cases found : (s.cursor i).kind = some kind
  · exact past found plain (fun _ found => if_pos found) (fun _ => IndexParser.expect_of_eq found) (next found)
  · have other : Fault.missingToken kind (s.cursor i).kind ≠ .strayReturn := nofun
    refine bind (R := fun _ _ => False) (congr (failHere other) (if_neg found) ?_ fun _ inside =>
      IndexParser.expect_of_ne inside found) fun _ _ absurd => absurd.elim
    rw [Parser.expect, TokenStream.cursor_relocate_kind, if_neg found]
    rfl

/-- A parser wants a word of a certain sort, and steps over a token in any case. -/
structure Sorts (p : Parse String) (sort : Option TokenKind → Except Fault String) : Prop where
  reads : ∀ c a, sort c.kind = .ok a → p c = .ok a c.advance
  fails : ∀ c fault, sort c.kind = .error fault → p c = .error ⟨fault, c.pos⟩ c.advance
  ends : ∀ a, sort none ≠ .ok a
  plain : ∀ kind a, sort (some kind) = .ok a → kind.isFunction = false
  other : ∀ found fault, sort found = .error fault → fault ≠ .strayReturn

/-- A word of a sort, in all three parsers. -/
theorem word {p : Parse String} {sort : Option TokenKind → Except Fault String} {f g : String → Parse β}
    {h : String → Read β} (sorts : Sorts p sort)
    (next : ∀ a, sort (s.cursor i).kind = .ok a → InStep s m (f a) (g a) (h a) (i + 1) T) :
    InStep s m (p >>= f) (p >>= g) (IndexParser.word s sort >>= h) i T := by
  have length := TokenStream.relocate_length (f := m.move) (s := s)
  have moved : ((s.relocate m.move).cursor i).kind = (s.cursor i).kind := TokenStream.cursor_relocate_kind
  cases sorted : sort (s.cursor i).kind with
  | ok a =>
    cases found : (s.cursor i).kind with
    | none => exact absurd (found ▸ sorted) (sorts.ends a)
    | some kind =>
      refine past found (sorts.plain kind a (found ▸ sorted)) ?_ (fun within => ?_) (next a sorted)
      · exact fun c same => sorts.reads c a (same.trans found.symm ▸ sorted)
      · rw [IndexParser.word, IndexParser.bind_of_ok (IndexParser.advance_eq within), sorted]
        rfl
  | error fault =>
    refine bind (R := fun _ _ => False) (fun behind => ?_) fun _ _ absurd => absurd.elim
    rw [sorts.fails _ fault sorted, sorts.fails _ fault (moved ▸ sorted), TokenStream.cursor_relocate_pos,
      IndexParser.word]
    rcases Nat.lt_or_ge i s.tokens.length with within | ended
    · rw [TokenStream.cursor_advance within, TokenStream.cursor_advance (length ▸ within),
        IndexParser.bind_of_ok (IndexParser.advance_eq within), sorted]
      exact .swallowed (d := ⟨fault, (s.cursor i).pos⟩) within (.refl i) behind (sorts.other _ _ sorted) rfl
        fun _ _ => rfl
    · rw [TokenStream.cursor_advance_end ended, TokenStream.cursor_advance_end (length ▸ ended)]
      refine .mistake (d := ⟨fault, (s.cursor i).pos⟩) (.refl i) behind (Nat.le_refl i) rfl
        (fun stray => absurd stray (sorts.other _ _ sorted)) fun _ inside => ?_
      rw [IndexParser.bind_of_ok (IndexParser.advance_end (Nat.le_antisymm inside ended)), sorted]
      rfl

theorem identifier_sorts : Sorts Parser.identifier IndexParser.name := by
  refine ⟨?_, ?_, nofun, ?_, ?_⟩
  case refine_1 | refine_2 =>
    intro c _ sorted
    rw [Parser.identifier]
    generalize c.kind = kind at sorted ⊢
    rcases kind with _ | (_ | _ | _ | _ | _ | _) <;> cases sorted <;> rfl
  case refine_3 =>
    rintro (_ | _ | _ | _ | _ | _) _ sorted <;> cases sorted
    rfl
  case refine_4 => rintro (_ | (_ | _ | _ | _ | _ | _)) _ sorted <;> cases sorted <;> nofun

theorem mapKey_sorts : Sorts Parser.mapKey IndexParser.key := by
  refine ⟨?_, ?_, nofun, ?_, ?_⟩
  case refine_1 | refine_2 =>
    intro c _ sorted
    rw [Parser.mapKey]
    generalize c.kind = kind at sorted ⊢
    rcases kind with _ | (_ | _ | _ | _ | _ | _) <;> cases sorted <;> rfl
  case refine_3 => rintro (_ | _ | _ | _ | _ | _) _ sorted <;> cases sorted <;> rfl
  case refine_4 => rintro (_ | (_ | _ | _ | _ | _ | _)) _ sorted <;> cases sorted <;> nofun

theorem identifier {f g : String → Parse β} {h : String → Read β}
    (next : ∀ name, (s.cursor i).kind = some (.ident name) → InStep s m (f name) (g name) (h name) (i + 1) T) :
    InStep s m (Parser.identifier >>= f) (Parser.identifier >>= g) (IndexParser.identifier s >>= h) i T := by
  refine word identifier_sorts fun name sorted => next name ?_
  generalize (s.cursor i).kind = kind at sorted ⊢
  rcases kind with _ | (_ | _ | _ | _ | _ | _) <;> cases sorted
  rfl

theorem mapKey {f g : String → Parse β} {h : String → Read β}
    (next : ∀ key, (∃ c, Parser.mapKey (s.cursor i) = .ok key c) → InStep s m (f key) (g key) (h key) (i + 1) T) :
    InStep s m (Parser.mapKey >>= f) (Parser.mapKey >>= g) (IndexParser.mapKey s >>= h) i T :=
  word mapKey_sorts fun key sorted => next key ⟨_, mapKey_sorts.reads _ key sorted⟩

theorem indexFollows {f g : Bool → Parse β} {h : Bool → Read β}
    (yes : (s.cursor i).kind = some (sym .lbracket) → OnLine s i → InStep s m (f true) (g true) (h true) i T)
    (no : InStep s m (f false) (g false) (h false) i T) :
    InStep s m (Parser.indexFollows >>= f) (Parser.indexFollows >>= g) (IndexParser.indexFollows s >>= h) i T := by
  refine look rfl ?_ IndexParser.indexFollows_eq ?_
  · rw [Parser.indexFollows, TokenStream.cursor_relocate_kind, TokenStream.cursor_relocate_pos, m.keeps,
      TokenStream.cursor_relocate_lastLine]
  · by_cases follows : (s.cursor i).kind = some (sym .lbracket) ∧ (s.cursor i).pos.line = (s.cursor i).lastLine
    · rw [decide_eq_true follows]
      exact yes follows.1 follows.2
    · rw [decide_eq_false follows]
      exact no

/-- A loop starts with fuel for every token ahead. -/
theorem withFuel {loop loop' : List Token → Parse α} (inStep : ∀ fuel, s.tokens.length - i ≤ fuel.length →
      InStep s m (loop fuel) (loop' (fuel.map (Token.relocate m.move))) c i R) :
    InStep s m (Parser.withFuel loop) (Parser.withFuel loop') c i R := by
  refine (inStep (s.cursor i).ahead (Nat.le_of_eq (List.length_drop ..).symm)).congr rfl ?_ fun _ _ => rfl
  exact congrArg (fun fuel => loop' fuel _) List.map_drop.symm

/-! At the end, where the fuel may be gone, the parser with books looks ahead once more. -/

section Ends

variable {fuel : List Token} (enough : s.tokens.length - i ≤ ([] : List Token).length)

include enough

theorem ended : s.tokens.length ≤ i := Nat.le_of_sub_eq_zero (Nat.le_zero.mp enough)

theorem peekEnd {h : Option TokenKind → Read α} (inStep : InStep s m p q (h none) i R) :
    InStep s m p q (IndexParser.peek s >>= h) i R := by
  refine inStep.congr rfl rfl fun _ inside => ?_
  rw [IndexParser.bind_of_ok (IndexParser.peek_eq inside), TokenStream.cursor_kind_end (ended enough)]

theorem acceptEnd {kind : TokenKind} {h : Bool → Read α} (inStep : InStep s m p q (h false) i R) :
    InStep s m p q (IndexParser.accept s kind >>= h) i R := by
  refine inStep.congr rfl rfl fun _ inside => IndexParser.bind_of_ok (IndexParser.accept_of_ne inside ?_)
  rw [TokenStream.cursor_kind_end (ended enough)]
  exact (Option.some_ne_none kind).symm

theorem indexEnd {h : Bool → Read α} (inStep : InStep s m p q (h false) i R) :
    InStep s m p q (IndexParser.indexFollows s >>= h) i R := by
  refine inStep.congr rfl rfl fun _ inside => ?_
  rw [IndexParser.bind_of_ok (IndexParser.indexFollows_eq inside), TokenStream.cursor_kind_end (ended enough)]
  rfl

end Ends

section Nesting

variable {outer inner : Read α} {levels : Nat}
  (unrolls : ∀ b, outer b =
    if maxNesting ≤ b.nesting then IndexParser.failHere s .nestedTooDeep b
    else do
      let r ← inner b.nest
      some (r.1, r.2.unnest))

include unrolls

/-- What is read one level deeper, if there is room for it. -/
theorem nested (room : m.Room (levels + 1)) (deeper : InStep s m.nest p q inner i R) : InStep s m p q outer i R := by
  refine fun behind => (deeper behind).weaken (.refl i) (fun _ _ _ => id) fun fits _ outcome k same => ?_
  have left : ¬maxNesting ≤ m.nesting := by
    have levels := room fits
    omega
  rw [unrolls, if_neg left]
  change (inner (m.nest.books i)).bind _ = _
  rw [same]
  rfl

/-- There is no room for anything deeper. -/
theorem tooDeep (room : m.Room 0) :
    InStep s m (Parser.failHere .nestedTooDeep) (Parser.failHere .nestedTooDeep) outer i R := by
  have other : Fault.nestedTooDeep ≠ .strayReturn := nofun
  refine congr (failHere other) rfl rfl fun fits _ => ?_
  have full : m.nesting = maxNesting := room fits
  rw [unrolls, if_pos (Nat.le_of_eq full.symm)]

end Nesting

end InStep

/-- If a parser succeeds at `i`, something holds of its value and the place that it comes to. -/
def Takes {α : Type} (s : TokenStream) (p : Parse α) (i : Nat) (R : α → Nat → Prop) : Prop :=
  ∀ a c, p (s.cursor i) = .ok a c → ∃ j, c = s.cursor j ∧ R a j

theorem Takes.mono {p : Parse α} {R S : α → Nat → Prop} (takes : Takes s p i R)
    (weaker : ∀ a j, R a j → S a j) : Takes s p i S := by
  intro a c read
  obtain ⟨j, same, holds⟩ := takes a c read
  exact ⟨j, same, weaker a j holds⟩

/-! ### The parser reads by the grammar -/

/-- The parser looks at lines where a call or an index opens, but not at a method. -/
def lineRule (s : TokenStream) (bracket : Bracket) (k : Nat) : Prop := bracket = .method ∨ OnLine s k

section Expressions

variable {α : Type} [Movable α] {s : TokenStream} {m : Walk} {levels i : Nat} {expr : Parse Expr}

/-- Items between commas, by what is known of one item. -/
theorem commaSeparated_traverses {close : Punct} {item : Parse α} {item' : Read α} {loop : Read (List α)}
    {D : α → Nat → Nat → Prop}
    (unrolls : loop = do
      let next ← IndexParser.peek s
      if next = some (sym close) ∨ next = none then pure []
      else
        let first ← item'
        if ← IndexParser.accept s (sym .comma) then
          let rest ← loop
          pure (first :: rest)
        else pure [first])
    (traverses : ∀ i, Traverses s m item item' i fun a j => D a i j) (forward : ∀ {a i j}, D a i j → i < j)
    (fuel : List Token) (enough : s.tokens.length - i ≤ fuel.length) :
    InStep s m (Parser.commaSeparated close item fuel)
      (Parser.commaSeparated close item (fuel.map (Token.relocate m.move))) loop i fun items j => ∃ parts,
        Listed s j i parts ∧ items.length = parts.length ∧ ∀ part ∈ items.zip parts, D part.1 part.2.1 part.2.2 := by
  induction fuel generalizing i with
  | nil =>
    rw [unrolls]
    exact .peekEnd enough (.pure ⟨[], rfl, rfl, fun _ absurd => (List.not_mem_nil absurd).elim⟩)
  | cons _ fuel ih =>
    rw [List.map_cons, Parser.commaSeparated, Parser.commaSeparated, unrolls]
    refine .peek fun found _ => ?_
    by_cases stops : found = some (sym close) ∨ found = none
    · rw [if_pos stops, if_pos stops, if_pos stops]
      exact .pure ⟨[], rfl, rfl, fun _ absurd => (List.not_mem_nil absurd).elim⟩
    · rw [if_neg stops, if_neg stops, if_neg stops]
      refine (traverses i).bind fun first j derived => .accept rfl (fun comma => ?_) ?_
      · have onward := forward derived
        rw [List.length_cons] at enough
        refine (ih (by omega)).bind fun rest k ⟨parts, listed, complete, each⟩ => .pure ?_
        refine ⟨(i, j) :: parts, ⟨rfl, .inr ⟨comma, listed⟩⟩, congrArg (· + 1) complete, ?_⟩
        rw [List.zip_cons_cons]
        exact List.forall_mem_cons.mpr ⟨derived, each⟩
      · refine .pure ⟨[(i, j)], ⟨rfl, .inl ⟨rfl, rfl⟩⟩, rfl, ?_⟩
        exact List.forall_mem_cons.mpr ⟨derived, fun _ absurd => (List.not_mem_nil absurd).elim⟩

variable {i₀ : Nat}

/-- Operators of a tier go on with a derivation. -/
theorem chainFrom_traverses {tier : Nat} {left : Expr}
    (operand : ∀ i, Traverses s m expr (IndexParser.tier s (tier + 1)) i fun e j =>
      Derives s (lineRule s) levels (tier + 1) e i j)
    (soFar : Derives s (lineRule s) levels tier left i₀ i) (fuel : List Token)
    (enough : s.tokens.length - i ≤ fuel.length) : InStep s m (Parser.chainFrom (tierOps tier) expr fuel left)
      (Parser.chainFrom (tierOps tier) expr (fuel.map (Token.relocate m.move)) (left.relocate m.move))
      (IndexParser.chain s tier left) i fun e j => Derives s (lineRule s) levels tier e i₀ j := by
  induction fuel generalizing i left with
  | nil =>
    rw [IndexParser.chain]
    exact .peekEnd enough (.pure soFar)
  | cons _ fuel ih =>
    rw [List.map_cons, Parser.chainFrom, Parser.chainFrom, IndexParser.chain]
    refine .peek fun found next => ?_
    cases joined : found.bind (tierOps tier) with
    | none => exact .pure soFar
    | some op =>
      obtain ⟨kind, rfl, isOp⟩ := Option.bind_eq_some_iff.mp joined
      obtain ⟨rfl, rfl⟩ := Parser.tierOps_eq_some.mp isOp
      have plain : op.token.isFunction = false := by cases op <;> rfl
      refine .here (.skip next plain ((operand _).bind fun right j derived => ?_))
      have onward := derived.lt
      rw [List.length_cons] at enough
      exact ih (.bin soFar next derived) (by omega)

/-- All tiers of operators over operands that are derived. -/
theorem operators_traverses
    (unary : ∀ i, Traverses s m expr (IndexParser.unary s) i fun e j => Derives s (lineRule s) levels 6 e i j)
    (i : Nat) : Traverses s m (Parser.operators expr) (IndexParser.tier s 0) i fun e j =>
      Derives s (lineRule s) levels 0 e i j := by
  have tiers (more tier : Nat) (whole : tier + more = 6) (i : Nat) :
      Traverses s m (((List.range' tier more).map tierOps).foldr Parser.chain expr) (IndexParser.tier s tier) i
        fun e j => Derives s (lineRule s) levels tier e i j := by
    induction more generalizing tier i with
    | zero =>
      obtain rfl : tier = 6 := whole
      rw [IndexParser.tier, if_neg (Nat.lt_irrefl 6)]
      exact unary i
    | succ more ih =>
      have operand := ih (tier + 1) (by omega)
      rw [List.range'_succ, List.map_cons, List.foldr_cons, Parser.chain, IndexParser.tier, if_pos (by omega)]
      refine (operand i).bind fun first j derived => .withFuel ?_
      exact chainFrom_traverses operand (.tighter (by omega) derived)
  rw [Parser.operators_eq_foldr, List.range_eq_range']
  exact tiers 6 0 rfl i

variable (inner : ∀ i, Traverses s m expr (IndexParser.tier s 0) i fun e j => Derives s (lineRule s) levels 0 e i j)

include inner

theorem arguments_traverses : Traverses s m (Parser.arguments expr) (IndexParser.arguments s) i fun args j =>
    ∃ k parts, j = k + 1 ∧ Listed s k i parts ∧ args.length = parts.length ∧
      (∀ arg ∈ args.zip parts, Derives s (lineRule s) levels 0 arg.1 arg.2.1 arg.2.2) ∧
      (s.cursor k).kind = some (sym .rparen) := by
  rw [Parser.arguments, IndexParser.arguments]
  refine .bind (.withFuel (commaSeparated_traverses (IndexParser.items.eq_1 s .rparen) inner Derives.lt)) ?_
  rintro args k ⟨parts, listed, complete, each⟩
  exact .expect rfl fun closes => .pure ⟨k, parts, rfl, listed, complete, each, closes⟩

omit inner in
theorem nameOrCall_eq_bind (name : String) (pos : Pos) : Parser.nameOrCall expr name pos = (do
    let called ← (fun c => .ok (decide (c.kind = some (sym .lparen) ∧ c.pos.line = pos.line)) c : Parse Bool)
    if called then
      Parser.skip
      let args ← Parser.arguments expr
      pure (.call name args pos)
    else pure (.ident name pos)) := by
  funext c
  change _ = (if decide _ = true then _ else _ : Parse Expr) c
  rw [Parser.nameOrCall]
  by_cases called : c.kind = some (sym .lparen) ∧ c.pos.line = pos.line
  · rw [if_pos called, if_pos (decide_eq_true called)]
    rfl
  · rw [if_neg called, decide_eq_false called]
    rfl

/-- A name, or a call whose bracket is on its line. -/
theorem nameOrCall_traverses {name : String} (named : (s.cursor i).kind = some (.ident name)) :
    InStep s m (Parser.nameOrCall expr name (s.cursor i).pos) (Parser.nameOrCall expr name (m.move (s.cursor i).pos))
      (IndexParser.nameOrCall s name (s.cursor i).pos) (i + 1) fun e j =>
        Derives s (lineRule s) (levels + 1) 7 e i j := by
  rw [nameOrCall_eq_bind, nameOrCall_eq_bind, IndexParser.nameOrCall]
  refine .look rfl ?_ (IndexParser.callFollows_eq · _) ?_
  · rw [TokenStream.cursor_relocate_kind, TokenStream.cursor_relocate_pos, m.keeps, m.keeps]
  by_cases called : (s.cursor (i + 1)).kind = some (sym .lparen) ∧
      (s.cursor (i + 1)).pos.line = (s.cursor i).pos.line
  · rw [decide_eq_true called]
    refine .skip called.1 rfl ((arguments_traverses inner).bind ?_)
    rintro args _ ⟨k, parts, rfl, listed, complete, each, closes⟩
    have sameLine : OnLine s (i + 1) := by
      rw [OnLine, called.2, TokenStream.cursor_lastLine (TokenStream.lt_of_cursor_kind named)]
    exact .pureOf (by simp [Movable.relocate, Expr.relocate])
      (.call named called.1 (.inr sameLine) listed complete each closes)
  · rw [decide_eq_false called]
    exact .pure (.atom named rfl)

theorem mapEntry_traverses : Traverses s m (Parser.mapEntry expr) (IndexParser.entry s) i fun entry j =>
    ((∃ c, Parser.mapKey (s.cursor i) = .ok entry.1 c) ∧ (s.cursor (i + 1)).kind = some (sym .colon)) ∧
      Derives s (lineRule s) levels 0 entry.2 (i + 2) j := by
  rw [Parser.mapEntry, IndexParser.entry]
  exact .mapKey fun key read => .expect rfl fun colon => (inner _).bind fun value k derived =>
    .pure ⟨⟨read, colon⟩, derived⟩

/-- The innermost expressions are derived. -/
theorem primary_traverses : Traverses s m (Parser.primary expr) (IndexParser.primary s) i fun e j =>
    Derives s (lineRule s) (levels + 1) 7 e i j := by
  rw [Parser.primary, IndexParser.primary]
  refine .here (.peek fun found next => ?_)
  rcases found with _ | kind
  · exact .failHere (by simp)
  cases kind with
  | number | bool | string => exact .skip next rfl (.pure (.atom next rfl))
  | ident name => exact .skip next rfl (nameOrCall_traverses inner next)
  | keyword word =>
    cases word
    case nilKw => exact .skip next rfl (.pure (.atom next rfl))
    all_goals exact .failHere (by simp)
  | punct symbol =>
    cases symbol
    case lparen =>
      refine .skip next rfl ((inner _).bind fun e j derived => .expect rfl fun closes => ?_)
      exact .pure (.paren next derived closes)
    case lbracket =>
      have items := @commaSeparated_traverses _ _ s m (i + 1) .rbracket _ _ _ _
        (IndexParser.items.eq_1 s .rbracket) inner Derives.lt
      refine .skip next rfl (.bind (.withFuel items) ?_)
      rintro items j ⟨parts, listed, complete, each⟩
      exact .expect rfl fun closes => .pureOf (by simp [Movable.relocate, Expr.relocate])
        (.list next listed complete each closes)
    case lbrace =>
      refine .skip next rfl (.bind (.withFuel (commaSeparated_traverses (IndexParser.entries.eq_1 s)
        (fun i => mapEntry_traverses inner) fun entry => ?_)) ?_)
      · exact Nat.lt_trans (Nat.lt_add_of_pos_right Nat.two_pos) entry.2.lt
      rintro entries j ⟨parts, listed, complete, each⟩
      refine .expect rfl fun closes => .pureOf (by simp [Movable.relocate, Expr.relocate])
        (.map next listed complete ?_ ?_ closes)
      · exact fun entry met => (each entry met).1
      · exact fun entry met => (each entry met).2
    all_goals exact .failHere (by simp)

/-- Fields, methods and indices go on with a derivation. -/
theorem postfixFrom_traverses {e : Expr} (soFar : Derives s (lineRule s) (levels + 1) 7 e i₀ i)
    (fuel : List Token) (enough : s.tokens.length - i ≤ fuel.length) : InStep s m (Parser.postfixFrom expr fuel e)
      (Parser.postfixFrom expr (fuel.map (Token.relocate m.move)) (e.relocate m.move)) (IndexParser.trailers s e) i
      fun e j => Derives s (lineRule s) (levels + 1) 7 e i₀ j := by
  induction fuel generalizing i e with
  | nil =>
    rw [IndexParser.trailers]
    exact .acceptEnd enough (.indexEnd enough (.pure soFar))
  | cons _ fuel ih =>
    rw [List.length_cons] at enough
    rw [List.map_cons, Parser.postfixFrom, Parser.postfixFrom, Expr.relocate_pos, IndexParser.trailers]
    refine .accept rfl (fun dot => .identifier fun name named => .accept rfl (fun opens => ?_) ?_) ?_
    · refine (arguments_traverses inner).bind ?_
      rintro args _ ⟨k, parts, rfl, listed, complete, each, closes⟩
      have derived := Derives.method soFar dot named opens (.inl rfl) listed complete each closes
      have onward := listed.le complete fun arg mem => (each arg mem).lt
      have rest := ih derived (by omega)
      rw [Expr.relocate, Expr.relocateEach_eq_map] at rest
      exact rest
    · exact ih (.field soFar dot named) (by omega)
    · refine .indexFollows (fun opens sameLine => .here (.skip opens rfl ?_)) (.pure soFar)
      refine (inner _).bind fun key j derived => .expect rfl fun closes => ?_
      have onward := derived.lt
      exact ih (.index soFar opens (.inr sameLine) derived closes) (by omega)

theorem operand_traverses : Traverses s m (Parser.operand expr)
    (do let e ← IndexParser.primary s; IndexParser.trailers s e) i fun e j =>
      Derives s (lineRule s) (levels + 1) 7 e i j := by
  rw [Parser.operand]
  exact (primary_traverses inner).bind fun e j derived => .withFuel (postfixFrom_traverses inner derived)

omit inner in
theorem unary_traverses {m : Walk} {levels : Nat} (room : m.Room levels) (i : Nat) :
    Traverses s m (Parser.unary levels) (IndexParser.unary s) i fun e j => Derives s (lineRule s) levels 6 e i j := by
  induction levels generalizing m i with
  | zero => exact .tooDeep (IndexParser.unary.eq_1 s) room
  | succ levels ih =>
    refine .nested (IndexParser.unary.eq_1 s) room ?_
    have deeper := ih room.nest
    rw [Parser.unary, IndexParser.signed]
    refine .here (.accept rfl (fun signs => ?_) (.accept rfl (fun signs => ?_) ?_))
    · exact (deeper _).bind fun e j derived => .pure (.un signs derived)
    · exact (deeper _).bind fun e j derived => .pure (.un signs derived)
    · exact (operand_traverses (operators_traverses deeper)).mono fun e j => .tighter (by decide)

omit inner in
theorem expression_traverses (room : m.Room levels) (i : Nat) :
    Traverses s m (Parser.expression levels) (IndexParser.expression s) i fun e j =>
      Derives s (lineRule s) levels 0 e i j := operators_traverses (unary_traverses room) i

omit inner in
/-- What the parser accepts as an expression has a derivation. -/
theorem expression_takes (levels i : Nat) : Takes s (Parser.expression levels) i fun e j =>
    Derives s (lineRule s) levels 0 e i j := by
  intro e c read
  -- no books are kept, as they may not have room for so many levels
  let still : Walk := ⟨.still, 0, 0, 0, False, False⟩
  have room : still.Room levels := False.elim
  have passage := expression_traverses (s := s) room i (Nat.zero_le i)
  rw [read] at passage
  generalize Parser.expression levels _ = r', IndexParser.expression s _ = o at passage
  cases passage with
  | value free derives noted => exact ⟨_, rfl, derives⟩

end Expressions

end Sketch
