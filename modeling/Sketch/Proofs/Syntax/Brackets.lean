import Sketch.Proofs.Syntax.Composition

/-!
Brackets and lines. A call or an index takes a bracket only if it stands on the line of the token before it. The call
of a method takes its bracket from any line.
-/

namespace Sketch

open Sketch.Parser (sym)

/-! ### The brackets of methods -/

/-- A dot, a name and a bracket stand at `k` and behind it. -/
def MethodOpens (s : TokenStream) (k : Nat) : Prop :=
  (s.cursor k).kind = some (sym .dot) ∧ (∃ name, (s.cursor (k + 1)).kind = some (.ident name)) ∧
    (s.cursor (k + 2)).kind = some (sym .lparen)

/-- Between `i` and `j`, every bracket behind a dot and a name keeps to a rule. -/
def MethodsKeep (s : TokenStream) (rule : Nat → Prop) (i j : Nat) : Prop :=
  ∀ k, i ≤ k → k + 2 < j → MethodOpens s k → rule (k + 2)

/-- The tokens that a call of a method opens with. -/
def TokenKind.opensMethod : TokenKind → Bool
  | .ident _ | .punct .dot | .punct .lparen => true
  | _ => false

theorem BinOp.opensMethod_token (op : BinOp) : op.token.opensMethod = false := by
  cases op <;> rfl

theorem UnOp.token_ne_dot (op : UnOp) : op.token ≠ sym .dot := by
  cases op <;> decide

theorem ident_ne_dot {name : String} : TokenKind.ident name ≠ sym .dot := by
  intro same
  cases same

section Methods

variable {s : TokenStream} {rule : Nat → Prop} {kind : TokenKind} {i j k m : Nat}

theorem MethodOpens.ne (opens : MethodOpens s k) (found : (s.cursor m).kind = some kind) (other : kind ≠ sym .dot) :
    k ≠ m := by
  rintro rfl
  exact other (Option.some.inj (found.symm.trans opens.1))

theorem MethodOpens.apart (opens : MethodOpens s k) (found : (s.cursor m).kind = some kind)
    (other : kind.opensMethod = false) : k + 2 < m ∨ m < k := by
  obtain ⟨dot, ⟨name, named⟩, bracket⟩ := opens
  have differs {opening : TokenKind} {place : Nat} (there : (s.cursor place).kind = some opening)
      (opensMethod : opening.opensMethod = true) : m ≠ place := by
    rintro rfl
    obtain rfl := Option.some.inj (found.symm.trans there)
    exact Bool.false_ne_true (other.symm.trans opensMethod)
  have notDot := differs dot rfl
  have notName := differs named rfl
  have notBracket := differs bracket rfl
  omega

namespace MethodsKeep

theorem within {i' j' : Nat} (keeps : MethodsKeep s rule i j) (starts : i ≤ i') (ends : j' ≤ j) :
    MethodsKeep s rule i' j' :=
  fun k above below opens => keeps k (Nat.le_trans starts above) (Nat.lt_of_lt_of_le below ends) opens

theorem short (near : j ≤ i + 2) : MethodsKeep s rule i j := by
  intro k above below
  omega

/-- A token that is no dot opens nothing. -/
theorem behind (found : (s.cursor i).kind = some kind) (other : kind ≠ sym .dot)
    (rest : MethodsKeep s rule (i + 1) j) : MethodsKeep s rule i j := by
  intro k above below opens
  have apart := opens.ne found other
  exact rest k (by omega) below opens

/-- No call of a method opens across a token that is not one of its own. -/
theorem join (first : MethodsKeep s rule i m) (found : (s.cursor m).kind = some kind)
    (other : kind.opensMethod = false) (second : MethodsKeep s rule (m + 1) j) : MethodsKeep s rule i j := by
  intro k above below opens
  rcases opens.apart found other with before | after
  · exact first k above before opens
  · exact second k after below opens

theorem close (inner : MethodsKeep s rule i j) (found : (s.cursor j).kind = some kind)
    (other : kind.opensMethod = false) : MethodsKeep s rule i (j + 1) :=
  inner.join found other (short (by omega))

/-- Where there is a dot, a call of a method opens with it or does not reach it. -/
theorem atDot (first : MethodsKeep s rule i m) (dot : (s.cursor m).kind = some (sym .dot))
    (here : m + 2 < j → rule (m + 2)) (rest : MethodsKeep s rule (m + 1) j) : MethodsKeep s rule i j := by
  intro k above below opens
  have ⟨_, ⟨name, named⟩, bracket⟩ := opens
  have notName : m ≠ k + 1 := by
    rintro rfl
    exact ident_ne_dot (Option.some.inj (named.symm.trans dot))
  have notBracket : m ≠ k + 2 := by
    rintro rfl
    exact absurd (Option.some.inj (bracket.symm.trans dot)) (by decide)
  rcases Nat.lt_trichotomy k m with before | rfl | after
  · exact first k above (by omega) opens
  · exact here below
  · exact rest k after below opens

end MethodsKeep

theorem Listed.methodsKeep {parts : List (Nat × Nat)} (listed : Listed s j i parts)
    (each : ∀ part ∈ parts, MethodsKeep s rule part.1 part.2) : MethodsKeep s rule i j := by
  induction parts generalizing i with
  | nil =>
    obtain rfl := listed
    exact .short (Nat.le_add_right j 2)
  | cons part parts ih =>
    obtain ⟨ofPart, ofParts⟩ := List.forall_mem_cons.mp each
    obtain ⟨rfl, ⟨-, rfl⟩ | ⟨comma, listed⟩⟩ := listed
    · exact ofPart
    · exact ofPart.join comma rfl (ih listed ofParts)

theorem Listed.methodsKeep_each {α : Type} {items : List α} {parts : List (Nat × Nat)} (listed : Listed s j i parts)
    (complete : items.length = parts.length) (forward : ∀ item ∈ items.zip parts, item.2.1 < item.2.2)
    (keeps : MethodsKeep s rule i j) : ∀ item ∈ items.zip parts, MethodsKeep s rule item.2.1 item.2.2 := by
  intro item mem
  have bounds := (listed.bounds (forall_part_of_forall_zip complete forward)).2 item.2 (List.of_mem_zip mem).2
  exact keeps.within bounds.1 bounds.2

theorem mapKey_ne_dot {key : String} {c : Parser.Cursor} (read : Parser.mapKey (s.cursor k) = .ok key c) :
    (s.cursor k).kind ≠ some (sym .dot) := by
  intro dot
  rw [Parser.mapKey, dot] at read
  cases read

end Methods

namespace Derives

variable {s : TokenStream} {rule : Bracket → Nat → Prop} {levels tier i j : Nat} {e : Expr}

/-- Where an expression has a dot, a name and a bracket, it calls a method. -/
theorem methodsKeep (derives : Derives s rule levels tier e i j) : MethodsKeep s (rule .method) i j := by
  induction derives with
  | atom found spelt => exact .short (by omega)
  | paren opens inner closes fromInner => exact .behind opens (by decide) (fromInner.close closes rfl)
  | list opens listed complete each closes fromEach =>
    have items := listed.methodsKeep (forall_part_of_forall_zip complete fromEach)
    exact .behind opens (by decide) (items.close closes rfl)
  | @map levels i j entries parts opens listed complete keys each closes fromEach =>
    have whole : ∀ entry ∈ entries.zip parts, MethodsKeep s (rule .method) entry.2.1 entry.2.2 := by
      intro entry mem k above below opens
      obtain ⟨⟨c, read⟩, colon⟩ := keys entry mem
      have notKey : k ≠ entry.2.1 := by
        rintro rfl
        exact mapKey_ne_dot read opens.1
      have pastColon := opens.apart colon rfl
      exact fromEach entry mem k (by omega) below opens
    have items := listed.methodsKeep (forall_part_of_forall_zip complete whole)
    exact .behind opens (by decide) (items.close closes rfl)
  | call named opens allowed listed complete each closes fromEach =>
    have args := listed.methodsKeep (forall_part_of_forall_zip complete fromEach)
    exact .behind named ident_ne_dot (.behind opens (by decide) (args.close closes rfl))
  | field receiver dot named fromReceiver =>
    exact fromReceiver.atDot dot (fun below => absurd below (Nat.lt_irrefl _)) (.short (by omega))
  | method receiver dot named opens allowed listed complete each closes fromReceiver fromEach =>
    have args := listed.methodsKeep (forall_part_of_forall_zip complete fromEach)
    refine fromReceiver.atDot dot (fun _ => allowed) ?_
    exact .behind named ident_ne_dot (.behind opens (by decide) (args.close closes rfl))
  | index receiver opens allowed inner closes fromReceiver fromInner =>
    exact fromReceiver.join opens rfl (fromInner.close closes rfl)
  | @un levels i j op e signs operand fromOperand => exact .behind signs op.token_ne_dot fromOperand
  | tighter below inner fromInner => exact fromInner
  | @bin levels i j k op left right first joins second fromFirst fromSecond =>
    exact fromFirst.join joins op.opensMethod_token fromSecond

/-- A derivation keeps to another rule for methods if all their brackets do. -/
theorem of_methodsKeep {rule' : Bracket → Nat → Prop} (derives : Derives s rule levels tier e i j)
    (keeps : MethodsKeep s (rule' .method) i j)
    (others : ∀ bracket k, bracket ≠ .method → rule bracket k → rule' bracket k) :
    Derives s rule' levels tier e i j := by
  induction derives with
  | atom found spelt => exact .atom found spelt
  | paren opens inner closes fromInner =>
    exact .paren opens (fromInner (keeps.within (by omega) (by omega))) closes
  | list opens listed complete each closes fromEach =>
    have items := listed.methodsKeep_each complete (fun item mem => (each item mem).lt)
      (keeps.within (by omega) (by omega))
    exact .list opens listed complete (fun item mem => fromEach item mem (items item mem)) closes
  | @map levels i j entries parts opens listed complete keys each closes fromEach =>
    have forward : ∀ entry ∈ entries.zip parts, entry.2.1 < entry.2.2 := fun entry mem => by
      have value := (each entry mem).lt
      omega
    have items := listed.methodsKeep_each complete forward (keeps.within (by omega) (by omega))
    refine .map opens listed complete keys (fun entry mem => fromEach entry mem ?_) closes
    exact (items entry mem).within (by omega) (Nat.le_refl _)
  | call named opens allowed listed complete each closes fromEach =>
    have args := listed.methodsKeep_each complete (fun arg mem => (each arg mem).lt)
      (keeps.within (by omega) (by omega))
    exact .call named opens (others _ _ (by decide) allowed) listed complete
      (fun arg mem => fromEach arg mem (args arg mem)) closes
  | @field levels i j object name receiver dot named fromReceiver =>
    exact .field (fromReceiver (keeps.within (Nat.le_refl i) (by omega))) dot named
  | @method levels i j k object name args parts receiver dot named opens allowed listed complete each closes
      fromReceiver fromEach =>
      have starts := receiver.lt
      have ends := listed.le complete fun arg mem => (each arg mem).lt
      have args := listed.methodsKeep_each complete (fun arg mem => (each arg mem).lt)
        (keeps.within (by omega) (by omega))
      have kept := keeps j (by omega) (by omega) ⟨dot, ⟨name, named⟩, opens⟩
      exact .method (fromReceiver (keeps.within (Nat.le_refl i) (by omega))) dot named opens kept listed complete
        (fun arg mem => fromEach arg mem (args arg mem)) closes
  | @index levels i j k object key receiver opens allowed inner closes fromReceiver fromInner =>
    have starts := receiver.lt
    have ends := inner.lt
    exact .index (fromReceiver (keeps.within (Nat.le_refl i) (by omega))) opens (others _ _ (by decide) allowed)
      (fromInner (keeps.within (by omega) (by omega))) closes
  | un signs operand fromOperand => exact .un signs (fromOperand (keeps.within (by omega) (Nat.le_refl _)))
  | tighter below inner fromInner => exact .tighter below (fromInner keeps)
  | @bin levels i j k op left right first joins second fromFirst fromSecond =>
    have starts := first.lt
    have ends := second.lt
    exact .bin (fromFirst (keeps.within (Nat.le_refl i) (by omega))) joins
      (fromSecond (keeps.within (by omega) (Nat.le_refl k)))

/-- All brackets of an expression are on the line of the token before them exactly if those of methods are. -/
theorem onLine_iff (derives : Derives s (lineRule s) levels tier e i j) :
    Derives s (fun _ k => OnLine s k) levels tier e i j ↔ MethodsKeep s (OnLine s) i j := by
  constructor
  · intro onLine
    exact onLine.methodsKeep
  · intro keeps
    exact derives.of_methodsKeep keeps fun bracket k other allowed => allowed.resolve_left other

end Derives

/-! ### Programs -/

/-- Every expression of a program is read from one place of the tokens to another, and something holds of it. -/
def Program.Spelt (s : TokenStream) (R : Nat → Expr → Nat → Nat → Prop) (p : Program) : Prop :=
  ∀ item ∈ p.items, ∀ t ∈ item.body, t.Built (fun levels e => ∃ i j,
    Parser.expression levels (s.cursor i) = .ok e (s.cursor j) ∧ R levels e i j) maxNesting

/-- In an accepted program the bracket of every call and of every index stands on the line of the token before it. That
    of a method need not: all brackets of an expression do so exactly if those of its methods happen to. -/
theorem only_method_brackets_leave_the_line {s : TokenStream} {p : Program} (accepted : Parser.parse s = .ok p) :
    p.Spelt s fun levels e i j => Derives s (fun bracket k => bracket = .method ∨ OnLine s k) levels 0 e i j ∧
      (Derives s (fun _ k => OnLine s k) levels 0 e i j ↔ MethodsKeep s (OnLine s) i j) := by
  refine parse_built (fun levels i e c read => ?_) accepted
  obtain ⟨j, rfl, derives⟩ := expression_takes levels i e c read
  exact ⟨j, rfl, i, j, read, derives, derives.onLine_iff⟩

/-- On a line of its own, a bracket behind a call starts a statement of its own. -/
theorem brackets_behind_call :
    let s : TokenStream := ⟨[⟨.ident "f", ⟨1, 1⟩⟩, ⟨.punct .lparen, ⟨1, 2⟩⟩, ⟨.punct .rparen, ⟨1, 3⟩⟩,
      ⟨.punct .lparen, ⟨2, 1⟩⟩, ⟨.ident "g", ⟨2, 2⟩⟩, ⟨.punct .rparen, ⟨2, 3⟩⟩], ⟨2, 4⟩⟩
    let p : Program := ⟨[.stmt (.eval (.call "f" [] ⟨1, 1⟩)), .stmt (.eval (.ident "g" ⟨2, 2⟩))]⟩
    Parser.parse s = .ok p ∧
      p.Spelt s fun levels e i j => Derives s (fun bracket k => bracket = .method ∨ OnLine s k) levels 0 e i j ∧
        (Derives s (fun _ k => OnLine s k) levels 0 e i j ↔ MethodsKeep s (OnLine s) i j) :=
  ⟨rfl, only_method_brackets_leave_the_line rfl⟩

/-- The tokens `x = a.b` on one line, and `(1 + 2)` on the next. -/
def splitCall : TokenStream where
  tokens := [⟨.ident "x", ⟨1, 1⟩⟩, ⟨.punct .eq, ⟨1, 3⟩⟩, ⟨.ident "a", ⟨1, 5⟩⟩, ⟨.punct .dot, ⟨1, 6⟩⟩,
    ⟨.ident "b", ⟨1, 7⟩⟩, ⟨.punct .lparen, ⟨2, 1⟩⟩, ⟨.number 1, ⟨2, 2⟩⟩, ⟨.punct .plus, ⟨2, 4⟩⟩,
    ⟨.number 2, ⟨2, 6⟩⟩, ⟨.punct .rparen, ⟨2, 7⟩⟩]
  stop := ⟨2, 8⟩

/-- The call that the parser makes of them. -/
def joinedCall : Expr :=
  .method (.ident "a" ⟨1, 5⟩) "b" [.bin .add (.num 1 ⟨2, 2⟩) (.num 2 ⟨2, 6⟩) ⟨2, 4⟩] ⟨1, 5⟩

theorem opens_splitCall {k : Nat} (opens : (splitCall.cursor k).kind = some (sym .lparen)) : k = 5 := by
  have within : k < 10 := TokenStream.lt_of_cursor_kind opens
  have only : ∀ k < 10, (splitCall.cursor k).kind = some (sym .lparen) → k = 5 := by decide
  exact only k within opens

/-- In a derivation a method opens its bracket somewhere. -/
theorem Derives.method_opens {s : TokenStream} {rule : Bracket → Nat → Prop} {levels tier i j : Nat} {e object : Expr}
    {name : String} {args : List Expr} {pos : Pos} (derives : Derives s rule levels tier e i j)
    (same : e = .method object name args pos) :
    ∃ k, (s.cursor k).kind = some (sym .lparen) ∧ rule .method k := by
  induction derives with
  | method receiver dot named opens allowed => exact ⟨_, opens, allowed⟩
  | paren opens inner closes fromInner => exact fromInner same
  | tighter below inner fromInner => exact fromInner same
  | @atom levels i kind e found spelt =>
    subst same
    cases kind with
    | number | bool | string | ident | punct => cases spelt
    | keyword word => cases word <;> cases spelt
  | list | map | call | field | index | un | bin => cases same

/-- The method takes the bracket that starts the next line. -/
theorem method_takes_bracket_of_next_line :
    ∃ p, Parser.parse splitCall = .ok p ∧
      ¬ p.Spelt splitCall fun levels e i j => Derives splitCall (fun _ k => OnLine splitCall k) levels 0 e i j := by
  have accepted : Parser.parse splitCall = .ok ⟨[.stmt (.assign (.name "x") none joinedCall ⟨1, 1⟩)]⟩ := rfl
  refine ⟨_, accepted, fun spelt => ?_⟩
  cases spelt _ (List.mem_singleton_self _) _ (List.mem_singleton_self _) with
  | of own _ =>
      obtain ⟨-, i, j, -, derives⟩ := own
      obtain ⟨k, opens, onLine⟩ := derives.method_opens rfl
      obtain rfl := opens_splitCall opens
      exact absurd onLine (by decide)

end Sketch
