import Mathlib.Data.List.Flatten
import Sketch.Proofs.Machine.Lacks
import Sketch.Proofs.Syntax.Conservation
import Sketch.Proofs.Token.Pieces

/-!
Warnings about calls. There is one for each call of a function that nobody has, in source order, and they foretell
just the calls that fail for want of a function.
-/

namespace Sketch

/-! ### Calls in a program -/

namespace Program

/-- The calls by name anywhere in a program, in source order, and their places. -/
def calls (p : Program) : List (String × Pos) := p.nodes.filterMap Node.call?

/-- Neither the program declares a function of this name nor does a library export one. -/
def Unknown (p : Program) (name : String) : Prop :=
  name ∉ p.functions.map (·.name) ∧ ∀ l ∈ Library.all, ⟨name, .function⟩ ∉ l.exports

instance (p : Program) (name : String) : Decidable (p.Unknown name) := inferInstanceAs (Decidable (_ ∧ _))

variable {p : Program} {name : String}

theorem function?_isSome_iff : (p.function? name).isSome = true ↔ name ∈ p.functions.map (·.name) := by
  rw [function?, List.find?_isSome, List.mem_map]
  simp

theorem unknown_iff : p.Unknown name ↔ Lint.isKnown p name = false := by
  rw [Unknown, Lint.isKnown, Bool.or_eq_false_iff, ← function?_isSome_iff, Bool.not_eq_true]
  simp [Library.exported]

/-- What is known from declarations and exports is what a call finds. -/
theorem has_eq_isKnown (p : Program) (depth : Nat) (name : String) :
    (Script.ofProgram p depth).has name = Lint.isKnown p name := by
  rw [Lint.isKnown, Library.exported_function]
  rfl

end Program

/-! ### Calls and words -/

def Node.words : Node → List Word
  | .expr e => e.words
  | .stmt s => s.words

theorem Stmt.blockWords_eq_flatMap (body : List Stmt) : Stmt.blockWords body = body.flatMap Stmt.words := by
  induction body with
  | nil => rfl
  | cons s rest ih => rw [Stmt.blockWords, ih, List.flatMap_cons]

theorem Stmt.branchWords_eq_flatMap (branches : List (Expr × List Stmt)) :
    Stmt.branchWords branches = branches.flatMap fun branch => branch.1.words ++ Stmt.blockWords branch.2 := by
  induction branches with
  | nil => rfl
  | cons branch rest ih => rw [Stmt.branchWords, ih, List.flatMap_cons]

namespace Node

theorem flatMap_exprs_words (items : List Expr) :
    (items.map expr).flatMap words = items.flatMap Expr.words := List.flatMap_map ..

theorem flatMap_stmts_words (body : List Stmt) : (body.map stmt).flatMap words = Stmt.blockWords body := by
  rw [Stmt.blockWords_eq_flatMap, List.flatMap_map]
  rfl

theorem elim_words (e : Option Expr) : e.elim [] Expr.words = e.toList.flatMap Expr.words := by
  cases e with
  | none => rfl
  | some e => exact (List.append_nil _).symm

/-- A call and the parts of an expression are among its words, in order. -/
theorem expr_words (e : Expr) :
    (((expr e).call?.toList.map fun call => Word.name call.1) ++ (expr e).children.flatMap words).Sublist
      e.words := by
  cases e with
  | num | bool | str | nil | ident => exact List.nil_sublist _
  | call callee args pos =>
    rw [children, flatMap_exprs_words, Expr.words, Expr.listWords_eq_flatMap]
    exact List.Sublist.refl _
  | list items pos =>
    rw [children, flatMap_exprs_words, Expr.words, Expr.listWords_eq_flatMap]
    exact List.Sublist.refl _
  | method object name args pos =>
    rw [children, flatMap_exprs_words, Expr.words, Expr.listWords_eq_flatMap, List.flatMap_cons]
    exact List.Sublist.append_left (List.sublist_cons_self _ _) object.words
  | map entries pos =>
    rw [children, flatMap_exprs_words, Expr.words, Expr.entryWords_eq_flatMap, List.flatMap_map]
    exact List.Sublist.flatMap_right entries fun entry _ => List.sublist_cons_self _ _
  | bin | un | field | index =>
    simp [children, words, Expr.words, call?]

/-- The words of its parts are words of a statement, in order. -/
theorem stmt_words (s : Stmt) : ((stmt s).children.flatMap words).Sublist s.words := by
  cases s with
  | declare name init pos =>
    rw [children, flatMap_exprs_words, Stmt.words, elim_words]
    exact List.sublist_cons_self _ _
  | assign target op value pos =>
    rw [children, flatMap_exprs_words, Stmt.words]
    cases target <;> simp [Target.parts, Target.words]
  | branch branches otherwise pos =>
    rw [children, List.flatMap_append, flatMap_stmts_words, Stmt.words, Stmt.branchWords_eq_flatMap,
      List.flatMap_assoc]
    have each (branch : Expr × List Stmt) :
        (expr branch.1 :: branch.2.map stmt).flatMap words = branch.1.words ++ Stmt.blockWords branch.2 := by
      rw [List.flatMap_cons, flatMap_stmts_words]
      rfl
    simp only [each]
    cases otherwise <;> exact List.Sublist.refl _
  | count var start stop step body pos =>
    rw [children, List.flatMap_append, flatMap_exprs_words, flatMap_stmts_words, Stmt.words, elim_words]
    simp
  | clauses init test step body pos =>
    simp only [children, List.flatMap_append, flatMap_exprs_words, flatMap_stmts_words, Stmt.words, elim_words,
      Stmt.blockWords_eq_flatMap]
    cases init <;> cases step <;> simp [Stmt.clauseWords]
  | whileDo test body pos =>
    rw [children, List.flatMap_cons, flatMap_stmts_words, Stmt.words]
    exact List.Sublist.refl _
  | ret value pos =>
    rw [children, flatMap_exprs_words, Stmt.words, elim_words]
  | eval e =>
    rw [children, List.flatMap_singleton, Stmt.words]
    exact List.Sublist.refl _

/-- The names that are called in a part are among its words, in the order of those. -/
theorem calls_sublist_words (n : Node) :
    ((n.all.filterMap call?).map fun call => Word.name call.1).Sublist n.words := by
  induction n using Node.inductionOn with
  | _ n ih =>
    have own : ((n.call?.toList.map fun call => Word.name call.1) ++ n.children.flatMap words).Sublist n.words := by
      cases n with
      | expr e => exact expr_words e
      | stmt s => exact stmt_words s
    have below := List.Sublist.flatMap_right n.children ih
    simp only [List.filterMap_eq_flatMap_toList, List.map_flatMap] at below ⊢
    rw [all_eq, List.flatMap_cons, List.flatMap_assoc]
    exact (List.Sublist.append_left below _).trans own

end Node

/-- The names that are called in a program are among its words, in order. -/
theorem Program.calls_sublist_words (p : Program) : (p.calls.map fun call => Word.name call.1).Sublist p.words := by
  have item (i : Item) : (i.body.flatMap Stmt.words).Sublist i.words := by
    cases i with
    | function f =>
      rw [Item.body, ← Stmt.blockWords_eq_flatMap]
      exact List.sublist_append_right _ _
    | stmt s =>
      rw [Item.body, List.flatMap_singleton]
      exact List.Sublist.refl _
  rw [calls, nodes, words, List.filterMap_flatMap, List.map_flatMap, List.flatMap_assoc]
  apply List.Sublist.flatMap_right
  intro i _
  apply List.Sublist.trans _ (item i)
  apply List.Sublist.flatMap_right
  intro s _
  exact Node.calls_sublist_words (.stmt s)

/-! ### Names in a text -/

namespace Lexer

/-- A token that is a name consists of the characters of names. -/
theorem isNamePart_of_cut {before ahead : List Char} {tokens : List Token} {faults : List Diagnostic} {stop : Pos}
    (cut : Cut before ahead tokens faults stop) {name : String} (named : .ident name ∈ tokens.map (·.kind)) :
    name.toList.all isNamePart = true := by
  induction cut with
  | stop => cases named
  | trivia _ _ ih => exact ih named
  | fault _ _ ih => exact ih named
  | token spelled _ _ _ ih =>
    rcases List.mem_cons.mp named with rfl | named
    · cases spelled with
      | fixed listed => cases listed
      | name start parts _ => simpa [isNamePart, start] using parts
    · exact ih named

end Lexer

/-- A word of a program stands in its text. -/
theorem Spell.mem {words : List Word} {used : List Token} (spelt : Spell words used) {word : Word}
    (mem : word ∈ words) : ∃ kind ∈ used.map (·.kind), word.SpeltBy kind := by
  rw [Spell] at spelt
  obtain ⟨i, bound, rfl⟩ := List.getElem_of_mem mem
  have bound' := spelt.length_eq ▸ bound
  exact ⟨_, List.mem_of_mem_filter (List.getElem_mem bound'), spelt.get bound bound'⟩

variable {source name : String} {p : Program}

theorem Lexer.isNamePart_of_tokenize {stream : TokenStream}
    (tokenized : tokenize source = .ok stream) (named : .ident name ∈ stream.tokens.map (·.kind)) :
    name.toList.all isNamePart = true := by
  simp only [tokenize] at tokenized
  split at tokenized
  case isTrue =>
    cases tokenized
    exact isNamePart_of_cut (cut_scan [] source.toList) named
  case isFalse => cases tokenized

/-- The names in a program that is read from a text have no dots in them. -/
theorem dot_not_mem_of_read (read : readProgram source = .ok p) (word : .name name ∈ p.words) : '.' ∉ name.toList := by
  rw [readProgram] at read
  cases tokenized : Lexer.tokenize source with
  | error faults =>
    rw [tokenized] at read
    cases read
  | ok stream =>
    rw [tokenized] at read
    obtain ⟨kind, mem, speltBy⟩ := (Parser.spell_of_parse read).mem word
    cases speltBy
    intro dot
    have part := List.all_eq_true.mp (Lexer.isNamePart_of_tokenize tokenized mem) '.' dot
    exact absurd part (by decide)

/-! ### Warnings -/

namespace Lint

theorem declarationFaults_code {before ds : List FnDef} : ∀ d ∈ declarationFaults before ds, d.code ≠ .W001 := by
  induction ds generalizing before with
  | nil => exact List.forall_mem_nil _
  | cons f rest ih =>
    rw [declarationFaults, List.forall_mem_append]
    refine ⟨?_, ih⟩
    intro d mem
    split at mem
    case h_1 =>
      cases List.mem_singleton.mp mem
      intro same
      cases same
    case h_2 =>
      split at mem
      case isTrue =>
        cases List.mem_singleton.mp mem
        intro same
        cases same
      case isFalse => cases mem

theorem frameFaults_code {p : Program} : ∀ d ∈ frameFaults p, d.code ≠ .W001 := by
  intro d mem
  rw [frameFaults] at mem
  split at mem
  case h_1 =>
    cases List.mem_singleton.mp mem
    intro same
    cases same
  case h_2 => cases mem

/-- A part has the warning that its own call deserves. -/
theorem ownFaults_filter (p : Program) (n : Node) :
    (ownFaults (isKnown p) n).filter (·.code = .W001) =
      (n.call?.toList.filter fun call => p.Unknown call.1).map fun call => ⟨.unknownFunction call.1, call.2⟩ := by
  have writes : (n.write?.elim [] fun write => writeFaults write.1 write.2).filter (·.code = .W001) = [] := by
    cases n.write? with
    | none => rfl
    | some write =>
      rw [Option.elim_some, writeFaults]
      split <;> rfl
  rw [ownFaults, List.filter_append, writes]
  cases n.call? with
  | none => rfl
  | some call =>
    cases known : isKnown p call.1 with
    | true => simp [callFaults, known, Program.unknown_iff]
    | false => simp [callFaults, known, Program.unknown_iff, Diagnostic.code, Fault.code]

theorem filter_lint (p : Program) :
    (lint p).filter (·.code = .W001) =
      (p.calls.filter fun call => p.Unknown call.1).map fun call => ⟨.unknownFunction call.1, call.2⟩ := by
  have none {faults : List Diagnostic} (other : ∀ d ∈ faults, d.code ≠ .W001) :
      faults.filter (·.code = .W001) = [] := by
    simpa using other
  rw [lint_eq, List.filter_append, List.filter_append, none declarationFaults_code, none frameFaults_code,
    List.filter_flatMap, Program.calls, List.filterMap_eq_flatMap_toList, List.filter_flatMap, List.map_flatMap]
  exact List.flatMap_congr fun n _ => ownFaults_filter p n

end Lint

/-! ### Warnings and runs -/

/-- A step fails, and says that a function of this name is not defined. -/
def Step.Wants (s : Step) (name : String) : Prop :=
  ∃ f m, s = .failed f m ∧ f.cause.kind = .undefined ∧ f.cause.message = s!"undefined function `{name}`"

theorem Step.wants_iff {s : Step} : s.Wants name ↔ s.lacks? = some name := by
  constructor
  · rintro ⟨f, m, rfl, kind, message⟩
    exact Cause.lacks?_eq_some_iff.mpr ⟨kind, message⟩
  · intro lacks
    cases s with
    | failed f m => exact ⟨f, m, rfl, Cause.lacks?_eq_some_iff.mp lacks⟩
    | next | paused | finished | crashed => cases lacks

/-- A call is warned about if and only if its name is unknown. -/
theorem Lint.mem_lint_iff {call : String × Pos} (mem : call ∈ p.calls) :
    ⟨.unknownFunction call.1, call.2⟩ ∈ lint p ↔ isKnown p call.1 = false := by
  have filtered : ⟨.unknownFunction call.1, call.2⟩ ∈ lint p ↔
      ⟨.unknownFunction call.1, call.2⟩ ∈ (lint p).filter (·.code = .W001) := by
    simp [Diagnostic.code, Fault.code]
  rw [filtered, filter_lint, ← Program.unknown_iff]
  constructor
  · intro reported
    obtain ⟨other, unknown, same⟩ := List.mem_map.mp reported
    have names : other.1 = call.1 := by
      injection same with fault
      injection fault
    rw [← names]
    simpa using (List.mem_filter.mp unknown).2
  · intro unknown
    exact List.mem_map.mpr ⟨call, List.mem_filter.mpr ⟨mem, by simpa using unknown⟩, rfl⟩

/-- There is one warning for each call of a function that neither the program declares nor a library exports, at the
    call and in source order. A call whose arguments are at hand fails for want of its function just if it was warned
    about, and nothing else that the sketch ever does fails for want of that function unless it was. What each
    library exports as a function is what it does, the calls that pause included. -/
theorem unknown_calls_foretold {source : String} {p : Program} (read : readProgram source = .ok p) (depth : Nat) :
    (Lint.lint p).filter (·.code = .W001) =
      (p.calls.filter fun call => p.Unknown call.1).map (fun call => ⟨.unknownFunction call.1, call.2⟩) ∧
    (p.calls.map fun call => Word.name call.1).Sublist p.words ∧
    (∀ call ∈ p.calls,
      (∀ (m : Machine) (done : List Value), m.gathering? = some (.call call.1, done, []) →
        ((m.step (.ofProgram p depth)).Wants call.1 ↔ ⟨.unknownFunction call.1, call.2⟩ ∈ Lint.lint p)) ∧
      ∀ m : Machine, (m.step (.ofProgram p depth)).Wants call.1 →
        ⟨.unknownFunction call.1, call.2⟩ ∈ Lint.lint p) ∧
    ∀ (l : Library) (name : String), ⟨name, .function⟩ ∈ l.exports ↔
      (l.actionOf? name).isSome = true ∨ l = .io ∧ (Builtin.pauseOf? name).isSome = true := by
  refine ⟨Lint.filter_lint p, p.calls_sublist_words, ?_, Library.mem_exports_iff⟩
  intro call mem
  rw [Lint.mem_lint_iff mem]
  constructor
  · intro m done gathers
    rw [Step.wants_iff, Machine.step_lacks_of_call m gathers, Program.has_eq_isKnown]
    cases Lint.isKnown p call.1 <;> simp
  · intro m wants
    have word : .name call.1 ∈ p.words :=
      p.calls_sublist_words.subset (List.mem_map.mpr ⟨call, mem, rfl⟩)
    rcases m.step_lacks (Step.wants_iff.mp wants) with lacking | dot
    · exact p.has_eq_isKnown depth call.1 ▸ lacking
    · exact absurd dot (dot_not_mem_of_read read word)

/-- In `function f(a) { g(f(a), [h]) }` only `g` is unknown, and its call fails whatever `a` and `h` are. -/
theorem unknown_call_of_nested_call :
    ∃ p, readProgram "function f(a) \x7b g(f(a), [h]) \x7d" = .ok p ∧
      (Lint.lint p).filter (·.code = .W001) = [⟨.unknownFunction "g", ⟨1, 17⟩⟩] ∧
      ∀ (m : Machine) (done : List Value), m.gathering? = some (.call "g", done, []) →
        (m.step (.ofProgram p 8)).Wants "g" := by
  have warned : (readProgram "function f(a) \x7b g(f(a), [h]) \x7d").toOption.map
      (fun p => (Lint.lint p).filter (·.code = .W001)) = some [⟨.unknownFunction "g", ⟨1, 17⟩⟩] := by
    decide +kernel
  cases read : readProgram "function f(a) \x7b g(f(a), [h]) \x7d" with
  | error faults =>
      rw [read] at warned
      cases warned
  | ok p =>
      rw [read] at warned
      have warned : (Lint.lint p).filter (·.code = .W001) = [⟨.unknownFunction "g", ⟨1, 17⟩⟩] :=
        Option.some.inj warned
      obtain ⟨exactly, -, runs, -⟩ := unknown_calls_foretold read 8
      have reported : ⟨.unknownFunction "g", ⟨1, 17⟩⟩ ∈ (Lint.lint p).filter (·.code = .W001) := by
        rw [warned]
        exact List.mem_singleton_self _
      have there := reported
      rw [exactly] at there
      obtain ⟨⟨name, pos⟩, unknown, same⟩ := List.mem_map.mp there
      cases same
      refine ⟨p, rfl, warned, fun m done gathers => ?_⟩
      exact ((runs _ (List.mem_filter.mp unknown).1).1 m done gathers).mpr (List.mem_of_mem_filter reported)

end Sketch
