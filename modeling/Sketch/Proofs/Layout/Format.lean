import Mathlib.Data.List.DropRight
import Mathlib.Data.List.Forall2
import Sketch.Layout
import Sketch.Proofs.Syntax.RelocatedCompile
import Sketch.Proofs.Token.Relaid

/-!
Formatting changes the blanks at the ends of lines and nothing else, so a text compiles to the same program as before.
-/

namespace Sketch

open Text (isBlank)
open Lexer (Margin Relaid)

/-! ### Texts and their lines -/

namespace Text

theorem splitLines_ne_nil (cs : List Char) : splitLines cs ≠ [] := by
  fun_induction splitLines cs <;> exact List.cons_ne_nil _ _

variable {cs : List Char}

theorem newline_not_mem_of_mem_splitLines {line : List Char} (mem : line ∈ splitLines cs) : '\n' ∉ line := by
  induction cs generalizing line with
  | nil =>
    rw [splitLines, List.mem_singleton] at mem
    rw [mem]
    exact List.not_mem_nil
  | cons c cs ih =>
    rw [splitLines] at mem
    split at mem
    case isTrue =>
      rcases List.mem_cons.mp mem with rfl | mem
      · exact List.not_mem_nil
      · exact ih mem
    case isFalse inside =>
      split at mem
      case h_1 first rest split =>
        rw [split] at ih
        rcases List.mem_cons.mp mem with rfl | mem
        · rw [List.mem_cons, not_or]
          exact ⟨Ne.symm inside, ih List.mem_cons_self⟩
        · exact ih (List.mem_cons_of_mem _ mem)
      case h_2 split => exact absurd split (splitLines_ne_nil cs)

/-- A line that a newline ended, without the carriage return before it. -/
def withoutReturn (line : List Char) : List Char :=
  if line.getLast? = some '\r' then line.dropLast else line

theorem lines_eq {ended : List (List Char)} {last : List Char} (pieces : splitLines cs = ended ++ [last]) :
    lines cs = ended.map withoutReturn ++ if last = [] then [] else [last] := by
  rw [lines, pieces, List.dropLast_concat, List.getLast?_concat]
  cases last with
  | nil => exact (List.append_nil _).symm
  | cons c last => rfl

/-- A text between the blanks that trimming takes. -/
theorem exists_trimmed (cs : List Char) : ∃ lead trail, cs = lead ++ (trim cs ++ trail) ∧
    (∀ c ∈ lead, isBlank c = true) ∧ ∀ c ∈ trail, isBlank c = true := by
  have split : trim cs ++ (trimStart cs).rtakeWhile isBlank = trimStart cs :=
    List.rdropWhile_append_rtakeWhile
  refine ⟨cs.takeWhile isBlank, (trimStart cs).rtakeWhile isBlank, ?_, ?_, ?_⟩
  · rw [split]
    exact List.takeWhile_append_dropWhile.symm
  · intro c mem
    exact List.mem_takeWhile_imp mem
  · intro c mem
    exact List.mem_rtakeWhile_imp mem

theorem trimStart_trim (cs : List Char) : trimStart (trim cs) = trim cs := by
  have starts : trim cs <+: trimStart cs := List.rdropWhile_prefix isBlank (trimStart cs)
  rw [trimStart, List.dropWhile_eq_self_iff]
  intro some blank
  have some' : 0 < (trimStart cs).length := Nat.lt_of_lt_of_le some starts.length_le
  have same : (trim cs)[0] = (trimStart cs)[0] := starts.getElem some
  apply List.dropWhile_get_zero_not isBlank cs some'
  change isBlank (trimStart cs)[0] = true
  rw [← same, blank]

theorem trim_trim (cs : List Char) : trim (trim cs) = trim cs := by
  rw [trim, trimStart_trim]
  exact List.rdropWhile_idempotent isBlank (trimStart cs)

theorem trim_append_of_blank {lead : List Char} (blank : ∀ c ∈ lead, isBlank c = true) (cs : List Char) :
    trim (lead ++ cs) = trim cs := by
  rw [trim, trimStart, List.dropWhile_append_of_pos blank]
  rfl

theorem trim_concat_of_blank {c : Char} (blank : isBlank c = true) (cs : List Char) : trim (cs ++ [c]) = trim cs := by
  rw [trim, trimStart, List.dropWhile_append]
  split
  case isTrue none =>
    rw [List.dropWhile_cons_of_pos blank, trim, trimStart, List.isEmpty_iff.mp none]
    rfl
  case isFalse => exact List.rdropWhile_concat_pos isBlank _ c blank

/-- A carriage return at the end of a line is one of its blanks. -/
theorem trim_withoutReturn (line : List Char) : trim (withoutReturn line) = trim line := by
  rw [withoutReturn]
  split
  case isTrue carriage =>
    rw [← trim_concat_of_blank (c := '\r') rfl, List.dropLast_append_getLast? '\r' carriage]
  case isFalse => rfl

end Text

namespace Layout

variable {lines : List (List Char)}

theorem joinLines_cons {line : List Char} (more : lines ≠ []) :
    joinLines (line :: lines) = line ++ '\n' :: joinLines lines := by
  cases lines with
  | nil => exact absurd rfl more
  | cons next lines => rfl

theorem joinLines_concat (last : List Char) (some : lines ≠ []) :
    joinLines (lines ++ [last]) = joinLines lines ++ '\n' :: last := by
  induction lines with
  | nil => exact absurd rfl some
  | cons line lines ih =>
    by_cases more : lines = []
    · rw [more]
      rfl
    · rw [List.cons_append, joinLines_cons (List.append_ne_nil_of_left_ne_nil more _),
        ih more, joinLines_cons more, List.append_assoc]
      rfl

theorem joinLines_splitLines (cs : List Char) : joinLines (Text.splitLines cs) = cs := by
  induction cs with
  | nil => rfl
  | cons c cs ih =>
    rw [Text.splitLines]
    split
    case isTrue newline =>
      rw [joinLines_cons (Text.splitLines_ne_nil cs), ih, newline]
      rfl
    case isFalse =>
      split
      case h_1 line lines split =>
        rw [split] at ih
        rw [← ih]
        cases lines <;> rfl
      case h_2 split => exact absurd split (Text.splitLines_ne_nil cs)

/-! ### A line and its form -/

/-- A line with other blanks at its ends: none at the end, and spaces at the start. -/
def RelaidLine (line line' : List Char) : Prop :=
  ∃ lead body trail n, line = lead ++ (body ++ trail) ∧ line' = List.replicate n ' ' ++ body ∧
    (∀ c ∈ lead, isBlank c = true) ∧ ∀ c ∈ trail, isBlank c = true

theorem relaidLine_trim (line : List Char) (n : Nat) : RelaidLine line (List.replicate n ' ' ++ Text.trim line) := by
  obtain ⟨lead, trail, whole, blank, blank'⟩ := Text.exists_trimmed line
  exact ⟨lead, Text.trim line, trail, n, whole, rfl, blank, blank'⟩

theorem formatLines_relaid (depth : Nat) (inComment : Bool) (lines : List (List Char)) :
    List.Forall₂ RelaidLine lines (formatLines depth inComment lines) := by
  induction lines generalizing depth inComment with
  | nil => exact .nil
  | cons line lines ih =>
    simp only [formatLines]
    split
    case isTrue empty =>
      have relaid := relaidLine_trim line 0
      rw [empty] at relaid
      exact .cons relaid (ih _ _)
    case isFalse => exact .cons (relaidLine_trim line _) (ih _ _)

theorem formatLines_ne_nil (some : lines ≠ []) (depth : Nat) (inComment : Bool) :
    formatLines depth inComment lines ≠ [] := by
  intro empty
  have relaid := formatLines_relaid depth inComment lines
  rw [empty, List.forall₂_nil_right_iff] at relaid
  exact some relaid

/-- A text ends with a newline when an empty piece stands behind others. -/
theorem getLast?_eq_newline_iff {cs : List Char} {ended : List (List Char)} {last : List Char}
    (pieces : Text.splitLines cs = ended ++ [last]) : cs.getLast? = some '\n' ↔ ended ≠ [] ∧ last = [] := by
  have inside : last.getLast? ≠ some '\n' := by
    intro newline
    have mem : last ∈ Text.splitLines cs := pieces ▸ List.mem_append_right ended List.mem_cons_self
    exact Text.newline_not_mem_of_mem_splitLines mem (List.mem_of_getLast? newline)
  rw [← joinLines_splitLines cs, pieces]
  by_cases one : ended = []
  · rw [one]
    exact iff_of_false inside fun both => both.1 rfl
  · rw [joinLines_concat last one, List.getLast?_append]
    cases last with
    | nil => exact iff_of_true rfl ⟨one, rfl⟩
    | cons c last =>
      rw [List.getLast?_cons_cons, List.getLast?_cons, Option.some_or, ← List.getLast?_cons]
      exact iff_of_false inside fun both => List.cons_ne_nil c last both.2

/-- The formatter looks at trimmed lines only. -/
theorem formatLines_map_trim (depth : Nat) (inComment : Bool) (lines : List (List Char)) :
    formatLines depth inComment (lines.map Text.trim) = formatLines depth inComment lines := by
  induction lines generalizing depth inComment with
  | nil => rfl
  | cons raw rest ih => simp only [List.map_cons, formatLines, Text.trim_trim, ih]

theorem formatLines_withoutReturn (depth : Nat) (inComment : Bool) (ended tail : List (List Char)) :
    formatLines depth inComment (ended.map Text.withoutReturn ++ tail) =
      formatLines depth inComment (ended ++ tail) := by
  rw [← formatLines_map_trim, ← formatLines_map_trim depth inComment (ended ++ tail), List.map_append, List.map_map,
    List.map_append]
  exact congrArg (fun lines => formatLines depth inComment (lines ++ tail.map Text.trim))
    (List.map_congr_left fun line _ => Text.trim_withoutReturn line)

/-- An empty line at the end stays one. -/
theorem formatLines_append_empty (depth : Nat) (inComment : Bool) (lines : List (List Char)) :
    formatLines depth inComment (lines ++ [[]]) = formatLines depth inComment lines ++ [[]] := by
  induction lines generalizing depth inComment with
  | nil => rfl
  | cons raw rest ih =>
    simp only [List.cons_append, formatLines, ih]
    split <;> rfl

/-- A formatted text is made of the lines of the text, each at its depth. -/
theorem toList_format (source : String) :
    (format source).toList = joinLines (formatLines 0 false (Text.splitLines source.toList)) := by
  obtain ⟨ended, last, pieces⟩ : ∃ ended last, Text.splitLines source.toList = ended ++ [last] :=
    ⟨_, _, (List.dropLast_append_getLast (Text.splitLines_ne_nil source.toList)).symm⟩
  simp only [format, String.toList_ofList, Text.lines_eq pieces, getLast?_eq_newline_iff pieces,
    formatLines_withoutReturn, pieces]
  by_cases empty : last = []
  · rw [if_pos empty, List.append_nil, empty, formatLines_append_empty]
    by_cases one : ended = []
    · rw [if_neg fun both => both.1 one, one]
      rfl
    · rw [if_pos ⟨one, rfl⟩, joinLines_concat [] (formatLines_ne_nil one 0 false)]
  · rw [if_neg empty, if_neg fun both => empty both.2]

/-! ### The formatted text -/

/-- The text of relaid lines, behind the blanks of its first line. -/
theorem relaid_joinLines {lines' : List (List Char)} (relaid : List.Forall₂ RelaidLine lines lines')
    (inside : ∀ line ∈ lines, '\n' ∉ line) : ∃ lead cs n cs',
    joinLines lines = lead ++ cs ∧ joinLines lines' = List.replicate n ' ' ++ cs' ∧ Margin lead ∧
      Relaid cs cs' := by
  induction relaid with
  | nil => exact ⟨[], [], 0, [], rfl, rfl, .nil, .stop .nil⟩
  | @cons line line' lines lines' first rest ih =>
    obtain ⟨lead, body, trail, n, rfl, rfl, blank, blank'⟩ := first
    have oneLine := inside _ List.mem_cons_self
    rw [List.mem_append, List.mem_append, not_or, not_or] at oneLine
    have margin : Margin lead := fun c mem => ⟨blank c mem, fun eq => oneLine.1 (eq ▸ mem)⟩
    have margin' : Margin trail := fun c mem => ⟨blank' c mem, fun eq => oneLine.2.2 (eq ▸ mem)⟩
    have throughBody {cs cs' : List Char} (relaid : Relaid cs cs') : Relaid (body ++ cs) (body ++ cs') :=
      .append oneLine.2.1 relaid
    by_cases more : lines = []
    · rw [more, List.forall₂_nil_left_iff] at rest
      rw [more, rest]
      refine ⟨lead, body ++ trail, n, body ++ [], rfl, ?_, margin, throughBody (.stop margin')⟩
      rw [List.append_nil]
      rfl
    · have more' : lines' ≠ [] := by
        intro empty
        rw [empty, List.forall₂_nil_right_iff] at rest
        exact more rest
      obtain ⟨nextLead, cs, m, cs', text, text', nextMargin, relaid⟩ :=
        ih fun line mem => inside line (List.mem_cons_of_mem _ mem)
      refine ⟨lead, body ++ (trail ++ '\n' :: (nextLead ++ cs)), n,
        body ++ '\n' :: (List.replicate m ' ' ++ cs'), ?_, ?_, margin,
        throughBody (.newline m margin' nextMargin relaid)⟩
      · rw [joinLines_cons more, text]
        simp only [List.append_assoc]
      · rw [joinLines_cons more', text', List.append_assoc]

/-- The formatted text has the same tokens on the same lines. -/
theorem tokenize_format {source : String} {s : TokenStream} (accepted : Lexer.tokenize source = .ok s) :
    ∃ s', Lexer.tokenize (format source) = .ok s' ∧ s'.relocate Pos.onLine = s.relocate Pos.onLine := by
  obtain ⟨lead, cs, n, cs', text, text', margin, relaid⟩ :=
    relaid_joinLines (formatLines_relaid 0 false _) fun line => Text.newline_not_mem_of_mem_splitLines
  rw [joinLines_splitLines] at text
  rw [← toList_format] at text'
  have spaces : ∀ c ∈ List.replicate n ' ', Lexer.isSpace c = true := by
    intro c mem
    rw [List.eq_of_mem_replicate mem]
    rfl
  rw [Lexer.tokenize, text] at accepted
  rw [Lexer.tokenize, text', Lexer.scan_spaces _ spaces]
  simp only [List.isEmpty_iff] at accepted ⊢
  split at accepted
  case isFalse => cases accepted
  case isTrue clean =>
    cases accepted
    have passed := Lexer.scan_blanks .start (fun c mem => (margin c mem).1) clean
    rw [passed] at clean ⊢
    have line : (Pos.start.afterAll (List.replicate n ' ')).line = (Pos.start.afterAll lead).line := by
      rw [Pos.afterAll_line, Pos.afterAll_line, margin.count_newline, (Margin.spaces n).count_newline]
    obtain ⟨clean', tokens, stop⟩ := Lexer.scan_relaid relaid line clean
    refine ⟨_, if_pos clean', ?_⟩
    simp only [TokenStream.relocate, tokens, Pos.onLine, stop]

/-- Formatting never changes a program. A text that has tokens keeps them in order, of the same kinds and on
    the same lines, and compiles to the same program with the same warnings, or fails with the same errors,
    up to the columns of the places in them. -/
theorem compile_format (source : String) (s : TokenStream) (accepted : Lexer.tokenize source = .ok s) :
    (∃ s', Lexer.tokenize (format source) = .ok s' ∧
      s'.tokens.map (fun t => (t.kind, t.pos.line)) = s.tokens.map (fun t => (t.kind, t.pos.line)) ∧
      s'.stop.line = s.stop.line) ∧
    relocateCompiled Pos.onLine (compile (format source)) = relocateCompiled Pos.onLine (compile source) := by
  obtain ⟨s', accepted', same⟩ := tokenize_format accepted
  refine ⟨⟨s', accepted', ?_, ?_⟩, compile_eq_of_tokens Pos.onLine_line accepted accepted' same⟩
  · have tokens := congrArg (fun s => s.tokens.map fun t : Token => (t.kind, t.pos.line)) same
    simp only [TokenStream.relocate, List.map_map] at tokens
    exact tokens
  · exact congrArg (fun s => s.stop.line) same

/-- A text with a carriage return, a long comment and blanks at the ends of its lines. -/
def ragged : String := "if x then\r\nf(\"a \")\t\n /* b\t\n  c */end "

def raggedTokens : TokenStream where
  tokens :=
    [⟨.keyword .ifKw, ⟨1, 1⟩⟩, ⟨.ident "x", ⟨1, 4⟩⟩, ⟨.keyword .thenKw, ⟨1, 6⟩⟩, ⟨.ident "f", ⟨2, 1⟩⟩,
      ⟨.punct .lparen, ⟨2, 2⟩⟩, ⟨.string "a ", ⟨2, 3⟩⟩, ⟨.punct .rparen, ⟨2, 7⟩⟩, ⟨.keyword .endKw, ⟨4, 7⟩⟩]
  stop := ⟨4, 11⟩

theorem compile_format_ragged : Lexer.tokenize ragged = .ok raggedTokens ∧
    (∃ s', Lexer.tokenize (format ragged) = .ok s' ∧
      s'.tokens.map (fun t => (t.kind, t.pos.line)) = raggedTokens.tokens.map (fun t => (t.kind, t.pos.line)) ∧
      s'.stop.line = raggedTokens.stop.line) ∧
    relocateCompiled Pos.onLine (compile (format ragged)) = relocateCompiled Pos.onLine (compile ragged) := by
  have accepted : Lexer.tokenize ragged = .ok raggedTokens := by decide +kernel
  exact ⟨accepted, compile_format ragged raggedTokens accepted⟩

end Layout

end Sketch
