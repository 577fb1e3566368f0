import Sketch.Proofs.Layout.Bytewise
import Sketch.Proofs.Layout.Marks

/-!
Formatting a formatted text changes nothing. The formatter knows of a line only what is left when it is trimmed, and
keeps that.
-/

namespace Sketch

open Text (isBlank)

namespace Layout

theorem trim_indent (levels : Nat) (line : List Char) :
    Text.trim (indent levels ++ Text.trim line) = Text.trim line := by
  have blank : ∀ c ∈ indent levels, isBlank c = true := by
    intro c mem
    rw [List.eq_of_mem_replicate mem]
    rfl
  rw [Text.trim_append_of_blank blank, Text.trim_trim]

/-! ### Lines -/

section Lines

variable {depth : Nat} {inComment : Bool} {lines : List (List Char)}

/-- The formatter keeps what is left of a line when it is trimmed. -/
theorem map_trim_formatLines (depth : Nat) (inComment : Bool) (lines : List (List Char)) :
    (formatLines depth inComment lines).map Text.trim = lines.map Text.trim := by
  induction lines generalizing depth inComment with
  | nil => rfl
  | cons raw rest ih =>
    rw [formatLines]
    split
    case isTrue empty =>
      rw [List.map_cons, List.map_cons, ih, empty]
      rfl
    case isFalse => simp only [List.map_cons, trim_indent, ih]

theorem formatLines_formatLines (depth : Nat) (inComment : Bool) (lines : List (List Char)) :
    formatLines depth inComment (formatLines depth inComment lines) = formatLines depth inComment lines := by
  rw [← formatLines_map_trim, map_trim_formatLines, formatLines_map_trim]

theorem newline_not_mem_formatLines (inside : ∀ raw ∈ lines, '\n' ∉ raw) :
    ∀ line ∈ formatLines depth inComment lines, '\n' ∉ line := by
  have relaid := formatLines_relaid depth inComment lines
  generalize formatLines depth inComment lines = formatted at relaid ⊢
  induction relaid with
  | nil => exact List.forall_mem_nil _
  | cons first rest ih =>
    rw [List.forall_mem_cons] at inside ⊢
    refine ⟨?_, ih inside.2⟩
    obtain ⟨lead, body, trail, n, rfl, rfl, -⟩ := first
    intro newline
    rcases List.mem_append.mp newline with newline | newline
    · cases List.eq_of_mem_replicate newline
    · exact inside.1 (List.mem_append_right lead (List.mem_append_left trail newline))

end Lines

/-! ### Texts -/

theorem splitLines_joinLines {lines : List (List Char)} (some : lines ≠ []) (inside : ∀ line ∈ lines, '\n' ∉ line) :
    Text.splitLines (joinLines lines) = lines := by
  have whole {line : List Char} (visible : '\n' ∉ line) : Text.splitLines line = [line] := by
    have split : Text.splitLines (line ++ []) = [line ++ []] := splitLines_append visible rfl
    rwa [List.append_nil] at split
  induction lines with
  | nil => exact absurd rfl some
  | cons line lines ih =>
    rw [List.forall_mem_cons] at inside
    by_cases last : lines = []
    · rw [last]
      exact whole inside.1
    · have rest : Text.splitLines ('\n' :: joinLines lines) = [] :: lines := by
        rw [Text.splitLines, if_pos rfl, ih last inside.2]
      rw [joinLines_cons last, splitLines_append inside.1 rest, List.append_nil]

/-- The lines of a formatted text are those of the text, each at its depth. -/
theorem splitLines_format (source : String) :
    Text.splitLines (format source).toList = formatLines 0 false (Text.splitLines source.toList) := by
  rw [toList_format]
  apply splitLines_joinLines
  · exact formatLines_ne_nil (Text.splitLines_ne_nil _) 0 false
  · exact newline_not_mem_formatLines fun raw => Text.newline_not_mem_of_mem_splitLines

/-- Formatting is idempotent for every text. When the text is read byte by byte, no line is ever cut inside a
    character, and the result is the same. -/
theorem format_format (source : String) :
    format (format source) = format source ∧ format? source = some (format source) := by
  refine ⟨?_, format?_eq source⟩
  apply String.toList_injective
  rw [toList_format, splitLines_format, formatLines_formatLines, ← toList_format]

end Layout

end Sketch
