import Sketch.Lint
import Sketch.Syntax.Parser
import Sketch.Token.Lexer

/-!
From source text to a program that can run.
-/

namespace Sketch

/-- Reads a program without checking it. -/
def readProgram (source : String) : Except (List Diagnostic) Program := do
  let stream ← Lexer.tokenize source
  Parser.parse stream

/-- Reads and checks a program. It comes with the warnings about it; otherwise the first stage that fails
    gives its errors. -/
def compile (source : String) : Except (List Diagnostic) (Program × List Diagnostic) := do
  let program ← readProgram source
  let (errors, warnings) := (Lint.lint program).partition (·.isError)
  if errors.isEmpty then .ok (program, warnings) else .error errors

end Sketch
