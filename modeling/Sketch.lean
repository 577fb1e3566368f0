import Sketch.Proofs.Cipher.RoundTrip
import Sketch.Proofs.Engine.Expansion
import Sketch.Proofs.Engine.Failures
import Sketch.Proofs.Engine.Readings
import Sketch.Proofs.Engine.Status
import Sketch.Proofs.Engine.Timetable
import Sketch.Proofs.ErrorLine.Answers
import Sketch.Proofs.Input.EventLog
import Sketch.Proofs.Layout.Depth
import Sketch.Proofs.Library.Scopes
import Sketch.Proofs.Lint.UnknownCalls
import Sketch.Proofs.Machine.MapOps
import Sketch.Proofs.Number.LongestNumeral
import Sketch.Proofs.Scene.Blanking
import Sketch.Proofs.Syntax.Brackets
import Sketch.Proofs.Syntax.Height
import Sketch.Proofs.Syntax.StrayReturns
import Sketch.Proofs.Token.Bytewise
import Sketch.Proofs.Token.Naming
import Sketch.Recording
