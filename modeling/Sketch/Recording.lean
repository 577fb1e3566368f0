import Sketch.Config
import Sketch.Host
import Sketch.Scene

/-!
A display in memory: it keeps what it receives, and the picture that results.
-/

namespace Sketch

/-- What a display has received. -/
structure Recording where
  commands : Array DrawCommand
  messages : Array Message
  resizes : Array Point
  prompts : Array String
  presented : Nat
  scene : Scene
deriving Inhabited

namespace Recording

/-- A display with a canvas of the configured size. -/
def new (config : Config) : Recording :=
  ⟨#[], #[], #[], #[], 0, .blank config.canvasWidth config.canvasHeight⟩

def record (r : Recording) : HostEvent → Recording
  | .draw command => { r with commands := r.commands.push command, scene := r.scene.apply command }
  | .message m => { r with messages := r.messages.push m }
  | .resize w h => { r with resizes := r.resizes.push (w, h), scene := r.scene.resize w h }
  | .prompt text => { r with prompts := r.prompts.push text }
  | .present => { r with presented := r.presented + 1 }

/-- Forgets commands, messages and sizes. The picture stays. -/
def clear (r : Recording) : Recording := { r with commands := #[], messages := #[], resizes := #[] }

/-- Texts of one kind of console lines. -/
def texts (r : Recording) (kind : MessageKind) : List String :=
  (r.messages.toList.filter (·.kind = kind)).map (·.text)

end Recording

end Sketch
