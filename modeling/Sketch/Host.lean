import Sketch.Shape

/-!
What a display receives from a running sketch. A library call gathers its effects in an outbox, which hands them over
in a fixed order: the new size, then drawing, then messages.
-/

namespace Sketch

/-- Kinds of console lines. -/
inductive MessageKind where
  | info | warning | error | success
deriving DecidableEq, Repr, Inhabited

/-- A console line, and the line of the sketch that it points at. -/
structure Message where
  kind : MessageKind
  text : String
  line : Option Nat
deriving DecidableEq, Repr, Inhabited

/-- A console line that points nowhere. -/
def Message.plain (kind : MessageKind) (text : String) : Message := ⟨kind, text, none⟩

/-- What a display receives. -/
inductive HostEvent where
  | draw (command : DrawCommand)
  | message (m : Message)
  | resize (width height : Float)
  /-- A question for the user. -/
  | prompt (text : String)
  /-- What was drawn so far is to be shown. -/
  | present
deriving DecidableEq, Repr, Inhabited

/-- Effects of a library call that are not handed over yet. -/
structure Outbox where
  commands : List DrawCommand
  messages : List Message
  resized : Option Point
deriving DecidableEq, Repr, Inhabited

namespace Outbox

def empty : Outbox := ⟨[], [], none⟩

/-- The effects in the order in which a display receives them. -/
def events (o : Outbox) : List HostEvent :=
  (match o.resized with
    | some (w, h) => [.resize w h]
    | none => [])
  ++ o.commands.map .draw ++ o.messages.map .message

end Outbox

end Sketch
