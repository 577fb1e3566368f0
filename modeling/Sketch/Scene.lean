import Sketch.Shape

/-!
The picture on the canvas. Shapes become primitives in pixels: filled or stroked outlines, open paths and
texts. Painting the whole surface drops what was there before.
-/

namespace Sketch

/-- The full turn, in radians. -/
def fullTurn : Float := 6.283185307179586

/-- Corners of the outline of a full ellipse. -/
def ellipseSegments : Nat := 64

/-- A line's width and colour on screen. -/
structure Stroke where
  width : Float
  color : Color
deriving DecidableEq, Repr, Inhabited

/-- What a display can draw. -/
inductive Primitive where
  | polygon (points : List Point) (fill : Option Color) (stroke : Option Stroke)
  | polyline (points : List Point) (stroke : Stroke)
  | text (text : String) (place : Point) (size angle : Float) (baseline : Baseline) (color : Color)
deriving DecidableEq, Repr, Inhabited

/-- Points on an ellipse from one angle to another. The end point belongs to an open path only. -/
def arcPoints (center size : Point) (start stop : Float) (segments : Nat) (endpoint : Bool) : List Point :=
  let rx := size.1 / 2.0
  let ry := size.2 / 2.0
  let count := if endpoint then segments + 1 else segments
  (List.range count).map fun i =>
    let t := start + (stop - start) * Float.ofNat i / Float.ofNat segments
    (center.1 + rx * t.cos, center.2 + ry * t.sin)

namespace Drawing

/-- The stroke on screen, if it has any width. -/
def screenStroke (d : Drawing) : Option Stroke :=
  match d.style.stroke with
  | none => none
  | some color =>
    let width := d.style.strokeWeight * d.transform.linearScale
    if 0.0 < width then some ⟨width, color⟩ else none

/-- A closed outline, unless nothing would be painted. -/
def outline (d : Drawing) (points : List Point) : List Primitive :=
  if d.style.fill.isNone && d.screenStroke.isNone then []
  else [.polygon (points.map d.transform.apply) d.style.fill d.screenStroke]

/-- An open path, if it is stroked. -/
def openPath (d : Drawing) (points : List Point) : List Primitive :=
  match d.screenStroke with
  | some stroke => [.polyline (points.map d.transform.apply) stroke]
  | none => []

/-- Number of steps for an arc of a given sweep. -/
def arcSegments (sweep : Float) : Nat :=
  let steps := Number.larger (sweep / fullTurn * Float.ofNat ellipseSegments).ceil 1.0
  (Number.wholeMagnitude? steps).getD 1

/-- The primitives of a shape. A shape that paints nothing has none. -/
def tessellate (d : Drawing) : List Primitive :=
  match d.shape with
  | .rect x y w h => d.outline [(x, y), (x + w, y), (x + w, y + h), (x, y + h)]
  | .triangle a b c => d.outline [a, b, c]
  | .quad a b c e => d.outline [a, b, c, e]
  | .ellipse center size => d.outline (arcPoints center size 0.0 fullTurn ellipseSegments false)
  | .line start stop => d.openPath [start, stop]
  | .arc center size start stop =>
    let sweep := stop - start
    if sweep.isFinite && 0.0 < sweep then
      -- more than a full turn runs along the same outline again
      let sweep := Number.smaller sweep fullTurn
      d.openPath (arcPoints center size start (start + sweep) (arcSegments sweep) true)
    else []
  | .point p =>
    match d.screenStroke with
    | some stroke =>
      -- a dot in the colour of the stroke, as wide as the stroke
      let wide := Number.larger stroke.width 1.0
      [.polygon (arcPoints (d.transform.apply p) (wide, wide) 0.0 fullTurn 16 false)
        (some stroke.color) none]
    | none => []
  | .text text place size baseline =>
    match d.style.fill with
    | some color =>
      [.text text (d.transform.apply place) (size * d.transform.linearScale)
        (Float.atan2 d.transform.m10 d.transform.m00) baseline color]
    | none => []

end Drawing

/-- What is on the canvas. -/
structure Scene where
  width : Float
  height : Float
  background : Color
  primitives : Array Primitive
deriving DecidableEq, Repr, Inhabited

namespace Scene

def blank (width height : Float) : Scene := ⟨width, height, .white, #[]⟩

def apply (s : Scene) : DrawCommand → Scene
  | .clear width height color => ⟨width, height, color, #[]⟩
  | .shape d => { s with primitives := s.primitives ++ d.tessellate.toArray }

def applyAll (s : Scene) (commands : List DrawCommand) : Scene := commands.foldl apply s

/-- A new size blanks the canvas. -/
def resize (_ : Scene) (width height : Float) : Scene := blank width height

end Scene

end Sketch
