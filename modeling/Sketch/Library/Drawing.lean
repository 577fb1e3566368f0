import Sketch.Builtin
import Sketch.Library.Arguments

/-!
Functions of the canvas: its size, paint, shapes, text and transforms.
-/

namespace Sketch

open World (onCanvas)

def drawShape (shape : Shape) : Action Unit := onCanvas (·.draw shape)

def CanvasFn.perform (f : CanvasFn) (values : List Value) : Action Unit := do
  let a : Arguments := ⟨f.name, values⟩
  match f with
  | .size =>
    a.expect 2
    let (w, h) ← a.point 0
    if w.isFinite && h.isFinite && 0.0 < w && 0.0 < h then
      onCanvas fun c => (c.resize w.round h.round).clear .white
    else Action.fail (.badSize w h)
  | .background =>
    let color ← a.color
    onCanvas (·.clear color)
  | .fill =>
    let color ← a.color
    onCanvas (·.withStyle ({ · with fill := some color }))
  | .noFill =>
    a.expect 0
    onCanvas (·.withStyle ({ · with fill := none }))
  | .stroke =>
    let color ← a.color
    onCanvas (·.withStyle ({ · with stroke := some color }))
  | .noStroke =>
    a.expect 0
    onCanvas (·.withStyle ({ · with stroke := none }))
  | .strokeWeight =>
    a.expect 1
    let weight ← a.number 0
    onCanvas (·.withStyle ({ · with strokeWeight := Number.larger weight 0.0 }))
  | .textSize =>
    a.expect 1
    let size ← a.number 0
    onCanvas fun c => { c with context := { c.context with textSize := Number.larger size 0.0 } }
  | .rect =>
    a.expect 4
    let (x, y) ← a.point 0
    let (w, h) ← a.point 2
    drawShape (.rect x y w h)
  | .ellipse =>
    a.expectRange 3 4
    let w ← a.number 2
    let h := (← a.number? 3).getD w
    let center ← a.point 0
    drawShape (.ellipse center (w, h))
  | .circle =>
    -- the argument is the radius
    a.expect 3
    let d := (← a.number 2) * 2.0
    let center ← a.point 0
    drawShape (.ellipse center (d, d))
  | .line =>
    a.expect 4
    let start ← a.point 0
    let stop ← a.point 2
    drawShape (.line start stop)
  | .point =>
    a.expect 2
    let p ← a.point 0
    drawShape (.point p)
  | .triangle =>
    a.expect 6
    let p ← a.point 0
    let q ← a.point 2
    let r ← a.point 4
    drawShape (.triangle p q r)
  | .quad =>
    a.expect 8
    let p ← a.point 0
    let q ← a.point 2
    let r ← a.point 4
    let s ← a.point 6
    drawShape (.quad p q r s)
  | .arc =>
    a.expect 6
    let center ← a.point 0
    let size ← a.point 2
    let (start, stop) ← a.point 4
    drawShape (.arc center size start stop)
  | .text =>
    a.expectRange 3 4
    let size := (← a.number? 3).getD (← World.getCanvas).context.textSize
    let text ← a.text 0
    let place ← a.point 1
    drawShape (.text text place size .alphabetic)
  | .push =>
    a.expect 0
    onCanvas (·.push)
  | .pop =>
    a.expect 0
    onCanvas (·.pop)
  | .translate =>
    a.expect 2
    let (x, y) ← a.point 0
    onCanvas (·.transformBy (.shift x y))
  | .rotate =>
    a.expect 1
    let angle ← a.number 0
    onCanvas (·.transformBy (.rotation angle))
  | .scale =>
    a.expectRange 1 2
    let sx ← a.number 0
    let sy := (← a.number? 1).getD sx
    onCanvas (·.transformBy (.scaling sx sy))

end Sketch
