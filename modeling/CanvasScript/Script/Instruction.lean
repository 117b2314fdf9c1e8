import CanvasScript.Document.Shape
import CanvasScript.Path.Cursor
/-!
Lines of a canvas script, and the block of them that paints one shape.
-/
namespace CanvasScript

inductive Instruction where
  | call (method : String) (arguments : List String)
  /-- Text of the document, repeated as it is. -/
  | passthrough (text : String)
  deriving DecidableEq

namespace Instruction

/-- A call with one argument between single quotes; the value is not escaped. -/
def quoted (method value : String) : Instruction := call method ["'" ++ value ++ "'"]

def points (method : String) (ps : List Point) : Instruction :=
  call method (ps.flatMap fun p => [p.x.text, p.y.text])

def text : Instruction → String
  | call method arguments => "." ++ method ++ "(" ++ ",".intercalate arguments ++ ")"
  | passthrough value => "." ++ value ++ "."

def ofDraw : Path.Draw → Instruction
  | .closePath => call "closePath" []
  | .moveTo p => points "moveTo" [p]
  | .lineTo p => points "lineTo" [p]
  | .curveTo c₁ c₂ p => points "bezierCurveTo" [c₁, c₂, p]

end Instruction

namespace Shape

/-- The calls that set up painting. The line width is set only for a stroke that is active. -/
def styling (s : Shape) : List Instruction :=
  (s.transform.map .passthrough).toList ++
    (s.activeFill.map (.quoted "fillStyle")).toList ++
    match s.activeStroke with
    | none => []
    | some colour =>
        .quoted "strokeStyle" colour :: (s.strokeWidth.map (.quoted "lineWidth")).toList

def painting (s : Shape) : List Instruction :=
  (s.activeFill.map fun _ => .call "fill" []).toList ++
    (s.activeStroke.map fun _ => .call "stroke" []).toList

/-- The block of a shape, between saving and restoring the canvas state. -/
def block (s : Shape) (drawn : List Path.Draw) : List Instruction :=
  .call "save" [] :: s.styling ++ drawn.map .ofDraw ++ s.painting ++ [.call "restore" []]

end Shape

end CanvasScript
