/-!
The shapes of a document: path data and how it is painted.
-/
namespace CanvasScript

structure Shape where
  pathData : String
  fill : Option String := none
  stroke : Option String := none
  strokeWidth : Option String := none
  transform : Option String := none
  deriving DecidableEq

namespace Shape

/-- Colours are told by their first character; names and paint servers are not colours here. -/
def isColour (value : String) : Bool := value.toList.head? == some '#'

def activeFill (s : Shape) : Option String := s.fill.filter isColour

def activeStroke (s : Shape) : Option String := s.stroke.filter isColour

end Shape

end CanvasScript
