import CanvasScript.Path.Outline
import CanvasScript.Tool.Outcome
/-!
The program that shows how path data is read: its tree, then its commands.
-/
namespace CanvasScript

def Path.Command.line (c : Command) : String :=
  c.letter.toChar.toString ++ " [" ++ ", ".intercalate (c.values.map Coord.text) ++ "]"

namespace Inspection

/-- The path data that is shown when none is given. -/
def sample : String := "M10 10 l5-5.5 c1 2 3 4 5 6 Q1 1 2 2 z"

def run (data : String) : Outcome where
  output := Outcome.lines <|
    ["Parsing: " ++ data, ""] ++ (Path.Tree.ofData data.toList).outline ++ [""] ++
      (Path.commands .legacy data.toList).map Path.Command.line

end Inspection

end CanvasScript
