import CanvasScript.Document.Size
import CanvasScript.Options
import CanvasScript.Script.Instruction
/-!
A whole script: a line that constructs the canvas, then the lines of every block.
-/
namespace CanvasScript

namespace Script

def header (options : Options) (size : Size) : String :=
  "new " ++ options.canvasClass ++ "(\x7b width: " ++ size.width ++ ", height: " ++ size.height ++
    " \x7d)"

/-- The lines of a list of blocks; the last one is not ended. -/
def body (blocks : List (List Instruction)) : String :=
  "\n".intercalate (blocks.flatten.map Instruction.text)

def assemble (options : Options) (size : Size) (blocks : List (List Instruction)) : String :=
  header options size ++ "\n" ++ body blocks

end Script

end CanvasScript
