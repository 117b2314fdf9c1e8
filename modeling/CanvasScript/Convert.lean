import CanvasScript.Document.Read
import CanvasScript.Script.Assembly
/-!
The whole way from a document to a script.

Shapes are converted one by one and share nothing, and the first that fails is reported. A text that
is no document is reported before any path data is looked at.
-/
namespace CanvasScript

namespace Path.Shortage

def diagnostic (data : String) (e : Path.Shortage) : Diagnostic where
  message := "`" ++ e.letter.toChar.toString ++ "` needs " ++ toString e.required ++
    " values, found " ++ toString e.found
  code := "svg2canvas::path::missing_values"
  help := "every coordinate of the command must be given"
  labels := [⟨"incomplete command", e.span⟩]
  source := some ⟨"d", data⟩

end Path.Shortage

inductive ConvertError where
  | document (source : Source) (fault : DocumentFault)
  /-- The shape at `index`, counted from zero, has incomplete path data. -/
  | shape (index : Nat) (pathData : String) (shortage : Path.Shortage)
  deriving DecidableEq

namespace ConvertError

/-- A report on a shape names the shape and leaves the labels to the report inside it. -/
def diagnostic : ConvertError → Diagnostic
  | document source fault => fault.diagnostic source
  | shape index pathData shortage => {
      message := "path #" ++ toString index ++ " has malformed path data"
      code := "svg2canvas::shape"
      causes := [(shortage.diagnostic pathData).message]
      hasInner := true }

end ConvertError

namespace Shape

def drawing (rounding : Rounding) (s : Shape) : Except Path.Shortage (List Path.Draw) :=
  Path.draw (Path.commands rounding s.pathData.toList)

def instructions (options : Options) (s : Shape) : Except Path.Shortage (List Instruction) :=
  (s.drawing options.rounding).map s.block

/-- The blocks of shapes counted from `index` on. -/
def blocks (options : Options) (index : Nat) :
    List Shape → Except ConvertError (List (List Instruction))
  | [] => .ok []
  | s :: later =>
      match s.instructions options with
      | .error e => .error (.shape index s.pathData e)
      | .ok block => (blocks options (index + 1) later).map (block :: ·)

end Shape

namespace Document

def script (options : Options) (d : Document) : Except ConvertError String :=
  (Shape.blocks options 0 d.shapes).map (Script.assemble options d.size)

end Document

def convert (options : Options) (text : String) : Except ConvertError String :=
  match Document.read text with
  | .error fault => .error (.document ⟨options.sourceName, text⟩ fault)
  | .ok document => document.script options

end CanvasScript
