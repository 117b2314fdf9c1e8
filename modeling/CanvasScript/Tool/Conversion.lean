import CanvasScript.Convert
import CanvasScript.Tool.Outcome
/-!
The program that converts one document.
-/
namespace CanvasScript.Conversion

/-- The document that is converted when no file is named. -/
def sample : String :=
  "<svg xmlns=\"http://www.w3.org/2000/svg\" viewBox=\"0 0 24 24\">\n" ++
  "  <path fill=\"#1e90ff\" d=\"M12 2 l10 10 l-10 10 l-10 -10 z\"/>\n" ++
  "  <path stroke=\"#222222\" stroke-width=\"2\" d=\"M7 12 h10 M12 7 v10\"/>\n" ++
  "</svg>"

def convertText (rounding : Rounding) (text : String) : Outcome :=
  match convert { rounding } text with
  | .ok script => { output := script ++ "\n" }
  | .error e => { errors := e.diagnostic.line ++ "\n" }

/-- Converts a file that was read, with a named way of rounding. The name is looked at first. -/
def run (file : Except ReadFault String) (rounding : Option String) : Outcome :=
  match (rounding.map Rounding.ofName).getD (.ok .legacy) with
  | .error e => .aborted ("Unknown rounding mode: " ++ Text.quoted e.message)
  | .ok rounding =>
      match file with
      | .error fault => .aborted ("Failed to read file: " ++ fault.fields)
      | .ok text => convertText rounding text

end CanvasScript.Conversion
