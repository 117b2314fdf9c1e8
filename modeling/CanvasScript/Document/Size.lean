import CanvasScript.Number.Literal
import CanvasScript.Text.Blank
/-!
The size of a document, read from its view box: four numbers, of which the last two are the width
and the height.

Width and height keep the text they were written with.
-/
namespace CanvasScript

structure Size where
  width : String
  height : String
  deriving DecidableEq

inductive Side where
  | width
  | height
  deriving DecidableEq

def Side.name : Side → String
  | width => "width"
  | height => "height"

/-- Why a view box was rejected. -/
inductive ViewBoxFault where
  | fieldCount (found : Nat)
  | notANumber (field : String)
  | negative (side : Side)
  deriving DecidableEq

def ViewBoxFault.message : ViewBoxFault → String
  | fieldCount found => "expected 4 fields, found " ++ toString found
  | notANumber field => "`" ++ field ++ "` is not a number"
  | negative side => side.name ++ " is negative"

namespace Size

/-- Fields of a view box stand between white space and commas. -/
def separates (c : Char) : Bool := Text.isBlank c || c == ','

def finite (field : List Char) : Except ViewBoxFault Binary64 :=
  match Binary64.ofText? field with
  | some x => if x.isFinite then .ok x else .error (.notANumber (String.ofList field))
  | none => .error (.notANumber (String.ofList field))

/-- The fields are counted, then read from left to right, and only then compared with zero. -/
def ofViewBox (value : String) : Except ViewBoxFault Size :=
  match Text.fields separates value.toList with
  | [minX, minY, width, height] => do
      let _ ← finite minX
      let _ ← finite minY
      let w ← finite width
      let h ← finite height
      if w.isNegative then .error (.negative .width)
      else if h.isNegative then .error (.negative .height)
      else .ok ⟨String.ofList width, String.ofList height⟩
  | fields => .error (.fieldCount fields.length)

end Size

end CanvasScript
