import CanvasScript.Number.Binary64
import CanvasScript.Number.Coord
import CanvasScript.Text.Blank
/-!
How a number becomes a coordinate.

Both ways send no number to zero and stop at the ends of the coordinate range.
-/
namespace CanvasScript

inductive Rounding where
  /-- Add one half, then drop the fraction: negative numbers drift toward zero. -/
  | legacy
  | halfAwayFromZero
  deriving DecidableEq

structure UnknownRounding where
  name : String
  deriving DecidableEq

def UnknownRounding.message (e : UnknownRounding) : String :=
  "unknown rounding mode: " ++ e.name

namespace Binary64

/-- The whole part. -/
def truncate : Binary64 → Coord
  | .finite u _ => .clamp (u.tdiv one)
  | .infinite true => .least
  | .infinite false => .greatest
  | .nan => 0

/-- The nearest whole number; a half goes away from zero. -/
def round : Binary64 → Coord
  | .finite u _ =>
      let n : Int := (u.natAbs + half) / one
      .clamp (if u < 0 then -n else n)
  | x => x.truncate

end Binary64

namespace Rounding

def apply : Rounding → Binary64 → Coord
  | .legacy, x => x.addHalf.truncate
  | .halfAwayFromZero, x => x.round

def name : Rounding → String
  | .legacy => "legacy"
  | .halfAwayFromZero => "half-away-from-zero"

/-- Names are read in any case, with white space around them. -/
def ofName (s : String) : Except UnknownRounding Rounding :=
  match String.ofList ((Text.trim s.toList).map Char.toLower) with
  | "legacy" => .ok .legacy
  | "half-away-from-zero" | "half_away_from_zero" | "fixed" => .ok .halfAwayFromZero
  | other => .error ⟨other⟩

end Rounding

end CanvasScript
