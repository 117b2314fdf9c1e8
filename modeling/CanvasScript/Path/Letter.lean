/-!
The twenty letters that open a command in path data: ten verbs, each in two frames.

A capital letter gives coordinates as they are, a small one relative to the cursor.
-/
namespace CanvasScript.Path

inductive Verb where
  | moveTo
  | lineTo
  | horizontalLineTo
  | verticalLineTo
  | curveTo
  | smoothCurveTo
  | quadraticCurveTo
  | smoothQuadraticCurveTo
  | arc
  | closePath
  deriving DecidableEq

namespace Verb

/-- Values that one command takes. -/
def arity : Verb → Nat
  | closePath => 0
  | horizontalLineTo | verticalLineTo => 1
  | moveTo | lineTo | smoothQuadraticCurveTo => 2
  | smoothCurveTo | quadraticCurveTo => 4
  | curveTo => 6
  | arc => 7

/-- Smooth curves, quadratic curves and arcs are recognised but never drawn. -/
def isDrawable : Verb → Bool
  | smoothCurveTo | quadraticCurveTo | smoothQuadraticCurveTo | arc => false
  | _ => true

def capital : Verb → Char
  | moveTo => 'M'
  | lineTo => 'L'
  | horizontalLineTo => 'H'
  | verticalLineTo => 'V'
  | curveTo => 'C'
  | smoothCurveTo => 'S'
  | quadraticCurveTo => 'Q'
  | smoothQuadraticCurveTo => 'T'
  | arc => 'A'
  | closePath => 'Z'

end Verb

inductive Frame where
  | absolute
  | relative
  deriving DecidableEq

structure Letter where
  verb : Verb
  frame : Frame
  deriving DecidableEq

namespace Letter

def toChar (l : Letter) : Char :=
  match l.frame with
  | .absolute => l.verb.capital
  | .relative => l.verb.capital.toLower

def ofChar? : Char → Option Letter
  | 'M' => some ⟨.moveTo, .absolute⟩
  | 'm' => some ⟨.moveTo, .relative⟩
  | 'L' => some ⟨.lineTo, .absolute⟩
  | 'l' => some ⟨.lineTo, .relative⟩
  | 'H' => some ⟨.horizontalLineTo, .absolute⟩
  | 'h' => some ⟨.horizontalLineTo, .relative⟩
  | 'V' => some ⟨.verticalLineTo, .absolute⟩
  | 'v' => some ⟨.verticalLineTo, .relative⟩
  | 'C' => some ⟨.curveTo, .absolute⟩
  | 'c' => some ⟨.curveTo, .relative⟩
  | 'S' => some ⟨.smoothCurveTo, .absolute⟩
  | 's' => some ⟨.smoothCurveTo, .relative⟩
  | 'Q' => some ⟨.quadraticCurveTo, .absolute⟩
  | 'q' => some ⟨.quadraticCurveTo, .relative⟩
  | 'T' => some ⟨.smoothQuadraticCurveTo, .absolute⟩
  | 't' => some ⟨.smoothQuadraticCurveTo, .relative⟩
  | 'A' => some ⟨.arc, .absolute⟩
  | 'a' => some ⟨.arc, .relative⟩
  | 'Z' => some ⟨.closePath, .absolute⟩
  | 'z' => some ⟨.closePath, .relative⟩
  | _ => none

theorem ofChar?_toChar (l : Letter) : ofChar? l.toChar = some l := by
  rcases l with ⟨verb, frame⟩
  cases verb <;> cases frame <;> rfl

theorem toChar_of_ofChar? {c : Char} {l : Letter} (h : ofChar? c = some l) : l.toChar = c := by
  unfold ofChar? at h
  split at h <;> cases h <;> rfl

end Letter

end CanvasScript.Path
