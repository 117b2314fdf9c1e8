import CanvasScript.Text.Span
import CanvasScript.Text.Blank
import CanvasScript.Number.Rounding
import CanvasScript.Path.Token
/-!
Commands of path data: a letter and the rounded numbers up to the next letter.

Every text reads as some list of commands. What stands before the first letter belongs to none.
-/
namespace CanvasScript.Path

structure Command where
  letter : Letter
  values : List Coord
  /-- The letter and what follows it, without the white space at the end. -/
  span : Span
  deriving DecidableEq

/-- A letter and the tokens up to the next one. -/
structure Segment where
  letter : Letter
  body : List Token
  deriving DecidableEq

namespace Segment

/-- Cuts tokens at letters: those in front of the first, and a segment for each letter. -/
def cut : List Token → List Token × List Segment
  | [] => ([], [])
  | .letter l :: ts =>
      let later := cut ts
      ([], ⟨l, later.1⟩ :: later.2)
  | .number n :: ts =>
      let later := cut ts
      (.number n :: later.1, later.2)
  | .filler c :: ts =>
      let later := cut ts
      (.filler c :: later.1, later.2)

def text (s : Segment) : List Char := s.letter.toChar :: s.body.flatMap Token.text

def numerals (s : Segment) : List Numeral :=
  s.body.filterMap fun
    | .number n => some n
    | _ => none

/-- The command a segment gives when it starts `offset` bytes into the path data. -/
def command (rounding : Rounding) (offset : Nat) (s : Segment) : Command where
  letter := s.letter
  values := s.numerals.map fun n => rounding.apply (.ofDecimal n.toDecimal)
  span := ⟨offset, offset + Text.size (Text.trimEnd s.text)⟩

def commands (rounding : Rounding) : Nat → List Segment → List Command
  | _, [] => []
  | offset, s :: later =>
      s.command rounding offset :: commands rounding (offset + Text.size s.text) later

end Segment

/-- The commands of path data, one for each letter in it. -/
def commands (rounding : Rounding) (data : List Char) : List Command :=
  let parts := Segment.cut (Token.scan data)
  Segment.commands rounding (Text.size (parts.1.flatMap Token.text)) parts.2

end CanvasScript.Path
