import CanvasScript.Text.Span
/-!
A named text, and the two ways to point into it: a byte offset, or a row and a column.

Rows are counted by line breaks and columns by characters, both from one.
-/
namespace CanvasScript

structure Source where
  name : String
  text : String
  deriving DecidableEq

structure Position where
  row : Nat
  column : Nat
  deriving DecidableEq

namespace Text

/-- The first line, with its line break. -/
def firstLine : List Char → List Char
  | [] => []
  | c :: cs => if c = '\n' then [c] else c :: firstLine cs

def laterLines : List Char → List Char
  | [] => []
  | c :: cs => if c = '\n' then cs else laterLines cs

theorem firstLine_append_laterLines (cs : List Char) : firstLine cs ++ laterLines cs = cs := by
  induction cs with
  | nil => rfl
  | cons c cs ih => by_cases h : c = '\n' <;> simp [firstLine, laterLines, h, ih]

/-- A column past its row stops after the line break; a row that does not exist is the end. -/
def offsetOf (row column : Nat) : List Char → Nat :=
  match row with
  | 0 => size
  | 1 => fun cs => size ((firstLine cs).take (column - 1))
  | row + 2 => fun
    | [] => 0
    | c :: cs => size (firstLine (c :: cs)) + offsetOf (row + 1) column (laterLines (c :: cs))

/-- Where the text after `before` stands. -/
def positionAfter (before : List Char) : Position :=
  ⟨before.count '\n' + 1, (before.reverse.takeWhile (· != '\n')).length + 1⟩

end Text

namespace Source

def offsetOf (source : Source) (p : Position) : Nat :=
  Text.offsetOf p.row p.column source.text.toList

def positionOf (source : Source) (offset : Nat) : Position :=
  Text.positionAfter (Text.upTo offset source.text.toList)

end Source

end CanvasScript
