import CanvasScript.Number.Decimal
import CanvasScript.Path.Letter
/-!
Path data as a list of tokens: letters, numerals, and single characters that are neither.

The scan loses nothing: the texts of its tokens, in order, are the text it was given.
-/
namespace CanvasScript.Path

/-- An optional minus and digits with an optional point, which needs a digit after it. -/
structure Numeral where
  negative : Bool
  whole : List Digit
  fraction : List Digit
  written : whole ≠ [] ∨ fraction ≠ []
  deriving DecidableEq

namespace Numeral

def text (n : Numeral) : List Char :=
  (if n.negative then ['-'] else []) ++ n.whole.map Digit.toChar ++
    (if n.fraction = [] then [] else '.' :: n.fraction.map Digit.toChar)

def toDecimal (n : Numeral) : Decimal := .ofDigits n.negative n.whole n.fraction 0

/-- A point and the digits after it; a point without digits is left in the text. -/
def takeFraction : List Char → List Digit × List Char
  | '.' :: cs =>
      let fraction := Digit.takeRun cs
      if fraction.1 = [] then ([], '.' :: cs) else fraction
  | cs => ([], cs)

def takeUnsigned? (negative : Bool) (cs : List Char) : Option (Numeral × List Char) :=
  let whole := Digit.takeRun cs
  let fraction := takeFraction whole.2
  if h : whole.1 ≠ [] ∨ fraction.1 ≠ [] then
    some (⟨negative, whole.1, fraction.1, h⟩, fraction.2)
  else none

/-- The numeral a text starts with, and the text after it. -/
def take? : List Char → Option (Numeral × List Char)
  | '-' :: cs => takeUnsigned? true cs
  | cs => takeUnsigned? false cs

theorem text_takeFraction (cs : List Char) :
    (if (takeFraction cs).1 = [] then [] else '.' :: (takeFraction cs).1.map Digit.toChar) ++
      (takeFraction cs).2 = cs := by
  unfold takeFraction
  split
  · next cs =>
      by_cases h : (Digit.takeRun cs).1 = []
      · simp [h]
      · simp [h, Digit.text_takeRun]
  · simp

theorem text_of_takeUnsigned? {negative : Bool} {cs later : List Char} {n : Numeral}
    (h : takeUnsigned? negative cs = some (n, later)) :
    n.text ++ later = (if negative then ['-'] else []) ++ cs := by
  unfold takeUnsigned? at h
  simp only at h
  split at h
  · cases h
    simp only [text, List.append_assoc, text_takeFraction, Digit.text_takeRun]
  · cases h

theorem text_of_take? {cs later : List Char} {n : Numeral} (h : take? cs = some (n, later)) :
    n.text ++ later = cs := by
  unfold take? at h
  split at h
  · simpa using text_of_takeUnsigned? h
  · simpa using text_of_takeUnsigned? h

theorem text_ne_nil (n : Numeral) : n.text ≠ [] := by
  intro h
  simp only [text, List.append_eq_nil_iff, List.map_eq_nil_iff] at h
  rcases n.written with hw | hf
  · exact hw h.1.2
  · simp [hf] at h

end Numeral

inductive Token where
  | letter (letter : Letter)
  | number (numeral : Numeral)
  | filler (char : Char)
  deriving DecidableEq

namespace Token

def text : Token → List Char
  | letter l => [l.toChar]
  | number n => n.text
  | filler c => [c]

/-- The first token of a text that is not empty, and the text after it. -/
def first (c : Char) (cs : List Char) : Token × List Char :=
  match Letter.ofChar? c with
  | some l => (letter l, cs)
  | none =>
      match Numeral.take? (c :: cs) with
      | some (n, later) => (number n, later)
      | none => (filler c, cs)

theorem text_first (c : Char) (cs : List Char) :
    (first c cs).1.text ++ (first c cs).2 = c :: cs := by
  unfold first
  split
  · next l h => simp [text, Letter.toChar_of_ofChar? h]
  · split
    · next n later h => simpa [text] using Numeral.text_of_take? h
    · simp [text]

theorem text_ne_nil (t : Token) : t.text ≠ [] := by
  cases t with
  | letter l => simp [text]
  | number n => exact n.text_ne_nil
  | filler c => simp [text]

theorem length_first (c : Char) (cs : List Char) : (first c cs).2.length ≤ cs.length := by
  have h := congrArg List.length (text_first c cs)
  have := List.length_pos_iff.2 (first c cs).1.text_ne_nil
  simp only [List.length_append, List.length_cons] at h
  omega

def scan : List Char → List Token
  | [] => []
  | c :: cs => (first c cs).1 :: scan (first c cs).2
termination_by cs => cs.length
decreasing_by exact Nat.lt_succ_of_le (length_first c cs)

theorem text_scan (cs : List Char) : (scan cs).flatMap text = cs := by
  fun_induction scan cs with
  | case1 => rfl
  | case2 c cs ih => simp [ih, text_first]

end Token

end CanvasScript.Path
