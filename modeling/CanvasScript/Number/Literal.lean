import CanvasScript.Number.Binary64
/-!
The written form of a number where it stands alone: optional sign, digits with an optional point,
optional exponent, or a name for an infinity or for no number.
-/
namespace CanvasScript

namespace Literal

def takeSign : List Char → Bool × List Char
  | '-' :: cs => (true, cs)
  | '+' :: cs => (false, cs)
  | cs => (false, cs)

def takeFraction : List Char → List Digit × List Char
  | '.' :: cs => Digit.takeRun cs
  | cs => ([], cs)

/-- An exponent that reaches the end of the text; no text at all is the exponent zero. -/
def exponent? : List Char → Option Int
  | [] => some 0
  | c :: cs =>
      if c = 'e' ∨ c = 'E' then
        let signed := takeSign cs
        match Digit.takeRun signed.2 with
        | (d :: ds, []) =>
            let n : Int := Digit.value (d :: ds)
            some (if signed.1 then -n else n)
        | _ => none
      else none

def decimal? (negative : Bool) (cs : List Char) : Option Decimal :=
  let whole := Digit.takeRun cs
  let fraction := takeFraction whole.2
  if whole.1.isEmpty && fraction.1.isEmpty then none
  else (exponent? fraction.2).map (Decimal.ofDigits negative whole.1 fraction.1)

end Literal

/-- Reads a whole text as the nearest number. Names are read in any case. -/
def Binary64.ofText? (cs : List Char) : Option Binary64 :=
  let signed := Literal.takeSign cs
  match String.ofList (signed.2.map Char.toLower) with
  | "inf" | "infinity" => some (.infinite signed.1)
  | "nan" => some .nan
  | _ => (Literal.decimal? signed.1 signed.2).map .ofDecimal

end CanvasScript
