import CanvasScript.Markup.Fragment
import CanvasScript.Number.Decimal
/-!
References in text and attribute values: to characters by their code, to entities by their name.
-/
namespace CanvasScript.Markup

inductive Reference where
  | character (char : Char)
  | entity (name : List Char)

namespace Reference

def hexDigit? (c : Char) : Option Nat :=
  if c.isDigit then some (c.toNat - 48)
  else if 'a' ≤ c ∧ c ≤ 'f' then some (c.toNat - 87)
  else if 'A' ≤ c ∧ c ≤ 'F' then some (c.toNat - 55)
  else none

def isHexDigit (c : Char) : Bool := (hexDigit? c).isSome

def hexValue (cs : List Char) : Nat := cs.foldl (fun n c => n * 16 + (hexDigit? c).getD 0) 0

/-- The character of a code of 32 bits; a code that has none stands for U+FFFD. -/
def charOfCode? (n : Nat) : Option Char :=
  if n < 0x100000000 then
    let c := if n.isValidChar then Char.ofNat n else '\uFFFD'
    if isText c then some c else none
  else none

/-- The five entities that need no declaration. -/
def ofName (name : List Char) : Reference :=
  match String.ofList name with
  | "quot" => character '"'
  | "amp" => character '&'
  | "apos" => character '\''
  | "lt" => character '<'
  | "gt" => character '>'
  | _ => entity name

/-- A reference that starts after its ampersand, without the semicolon that ends it. -/
def body? (f : Fragment) : Option (Reference × Fragment) :=
  match f.chars with
  | '#' :: 'x' :: cs =>
      let digits := cs.takeWhile isHexDigit
      if digits.isEmpty then none
      else (charOfCode? (hexValue digits)).map (character ·, (f.drop 2).dropWhile isHexDigit)
  | '#' :: cs =>
      match Digit.takeRun cs with
      | ([], _) => none
      | (digits, _) =>
          (charOfCode? (Digit.value digits)).map
            (character ·, (f.drop 1).dropWhile Char.isDigit)
  | _ =>
      match f.name with
      | .ok (name, rest) => some (ofName name, rest)
      | .error _ => none

def read? (f : Fragment) : Option (Reference × Fragment) := do
  let (reference, rest) ← body? (f.drop 1)
  if rest.chars.head? = some ';' then some (reference, rest.drop 1) else none

end Reference

/-- A text in pieces: characters, and references with the bytes they take. -/
inductive Piece where
  | plain (char : Char)
  | reference (place stop : Nat) (target : Reference)
  /-- An ampersand that starts no reference; nothing after it is read. -/
  | malformed (place : Nat)

namespace Piece

/-- At most `fuel` pieces; every piece takes a character. -/
def readFor : Nat → Fragment → List Piece
  | 0, _ => []
  | fuel + 1, f =>
      match f.chars with
      | [] => []
      | '&' :: _ =>
          match Reference.read? f with
          | some (target, rest) => .reference f.offset rest.offset target :: readFor fuel rest
          | none => [.malformed f.offset]
      | c :: _ => plain c :: readFor fuel (f.drop 1)

def ofFragment (f : Fragment) : List Piece := readFor f.chars.length f

end Piece

end CanvasScript.Markup
