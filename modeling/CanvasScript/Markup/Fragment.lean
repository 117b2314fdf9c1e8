import CanvasScript.Markup.Character
import CanvasScript.Markup.Fault
/-!
Reading markup from the front: a fragment is what is left of a text, with its place in the document.

Each reader gives what it read and the fragment after it, or the fault and its place.
-/
namespace CanvasScript.Markup

structure Fragment where
  /-- The byte of the document that the fragment starts at. -/
  offset : Nat
  chars : List Char

/-- A name with at most one colon. -/
structure Name where
  qualifier : List Char
  base : List Char
  deriving DecidableEq

namespace Name

def text (n : Name) : List Char :=
  if n.qualifier.isEmpty then n.base else n.qualifier ++ ':' :: n.base

end Name

namespace Fragment

def fail {α : Type} (f : Fragment) (fault : Fault) : Except Error α := .error ⟨fault, some f.offset⟩

/-- The fragment after characters of its start. -/
def after (f : Fragment) (read rest : List Char) : Fragment := ⟨f.offset + Text.size read, rest⟩

def drop (n : Nat) (f : Fragment) : Fragment := f.after (f.chars.take n) (f.chars.drop n)

/-- The longest start of characters of a class, as a fragment of its own. -/
def takeWhile (p : Char → Bool) (f : Fragment) : Fragment := ⟨f.offset, f.chars.takeWhile p⟩

def dropWhile (p : Char → Bool) (f : Fragment) : Fragment :=
  f.after (f.chars.takeWhile p) (f.chars.dropWhile p)

def startsWith (f : Fragment) (s : String) : Bool := s.toList.isPrefixOf f.chars

def occurs (mark : String) (f : Fragment) : Bool :=
  scan f.chars
where
  scan : List Char → Bool
    | [] => mark.isEmpty
    | c :: cs => mark.toList.isPrefixOf (c :: cs) || scan cs

def skipSpaces (f : Fragment) : Fragment := f.dropWhile isSpace

/-- Refuses what comes next where `expected` was to come. -/
def refuse {α : Type} (f : Fragment) (expected : String) : Except Error α :=
  match f.chars with
  | [] => .error ⟨.unexpectedEnd, none⟩
  | c :: _ => f.fail (.unexpectedChar expected (leadByte c))

def expect (f : Fragment) (c : Char) : Except Error Fragment :=
  if f.chars.head? = some c then .ok (f.drop 1) else f.refuse ("'" ++ c.toString ++ "'")

def expectText (f : Fragment) (s : String) : Except Error Fragment :=
  if f.startsWith s then .ok (f.drop s.length) else f.fail (.missingText s)

def expectSpaces (f : Fragment) : Except Error Fragment :=
  match f.chars with
  | c :: _ => if isSpace c then .ok f.skipSpaces else f.refuse "a whitespace"
  | [] => f.refuse "a whitespace"

def quote (f : Fragment) : Except Error (Char × Fragment) :=
  match f.chars with
  | '\'' :: _ => .ok ('\'', f.drop 1)
  | '"' :: _ => .ok ('"', f.drop 1)
  | _ => f.refuse "a quote"

/-- The characters before a stop, or all of them; each has to be one that text may hold. -/
def textUntil (stops : List Char → Bool) (f : Fragment) : Except Error (Fragment × Fragment) :=
  scan [] f.chars
where
  /-- Goes on behind the characters `before`, the last of them first. -/
  scan (before : List Char) : List Char → Except Error (Fragment × Fragment)
    | [] => .ok (⟨f.offset, before.reverse⟩, f.after before [])
    | c :: cs =>
        if !isText c then (f.after before (c :: cs)).fail (.invalidText c)
        else if stops (c :: cs) then .ok (⟨f.offset, before.reverse⟩, f.after before (c :: cs))
        else scan (c :: before) cs

def textBefore (mark : String) (f : Fragment) : Except Error (Fragment × Fragment) := do
  let (text, rest) ← f.textUntil fun cs => mark.toList.isPrefixOf cs
  return (text, ← rest.expectText mark)

/-- A name, which is empty only at the end of the text. -/
def optionalName (f : Fragment) : Except Error (List Char × Fragment) :=
  match f.chars with
  | [] => .ok ([], f)
  | c :: _ =>
      if isNameStart c then .ok ((f.takeWhile isNameChar).chars, f.dropWhile isNameChar)
      else f.fail .invalidName

def name (f : Fragment) : Except Error (List Char × Fragment) := do
  let (name, rest) ← f.optionalName
  if name.isEmpty then f.fail .invalidName else return (name, rest)

/-- Splits a run of name characters at its colon; a second colon makes it no name. -/
def splitName? (run : List Char) : Option Name :=
  match run.dropWhile (· ≠ ':') with
  | [] => some ⟨[], run⟩
  | _ :: base => if base.contains ':' then none else some ⟨run.takeWhile (· ≠ ':'), base⟩

/-- A name whose base, and whose qualifier unless it is empty, start as names do. -/
def qualifiedName (f : Fragment) : Except Error (Name × Fragment) :=
  match splitName? (f.takeWhile isNameChar).chars with
  | none => f.fail .invalidName
  | some name =>
      if name.qualifier.head?.all isNameStart && name.base.head?.any isNameStart then
        .ok (name, f.dropWhile isNameChar)
      else f.fail .invalidName

/-- A name, an equals sign and a quoted value, which holds no `<`. -/
def assignment (f : Fragment) : Except Error (Name × Fragment × Fragment) := do
  let (name, f) ← f.qualifiedName
  let f ← f.skipSpaces.expect '='
  let (mark, f) ← f.skipSpaces.quote
  let (value, f) ← f.textUntil fun cs => cs.head? == some mark || cs.head? == some '<'
  return (name, value, ← f.expect mark)

/-- A quoted literal, whose characters are not checked. -/
def literal (f : Fragment) : Except Error (Fragment × Fragment) := do
  let (mark, f) ← f.quote
  return (f.takeWhile (· ≠ mark), ← (f.dropWhile (· ≠ mark)).expect mark)

/-- A comment. Its body holds no double hyphen and does not end with one hyphen. -/
def comment (f : Fragment) : Except Error Fragment := do
  let (body, rest) ← (f.drop 4).textBefore "-->"
  if occurs "--" body || body.chars.getLast? == some '-' then
    f.fail .invalidComment
  else return rest

def instruction (f : Fragment) : Except Error Fragment := do
  if f.startsWith "<?xml " then f.fail .misplacedDeclaration
  let (_, f) ← (f.drop 2).name
  let (_, f) ← f.skipSpaces.textBefore "?>"
  return f

end Fragment

end CanvasScript.Markup
