import CanvasScript.Markup.Fragment
/-!
What stands before the root element: the declaration of the format, comments and instructions, and a
document type, of which only the entities are kept.
-/
namespace CanvasScript.Markup

/-- The texts that entity names stand for; the first declaration of a name counts. -/
abbrev Entities := List (List Char × Fragment)

namespace Fragment

def spaceOrEnd (f : Fragment) : Except Error Fragment :=
  if f.chars.head?.any isSpace then .ok f.skipSpaces
  else if f.startsWith "?>" || f.chars.isEmpty then .ok f
  else f.refuse "a whitespace"

/-- The declaration of the format. Its values are not checked. -/
def declaration (f : Fragment) : Except Error Fragment := do
  let f ← (f.drop 5).spaceOrEnd
  if !f.startsWith "version" then f.fail (.missingText "version")
  let (_, _, f) ← f.assignment
  let f ← f.spaceOrEnd
  let f ← if f.startsWith "encoding" then do
      let (_, _, f) ← f.assignment
      f.spaceOrEnd
    else .ok f
  let f ← if f.startsWith "standalone" then do
      let (_, _, f) ← f.assignment
      .ok f
    else .ok f
  f.skipSpaces.expectText "?>"

def miscFor : Nat → Fragment → Except Error Fragment
  | 0, f => .ok f.skipSpaces
  | fuel + 1, f =>
      let f := f.skipSpaces
      if f.startsWith "<!--" then f.comment >>= miscFor fuel
      else if f.startsWith "<?" then f.instruction >>= miscFor fuel
      else .ok f

def misc (f : Fragment) : Except Error Fragment := miscFor f.chars.length f

def externalId (f : Fragment) : Except Error Fragment := do
  if f.startsWith "SYSTEM" then
    let (_, f) ← (← (f.drop 6).expectSpaces).literal
    return f
  else if f.startsWith "PUBLIC" then
    let (_, f) ← (← (f.drop 6).expectSpaces).literal
    let (_, f) ← (← f.expectSpaces).literal
    return f
  else return f

/-- What an entity stands for: a quoted value, or nothing here when it is external. -/
def entityValue (isGeneral : Bool) (f : Fragment) : Except Error (Option Fragment × Fragment) :=
  match f.chars with
  | '\'' :: _ | '"' :: _ => do
      let (value, f) ← f.literal
      return (some value, f)
  | 'S' :: _ | 'P' :: _ =>
      if f.startsWith "SYSTEM" || f.startsWith "PUBLIC" then do
        let f ← f.externalId
        if isGeneral && f.skipSpaces.startsWith "NDATA" then
          let (_, f) ← (← (f.skipSpaces.drop 5).expectSpaces).optionalName
          return (none, f)
        else return (none, f)
      else f.fail .invalidExternalId
  | _ => f.refuse "a quote, SYSTEM or PUBLIC"

def entity (f : Fragment) : Except Error (Entities × Fragment) := do
  let f ← (f.drop 8).expectSpaces
  let isGeneral := f.chars.head? != some '%'
  let f ← if isGeneral then .ok f else (f.drop 1).expectSpaces
  let (name, f) ← f.name
  let (value, f) ← (← f.expectSpaces).entityValue isGeneral
  let f ← f.skipSpaces.expect '>'
  return (value.toList.map (name, ·), f)

def isIgnoredDeclaration (f : Fragment) : Bool :=
  f.startsWith "<!ELEMENT" || f.startsWith "<!ATTLIST" || f.startsWith "<!NOTATION"

/-- The inside of a document type that starts at byte `start`, with at most `fuel` items. -/
def subsetFor (start : Nat) : Nat → Entities → Fragment → Except Error (Entities × Fragment)
  | 0, entities, f => .ok (entities, f)
  | fuel + 1, entities, f =>
      if f.chars.isEmpty then .ok (entities, f)
      else
        let f := f.skipSpaces
        if f.startsWith "<!ENTITY" then do
          let (declared, f) ← f.entity
          subsetFor start fuel (entities ++ declared) f
        else if f.startsWith "<!--" then f.comment >>= subsetFor start fuel entities
        else if f.startsWith "<?" then f.instruction >>= subsetFor start fuel entities
        else if f.startsWith "]" then do
          let f ← (f.drop 1).skipSpaces.expect '>'
          return (entities, f)
        else if f.isIgnoredDeclaration then
          let f := f.dropWhile (· ≠ '>')
          if f.chars.isEmpty then .error ⟨.unknownToken, some start⟩
          else subsetFor start fuel entities (f.drop 1)
        else f.fail .unknownToken

def documentType (f : Fragment) : Except Error (Entities × Fragment) := do
  let start := f.offset
  let (_, f) ← (← (f.drop 9).expectSpaces).optionalName
  let f ← f.skipSpaces.externalId
  let f := f.skipSpaces
  match f.chars with
  | '>' :: _ => return ([], f.drop 1)
  | '[' :: _ => subsetFor start f.chars.length [] (f.drop 1)
  | _ => f.refuse "'[' or '>'"

def prolog (f : Fragment) : Except Error (Entities × Fragment) := do
  let f := if f.chars.head? = some '\uFEFF' then f.drop 1 else f
  let f ← if f.startsWith "<?xml " then f.declaration else .ok f
  let f ← f.misc
  if f.startsWith "<!DOCTYPE" then
    let (entities, f) ← f.documentType
    return (entities, ← f.misc)
  else return ([], f)

end Fragment

end CanvasScript.Markup
