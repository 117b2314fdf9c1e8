import CanvasScript.Markup.Fragment
/-!
Content as a list of events: tags, attributes and runs of text, in the order they are written.

A fault ends the list but keeps the events in front of it, because a fault found in those comes
first. Comments, instructions and literal sections leave no event.
-/
namespace CanvasScript.Markup

inductive Event where
  | startTag (place : Nat) (name : Name)
  | assignment (place : Nat) (name : Name) (value : Fragment)
  /-- A start tag ends; it is open when content follows. -/
  | tagEnd (isOpen : Bool) (stop : Nat)
  | closeTag (place stop : Nat) (name : Name)
  | text (content : Fragment)

namespace Event

inductive Mode where
  | tag
  | content

/-- Where reading goes on: the mode, and how many elements are open. -/
abbrev Next := Option (Mode × Nat)

def contentIn (depth : Nat) : Next := if depth = 0 then none else some (.content, depth)

def startTagOf (f : Fragment) : Except Error (Event × Fragment) := do
  let (name, rest) ← (f.drop 1).qualifiedName
  return (startTag f.offset name, rest)

def closeTagOf (f : Fragment) : Except Error (Event × Fragment) := do
  let (name, rest) ← (f.drop 2).qualifiedName
  let rest ← rest.skipSpaces.expect '>'
  return (closeTag f.offset rest.offset name, rest)

def textOf (f : Fragment) : Except Error (Event × Fragment) := do
  let (content, rest) ← f.textUntil fun cs => cs.head? == some '<'
  if content.occurs "]]>" then rest.fail .sectionEnd else return (text content, rest)

def nextInTag (depth : Nat) (f : Fragment) : Except Error (List Event × Next × Fragment) :=
  let g := f.skipSpaces
  match g.chars with
  | [] => .error ⟨.unexpectedEnd, none⟩
  | '/' :: _ => do
      let g ← (g.drop 1).expect '>'
      return ([tagEnd false g.offset], contentIn depth, g)
  | '>' :: _ =>
      let g := g.drop 1
      return ([tagEnd true g.offset], contentIn (depth + 1), g)
  | _ => do
      if g.offset = f.offset then g.refuse "a whitespace"
      let (name, value, rest) ← g.assignment
      return ([assignment g.offset name value], some (.tag, depth), rest)

def nextInContent (depth : Nat) (f : Fragment) : Except Error (List Event × Next × Fragment) :=
  match f.chars with
  | ['<'] => f.fail .unknownToken
  | '<' :: '!' :: _ =>
      if f.startsWith "<!--" then do
        return ([], contentIn depth, ← f.comment)
      else if f.startsWith "<![CDATA[" then do
        let (_, rest) ← (f.drop 9).textBefore "]]>"
        return ([], contentIn depth, rest)
      else f.fail .unknownToken
  | '<' :: '?' :: _ => do
      return ([], contentIn depth, ← f.instruction)
  | '<' :: '/' :: _ => do
      let (event, rest) ← closeTagOf f
      return ([event], contentIn (depth - 1), rest)
  | '<' :: _ => do
      let (event, rest) ← startTagOf f
      return ([event], some (.tag, depth), rest)
  | _ => do
      let (event, rest) ← textOf f
      return ([event], contentIn depth, rest)

def next (mode : Mode) (depth : Nat) (f : Fragment) :
    Except Error (List Event × Next × Fragment) :=
  match mode with
  | .tag => nextInTag depth f
  | .content => nextInContent depth f

end Event

/-- The events of a stretch of markup, and the fragment after it or the fault that ends it. -/
structure Events where
  events : List Event
  rest : Except Error Fragment

namespace Events

/-- At most `fuel` items; every item takes a character. -/
def readFor : Nat → Event.Mode → Nat → Fragment → Events
  | 0, _, _, f => ⟨[], .ok f⟩
  | fuel + 1, mode, depth, f =>
      if f.chars.isEmpty then ⟨[], .ok f⟩
      else
        match Event.next mode depth f with
        | .error e => ⟨[], .error e⟩
        | .ok (events, none, rest) => ⟨events, .ok rest⟩
        | .ok (events, some (mode, depth), rest) =>
            let later := readFor fuel mode depth rest
            ⟨events ++ later.events, later.rest⟩

/-- Content up to the close tag of the element it stands in, or to its end. -/
def ofContent (f : Fragment) : Events := readFor f.chars.length .content 1 f

def ofElement (f : Fragment) : Events :=
  match Event.startTagOf f with
  | .error e => ⟨[], .error e⟩
  | .ok (event, rest) =>
      let later := readFor rest.chars.length .tag 0 rest
      ⟨event :: later.events, later.rest⟩

end Events

end CanvasScript.Markup
