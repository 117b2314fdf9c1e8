import CanvasScript.Document.Element
import CanvasScript.Markup.Event
import CanvasScript.Markup.Value
/-!
The elements of a markup text, put together from its events.

An entity in text is read as content where it stands: elements it opens stay open after it.
-/
namespace CanvasScript.Markup

def xmlUri : List Char := "http://www.w3.org/XML/1998/namespace".toList

def xmlnsUri : List Char := "http://www.w3.org/2000/xmlns/".toList

/-- Name spaces by their qualifiers; the one without a qualifier is the default. -/
abbrev NameSpaces := List (List Char × List Char)

structure Assignment where
  place : Nat
  name : Name
  value : List Char

structure OpenElement where
  place : Nat
  name : Name
  attributes : List (String × String)
  nameSpaces : NameSpaces
  /-- The children so far, the last one first. -/
  children : List Element

structure Draft where
  /-- The innermost element comes first. -/
  ancestors : List OpenElement := []
  /-- The finished elements outside every other, the last one first. -/
  roots : List Element := []
  /-- The start tag last read in this text or entity, and its place. -/
  tag : Option (Nat × Name) := none
  /-- The attributes of the tag being read. -/
  assignments : List Assignment := []
  /-- The name spaces declared in the tag being read. -/
  declared : NameSpaces := []
  /-- References counted inside the entity being read. -/
  count : Nat := 0

namespace Draft

def attach (d : Draft) (e : Element) : Draft :=
  match d.ancestors with
  | [] => { d with roots := e :: d.roots }
  | o :: outer => { d with ancestors := { o with children := e :: o.children } :: outer }

/-- The name spaces in force: those declared here, then the inherited ones they do not hide. -/
def nameSpaces (d : Draft) : NameSpaces :=
  let inherited := (d.ancestors.head?.map (·.nameSpaces)).getD []
  d.declared ++ inherited.filter fun n => (d.declared.lookup n.1).isNone

def uriOf (known : NameSpaces) (a : Assignment) : Except Error (Option (List Char)) :=
  if a.name.qualifier.isEmpty then .ok none
  else if a.name.qualifier = "xml".toList then .ok (some xmlUri)
  else
    match known.lookup a.name.qualifier with
    | some uri => .ok (some uri)
    | none => .error ⟨.unknownNamespace (String.ofList a.name.qualifier), some a.place⟩

/-- Resolves attributes in order, after those whose expanded names are `seen`. Only the ones in no
name space are kept. -/
def resolve (known : NameSpaces) :
    List (Option (List Char) × List Char) → List Assignment →
      Except Error (List (String × String))
  | _, [] => .ok []
  | seen, a :: later => do
      let uri ← uriOf known a
      let expanded := (uri, a.name.base)
      if seen.contains expanded then
        .error ⟨.duplicateAttribute (String.ofList a.name.base), some a.place⟩
      let resolved ← resolve known (expanded :: seen) later
      match uri with
      | none => return (String.ofList a.name.base, String.ofList a.value) :: resolved
      | some _ => return resolved

def endTag (d : Draft) : Draft := { d with assignments := [], declared := [] }

def addTagEnd (d : Draft) (isOpen : Bool) (stop : Nat) : Except Error Draft :=
  match d.tag with
  | none => .ok d
  | some (place, name) => do
      let known := d.nameSpaces
      let attributes ← resolve known [] d.assignments
      if !name.qualifier.isEmpty && (known.lookup name.qualifier).isNone then
        .error ⟨.unknownNamespace (String.ofList name.qualifier), some (place + 1)⟩
      let d := d.endTag
      if isOpen then
        return { d with ancestors := ⟨place, name, attributes, known, []⟩ :: d.ancestors }
      else return d.attach ⟨String.ofList name.base, attributes, some ⟨place, stop⟩, []⟩

/-- Ends the innermost element. Without an open element a close tag changes nothing. -/
def addCloseTag (d : Draft) (place stop : Nat) (name : Name) : Except Error Draft := do
  if d.tag.isNone then .error ⟨.strayCloseTag, some place⟩
  let _ ← resolve d.nameSpaces [] d.assignments
  let d := d.endTag
  match d.ancestors with
  | [] => return d
  | o :: outer =>
      if o.name ≠ name then
        .error ⟨.wrongCloseTag (String.ofList o.name.text) (String.ofList name.text), some place⟩
      let e : Element :=
        ⟨String.ofList o.name.base, o.attributes, some ⟨o.place, stop⟩, o.children.reverse⟩
      return { d with ancestors := outer }.attach e

def addAssignment (d : Draft) (a : Assignment) : Except Error Draft :=
  let fail (fault : Fault) : Except Error Draft := .error ⟨fault, some a.place⟩
  let qualifier := a.name.qualifier
  let base := a.name.base
  if qualifier = "xmlns".toList then
    if a.value = xmlnsUri then fail .xmlnsUri
    else if base = "xml".toList ∧ a.value ≠ xmlUri then fail .xmlMisbound
    else if base ≠ "xml".toList ∧ a.value = xmlUri then fail .xmlUriElsewhere
    else if (d.declared.lookup base).isSome then
      fail (.duplicateNamespace (String.ofList base))
    else if a.value = xmlUri then .ok d
    else .ok { d with declared := d.declared ++ [(base, a.value)] }
  else if base = "xmlns".toList then
    if a.value = xmlUri then fail .xmlUriElsewhere
    else if a.value = xmlnsUri then fail .xmlnsUri
    else .ok { d with declared := d.declared ++ [([], a.value)] }
  else .ok { d with assignments := d.assignments ++ [a] }

abbrev Follow := Nat → Fragment → Draft → Except Error Draft

/-- Reads the references of a run of text; its characters leave nothing in the tree. -/
def addText (entities : Entities) (left : Nat) (follow : Follow) :
    List Piece → Draft → Except Error Draft
  | [], d => .ok d
  | .plain _ :: later, d => addText entities left follow later d
  | .reference _ _ (.character _) :: later, d => addText entities left follow later d
  | .reference place stop (.entity name) :: later, d =>
      match entities.lookup name with
      | none => .error ⟨.unknownReference (String.ofList name), some place⟩
      | some text => do
          let count ← countReference left stop d.count
          let inner ← follow stop text { d with tag := none, count := count }
          addText entities left follow later
            { inner with tag := d.tag, count := settle left inner.count }
  | .malformed place :: _, _ => .error ⟨.malformedReference, some place⟩

def add (entities : Entities) (left : Nat) (follow : Follow) (d : Draft) :
    Event → Except Error Draft
  | .startTag place name =>
      if name.qualifier = "xmlns".toList then .error ⟨.xmlnsElement, some (place + 1)⟩
      else .ok { d with tag := some (place, name) }
  | .assignment place name value => do
      let (value, count) ← Value.read entities left value d.count
      { d with count := count }.addAssignment ⟨place, name, value⟩
  | .tagEnd isOpen stop => d.addTagEnd isOpen stop
  | .closeTag place stop name => d.addCloseTag place stop name
  | .text content => addText entities left follow (Piece.ofFragment content) d

/-- Adds events up to the first fault; a fault of the events themselves comes last. -/
def addAll (entities : Entities) (left : Nat) (follow : Follow) (d : Draft) (es : Events) :
    Except Error (Draft × Fragment) := do
  let d ← es.events.foldlM (add entities left follow) d
  return (d, ← es.rest)

def follow (entities : Entities) : Nat → Follow
  | 0, stop, _, _ => .error ⟨.referenceLoop, some stop⟩
  | left + 1, _, text, d => do
      let (d, _) ← addAll entities left (follow entities left) d (.ofContent text)
      return d

end Draft

def parse (text : String) : Except Error Element := do
  let (entities, f) ← Fragment.prolog ⟨0, text.toList⟩
  let (d, f) ←
    if f.chars.head? = some '<' then
      Draft.addAll entities levels (Draft.follow entities levels) {} (.ofElement f)
    else .ok ({}, f)
  let f ← f.misc
  if !f.chars.isEmpty then f.fail .unknownToken
  if !d.ancestors.isEmpty then .error ⟨.unclosedRoot, none⟩
  match d.roots.getLast? with
  | some root => return root
  | none => .error ⟨.noRoot, none⟩

end CanvasScript.Markup
