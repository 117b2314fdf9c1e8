import CanvasScript.Markup.Prolog
import CanvasScript.Markup.Reference
/-!
Values of attributes, with their references replaced and their line breaks and tabs made spaces.

Entities may stand inside entities, ten levels deep. Below the first level 255 references are
followed before they are taken for a loop.
-/
namespace CanvasScript.Markup

def levels : Nat := 10

/-- References followed inside one that stands outside every entity. -/
def referenceLimit : Nat := 255

/-- Counts a reference met `left` levels above the deepest one, before it is followed. -/
def countReference (left stop count : Nat) : Except Error Nat :=
  if left = levels then .ok count
  else if count = referenceLimit then .error ⟨.referenceLoop, some stop⟩
  else .ok (count + 1)

def settle (left count : Nat) : Nat := if left = levels then 0 else count

namespace Value

def spaced (c : Char) : Char := if c = '\n' ∨ c = '\r' ∨ c = '\t' then ' ' else c

abbrev Follow := Nat → Fragment → Nat → Except Error (List Char × Nat)

/-- The value that pieces write. A carriage return before a line feed is dropped; characters given
by code are kept as they are outside entities. -/
def ofPieces (entities : Entities) (left : Nat) (follow : Follow) :
    List Piece → Nat → Except Error (List Char × Nat)
  | [], count => .ok ([], count)
  | .plain '\r' :: .plain '\n' :: later, count => do
      let (value, count) ← ofPieces entities left follow later count
      return (' ' :: value, count)
  | .plain c :: later, count => do
      let (value, count) ← ofPieces entities left follow later count
      return (spaced c :: value, count)
  | .reference place _ (.character c) :: later, count => do
      if left < levels && c == '<' then .error ⟨.unescapedLess, some place⟩
      let (value, count) ← ofPieces entities left follow later count
      return ((if left = levels then c else spaced c) :: value, count)
  | .reference place stop (.entity name) :: later, count =>
      match entities.lookup name with
      | none => .error ⟨.unknownReference (String.ofList name), some place⟩
      | some text => do
          let (inner, count) ← follow stop text (← countReference left stop count)
          let (value, count) ← ofPieces entities left follow later (settle left count)
          return (inner ++ value, count)
  | .malformed place :: _, _ => .error ⟨.malformedReference, some place⟩

def follow (entities : Entities) : Nat → Follow
  | 0, stop, _, _ => .error ⟨.referenceLoop, some stop⟩
  | left + 1, _, text, count =>
      ofPieces entities left (follow entities left) (Piece.ofFragment text) count

def read (entities : Entities) (left : Nat) (f : Fragment) (count : Nat) :
    Except Error (List Char × Nat) :=
  ofPieces entities left (follow entities left) (Piece.ofFragment f) count

end Value

end CanvasScript.Markup
