import CanvasScript.Path.Command
/-!
Path data as a tree: rules of its grammar with the stretches of text they cover.
-/
namespace CanvasScript.Path

inductive Rule where
  | pathData
  | segment
  | marker
  | number
  | filler
  | endOfInput
  deriving DecidableEq

def Rule.name : Rule → String
  | pathData => "path_data"
  | segment => "segment"
  | marker => "marker"
  | number => "number"
  | filler => "filler"
  | endOfInput => "EOI"

structure Tree where
  rule : Rule
  span : Span
  text : List Char
  inner : List Tree

namespace Tree

/-- A tree whose text starts at byte `offset`. -/
def node (rule : Rule) (offset : Nat) (text : List Char) (inner : List Tree) : Tree :=
  ⟨rule, ⟨offset, offset + Text.size text⟩, text, inner⟩

/-- Fillers leave no trace in a tree. -/
def ofTokens : Nat → List Token → List Tree
  | _, [] => []
  | offset, t :: ts =>
      let later := ofTokens (offset + Text.size t.text) ts
      match t with
      | .letter _ => node .marker offset t.text [] :: later
      | .number _ => node .number offset t.text [] :: later
      | .filler _ => later

def ofSegment (offset : Nat) (s : Segment) : Tree :=
  node .segment offset s.text (ofTokens offset (.letter s.letter :: s.body))

def ofSegments : Nat → List Segment → List Tree
  | _, [] => []
  | offset, s :: later => ofSegment offset s :: ofSegments (offset + Text.size s.text) later

/-- The tree of a whole text; every text has one. -/
def ofData (data : List Char) : Tree :=
  let parts := Segment.cut (Token.scan data)
  node .pathData 0 data
    (ofTokens 0 parts.1 ++ ofSegments (Text.size (parts.1.flatMap Token.text)) parts.2 ++
      [node .endOfInput (Text.size data) [] []])

/-- What a rule matches at the start of a text; only `pathData` has to reach the end. -/
def match? (rule : Rule) (data : List Char) : Option (List Tree) :=
  match rule, Token.scan data with
  | .pathData, _ => some [ofData data]
  | .segment, .letter l :: ts => some [ofSegment 0 ⟨l, (Segment.cut ts).1⟩]
  | .marker, .letter l :: _ => some (ofTokens 0 [.letter l])
  | .number, .number n :: _ => some (ofTokens 0 [.number n])
  | .filler, .filler _ :: _ => some []
  | .endOfInput, [] => some [node .endOfInput 0 [] []]
  | _, _ => none

end Tree

end CanvasScript.Path
