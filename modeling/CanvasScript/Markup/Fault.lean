import CanvasScript.Text.Quoted
import CanvasScript.Text.Source
/-!
What can be wrong with markup.
-/
namespace CanvasScript.Markup

inductive Fault where
  | unexpectedEnd
  | noRoot
  | unclosedRoot
  | unknownToken
  | invalidName
  | invalidComment
  | invalidExternalId
  | invalidText (char : Char)
  /-- Text holds the end mark of a literal section. -/
  | sectionEnd
  | misplacedDeclaration
  /-- A character of some class, which is described, was to come. -/
  | unexpectedChar (expected : String) (found : Char)
  | missingText (expected : String)
  | malformedReference
  | unknownReference (name : String)
  | referenceLoop
  | unescapedLess
  | xmlMisbound
  | xmlUriElsewhere
  | xmlnsUri
  | xmlnsElement
  | duplicateNamespace (qualifier : String)
  | unknownNamespace (qualifier : String)
  | duplicateAttribute (name : String)
  | strayCloseTag
  | wrongCloseTag (expected found : String)
  deriving DecidableEq

/-- A fault and the byte it was found at; faults of the whole text have no place. -/
structure Error where
  fault : Fault
  offset : Option Nat
  deriving DecidableEq

namespace Fault

def message (place : String) : Fault → String
  | unexpectedEnd => "unexpected end of stream"
  | noRoot => "the document does not have a root node"
  | unclosedRoot => "the root node was opened but never closed"
  | unknownToken => "unknown token at " ++ place
  | invalidName => "invalid name token at " ++ place
  | invalidComment => "comment at " ++ place ++ " contains '--'"
  | invalidExternalId => "invalid ExternalID at " ++ place
  | invalidText c => "a non-XML character " ++ Text.quotedChar c ++ " found at " ++ place
  | sectionEnd => "']]>' at " ++ place ++ " is not allowed inside a character data"
  | misplacedDeclaration => "unexpected XML declaration at " ++ place
  | unexpectedChar expected found =>
      "expected " ++ expected ++ " not '" ++ found.toString ++ "' at " ++ place
  | missingText expected => "expected '" ++ expected ++ "' at " ++ place
  | malformedReference => "malformed entity reference at " ++ place
  | unknownReference name => "unknown entity reference '" ++ name ++ "' at " ++ place
  | referenceLoop => "a possible entity reference loop is detected at " ++ place
  | unescapedLess => "unescaped '<' found at " ++ place
  | xmlMisbound => "'xml' namespace prefix mapped to wrong URI at " ++ place
  | xmlUriElsewhere => "the 'xml' namespace URI is used for not 'xml' prefix at " ++ place
  | xmlnsUri => "the 'xmlns' URI is used at " ++ place ++ ", but it must not be declared"
  | xmlnsElement => "the 'xmlns' prefix is used at " ++ place ++ ", but it must not be"
  | duplicateNamespace q => "namespace '" ++ q ++ "' at " ++ place ++ " is already defined"
  | unknownNamespace q => "an unknown namespace prefix '" ++ q ++ "' at " ++ place
  | duplicateAttribute name => "attribute '" ++ name ++ "' at " ++ place ++ " is already defined"
  | strayCloseTag => "unexpected close tag at " ++ place
  | wrongCloseTag expected found =>
      "expected '" ++ expected ++ "' tag, not '" ++ found ++ "' at " ++ place

end Fault

namespace Error

/-- A fault without a place is reported at the start. -/
def position (source : Source) (e : Error) : Position :=
  match e.offset with
  | none => ⟨1, 1⟩
  | some offset => source.positionOf offset

def message (source : Source) (e : Error) : String :=
  let p := e.position source
  e.fault.message (toString p.row ++ ":" ++ toString p.column)

end Error

end CanvasScript.Markup
