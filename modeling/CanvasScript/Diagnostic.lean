import CanvasScript.Text.Source
/-!
What a report says about a failure.
-/
namespace CanvasScript

structure Label where
  text : String
  span : Span
  deriving DecidableEq

structure Diagnostic where
  message : String
  code : String
  help : Option String := none
  labels : List Label := []
  /-- The messages of what led to the failure, the nearest first. -/
  causes : List String := []
  /-- The text that the labels point into. -/
  source : Option Source := none
  /-- Whether the nearest cause is a diagnostic of its own. -/
  hasInner : Bool := false
  deriving DecidableEq

namespace Diagnostic

/-- The text under the first label, if the label lies on character boundaries of its source. -/
def labelledText? (d : Diagnostic) : Option String := do
  let source ← d.source
  let label ← d.labels.head?
  let text ← label.span.slice? source.text.toList
  return String.ofList text

def chain (d : Diagnostic) : String := ": ".intercalate (d.message :: d.causes)

/-- The code in brackets before the chain of messages. -/
def line (d : Diagnostic) : String := "[" ++ d.code ++ "] " ++ d.chain

end Diagnostic

end CanvasScript
