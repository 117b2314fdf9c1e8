import CanvasScript.Text.Span
/-!
Markup as a tree of elements, all that a document is read from.
-/
namespace CanvasScript

structure Element where
  name : String
  attributes : List (String × String)
  /-- Where the element stands in the source, if that is known. -/
  span : Option Span
  children : List Element

namespace Element

def attribute? (e : Element) (name : String) : Option String := e.attributes.lookup name

/-- An element without a known place is reported at the start of the source. -/
def place (e : Element) : Span := e.span.getD ⟨0, 0⟩

def count : Element → Nat
  | ⟨_, _, _, children⟩ => countAll children + 1
where
  countAll : List Element → Nat
    | [] => 0
    | e :: later => e.count + countAll later

end Element

end CanvasScript
