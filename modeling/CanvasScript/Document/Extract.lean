import CanvasScript.Document.Element
import CanvasScript.Document.Shape
import CanvasScript.Document.Size
/-!
What a document keeps of its markup: the size, and a shape for every `path` below the root.

Paths are visited parents first and siblings from left to right, by a list of elements still to be
visited. The root itself is never a shape.
-/
namespace CanvasScript

structure Document where
  size : Size
  shapes : List Shape
  deriving DecidableEq

/-- Why a tree of elements is no document. -/
inductive ExtractFault where
  | missingViewBox (root : Span)
  | invalidViewBox (reason : ViewBoxFault) (root : Span)
  | missingPathData (path : Span)
  deriving DecidableEq

namespace Element

/-- An attribute that is present and not empty. -/
def written? (e : Element) (name : String) : Option String :=
  (e.attribute? name).filter (· ≠ "")

def shape (e : Element) : Except ExtractFault Shape :=
  match e.attribute? "d" with
  | none => .error (.missingPathData e.place)
  | some pathData => .ok {
      pathData
      fill := e.written? "fill"
      stroke := e.written? "stroke"
      strokeWidth := e.written? "stroke-width"
      transform := e.written? "transform" }

theorem countAll_append (a b : List Element) :
    count.countAll (a ++ b) = count.countAll a + count.countAll b := by
  induction a with
  | nil => simp [count.countAll]
  | cons e a ih => simp [count.countAll, ih, Nat.add_assoc]

/-- The shapes of elements still to be visited, children before later siblings. -/
def shapes : List Element → Except ExtractFault (List Shape)
  | [] => .ok []
  | e :: later =>
      if e.name = "path" then
        match e.shape with
        | .error fault => .error fault
        | .ok shape => (shapes (e.children ++ later)).map (shape :: ·)
      else shapes (e.children ++ later)
termination_by waiting => count.countAll waiting
decreasing_by
  all_goals
    rcases e with ⟨_, _, _, children⟩
    simp only [countAll_append, count.countAll, count]
    omega

end Element

namespace Document

def extract (root : Element) : Except ExtractFault Document :=
  match root.attribute? "viewBox" with
  | none => .error (.missingViewBox root.place)
  | some value =>
      match Size.ofViewBox value with
      | .error reason => .error (.invalidViewBox reason root.place)
      | .ok size => (Element.shapes root.children).map fun shapes => ⟨size, shapes⟩

end Document

end CanvasScript
