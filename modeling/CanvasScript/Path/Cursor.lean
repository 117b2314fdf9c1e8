import CanvasScript.Path.Command
/-!
From commands to drawing: a cursor turns relative coordinates into absolute ones.

The cursor starts at the origin and returns there when a path is closed. A command that is short of
values stops the drawing; surplus values are ignored.
-/
namespace CanvasScript

structure Point where
  x : Coord
  y : Coord
  deriving DecidableEq

instance : OfNat Point 0 := ⟨⟨0, 0⟩⟩

namespace Path

/-- A drawn command, in absolute coordinates. -/
inductive Draw where
  | closePath
  | moveTo (target : Point)
  | lineTo (target : Point)
  | curveTo (control₁ control₂ target : Point)
  deriving DecidableEq

/-- A drawable command with fewer values than its letter takes. -/
structure Shortage where
  letter : Letter
  found : Nat
  span : Span
  deriving DecidableEq

def Shortage.required (e : Shortage) : Nat := e.letter.verb.arity

namespace Frame

def resolve : Frame → Coord → Coord → Coord
  | absolute, _, v => v
  | relative, origin, v => origin + v

def point (f : Frame) (cursor : Point) (x y : Coord) : Point :=
  ⟨f.resolve cursor.x x, f.resolve cursor.y y⟩

end Frame

def step (cursor : Point) (c : Command) : Except Shortage (Point × Option Draw) :=
  let frame := c.letter.frame
  match c.letter.verb, c.values with
  | .closePath, _ => .ok (0, some .closePath)
  | .moveTo, x :: y :: _ =>
      let target := frame.point cursor x y
      .ok (target, some (.moveTo target))
  | .lineTo, x :: y :: _ =>
      let target := frame.point cursor x y
      .ok (target, some (.lineTo target))
  | .horizontalLineTo, x :: _ =>
      let target : Point := ⟨frame.resolve cursor.x x, cursor.y⟩
      .ok (target, some (.lineTo target))
  | .verticalLineTo, y :: _ =>
      let target : Point := ⟨cursor.x, frame.resolve cursor.y y⟩
      .ok (target, some (.lineTo target))
  | .curveTo, x₁ :: y₁ :: x₂ :: y₂ :: x :: y :: _ =>
      let target := frame.point cursor x y
      .ok (target, some (.curveTo (frame.point cursor x₁ y₁) (frame.point cursor x₂ y₂) target))
  | .smoothCurveTo, _ | .quadraticCurveTo, _ | .smoothQuadraticCurveTo, _ | .arc, _ =>
      .ok (cursor, none)
  | .moveTo, _ | .lineTo, _ | .horizontalLineTo, _ | .verticalLineTo, _ | .curveTo, _ =>
      .error ⟨c.letter, c.values.length, c.span⟩

/-- Draws commands from a cursor on; the first shortage is the error. -/
def drawFrom (cursor : Point) : List Command → Except Shortage (List Draw)
  | [] => .ok []
  | c :: later =>
      match step cursor c with
      | .error e => .error e
      | .ok (next, drawn) => (drawFrom next later).map (drawn.toList ++ ·)

/-- A step of a run that goes on after a shortage, which leaves the cursor where it is. -/
def advance (cursor : Point) (c : Command) : Except Shortage (Option Draw) × Point :=
  match step cursor c with
  | .error e => (.error e, cursor)
  | .ok (next, drawn) => (.ok drawn, next)

/-- What every command of a run gives, with the cursor after it. -/
def trail (cursor : Point) : List Command → List (Except Shortage (Option Draw) × Point)
  | [] => []
  | c :: later =>
      let reached := advance cursor c
      reached :: trail reached.2 later

def draw (commands : List Command) : Except Shortage (List Draw) := drawFrom 0 commands

end Path

end CanvasScript
