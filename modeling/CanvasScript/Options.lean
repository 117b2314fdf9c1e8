import CanvasScript.Number.Rounding
/-!
Settings of a conversion.
-/
namespace CanvasScript

structure Options where
  rounding : Rounding := .legacy
  /-- The class that the first line of a script constructs. -/
  canvasClass : String := "WeCanvas"
  /-- What the input is called in diagnostics. -/
  sourceName : String := "<input>"
  deriving DecidableEq

end CanvasScript
