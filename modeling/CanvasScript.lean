import CanvasScript.Main
import CanvasScript.Proofs.Text.Fields
import CanvasScript.Proofs.Text.Position
import CanvasScript.Proofs.Number.Whole
import CanvasScript.Proofs.Number.Nearest
import CanvasScript.Proofs.Number.Literal
import CanvasScript.Proofs.Number.Order
import CanvasScript.Proofs.Number.Half
import CanvasScript.Proofs.Number.Drift
import CanvasScript.Proofs.Path.Chunk
import CanvasScript.Proofs.Path.Match
import CanvasScript.Proofs.Path.Grammar
import CanvasScript.Proofs.Path.Progress
import CanvasScript.Proofs.Path.Lexing
import CanvasScript.Proofs.Path.Lossless
import CanvasScript.Proofs.Path.Reading
import CanvasScript.Proofs.Path.Printing
import CanvasScript.Proofs.Path.Drawing
import CanvasScript.Proofs.Path.Composition
import CanvasScript.Proofs.Path.Label
import CanvasScript.Proofs.Path.Tiling
import CanvasScript.Proofs.Path.Arity
import CanvasScript.Proofs.Path.Absolute
import CanvasScript.Proofs.Path.Exact
import CanvasScript.Proofs.Path.Trail
import CanvasScript.Proofs.Path.Essential
import CanvasScript.Proofs.Path.Translation
import CanvasScript.Proofs.Path.Spelling
import CanvasScript.Proofs.Path.Value
import CanvasScript.Proofs.Document.Visit
import CanvasScript.Proofs.Document.Conversion
import CanvasScript.Proofs.Document.Size
import CanvasScript.Proofs.Document.ViewBox
import CanvasScript.Proofs.Document.Underflow
import CanvasScript.Proofs.Document.Influence
import CanvasScript.Proofs.Script.Call
import CanvasScript.Proofs.Script.Decoding
import CanvasScript.Proofs.Script.Layout
import CanvasScript.Proofs.Tool.Listing
import CanvasScript.Proofs.Tool.Blessing
