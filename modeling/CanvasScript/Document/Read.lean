import CanvasScript.Diagnostic
import CanvasScript.Document.Extract
import CanvasScript.Markup.Tree
/-!
Documents read from markup text, and the reports on texts that are none.
-/
namespace CanvasScript

/-- Why a text is no document. -/
inductive DocumentFault where
  | markup (error : Markup.Error)
  | extract (fault : ExtractFault)
  deriving DecidableEq

namespace ExtractFault

def diagnostic (source : Source) : ExtractFault → Diagnostic
  | missingViewBox root => {
      message := "root element has no `viewBox`"
      code := "svg2canvas::document::missing_view_box"
      help := "add a size declaration such as viewBox=\"0 0 24 24\""
      labels := [⟨"this element", root⟩]
      source }
  | invalidViewBox reason root => {
      message := "invalid `viewBox`: " ++ reason.message
      code := "svg2canvas::document::invalid_view_box"
      help := "expected four numbers: min-x min-y width height"
      labels := [⟨"declared here", root⟩]
      source }
  | missingPathData path => {
      message := "`path` element has no `d` attribute"
      code := "svg2canvas::document::missing_path_data"
      labels := [⟨"this path", path⟩]
      source }

end ExtractFault

namespace DocumentFault

def diagnostic (source : Source) : DocumentFault → Diagnostic
  | markup error =>
      let offset := source.offsetOf (error.position source)
      { message := "malformed markup"
        code := "svg2canvas::document::markup"
        labels := [⟨"parsing stopped here", ⟨offset, offset⟩⟩]
        causes := [error.message source]
        source }
  | extract fault => fault.diagnostic source

end DocumentFault

namespace Document

def read (text : String) : Except DocumentFault Document :=
  match Markup.parse text with
  | .error e => .error (.markup e)
  | .ok root => (extract root).mapError .extract

end Document

end CanvasScript
