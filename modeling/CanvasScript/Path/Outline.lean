import CanvasScript.Path.Tree
/-!
A tree of path data as lines of text, one for each of its nodes, with rules drawn from every node to
its children.
-/
namespace CanvasScript.Path.Tree

/-- Spaces, backslashes and control characters with a letter are written after a backslash. -/
def escaped : Char → List Char
  | ' ' => ['\\', ' ']
  | '\\' => ['\\', '\\']
  | '\x07' => ['\\', 'a']
  | '\x08' => ['\\', 'b']
  | '\t' => ['\\', 't']
  | '\n' => ['\\', 'n']
  | '\x0b' => ['\\', 'v']
  | '\x0c' => ['\\', 'f']
  | '\r' => ['\\', 'r']
  | c => [c]

def label (t : Tree) : String :=
  if t.inner.isEmpty then
    t.rule.name ++ " \"" ++ String.ofList ((Text.trim t.text).flatMap escaped) ++ "\""
  else t.rule.name

mutual

/-- The lines of a tree: `own` leads its first line, `indent` the lines below. -/
def lines (indent own : String) : Tree → List String
  | ⟨rule, span, text, inner⟩ =>
      (own ++ " " ++ label ⟨rule, span, text, inner⟩) :: linesOfAll indent inner

def linesOfAll (indent : String) : List Tree → List String
  | [] => []
  | [t] => lines (indent ++ "   ") (indent ++ " └─") t
  | t :: later => lines (indent ++ " │ ") (indent ++ " ├─") t ++ linesOfAll indent later

end

def withoutEnd (t : Tree) : Tree := { t with inner := t.inner.filter (·.rule ≠ .endOfInput) }

def outline (t : Tree) : List String := t.withoutEnd.lines "" ""

end CanvasScript.Path.Tree
