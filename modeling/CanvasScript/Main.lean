import CanvasScript.Tool.Conversion
import CanvasScript.Tool.Fixtures
import CanvasScript.Tool.Inspection
/-!
The command line: `convert [FILE [ROUNDING]]`, `inspect [DATA]` and `fixtures COMMAND`.
-/
namespace CanvasScript

/-- Prints an outcome and gives its exit code. -/
def Outcome.emit (o : Outcome) : IO UInt32 := do
  IO.print o.output
  IO.eprint o.errors
  if let some message := o.abort then IO.eprintln message
  return o.exitCode.toUInt32

/-- What stands under a path of the file system. -/
def Entry.load (path : String) : IO Entry := do
  let file := (← IO.currentDir) / path
  if ← file.isDir then return .directory
  let bytes ← IO.FS.readBinFile file
  match String.fromUTF8? bytes with
  | some content => return .text content
  | none => return .binary bytes.toList

def readText (path : String) : IO (Except ReadFault String) := do
  if ← ((← IO.currentDir) / path).pathExists then return (← Entry.load path).read
  else return .error .missing

def Directory.load (path : String) : IO (Option Directory) := do
  let place := (← IO.currentDir) / path
  if ← place.isDir then
    some <$> (← place.readDir).toList.foldlM
      (fun d e => do return d.put e.fileName (← Entry.load (path ++ "/" ++ e.fileName)))
      Directory.empty
  else return none

/-- Writes the texts that are new in a directory. -/
def Directory.store (path : String) (before after : Directory) : IO Unit :=
  after.entries.forM fun (name, entry) => do
    if before.get? name ≠ some entry then
      if let .text content := entry then IO.FS.writeFile (path ++ "/" ++ name) content

def runFixtures (arguments : List String) : IO UInt32 := do
  let place := "tests/fixtures"
  let before ← Directory.load place
  let (outcome, after) := Fixtures.run place arguments before
  if let (some before, some after) := (before, after) then Directory.store place before after
  outcome.emit

def runConversion : List String → IO UInt32
  | [] => (Conversion.run (.ok Conversion.sample) none).emit
  | path :: arguments => do
      (Conversion.run (← readText path) arguments.head?).emit

end CanvasScript

open CanvasScript in
def main (arguments : List String) : IO UInt32 :=
  match arguments with
  | "convert" :: arguments => runConversion arguments
  | "inspect" :: arguments => (Inspection.run (arguments.head?.getD Inspection.sample)).emit
  | "fixtures" :: arguments => runFixtures arguments
  | _ => do
      IO.eprintln "Usage: convert [FILE [ROUNDING]] | inspect [DATA] | fixtures COMMAND"
      return 1
