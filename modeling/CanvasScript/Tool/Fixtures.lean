import CanvasScript.Convert
import CanvasScript.Tool.Directory
/-!
The program that keeps fixtures: documents beside the scripts they are expected to give.

One command writes the scripts anew from the documents, the other only compares them.
-/
namespace CanvasScript.Fixtures

/-- A name cut at its last dot, if something stands before that dot. -/
def splitExtension? (name : String) : Option (String × String) :=
  let backward := name.toList.reverse
  match backward.dropWhile (· ≠ '.') with
  | '.' :: c :: stem =>
      some (String.ofList (c :: stem).reverse,
        String.ofList (backward.takeWhile (· ≠ '.')).reverse)
  | _ => none

structure Fixture where
  name : String
  /-- The name of the expected script. -/
  target : String
  deriving DecidableEq

/-- The name of the script for a stem. After a stem of one dot the extension has no name left to
stand on, because two dots alone are the directory above. -/
def scriptName (stem : String) : String :=
  if stem = "." then Directory.parentName else stem ++ ".canvas"

def Fixture.ofName? (name : String) : Option Fixture :=
  match splitExtension? name with
  | some (stem, "svg") => some ⟨name, scriptName stem⟩
  | _ => none

/-- The fixtures of a directory, in the order of their names. -/
def all (d : Directory) : List Fixture := d.names.filterMap Fixture.ofName?

inductive Failure where
  | read (fault : ReadFault)
  | convert (error : ConvertError)
  deriving DecidableEq

def Failure.description : Failure → String
  | read fault => "read error: " ++ fault.message
  | convert error => error.diagnostic.chain

def render (place : String) (d : Directory) (f : Fixture) : Except Failure String :=
  match d.read f.name with
  | .error fault => .error (.read fault)
  | .ok text =>
      (CanvasScript.convert { sourceName := place ++ "/" ++ f.name } text).mapError .convert

def ended (script : String) : String :=
  if script.toList.getLast? = some '\n' then script else script ++ "\n"

def trimBreaks (text : String) : List Char := (text.toList.reverse.dropWhile (· = '\n')).reverse

/-- A blessing under way: the directory, the lines written so far, and how many failed. -/
structure Progress where
  directory : Directory
  lines : List String := []
  failed : Nat := 0

namespace Progress

/-- Blesses one script. A script that cannot be written cuts the run short. -/
def step (place : String) (p : Progress) (f : Fixture) (result : Except Failure String) :
    Except Outcome Progress :=
  match result with
  | .error failure =>
      .ok { p with
        lines := p.lines ++ ["FAILED " ++ f.name ++ ": " ++ failure.description]
        failed := p.failed + 1 }
  | .ok script =>
      match p.directory.write f.target (ended script) with
      | .error fault =>
          .error {
            errors := Outcome.lines p.lines
            exitCode := 101
            abort := some ("Failed to write " ++ place ++ "/" ++ f.target ++ ": " ++
              fault.message) }
      | .ok directory =>
          .ok { p with
            directory := directory
            lines := p.lines ++ ["blessed " ++ f.name] }

def finish (place : String) (p : Progress) :
    List (Fixture × Except Failure String) → Outcome × Directory
  | [] =>
      ({ errors := Outcome.lines p.lines, exitCode := if p.failed = 0 then 0 else 1 }, p.directory)
  | (f, result) :: later =>
      match p.step place f result with
      | .error outcome => (outcome, p.directory)
      | .ok p => finish place p later

end Progress

/-- Writes the scripts of all documents that convert. Every document is converted before the first
script is written. -/
def bless (place : String) (d : Directory) : Outcome × Directory :=
  Progress.finish place { directory := d } ((all d).map fun f => (f, render place d f))

inductive Verdict where
  | missing
  | error (failure : Failure)
  | ok
  | mismatch
  deriving DecidableEq

namespace Verdict

/-- An expected script that cannot be read is missing, whatever the document gives. -/
def of (expected : Except ReadFault String) (actual : Except Failure String) : Verdict :=
  match expected, actual with
  | .error _, _ => missing
  | .ok _, .error failure => error failure
  | .ok text, .ok script => if trimBreaks text = trimBreaks script then ok else mismatch

def line (name : String) : Verdict → String
  | missing => "  MISSING  " ++ name
  | error failure => "  ERROR    " ++ name ++ ": " ++ failure.description
  | ok => "  ok       " ++ name
  | mismatch => "  MISMATCH " ++ name

end Verdict

def verdict (place : String) (d : Directory) (f : Fixture) : Verdict :=
  .of (d.read f.target) (render place d f)

def check (place : String) (d : Directory) : Outcome :=
  let passed := (all d).countP (verdict place d · = .ok)
  { output := Outcome.lines <|
      (all d).map (fun f => (verdict place d f).line f.name) ++
        ["", toString passed ++ " / " ++ toString (all d).length ++ " fixtures match"]
    exitCode := if passed = (all d).length then 0 else 1 }

def usage : List String :=
  ["Usage: cargo xtask <command>", "Commands:",
   "  bless    Rewrite every tests/fixtures/*.canvas from the current output",
   "  check    Report fixtures whose output differs from their .canvas file"]

/-- Runs a command on the directory at `place`, which need not exist. -/
def run (place : String) (arguments : List String) (d : Option Directory) :
    Outcome × Option Directory :=
  match arguments, d with
  | [], d => ({ errors := Outcome.lines usage, exitCode := 1 }, d)
  | "bless" :: _, some d =>
      let result := bless place d
      (result.1, some result.2)
  | "check" :: _, some d => (check place d, some d)
  | "bless" :: _, none | "check" :: _, none =>
      (.aborted ("Failed to read " ++ place ++ ": " ++ ReadFault.missing.message), none)
  | command :: _, d => ({ errors := "Unknown command: " ++ command ++ "\n", exitCode := 1 }, d)

end CanvasScript.Fixtures
