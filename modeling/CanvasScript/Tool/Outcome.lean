/-!
What a run of a program leaves behind: its output, its exit code, and why it was cut short, if it
was.
-/
namespace CanvasScript

structure Outcome where
  output : String := ""
  errors : String := ""
  exitCode : Nat := 0
  /-- The message of a run that did not come to its end. -/
  abort : Option String := none
  deriving DecidableEq

namespace Outcome

def aborted (message : String) : Outcome := { exitCode := 101, abort := some message }

/-- Lines, each of them ended. -/
def lines (ls : List String) : String := String.join (ls.map (· ++ "\n"))

end Outcome

inductive ReadFault where
  | missing
  | directory
  | notText
  deriving DecidableEq

namespace ReadFault

def message : ReadFault → String
  | missing => "No such file or directory (os error 2)"
  | directory => "Is a directory (os error 21)"
  | notText => "stream did not contain valid UTF-8"

/-- The fields of a fault, as they are shown when a run is cut short. -/
def fields : ReadFault → String
  | missing =>
      "Os \x7b code: 2, kind: NotFound, message: \"No such file or directory\" \x7d"
  | directory => "Os \x7b code: 21, kind: IsADirectory, message: \"Is a directory\" \x7d"
  | notText =>
      "Error \x7b kind: InvalidData, message: \"stream did not contain valid UTF-8\" \x7d"

end ReadFault

inductive WriteFault where
  | directory
  | nameTooLong
  deriving DecidableEq

def WriteFault.message : WriteFault → String
  | directory => "Is a directory (os error 21)"
  | nameTooLong => "File name too long (os error 36)"

end CanvasScript
