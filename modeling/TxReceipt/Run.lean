import TxReceipt.Receipt.Adapt
import TxReceipt.Receipt.Write
import TxReceipt.Settings.Basic

/-!
# A run of the program

A run adapts files one after the other and prints their receipts, indented and one line end after
each. The first file that is missing or cannot be read ends it. What it printed before stays.
-/

namespace TxReceipt

structure RunResult where
  exitCode : Nat
  output : String
  deriving DecidableEq

namespace RunResult

def failed : RunResult :=
  ⟨1, ""⟩

def printed (r : Receipt) : String :=
  r.toValue.indented ++ "\n"

/-- Adapts files on a network until one fails. -/
def ofFiles (network : String) : List (Option String) → RunResult
  | [] => ⟨0, ""⟩
  | none :: _ => failed
  | some text :: files =>
    match Receipt.ofRawText text network with
    | .error _ => failed
    | .ok receipt =>
      let rest := ofFiles network files
      ⟨rest.exitCode, printed receipt ++ rest.output⟩

end RunResult

/-- Runs the program on some files. A run without files, or without settings, fails at once. -/
def run (settings : Except Settings.LoadError ChainSettings) (files : List (Option String)) :
    RunResult :=
  match settings with
  | .error _ => .failed
  | .ok settings => if files.isEmpty then .failed else .ofFiles settings.hrp files

end TxReceipt
