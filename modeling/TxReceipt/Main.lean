import TxReceipt.Run

/-!
# The command line

The arguments name files with raw results. Settings are read from `config.yml` and from the
environment. Receipts go to the output, the news of a failure to the error output.

The file is looked for in the working directory alone; where it is not there, the shipped one
counts. The environment can only be asked for variables by name: `Settings.override` takes a name in
any mixture of small letters and capitals, but `settingVariables` has names of one case only.
-/

namespace TxReceipt.CommandLine

def readFile? (path : String) : IO (Option String) := do
  try
    return some (← IO.FS.readFile path)
  catch _ =>
    return none

/-- The variables that are asked for: those of the settings that there are, in capitals and in
small letters. -/
def settingVariables : List String :=
  ["TX_RESULT__CHAIN", "TX_RESULT__CHAIN__IS_MAIN_NET", "TX_RESULT__CHAIN__BECH32_HRP",
    "tx_result__chain", "tx_result__chain__is_main_net", "tx_result__chain__bech32_hrp"]

def readEnvironment : IO Settings.Environment :=
  settingVariables.filterMapM fun name => do
    return (← IO.getEnv name).map fun value => (name, value)

end TxReceipt.CommandLine

open TxReceipt CommandLine in
def main (args : List String) : IO UInt32 := do
  let file := (← readFile? "config.yml").getD Settings.shippedFile
  let settings := Settings.load (some file) (← readEnvironment)
  let files ← args.mapM readFile?
  let result := run settings files
  IO.print result.output
  if result.exitCode ≠ 0 then
    IO.eprintln "the run failed"
  return UInt32.ofNat result.exitCode
