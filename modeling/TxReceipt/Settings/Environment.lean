import TxReceipt.Settings.Path

/-!
# Settings from the environment

A variable whose name starts with `tx_result__`, in either case, sets the node at the path that the
rest of its name spells, with two underscores in place of a point. Its value is a truth value, an
integer, a double or a text, whichever it can be first.
-/

namespace TxReceipt.Settings

abbrev Environment : Type := List (String × String)

def nodeOfVariable (value : String) : Node :=
  let cs := value.toList
  match String.ofList (cs.map Char.toLower) with
  | "true" => .bool true
  | "false" => .bool false
  | _ =>
    match Text.readIntWithin? .int64 cs with
    | some n => .int n
    | none =>
      match Decimal.readBinary64? cs with
      | some x => .float x
      | none => .text value

def variableStart : List Char := "tx_result__".toList

/-- The name of a setting without its start, in lower case. -/
def settingName? (name : String) : Option (List Char) :=
  let lower := name.toList.map Char.toLower
  if variableStart.isPrefixOf lower then some (lower.drop variableStart.length) else none

/-- Writes a point for each pair of underscores, from the left. -/
def pointed : List Char → List Char
  | [] => []
  | '_' :: '_' :: cs => '.' :: pointed cs
  | c :: cs => c :: pointed cs

def override (environment : Environment) (root : Node) : Node :=
  environment.foldl
    (fun root (name, value) =>
      match settingName? name with
      | some name => root.set (pathOfName (pointed name)) (nodeOfVariable value)
      | none => root) root

end TxReceipt.Settings
