import TxReceipt.Settings.Node

/-!
# Paths in trees of settings

A name spells a path: keys of ASCII letters, digits, underscores and hyphens, with a point before
all but the first, and indices in brackets. A name that is spelled otherwise is one key by itself.
-/

namespace TxReceipt.Settings

open Node (Step)

def isKeyChar (c : Char) : Bool :=
  c.isAlphanum || c == '_' || c == '-'

def takeKey? (cs : List Char) : Option (Step × List Char) :=
  let key := cs.takeWhile isKeyChar
  if key = [] then none else some (.field (String.ofList key), cs.dropWhile isKeyChar)

def takeIndex? (cs : List Char) : Option (Step × List Char) :=
  match cs.dropWhile (· != ']') with
  | _ :: rest =>
    match cs.takeWhile (· != ']') with
    | '+' :: _ => none
    | numeral =>
      (Text.readIntWithin? .int64 numeral).map fun index => (.item index, rest)
  | [] => none

/-- The steps after the first one. The fuel bounds their number. -/
def takeSteps? : Nat → List Char → Option (List Step)
  | _, [] => some []
  | 0, _ => none
  | fuel + 1, c :: cs => do
    let (step, rest) ← if c = '.' then takeKey? cs else if c = '[' then takeIndex? cs else none
    return step :: (← takeSteps? fuel rest)

def pathOfName (name : List Char) : List Step :=
  let path? := do
    let (step, rest) ← takeKey? name
    return step :: (← takeSteps? rest.length rest)
  path?.getD [.field (String.ofList name)]

end TxReceipt.Settings
