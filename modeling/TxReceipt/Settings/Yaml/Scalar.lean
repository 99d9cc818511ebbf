import TxReceipt.Settings.Node
import TxReceipt.Settings.Yaml.Tag

/-!
# Scalars

The kind of a plain scalar shows in its text, unless a tag says it. A scalar that does not fit its
tag is invalid. As a value a scalar becomes a node, as a key its text counts.
-/

namespace TxReceipt.Settings.Yaml

/-- A scalar. A real number keeps its text. -/
inductive Scalar where
  | null
  | invalid
  | bool (b : Bool)
  | int (n : Int)
  | real (text : String)
  | text (s : String)
  deriving DecidableEq

namespace Scalar

/-- The number of a run of digits of some base, at most sixteen, that fills the text. -/
def radixValue? (base : Nat) : List Char → Option Nat
  | [] => none
  | cs => cs.foldl
    (fun acc c => do
      let n ← acc
      let d ← Text.hexValue? c
      if d < base then return n * base + d else none) (some 0)

def signedRadixValue? (base : Nat) : List Char → Option Int
  | '-' :: ds => (radixValue? base ds).map fun n => -(n : Int)
  | '+' :: ds => (radixValue? base ds).map fun n => (n : Int)
  | ds => (radixValue? base ds).map fun n => (n : Int)

/-- An integer in base sixteen or eight, or one behind a plus sign, which may have a sign of its
own. -/
def markedInteger? : List Char → Option Int
  | '0' :: 'x' :: ds => signedRadixValue? 16 ds
  | '0' :: 'o' :: ds => signedRadixValue? 8 ds
  | '+' :: ds => Text.readInt? ds
  | _ => none

def isUnboundedWord (s : String) : Bool :=
  [".inf", ".Inf", ".INF", "+.inf", "+.Inf", "+.INF", "-.inf", "-.Inf", "-.INF",
    ".nan", ".NaN", ".NAN"].contains s

/-- The text is that of a real number: a word for an unbounded one, or a number with digits. -/
def isReal (cs : List Char) : Bool :=
  isUnboundedWord (String.ofList cs) ||
    (cs.any Text.isDigit && (Decimal.readBinary64? cs).isSome)

def ofPlain (cs : List Char) : Scalar :=
  match (markedInteger? cs).filter IntegerRange.int64.contains with
  | some n => .int n
  | none =>
    match String.ofList cs with
    | "" | "~" | "null" => .null
    | "true" | "True" | "TRUE" => .bool true
    | "false" | "False" | "FALSE" => .bool false
    | s =>
      match Text.readIntWithin? .int64 cs with
      | some n => .int n
      | none => if isReal cs then .real s else .text s

def ofTagged (tag : Tag) (cs : List Char) : Scalar :=
  let s := String.ofList cs
  if tag.handle == Tag.commonHandle then
    match tag.suffix with
    | "bool" => if s == "true" then .bool true else if s == "false" then .bool false else .invalid
    | "int" => ((Text.readIntWithin? .int64 cs).map Scalar.int).getD .invalid
    | "float" => if isReal cs then .real s else .invalid
    | "null" => if s == "~" || s == "null" then .null else .invalid
    | _ => .text s
  else .text s

/-- The node of a scalar. Settings have no use for unbounded numbers: there is none for them. -/
def toNode? : Scalar → Option Node
  | .null | .invalid => some .nil
  | .bool b => some (.bool b)
  | .int n => some (.int n)
  | .real s => if isUnboundedWord s then none else (Decimal.readBinary64? s.toList).map .float
  | .text s => some (.text s)

def keyText? : Scalar → Option String
  | .null | .invalid => none
  | .bool b => some (if b then "true" else "false")
  | .int n => some (String.ofList (Text.intChars n))
  | .real s => some s
  | .text s => some s

end Scalar

end TxReceipt.Settings.Yaml
