import TxReceipt.Decimal.Parse
import TxReceipt.Decimal.Shortest

/-!
# Trees of settings

Settings come as a tree of tables, lists and scalars, from a file and from the environment. `set`
puts a node at a path of a tree. A place that wants a truth value or a text takes scalars of other
kinds where their meaning is plain.
-/

namespace TxReceipt.Settings

open Decimal (Binary64)

inductive Node where
  | nil
  | bool (b : Bool)
  | int (n : Int)
  | float (x : Binary64)
  | text (s : String)
  | list (items : List Node)
  | table (fields : List (String × Node))

namespace Node

instance : Inhabited Node := ⟨.nil⟩

/-- Changes the node under a key; an absent one counts as nil. -/
def update (key : String) (change : Node → Node) : List (String × Node) → List (String × Node)
  | [] => [(key, change .nil)]
  | f :: fs => if f.1 = key then (key, change f.2) :: fs else f :: update key change fs

/-- Changes the item at a place; the list is filled up with nil as far as it is needed. -/
def updateItem (change : Node → Node) : Nat → List Node → List Node
  | 0, [] => [change .nil]
  | 0, item :: items => change item :: items
  | n + 1, [] => .nil :: updateItem change n []
  | n + 1, item :: items => item :: updateItem change n items

def fields : Node → List (String × Node)
  | .table fs => fs
  | _ => []

def items : Node → List Node
  | .list xs => xs
  | _ => []

/-- Changes the item at an index; a negative one counts from the end. -/
def updateAt (index : Int) (change : Node → Node) (xs : List Node) : List Node :=
  if 0 ≤ index then updateItem change index.toNat xs
  else if index.natAbs ≤ xs.length then updateItem change (xs.length - index.natAbs) xs
  else updateItem change 0 (List.replicate (index.natAbs - xs.length) .nil ++ xs)

mutual

/-- Puts a node over another one: tables are merged, all else is replaced. -/
def mergeInto (old : Node) : Node → Node
  | .table fs => .table (mergeFields old.fields fs)
  | new => new
termination_by structural new => new

def mergeFields (old : List (String × Node)) : List (String × Node) → List (String × Node)
  | [] => old
  | (key, new) :: fs => mergeFields (update key (fun n => mergeInto n new) old) fs
termination_by structural new => new

end

inductive Step where
  | field (key : String)
  | item (index : Int)
  deriving DecidableEq

/-- Puts a node at a path. What is not of the kind that a step needs is replaced on the way. -/
def set : Node → List Step → Node → Node
  | old, [], new => mergeInto old new
  | old, .field key :: path, new => .table (update key (fun n => n.set path new) old.fields)
  | old, .item index :: path, new => .list (updateAt index (fun n => n.set path new) old.items)
termination_by structural _ path => path

def field? (fields : List (String × Node)) (key : String) : Option Node :=
  (fields.find? fun f => f.1 == key).map (·.2)

def boolOfWord? (word : String) : Option Bool :=
  match String.ofList (word.toList.map Char.toLower) with
  | "1" | "true" | "on" | "yes" => some true
  | "0" | "false" | "off" | "no" => some false
  | _ => none

/-- A node as a truth value: numbers other than zero are true, texts have to be words for it. -/
def asBool? : Node → Option Bool
  | .bool b => some b
  | .int n => some (n ≠ 0)
  | .float x => some !x.isZero
  | .text s => boolOfWord? s
  | .nil | .list _ | .table _ => none

/-- A node as a text: other scalars are written down. -/
def asText? : Node → Option String
  | .text s => some s
  | .bool b => some (if b then "true" else "false")
  | .int n => some (String.ofList (Text.intChars n))
  | .float x => some (String.ofList x.plainChars)
  | .nil | .list _ | .table _ => none

end Node

end TxReceipt.Settings
