import TxReceipt.Text.Cut
import TxReceipt.Text.Numeral

/-!
# Token ids

A token id of a collection is sixteen hexadecimal digits: eight of the token type, eight of the
index. The parts are cut out by bytes, and a cut inside a character makes the id malformed.
-/

namespace TxReceipt.Token

inductive IdError where
  | invalidType (value : String)
  | invalidId (value : String)
  deriving DecidableEq

def IdError.message : IdError → String
  | .invalidType value => "Invalid token type: '" ++ value ++ "'"
  | .invalidId value => "Invalid token id: '" ++ value ++ "'"

def isHexDigit (c : Char) : Bool :=
  (Text.hexValue? c).isSome

/-- How many bytes the token type and the index have. -/
def partLength : Nat := 8

/-- The first eight digits of an id. -/
def type (id : String) : Except IdError String :=
  match Text.splitBytes? partLength id.toList with
  | some (head, _) =>
    if head.all isHexDigit then .ok (String.ofList head) else .error (.invalidType id)
  | none => .error (.invalidType id)

/-- The last eight digits of an id, whatever the first eight bytes are. -/
def index (id : String) : Except IdError String :=
  match Text.splitBytes? partLength id.toList with
  | some (_, tail) =>
    match Text.splitBytes? partLength tail with
    | some (head, _) =>
      if head.all isHexDigit then .ok (String.ofList head) else .error (.invalidId id)
    | none => .error (.invalidId id)
  | none => .error (.invalidId id)

/-- The token type of an id, or another text if the id has none. -/
def typeOr (id default : String) : String :=
  match type id with
  | .ok t => t
  | .error _ => default

/-- The types of fungible tokens start with `0`. -/
def isFungible (id : String) : Bool :=
  id.toList.head? == some '0'

end TxReceipt.Token
