import TxReceipt.Json.Printer

/-!
# Why data could not be read

Only the faults of loosely written integers carry a message; the others are told apart by their
cause alone.
-/

namespace TxReceipt.Json

inductive IntegerFault where
  /-- The number is no integer, or too large or small for its place. -/
  | outOfRange (n : Number)
  /-- The text is no numeral, or one beyond 64 bits. -/
  | notNumeral (text : String)
  /-- The value is neither a number nor a text nor null. -/
  | notInteger (v : Value)

def IntegerFault.message : IntegerFault → String
  | .outOfRange n => "integer out of range: " ++ String.ofList n.chars
  | .notNumeral text => "invalid integer: " ++ text
  | .notInteger v => "expected integer, got " ++ v.compact

inductive ReadError where
  /-- The text is not JSON, or holds something that no value can. -/
  | malformed
  /-- The value is of another type, or a number out of range. -/
  | wrongType
  /-- A field that has to be there is not. -/
  | missingField (name : String)
  /-- A field stands twice, perhaps under two of its names. -/
  | duplicateField (name : String)
  /-- A name that is none of those expected. -/
  | unknownName (name : String)
  /-- A loosely written integer was refused. -/
  | integer (fault : IntegerFault)

def ReadError.cause? : ReadError → Option String
  | .integer fault => some fault.message
  | _ => none

end TxReceipt.Json
