import TxReceipt.Json.Document
import TxReceipt.Text.Blank

/-!
# Loosely written integers

Gateways write some integers as texts, or leave null in their place. A loose integer is a JSON
integer, a numeral in a text with blanks around it, or null for zero. It has to fit 64 bits with
sign first, and then its place.
-/

namespace TxReceipt.Json

/-- The integer of a value, before it is asked whether it fits its place. -/
def looseInteger? (v : Value) : Except IntegerFault Int :=
  match v with
  | .number (.int n fits) =>
    if IntegerRange.int64.contains n then .ok n else .error (.outOfRange (.int n fits))
  | .number x => .error (.outOfRange x)
  | .text s =>
    match Text.readIntWithin? .int64 (Text.trimChars s.toList) with
    | some n => .ok n
    | none => .error (.notNumeral s)
  | .null => .ok 0
  | v => .error (.notInteger v)

def looseIntegerWithin? (range : IntegerRange) (v : Value) : Except IntegerFault Int := do
  let n ← looseInteger? v
  if range.contains n then .ok n
  else .error (.outOfRange (.ofInt64 (Int64.ofInt n)))

namespace Document

/-- Reads a loose integer that fits a range. What the fault shows is the data, its fields in
order. -/
def readLoose (range : IntegerRange) (d : Document) : Except ReadError Int := do
  let v ← d.readPayload
  (looseIntegerWithin? range v.value).mapError .integer

def readLooseInt64 (d : Document) : Except ReadError Int64 :=
  (d.readLoose .int64).map Int64.ofInt

def readLooseInt32 (d : Document) : Except ReadError Int32 :=
  (d.readLoose .int32).map Int32.ofInt

/-- Reads a loose unsigned 64-bit integer, which has to fit 64 bits with sign too. -/
def readLooseUInt64 (d : Document) : Except ReadError UInt64 :=
  (d.readLoose .uint64).map fun n => UInt64.ofNat n.toNat

end Document

end TxReceipt.Json
