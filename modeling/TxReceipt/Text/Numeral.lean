import TxReceipt.IntegerRange

/-!
# Decimal numerals

How integers are written in digits, and how a signed numeral that stands alone is read: an optional
sign and at least one ASCII digit. Hexadecimal digits are known one by one.
-/

namespace TxReceipt.Text

/-- ASCII digits alone count as digits. -/
def isDigit (c : Char) : Bool :=
  '0' ≤ c && c ≤ '9'

def digitValue (c : Char) : Nat :=
  c.toNat - '0'.toNat

def digitsValue (ds : List Char) : Nat :=
  ds.foldl (fun n c => n * 10 + digitValue c) 0

/-- The digits of a natural number, without leading zeros. -/
def natChars (n : Nat) : List Char :=
  Nat.toDigits 10 n

def intChars : Int → List Char
  | .ofNat n => natChars n
  | .negSucc n => '-' :: natChars (n + 1)

/-- Reads a run of at least one digit that fills the whole text. -/
def readNat? (cs : List Char) : Option Nat :=
  if cs ≠ [] ∧ cs.all isDigit then some (digitsValue cs) else none

/-- Reads a numeral that fills the whole text: an optional sign, then digits. -/
def readInt? : List Char → Option Int
  | '+' :: cs => (readNat? cs).map fun n => (n : Int)
  | '-' :: cs => (readNat? cs).map fun n => -(n : Int)
  | cs => (readNat? cs).map fun n => (n : Int)

def readIntWithin? (range : IntegerRange) (cs : List Char) : Option Int :=
  (readInt? cs).filter range.contains

def hexValue? (c : Char) : Option Nat :=
  if '0' ≤ c ∧ c ≤ '9' then some (c.toNat - '0'.toNat)
  else if 'a' ≤ c ∧ c ≤ 'f' then some (c.toNat - 'a'.toNat + 10)
  else if 'A' ≤ c ∧ c ≤ 'F' then some (c.toNat - 'A'.toNat + 10)
  else none

end TxReceipt.Text
