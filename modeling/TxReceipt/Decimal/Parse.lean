import TxReceipt.Decimal.Binary64
import TxReceipt.Text.Numeral

/-!
# Reading doubles from plain text

A plain text is a double if it is a decimal number with an optional sign, point and exponent, or one
of the words for infinity and NaN. Of the digits around the point one has to be there. The value is
the nearest double.
-/

namespace TxReceipt.Decimal

open Text (isDigit digitsValue)

/-- The nearest double to a whole number times a power of ten. Where the power alone decides, it is
not computed. -/
def ofScientific (digits : List Char) (exponent : Int) : Binary64 :=
  let n := digitsValue digits
  let top := exponent + digits.length
  if n = 0 ∨ top < -400 then ⟨0⟩
  else if 400 < exponent then .infinity
  else Binary64.ofRatio (n * tenPow exponent.toNat) (tenPow (-exponent).toNat)

/-- Reads an exponent that fills the text, or its absence. -/
def readExponent? : List Char → Option Int
  | [] => some 0
  | c :: cs => if c = 'e' ∨ c = 'E' then Text.readInt? cs else none

def readUnsigned? (cs : List Char) : Option Binary64 :=
  let whole := cs.takeWhile isDigit
  let (fraction, rest) := match cs.dropWhile isDigit with
    | '.' :: cs => (cs.takeWhile isDigit, cs.dropWhile isDigit)
    | cs => ([], cs)
  if whole = [] ∧ fraction = [] then none
  else (readExponent? rest).map fun e => ofScientific (whole ++ fraction) (e - fraction.length)

def readMagnitude? (cs : List Char) : Option Binary64 :=
  match String.ofList (cs.map Char.toLower) with
  | "inf" | "infinity" => some .infinity
  | "nan" => some .nan
  | _ => readUnsigned? cs

/-- Reads a double that fills the text. -/
def readBinary64? : List Char → Option Binary64
  | '+' :: cs => readMagnitude? cs
  | '-' :: cs => (readMagnitude? cs).map Binary64.negate
  | cs => readMagnitude? cs

end TxReceipt.Decimal
