import TxReceipt.Decimal.Shortest

/-!
# Numbers of JSON data

A number is an integer that fits 64 bits, signed or unsigned, or a double. A numeral without point
and exponent is an integer where it fits; `-0` and every other numeral is a double. `scan?` takes a
numeral off the front of a text, `toNumber?` says which number it is, `Number.chars` writes one.
-/

namespace TxReceipt.Json

open Decimal (Binary64)
open Text (isDigit digitValue digitsValue)

/-- An integer of up to 64 bits, signed or unsigned, or a double. -/
inductive Number where
  | int (n : Int) (fits : -9223372036854775808 ≤ n ∧ n < 18446744073709551616)
  | float (x : Binary64)
  deriving DecidableEq

namespace Number

/-- A natural number, as a double where 64 bits do not hold it. -/
def ofNat (n : Nat) : Number :=
  if h : n < 18446744073709551616 then .int n (by omega) else .float (.ofNat n)

def ofInt64 (n : Int64) : Number :=
  .int n.toInt ⟨by have := n.le_toInt; omega, by have := n.toInt_lt; omega⟩

def ofInt32 (n : Int32) : Number :=
  .int n.toInt ⟨by have := n.le_toInt; omega, by have := n.toInt_lt; omega⟩

def ofUInt64 (n : UInt64) : Number :=
  .int n.toNat ⟨by omega, by have := n.toNat_lt; omega⟩

def chars : Number → List Char
  | .int n _ => Text.intChars n
  | .float x => x.dataChars

end Number

/-- The parts of a numeral. A numeral without a point has no fraction digits. -/
structure Numeral where
  negative : Bool
  whole : List Char
  fraction : List Char
  exponent : Option Int
  deriving DecidableEq

namespace Numeral

/-- Takes the whole part: one zero, or digits that do not start with zero. -/
def scanWhole? : List Char → Option (List Char × List Char)
  | '0' :: cs => if (cs.head?.any isDigit) then none else some (['0'], cs)
  | cs => if cs.head?.any isDigit then some (cs.takeWhile isDigit, cs.dropWhile isDigit) else none

/-- Takes a point and the digits after it, of which there is at least one. -/
def scanFraction? : List Char → Option (List Char × List Char)
  | '.' :: cs =>
    if cs.head?.any isDigit then some (cs.takeWhile isDigit, cs.dropWhile isDigit) else none
  | cs => some ([], cs)

def scanExponentDigits? (sign : Int) (cs : List Char) : Option (Option Int × List Char) :=
  if cs.head?.any isDigit then
    some (some (sign * digitsValue (cs.takeWhile isDigit)), cs.dropWhile isDigit)
  else none

def scanExponent? : List Char → Option (Option Int × List Char)
  | c :: cs =>
    if c = 'e' ∨ c = 'E' then
      match cs with
      | '+' :: ds => scanExponentDigits? 1 ds
      | '-' :: ds => scanExponentDigits? (-1) ds
      | ds => scanExponentDigits? 1 ds
    else some (none, c :: cs)
  | [] => some (none, [])

def scanUnsigned? (negative : Bool) (cs : List Char) : Option (Numeral × List Char) := do
  let (whole, cs) ← scanWhole? cs
  let (fraction, cs) ← scanFraction? cs
  let (exponent, cs) ← scanExponent? cs
  return (⟨negative, whole, fraction, exponent⟩, cs)

/-- Takes a numeral off the front of a text; `none` where the text does not go on as one must. -/
def scan? : List Char → Option (Numeral × List Char)
  | '-' :: cs => scanUnsigned? true cs
  | cs => scanUnsigned? false cs

/-- Adds digits to a significand while it fits 64 bits; the digits that no longer do are left. -/
def addDigits : Nat → List Char → Nat × List Char
  | s, [] => (s, [])
  | s, d :: ds =>
    let longer := s * 10 + digitValue d
    if longer < 18446744073709551616 then addDigits longer ds else (s, d :: ds)

/-- The largest power of ten that a double is scaled by in one step. -/
def maxStep : Nat := 308

/-- Divides by a power of ten, in steps of `10 ^ 308`, until nothing is left of the double. -/
def scaleDown (x : Binary64) (k : Nat) : Binary64 :=
  if _h : maxStep < k then
    if x.isZero then x else scaleDown (x.div (.ofTenPow maxStep)) (k - maxStep)
  else x.div (.ofTenPow k)
termination_by k
decreasing_by
  simp only [maxStep] at *
  omega

/-- A significand times a power of ten: both are rounded to doubles, and so is the result. `none`
where it is too large. -/
def scaled? (significand : Nat) (k : Int) : Option Binary64 :=
  let x := Binary64.ofNat significand
  if k < 0 then some (scaleDown x k.natAbs)
  else if x.isZero then some x
  else if maxStep < k.toNat then none
  else
    let y := x.mul (.ofTenPow k.toNat)
    if y.isInfinite then none else some y

/-- The double of a numeral; `none` where it is too large. The significand is the longest run of
leading digits that fits 64 bits: further whole digits count as tens only, further fraction digits
do not count. -/
def toBinary64? (n : Numeral) : Option Binary64 :=
  let (s, dropped) := addDigits 0 n.whole
  let (s, ignored) := addDigits s n.fraction
  let shift := (dropped.length : Int) - (n.fraction.length - ignored.length : Nat)
  (scaled? s (shift + n.exponent.getD 0)).map fun x => if n.negative then x.negate else x

/-- The number of a numeral; `none` where it is too large. -/
def toNumber? (n : Numeral) : Option Number :=
  let whole := digitsValue n.whole
  if n.fraction = [] ∧ n.exponent = none then
    if h : n.negative = false ∧ whole < 18446744073709551616 then some (.int whole (by omega))
    else if h : n.negative = true ∧ 0 < whole ∧ whole ≤ 9223372036854775808 then
      some (.int (-whole) (by omega))
    else n.toBinary64?.map .float
  else n.toBinary64?.map .float

end Numeral

end TxReceipt.Json
