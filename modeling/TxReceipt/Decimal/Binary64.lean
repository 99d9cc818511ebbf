/-!
# Double precision numbers

A double is its 64 bits: a sign, an exponent field of 11 bits and a fraction of 52. `ofRatio` rounds
a quotient of natural numbers to the nearest double, a half to the even neighbour. All arithmetic
is exact arithmetic on natural numbers followed by one such rounding.
-/

namespace TxReceipt.Decimal

def twoPow (k : Nat) : Nat :=
  Nat.pow 2 k

def tenPow (k : Nat) : Nat :=
  Nat.pow 10 k

/-- A double, as its bits. -/
structure Binary64 where
  bits : UInt64
  deriving DecidableEq

namespace Binary64

def isNegative (x : Binary64) : Bool :=
  twoPow 63 ≤ x.bits.toNat

/-- The exponent field, 0 to 2047. -/
def exponentField (x : Binary64) : Nat :=
  x.bits.toNat / twoPow 52 % twoPow 11

def fraction (x : Binary64) : Nat :=
  x.bits.toNat % twoPow 52

def isFinite (x : Binary64) : Bool :=
  x.exponentField ≠ 2047

def isInfinite (x : Binary64) : Bool :=
  x.exponentField == 2047 && x.fraction == 0

def isZero (x : Binary64) : Bool :=
  x.exponentField == 0 && x.fraction == 0

/-- A finite double has the magnitude `significand * 2 ^ scale`. -/
def significand (x : Binary64) : Nat :=
  if x.exponentField = 0 then x.fraction else x.fraction + twoPow 52

/-- The power of two that the significand is multiplied by. -/
def scale (x : Binary64) : Int :=
  (max x.exponentField 1 : Nat) - (1075 : Int)

def infinity : Binary64 := ⟨0x7FF0000000000000⟩

/-- The NaN that reading the word for it gives. -/
def nan : Binary64 := ⟨0x7FF8000000000000⟩

def negate (x : Binary64) : Binary64 :=
  ⟨x.bits ^^^ 0x8000000000000000⟩

/-- The quotient rounded to an integer, a half to the even neighbour. -/
def roundQuotient (num den : Nat) : Nat :=
  let q := num / den
  let r := num % den
  if den < 2 * r ∨ (2 * r = den ∧ q % 2 = 1) then q + 1 else q

/-- The quotient `num / den` over the power of two with exponent `e`, as a pair of natural
numbers. -/
def shiftRatio (num den : Nat) (e : Int) : Nat × Nat :=
  (num * twoPow (-e).toNat, den * twoPow e.toNat)

/-- The nearest double to `num / den`, a half to the even neighbour; infinity past the range. -/
def ofRatio (num den : Nat) : Binary64 :=
  if num = 0 then ⟨0⟩
  else
    let guess : Int := (num.log2 : Int) - den.log2 - 52
    let (n, d) := shiftRatio num den guess
    let exact := if n / d < twoPow 52 then guess - 1 else guess
    let e := max exact (-1074)
    let (n, d) := shiftRatio num den e
    let bits := (e + 1074).toNat * twoPow 52 + roundQuotient n d
    if bits < 2047 * twoPow 52 then ⟨UInt64.ofNat bits⟩ else infinity

/-- The magnitude of a finite double as a quotient. -/
def ratio (x : Binary64) : Nat × Nat :=
  (x.significand * twoPow x.scale.toNat, twoPow (-x.scale).toNat)

def ofNat (n : Nat) : Binary64 :=
  ofRatio n 1

def mul (x y : Binary64) : Binary64 :=
  ofRatio (x.ratio.1 * y.ratio.1) (x.ratio.2 * y.ratio.2)

/-- The rounded quotient of two finite magnitudes, the second not zero. -/
def div (x y : Binary64) : Binary64 :=
  ofRatio (x.ratio.1 * y.ratio.2) (x.ratio.2 * y.ratio.1)

def ofTenPow (k : Nat) : Binary64 :=
  ofNat (tenPow k)

example : ofNat 1 = ⟨0x3FF0000000000000⟩ := by decide +kernel
example : ofRatio 1 10 = ⟨0x3FB999999999999A⟩ := by decide +kernel
example : ofRatio 1 (twoPow 1074) = ⟨1⟩ := by decide +kernel
example : (ofNat (tenPow 309)).isInfinite = true := by decide +kernel

end Binary64

end TxReceipt.Decimal
