import TxReceipt.Decimal.Binary64
import TxReceipt.Text.Numeral

/-!
# Shortest decimal texts of doubles

Every positive double owns an interval of reals that round to it, ends included if its significand
is even. Its shortest decimal is the point of the coarsest decimal grid that meets the interval, the
nearest one to the double if there are several. Two layouts write it: one always positional, the
other positional only while the leading digit stands near the decimal point.
-/

namespace TxReceipt.Decimal

/-- The number `digits * 10 ^ exponent`. -/
structure Scientific where
  digits : Nat
  exponent : Int
  deriving DecidableEq

/-- Four times the significand, and the ends of the rounding interval on that scale. -/
def Binary64.interval (x : Binary64) : Nat × Nat × Nat :=
  let m := 4 * x.significand
  let below := if x.fraction = 0 ∧ 1 < x.exponentField then 1 else 2
  (m - below, m, m + 2)

/-- The point of the grid of step `10 ^ k` in the double's interval that is nearest to it. -/
def Binary64.gridPoint? (x : Binary64) (k : Int) : Option Nat :=
  let (lo, mid, hi) := x.interval
  let unit := x.scale - 2
  let a := twoPow unit.toNat * tenPow (-k).toNat
  let b := twoPow (-unit).toNat * tenPow k.toNat
  let inside (c : Nat) : Bool :=
    if x.significand % 2 = 0 then lo * a ≤ c * b && c * b ≤ hi * a
    else lo * a < c * b && c * b < hi * a
  let below := mid * a / b
  let above := below + 1
  match inside below, inside above with
  | true, true =>
    let down := mid * a - below * b
    let up := above * b - mid * a
    some (if down < up ∨ (down = up ∧ below % 2 = 0) then below else above)
  | true, false => some below
  | false, true => some above
  | false, false => none

/-- The shortest decimal that reads back as the magnitude of a finite double. -/
def Binary64.shortest (x : Binary64) : Scientific :=
  if x.significand = 0 then ⟨0, 0⟩
  else
    let top : Int := (((x.significand.log2 : Int) + x.scale) * 30103).fdiv 100000 + 1
    let grids := (List.range 20).map fun (i : Nat) => top - (i : Int)
    (grids.findSome? fun k => (x.gridPoint? k).map fun c => ⟨c, k⟩).getD ⟨0, 0⟩

namespace Scientific

/-- The power of ten of the leading digit. -/
def leading (s : Scientific) : Int :=
  s.exponent + (Text.natChars s.digits).length - 1

/-- The digits with the point put in place, and no trailing point. -/
def positional (s : Scientific) : List Char :=
  let ds := Text.natChars s.digits
  let e := s.leading
  if 0 ≤ s.exponent then ds ++ List.replicate s.exponent.toNat '0'
  else if 0 ≤ e then ds.take (e + 1).toNat ++ '.' :: ds.drop (e + 1).toNat
  else '0' :: '.' :: List.replicate (-e - 1).toNat '0' ++ ds

/-- One digit before the point, the others after it, and a signed exponent. -/
def withExponent (s : Scientific) : List Char :=
  let e := s.leading
  let sign := if 0 ≤ e then '+' else '-'
  let mantissa := match Text.natChars s.digits with
    | d :: [] => [d]
    | d :: ds => d :: '.' :: ds
    | [] => []
  mantissa ++ 'e' :: sign :: Text.natChars e.natAbs

end Scientific

def Binary64.signChars (x : Binary64) : List Char :=
  if x.isNegative then ['-'] else []

/-- A finite double for data: positional, with a fraction even if it is zero, while the leading
digit stands at most five places behind the point and fifteen before it; with an exponent
elsewhere. -/
def Binary64.dataChars (x : Binary64) : List Char :=
  let s := x.shortest
  x.signChars ++
    if s.leading < -5 ∨ 15 < s.leading then s.withExponent
    else if 0 ≤ s.exponent then s.positional ++ ['.', '0']
    else s.positional

/-- A double in running text: always positional, whole numbers without a fraction. -/
def Binary64.plainChars (x : Binary64) : List Char :=
  if x.isInfinite then x.signChars ++ ['i', 'n', 'f']
  else if x.isFinite then x.signChars ++ x.shortest.positional
  else ['N', 'a', 'N']

example : String.ofList (Binary64.ofRatio 1 200).dataChars = "0.005" := by decide +kernel
example : String.ofList (Binary64.ofNat (tenPow 16)).dataChars = "1e+16" := by decide +kernel
example : String.ofList (Binary64.ofNat 1000).dataChars = "1000.0" := by decide +kernel
example : String.ofList (Binary64.mk 1).dataChars = "5e-324" := by decide +kernel
example : String.ofList (Binary64.ofRatio 1 (tenPow 7)).dataChars = "1e-7" := by decide +kernel
example : String.ofList (Binary64.ofRatio 3 2).plainChars = "1.5" := by decide +kernel

end TxReceipt.Decimal
