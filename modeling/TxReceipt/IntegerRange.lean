/-!
# Ranges of integers

A place for an integer has a range. The ranges that occur are those of words of 32 and 64 bits.
-/

namespace TxReceipt

/-- The integers between two ends, ends included. -/
structure IntegerRange where
  least : Int
  greatest : Int
  deriving DecidableEq

namespace IntegerRange

def int32 : IntegerRange :=
  ⟨-2147483648, 2147483647⟩

def int64 : IntegerRange :=
  ⟨-9223372036854775808, 9223372036854775807⟩

def uint64 : IntegerRange :=
  ⟨0, 18446744073709551615⟩

def contains (r : IntegerRange) (n : Int) : Bool :=
  decide (r.least ≤ n) && decide (n ≤ r.greatest)

theorem contains_iff {r : IntegerRange} {n : Int} :
    r.contains n = true ↔ r.least ≤ n ∧ n ≤ r.greatest := by
  simp [contains]

end IntegerRange

end TxReceipt
