/-!
# Attributes

An attribute is a key with a value, both texts. Attributes are ordered by key, then by value, so
that sets of them have one written form.
-/

namespace TxReceipt

structure Attribute where
  key : String
  value : String
  deriving DecidableEq

namespace Attribute

instance : Ord Attribute :=
  ⟨compareLex (compareOn Attribute.key) (compareOn Attribute.value)⟩

instance : Std.TransOrd Attribute :=
  inferInstanceAs (Std.TransCmp (compareLex (compareOn Attribute.key) (compareOn Attribute.value)))

instance : Std.LawfulEqOrd Attribute where
  eq_of_compare := by
    intro a b h
    have h : (compareLex (compareOn Attribute.key) (compareOn Attribute.value)) a b = .eq := h
    simp only [compareLex, compareOn, Ordering.then_eq_eq, Std.LawfulEqOrd.compare_eq_iff_eq] at h
    cases a
    cases b
    simp_all

end Attribute

end TxReceipt
