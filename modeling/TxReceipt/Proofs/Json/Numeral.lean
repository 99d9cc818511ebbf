import TxReceipt.Json.Number
import TxReceipt.Proofs.Lists
import TxReceipt.Proofs.Text.Numeral

/-!
# Integers in JSON text

The numeral of an integer is taken off the front of a text as a whole where the text goes on with
nothing that could belong to it, and it is read as the integer.
-/

namespace TxReceipt.Json

open Text (isDigit natChars intChars digitsValue)

/-- No numeral goes on with the first character. -/
def EndsNumeral (rest : List Char) : Prop :=
  ∀ c ∈ rest.head?, isDigit c = false ∧ c ≠ '.' ∧ c ≠ 'e' ∧ c ≠ 'E'

theorem endsNumeral_nil : EndsNumeral [] := by
  intro c hc
  cases hc

theorem endsNumeral_cons {c : Char} {cs : List Char}
    (h : isDigit c = false ∧ c ≠ '.' ∧ c ≠ 'e' ∧ c ≠ 'E') : EndsNumeral (c :: cs) := by
  intro d hd
  obtain rfl : c = d := Option.some.inj hd
  exact h

namespace Numeral

def ofInt (n : Int) : Numeral :=
  ⟨decide (n < 0), natChars n.natAbs, [], none⟩

theorem scanWhole?_natChars (n : Nat) {rest : List Char} (hrest : EndsNumeral rest) :
    scanWhole? (natChars n ++ rest) = some (natChars n, rest) := by
  obtain ⟨htake, hdrop⟩ := Lists.takeWhile_dropWhile_append
    (fun c => Text.isDigit_of_mem_natChars (n := n)) fun c hc => (hrest c hc).1
  by_cases hn : n = 0
  · subst hn
    rw [Text.natChars_zero, List.singleton_append, scanWhole?]
    cases rest with
    | nil => rfl
    | cons c rest =>
      have hc := (hrest c rfl).1
      simp [hc]
  · obtain ⟨c, cs, hcs, hdigit, hzero⟩ := Text.head_natChars (n := n) (by omega)
    rw [hcs, List.cons_append] at htake hdrop ⊢
    rw [scanWhole?]
    · simp only [List.head?_cons, Option.any_some, hdigit, if_true, htake, hdrop]
    · intro ds hds
      exact hzero (List.cons.inj hds).1

theorem scanUnsigned?_natChars (negative : Bool) (n : Nat) {rest : List Char}
    (hrest : EndsNumeral rest) :
    scanUnsigned? negative (natChars n ++ rest) =
      some (⟨negative, natChars n, [], none⟩, rest) := by
  have hfraction : scanFraction? rest = some ([], rest) := by
    rw [scanFraction?]
    intro cs hcs
    exact (hrest '.' (by rw [hcs]; rfl)).2.1 rfl
  have hexponent : scanExponent? rest = some (none, rest) := by
    cases rest with
    | nil => rfl
    | cons c cs =>
      obtain ⟨-, -, he, hE⟩ := hrest c rfl
      simp [scanExponent?, he, hE]
  simp [scanUnsigned?, scanWhole?_natChars n hrest, hfraction, hexponent]

/-- The numeral of an integer is taken off the front of a text. -/
theorem scan?_intChars (n : Int) {rest : List Char} (hrest : EndsNumeral rest) :
    scan? (intChars n ++ rest) = some (ofInt n, rest) := by
  cases n with
  | ofNat n =>
    have hscan := scanUnsigned?_natChars false n hrest
    have hne : ∀ cs, natChars n ++ rest ≠ '-' :: cs := by
      intro cs hcs
      obtain ⟨c, ds, hds, hdigit⟩ := Text.exists_head_natChars n
      rw [hds] at hcs
      rw [(List.cons.inj hcs).1] at hdigit
      exact absurd hdigit (by decide)
    simp only [intChars]
    rw [scan?, hscan]
    · simp [ofInt]
    · exact hne
  | negSucc n =>
    have hscan := scanUnsigned?_natChars true (n + 1) hrest
    simp only [intChars, List.cons_append, scan?, hscan]
    simp [ofInt, Int.natAbs_negSucc]

/-- The numeral of an integer of 64 bits is read as the integer. -/
theorem toNumber?_ofInt (n : Int) (fits : -9223372036854775808 ≤ n ∧ n < 18446744073709551616) :
    (ofInt n).toNumber? = some (.int n fits) := by
  by_cases hn : n < 0
  · have hpositive : ¬ (decide (n < 0) = false ∧ n.natAbs < 18446744073709551616) := by
      simp [hn]
    have hnegative : decide (n < 0) = true ∧ 0 < n.natAbs ∧ n.natAbs ≤ 9223372036854775808 := by
      refine ⟨by simpa using hn, by omega, by omega⟩
    have hvalue : -(n.natAbs : Int) = n := by omega
    simp only [toNumber?, ofInt, Text.digitsValue_natChars, and_self, if_true,
      dif_neg hpositive, dif_pos hnegative, hvalue]
  · have hpositive : decide (n < 0) = false ∧ n.natAbs < 18446744073709551616 := by
      refine ⟨by simpa using hn, by omega⟩
    have hvalue : (n.natAbs : Int) = n := by omega
    simp only [toNumber?, ofInt, Text.digitsValue_natChars, and_self, if_true,
      dif_pos hpositive, hvalue]

end Numeral

end TxReceipt.Json
