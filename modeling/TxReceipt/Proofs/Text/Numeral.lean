import TxReceipt.Text.Numeral

/-!
# Written numbers

The digits of a natural number are digits, denote the number, and start with zero for zero alone.
Every run of digits is the numeral of the number that it denotes, with zeros in front.
-/

namespace TxReceipt.Text

theorem isDigit_eq (c : Char) : isDigit c = c.isDigit := by
  simp only [isDigit, Char.isDigit, Char.le_def]

theorem isDigit_of_mem_natChars {n : Nat} {c : Char} (h : c ∈ natChars n) : isDigit c = true := by
  rw [isDigit_eq]
  exact Nat.isDigit_of_mem_toDigits (by decide) (by decide) h

theorem natChars_ne_nil (n : Nat) : natChars n ≠ [] :=
  Nat.toDigits_ne_nil

theorem digitsValue_natChars (n : Nat) : digitsValue (natChars n) = n := by
  have h := Nat.ofDigitChars_ten_toDigits (n := n)
  rw [Nat.ofDigitChars_eq_foldl] at h
  simp only [digitsValue, digitValue, natChars, Nat.mul_comm _ 10]
  exact h

theorem exists_head_natChars (n : Nat) : ∃ c cs, natChars n = c :: cs ∧ isDigit c = true := by
  cases h : natChars n with
  | nil => exact absurd h (natChars_ne_nil n)
  | cons c cs =>
    refine ⟨c, cs, rfl, isDigit_of_mem_natChars (n := n) ?_⟩
    rw [h]
    exact .head _

/-- A written integer starts with a digit or with a minus sign. -/
theorem exists_head_intChars (n : Int) :
    ∃ c cs, intChars n = c :: cs ∧ (isDigit c = true ∨ c = '-') := by
  cases n with
  | ofNat n =>
    obtain ⟨c, cs, hcs, hdigit⟩ := exists_head_natChars n
    exact ⟨c, cs, hcs, Or.inl hdigit⟩
  | negSucc n => exact ⟨'-', natChars (n + 1), rfl, Or.inr rfl⟩

theorem toString_eq_intChars (n : Int) : toString n = String.ofList (intChars n) := by
  cases n with
  | ofNat n => rfl
  | negSucc n =>
    apply String.toList_inj.mp
    simp [intChars, natChars, Int.repr, Nat.repr]

/-- A number other than zero does not start with the digit zero. -/
theorem head_natChars {n : Nat} (h : 0 < n) :
    ∃ c cs, natChars n = c :: cs ∧ isDigit c = true ∧ c ≠ '0' := by
  induction n using Nat.strongRecOn with
  | ind n ih =>
    by_cases hn : n < 10
    · refine ⟨n.digitChar, [], Nat.toDigits_of_lt_base hn, ?_, ?_⟩
      · apply isDigit_of_mem_natChars (n := n)
        rw [natChars, Nat.toDigits_of_lt_base hn]
        exact .head _
      · rw [ne_eq, Nat.digitChar_eq_zero]
        omega
    · obtain ⟨c, cs, hcs, hc⟩ := ih (n / 10) (by omega) (by omega)
      have hsplit := Nat.toDigits_of_base_le (b := 10) (n := n) (by decide) (by omega)
      refine ⟨c, cs ++ [(n % 10).digitChar], ?_, hc⟩
      rw [natChars, hsplit, ← List.cons_append, ← hcs]
      rfl

theorem natChars_zero : natChars 0 = ['0'] :=
  Nat.toDigits_zero 10

theorem isDigit_iff {c : Char} : isDigit c = true ↔ 48 ≤ c.toNat ∧ c.toNat ≤ 57 := by
  simp only [isDigit, Bool.and_eq_true, decide_eq_true_eq, Char.le_def, UInt32.le_iff_toNat_le]
  exact Iff.rfl

theorem digitChar_digitValue {c : Char} (h : isDigit c = true) :
    (digitValue c).digitChar = c ∧ digitValue c < 10 := by
  obtain ⟨hlow, hhigh⟩ := isDigit_iff.mp h
  have table : ∀ n < 10, Nat.digitChar n = Char.ofNat (48 + n) := by decide
  have hvalue : digitValue c = c.toNat - 48 := rfl
  have hsum : 48 + (c.toNat - 48) = c.toNat := by omega
  refine ⟨?_, by omega⟩
  rw [hvalue, table _ (by omega), hsum, Char.ofNat_toNat]

/-- More digits go on with a numeral that is not zero. -/
theorem natChars_foldl {n : Nat} (hn : 0 < n) {ds : List Char}
    (hds : ∀ c ∈ ds, isDigit c = true) :
    natChars (ds.foldl (fun n c => n * 10 + digitValue c) n) = natChars n ++ ds := by
  induction ds generalizing n with
  | nil => simp
  | cons c ds ih =>
    obtain ⟨hchar, hlt⟩ := digitChar_digitValue (hds c (.head _))
    have hone : natChars (n * 10 + digitValue c) = natChars n ++ [c] := by
      have hdiv : (n * 10 + digitValue c) / 10 = n := by omega
      have hmod : (n * 10 + digitValue c) % 10 = digitValue c := by omega
      rw [natChars, Nat.toDigits_of_base_le (by decide) (by omega), hdiv, hmod, hchar]
      rfl
    rw [List.foldl_cons, ih (by omega) fun d hd => hds d (.tail _ hd), hone, List.append_assoc,
      List.singleton_append]

theorem exists_zeros {ds : List Char} (hne : ds ≠ []) (hds : ∀ c ∈ ds, isDigit c = true) :
    ∃ zeros, ds = List.replicate zeros '0' ++ natChars (digitsValue ds) := by
  induction ds with
  | nil => exact absurd rfl hne
  | cons c ds ih =>
    obtain ⟨hchar, hlt⟩ := digitChar_digitValue (hds c (.head _))
    have hrest : ∀ d ∈ ds, isDigit d = true := fun d hd => hds d (.tail _ hd)
    have hvalue : digitsValue (c :: ds) =
        ds.foldl (fun n c => n * 10 + digitValue c) (digitValue c) := by
      simp [digitsValue]
    by_cases hzero : digitValue c = 0
    · have hc : c = '0' := by rw [← hchar, hzero]; rfl
      by_cases hds' : ds = []
      · refine ⟨0, ?_⟩
        rw [hc, hds']
        decide
      · obtain ⟨zeros, hzeros⟩ := ih hds' hrest
        refine ⟨zeros + 1, ?_⟩
        rw [hvalue, hzero, hc, List.replicate_succ, List.cons_append]
        exact congrArg _ hzeros
    · refine ⟨0, ?_⟩
      rw [hvalue, natChars_foldl (by omega) hrest, natChars, Nat.toDigits_of_lt_base hlt, hchar]
      rfl

theorem exists_zeros_of_readNat? {cs : List Char} {n : Nat} (h : readNat? cs = some n) :
    ∃ zeros, cs = List.replicate zeros '0' ++ natChars n := by
  rw [readNat?] at h
  split at h
  · rename_i hcs
    cases h
    exact exists_zeros hcs.1 (List.all_eq_true.mp hcs.2)
  · cases h

end TxReceipt.Text
