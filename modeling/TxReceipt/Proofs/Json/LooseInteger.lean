import TxReceipt.Json.LooseInteger
import TxReceipt.Proofs.Json.Depth
import TxReceipt.Proofs.Json.ReadBack
import TxReceipt.Proofs.Lists
import TxReceipt.Proofs.Text.Numeral

/-!
# Spellings of loose integers

A loose integer may be written as a JSON integer, as null if it is zero, or as a text: a numeral
with blanks around it, zeros in front of its digits, and a plus sign where it is not negative.
`readLoose_eq_ok_iff` says that just these spellings are read as the integer, where it fits 64 bits
with sign and its place.
-/

namespace TxReceipt

namespace Text

/-- The signs that an integer may be written with; zero takes each of them. -/
def signs (n : Int) : List (List Char) :=
  (if 0 ≤ n then [[], ['+']] else []) ++ if n ≤ 0 then [['-']] else []

/-- The text holds a numeral of the integer, perhaps with zeros in front and blanks around it. -/
def SpellsInt (n : Int) (cs : List Char) : Prop :=
  ∃ front back : List Char, ∃ sign ∈ signs n, ∃ zeros : Nat,
    (∀ c ∈ front, isBlank c = true) ∧ (∀ c ∈ back, isBlank c = true) ∧
    cs = front ++ (sign ++ (List.replicate zeros '0' ++ natChars n.natAbs)) ++ back

theorem trimChars_append {front core back : List Char} (hfront : ∀ c ∈ front, isBlank c = true)
    (hback : ∀ c ∈ back, isBlank c = true) (hcore : ∀ c ∈ core, isBlank c = false) :
    trimChars (front ++ core ++ back) = core := by
  have hends : ∀ cs : List Char, (∀ c ∈ cs, isBlank c = false) → cs.dropWhile isBlank = cs := by
    intro cs hcs
    cases cs with
    | nil => rfl
    | cons c cs => exact List.dropWhile_cons_of_neg (by simp [hcs c (.head _)])
  have hright : (back.reverse ++ core.reverse).dropWhile isBlank = core.reverse := by
    rw [List.dropWhile_append_of_pos fun c hc => hback c (List.mem_reverse.mp hc)]
    exact hends _ fun c hc => hcore c (List.mem_reverse.mp hc)
  rw [trimChars, List.append_assoc, List.dropWhile_append_of_pos hfront]
  cases core with
  | nil =>
    have hnone : (back ++ []).dropWhile isBlank = [] := List.dropWhile_append_of_pos hback
    rw [List.append_nil] at hnone
    rw [List.nil_append, hnone]
    rfl
  | cons c core =>
    have hleft : (c :: core ++ back).dropWhile isBlank = c :: core ++ back :=
      List.dropWhile_cons_of_neg (by simp [hcore c (.head _)])
    rw [hleft, List.reverse_append, hright, List.reverse_reverse]

theorem isBlank_of_isDigit {c : Char} (h : isDigit c = true) : isBlank c = false := by
  have hrange := isDigit_iff.mp h
  simp only [isBlank, Bool.or_eq_false_iff, Bool.and_eq_false_iff, decide_eq_false_iff_not,
    beq_eq_false_iff_ne]
  omega

/-- What is trimmed off a text at its ends is blank. -/
theorem exists_blanks (cs : List Char) : ∃ front back : List Char,
    (∀ c ∈ front, isBlank c = true) ∧ (∀ c ∈ back, isBlank c = true) ∧
    cs = front ++ trimChars cs ++ back := by
  let middle := cs.dropWhile isBlank
  refine ⟨cs.takeWhile isBlank, (middle.reverse.takeWhile isBlank).reverse, ?_, ?_, ?_⟩
  · exact fun c => Lists.of_mem_takeWhile
  · intro c hc
    exact Lists.of_mem_takeWhile (List.mem_reverse.mp hc)
  · have hback : trimChars cs ++ (middle.reverse.takeWhile isBlank).reverse = middle := by
      rw [trimChars, ← List.reverse_append, List.takeWhile_append_dropWhile, List.reverse_reverse]
    rw [List.append_assoc, hback, List.takeWhile_append_dropWhile]

theorem digitsValue_zeros (zeros : Nat) (ds : List Char) :
    digitsValue (List.replicate zeros '0' ++ ds) = digitsValue ds := by
  induction zeros with
  | zero => rfl
  | succ zeros ih =>
    rw [List.replicate_succ, List.cons_append]
    exact ih

theorem isDigit_of_mem_digits {zeros n : Nat} {c : Char}
    (h : c ∈ List.replicate zeros '0' ++ natChars n) : isDigit c = true := by
  rcases List.mem_append.mp h with hzero | hdigit
  · rw [List.eq_of_mem_replicate hzero]
    rfl
  · exact isDigit_of_mem_natChars hdigit

theorem readNat?_digits (zeros n : Nat) :
    readNat? (List.replicate zeros '0' ++ natChars n) = some n := by
  have hne : List.replicate zeros '0' ++ natChars n ≠ [] := by simp [natChars_ne_nil]
  have hall : (List.replicate zeros '0' ++ natChars n).all isDigit = true :=
    List.all_eq_true.mpr fun c => isDigit_of_mem_digits
  rw [readNat?, if_pos ⟨hne, hall⟩, digitsValue_zeros, digitsValue_natChars]

/-- Without a sign the first character decides nothing. -/
theorem readInt?_of_isDigit {cs : List Char} (h : ∀ c ∈ cs, isDigit c = true) :
    readInt? cs = (readNat? cs).map fun n => (n : Int) := by
  rw [readInt?.eq_def]
  split
  · exact absurd (h '+' (.head _)) (by decide)
  · exact absurd (h '-' (.head _)) (by decide)
  · rfl

theorem mem_signs_iff {n : Int} {sign : List Char} :
    sign ∈ signs n ↔ (0 ≤ n ∧ (sign = [] ∨ sign = ['+'])) ∨ (n ≤ 0 ∧ sign = ['-']) := by
  by_cases h : 0 ≤ n <;> by_cases h' : n ≤ 0 <;> simp [signs, h, h', or_assoc]

theorem readInt?_numeral {n : Int} {sign : List Char} (hsign : sign ∈ signs n) (zeros : Nat) :
    readInt? (sign ++ (List.replicate zeros '0' ++ natChars n.natAbs)) = some n := by
  have hread := readNat?_digits zeros n.natAbs
  rcases mem_signs_iff.mp hsign with ⟨hn, rfl | rfl⟩ | ⟨hn, rfl⟩
  · have hvalue : (n.natAbs : Int) = n := by omega
    rw [List.nil_append, readInt?_of_isDigit fun c => isDigit_of_mem_digits, hread]
    exact congrArg some hvalue
  · have hvalue : (n.natAbs : Int) = n := by omega
    rw [List.singleton_append, readInt?, hread]
    exact congrArg some hvalue
  · have hvalue : -(n.natAbs : Int) = n := by omega
    rw [List.singleton_append, readInt?, hread]
    exact congrArg some hvalue

theorem isBlank_of_mem_numeral {n : Int} {sign : List Char} (hsign : sign ∈ signs n) {zeros : Nat}
    {c : Char} (h : c ∈ sign ++ (List.replicate zeros '0' ++ natChars n.natAbs)) :
    isBlank c = false := by
  rcases List.mem_append.mp h with hc | hc
  · rcases mem_signs_iff.mp hsign with ⟨-, rfl | rfl⟩ | ⟨-, rfl⟩
    · cases hc
    · rw [List.mem_singleton.mp hc]
      decide
    · rw [List.mem_singleton.mp hc]
      decide
  · exact isBlank_of_isDigit (isDigit_of_mem_digits hc)

/-- Without blanks, a numeral is a sign and digits, of which zeros may come first. -/
theorem exists_numeral_of_readInt? {cs : List Char} {n : Int} (h : readInt? cs = some n) :
    ∃ sign ∈ signs n, ∃ zeros, cs = sign ++ (List.replicate zeros '0' ++ natChars n.natAbs) := by
  rw [readInt?.eq_def] at h
  split at h
  · rename_i cs
    cases hm : readNat? cs with
    | none => simp [hm] at h
    | some m =>
      obtain rfl : (m : Int) = n := by simpa [hm] using h
      obtain ⟨zeros, rfl⟩ := exists_zeros_of_readNat? hm
      exact ⟨['+'], mem_signs_iff.mpr (Or.inl ⟨by omega, Or.inr rfl⟩), zeros, by simp⟩
  · rename_i cs
    cases hm : readNat? cs with
    | none => simp [hm] at h
    | some m =>
      obtain rfl : -(m : Int) = n := by simpa [hm] using h
      obtain ⟨zeros, rfl⟩ := exists_zeros_of_readNat? hm
      exact ⟨['-'], mem_signs_iff.mpr (Or.inr ⟨by omega, rfl⟩), zeros, by simp⟩
  · cases hm : readNat? cs with
    | none => simp [hm] at h
    | some m =>
      obtain rfl : (m : Int) = n := by simpa [hm] using h
      obtain ⟨zeros, rfl⟩ := exists_zeros_of_readNat? hm
      exact ⟨[], mem_signs_iff.mpr (Or.inl ⟨by omega, Or.inl rfl⟩), zeros, by simp⟩

/-- The spellings of an integer are the texts that are read as the integer. -/
theorem readInt?_trimChars_eq_some_iff {n : Int} {cs : List Char} :
    readInt? (trimChars cs) = some n ↔ SpellsInt n cs := by
  constructor
  · intro h
    obtain ⟨front, back, hfront, hback, hcs⟩ := exists_blanks cs
    obtain ⟨sign, hsign, zeros, hnumeral⟩ := exists_numeral_of_readInt? h
    exact ⟨front, back, sign, hsign, zeros, hfront, hback, hnumeral ▸ hcs⟩
  · rintro ⟨front, back, sign, hsign, zeros, hfront, hback, rfl⟩
    rw [trimChars_append hfront hback fun c => isBlank_of_mem_numeral hsign]
    exact readInt?_numeral hsign zeros

end Text

namespace Json

open Document (readLoose)

inductive Document.SpellsInt (n : Int) : Document → Prop where
  | number (fits : -9223372036854775808 ≤ n ∧ n < 18446744073709551616) :
    Document.SpellsInt n (.number (.int n fits))
  | text {s : String} (h : Text.SpellsInt n s.toList) : Document.SpellsInt n (.text s)
  | null (h : n = 0) : Document.SpellsInt n .null

theorem looseIntegerWithin?_eq_ok_iff {range : IntegerRange} {v : Value} {n : Int} :
    looseIntegerWithin? range v = .ok n ↔ looseInteger? v = .ok n ∧ range.contains n = true := by
  rw [looseIntegerWithin?]
  cases looseInteger? v with
  | error e => simp [bind, Except.bind]
  | ok m =>
    cases hm : range.contains m with
    | true =>
      simp only [bind, Except.bind, hm, if_true, Except.ok.injEq]
      exact ⟨fun h => ⟨h, h ▸ hm⟩, And.left⟩
    | false =>
      simp only [bind, Except.bind, hm, Bool.false_eq_true, if_false, Except.ok.injEq]
      constructor
      · intro h
        cases h
      · rintro ⟨rfl, hcontains⟩
        rw [hm] at hcontains
        cases hcontains

namespace Document

/-- A document spells at most one integer. -/
theorem SpellsInt.unique {d : Document} {m n : Int} (hm : d.SpellsInt m) (hn : d.SpellsInt n) :
    m = n := by
  cases hm with
  | number fits =>
    cases hn
    rfl
  | text hm =>
    cases hn with
    | text hn =>
      rw [← Text.readInt?_trimChars_eq_some_iff] at hm hn
      exact Option.some.inj (hm.symm.trans hn)
  | null hm =>
    cases hn with
    | null hn => rw [hm, hn]

/-- What spells an integer is a value. -/
theorem SpellsInt.exists_readPayload {d : Document} {n : Int} (h : d.SpellsInt n) :
    ∃ v, d.readPayload = .ok v := by
  cases h <;> exact ⟨_, rfl⟩

/-- The integer of what a document holds is the one that it spells, if it fits 64 bits with sign. -/
theorem looseInteger?_eq_ok_iff {d : Document} {v : Payload} (h : d.readPayload = .ok v) {n : Int} :
    looseInteger? v.value = .ok n ↔ d.SpellsInt n ∧ IntegerRange.int64.contains n = true := by
  obtain ⟨w, hw, rfl⟩ := map_eq_ok_iff.mp h
  cases d with
  | null =>
    cases hw
    constructor
    · intro hloose
      cases hloose
      exact ⟨.null rfl, by decide⟩
    · rintro ⟨⟨⟩, -⟩
      rename_i hn
      rw [hn]
      rfl
  | bool b =>
    cases hw
    exact iff_of_false (by rintro ⟨⟩) (by rintro ⟨⟨⟩, -⟩)
  | number x =>
    cases hw
    cases x with
    | int m fits =>
      simp only [Payload.ofValue, Value.sorted, looseInteger?]
      constructor
      · intro hloose
        split at hloose
        · rename_i hm
          cases hloose
          exact ⟨.number fits, hm⟩
        · cases hloose
      · rintro ⟨⟨⟩, hcontains⟩
        rw [if_pos hcontains]
    | float x => exact iff_of_false (by rintro ⟨⟩) (by rintro ⟨⟨⟩, -⟩)
  | text s =>
    cases hw
    simp only [Payload.ofValue, Value.sorted, looseInteger?, Text.readIntWithin?]
    constructor
    · intro hloose
      split at hloose
      · rename_i m hm
        cases hloose
        obtain ⟨hread, hcontains⟩ := Option.filter_eq_some_iff.mp hm
        exact ⟨.text (Text.readInt?_trimChars_eq_some_iff.mp hread), hcontains⟩
      · cases hloose
    · rintro ⟨hspells, hcontains⟩
      cases hspells with
      | text hspells =>
        rw [Text.readInt?_trimChars_eq_some_iff.mpr hspells, Option.filter_some, if_pos hcontains]
  | array items closed =>
    obtain ⟨vs, -, hclosed⟩ := Option.bind_eq_some_iff.mp (toValue?_of_readValue hw)
    cases closed <;> cases hclosed
    exact iff_of_false (by rintro ⟨⟩) (by rintro ⟨⟨⟩, -⟩)
  | object fields closed =>
    obtain ⟨fs, -, hclosed⟩ := Option.bind_eq_some_iff.mp (toValue?_of_readValue hw)
    cases closed <;> cases hclosed
    exact iff_of_false (by rintro ⟨⟩) (by rintro ⟨⟨⟩, -⟩)
  | unholdable d => cases hw
  | broken => cases hw

/-- A loose integer is read exactly of what spells it, where it fits 64 bits with sign and its
place. -/
theorem readLoose_eq_ok_iff {d : Document} {range : IntegerRange} {n : Int} :
    d.readLoose range = .ok n ↔
      d.SpellsInt n ∧ IntegerRange.int64.contains n = true ∧ range.contains n = true := by
  have hread {v : Payload} (hv : d.readPayload = .ok v) :
      (looseIntegerWithin? range v.value).mapError ReadError.integer = .ok n ↔
        d.SpellsInt n ∧ IntegerRange.int64.contains n = true ∧ range.contains n = true := by
    rw [mapError_eq_ok_iff, looseIntegerWithin?_eq_ok_iff, looseInteger?_eq_ok_iff hv, and_assoc]
  constructor
  · intro h
    obtain ⟨v, hv, h⟩ := bind_eq_ok_iff.mp h
    exact (hread hv).mp h
  · intro h
    obtain ⟨v, hv⟩ := h.1.exists_readPayload
    exact bind_eq_ok_iff.mpr ⟨v, hv, (hread hv).mpr h⟩

end Document

namespace Value

variable {α : Type} {x : α}

/-- An integer of both ranges is read as what is made of it. -/
theorem readsAs_loose {range : IntegerRange} {n : Int}
    {fits : -9223372036854775808 ≤ n ∧ n < 18446744073709551616} (ofInt : Int → α)
    (h64 : IntegerRange.int64.contains n = true) (hrange : range.contains n = true)
    (hx : ofInt n = x) :
    (number (.int n fits)).ReadsAs (fun d => (d.readLoose range).map ofInt) x := by
  have hread : readLoose range (.number (.int n fits)) = .ok n :=
    Document.readLoose_eq_ok_iff.mpr ⟨.number fits, h64, hrange⟩
  apply readsAs_of_sorted_eq rfl
  rw [toDocument, hread, ← hx]
  rfl

theorem readsAs_looseInt32 (n : Int32) :
    (number (.ofInt32 n)).ReadsAs Document.readLooseInt32 n := by
  have hlow := n.le_toInt
  have hhigh := n.toInt_lt
  refine readsAs_loose Int32.ofInt ?_ ?_ n.ofInt_toInt
  · exact IntegerRange.contains_iff.mpr ⟨by simp only [IntegerRange.int64]; omega,
      by simp only [IntegerRange.int64]; omega⟩
  · exact IntegerRange.contains_iff.mpr ⟨hlow, Int.lt_add_one_iff.mp hhigh⟩

theorem readsAs_looseInt64 (n : Int64) :
    (number (.ofInt64 n)).ReadsAs Document.readLooseInt64 n := by
  have hcontains : IntegerRange.int64.contains n.toInt = true :=
    IntegerRange.contains_iff.mpr ⟨n.le_toInt, Int.lt_add_one_iff.mp n.toInt_lt⟩
  exact readsAs_loose Int64.ofInt hcontains hcontains n.ofInt_toInt

/-- An unsigned integer is read back only if it fits 64 bits with sign too. -/
theorem readsAs_looseUInt64 {n : UInt64} (h : n.toNat < 9223372036854775808) :
    (number (.ofUInt64 n)).ReadsAs Document.readLooseUInt64 n := by
  refine readsAs_loose (fun n => UInt64.ofNat n.toNat) ?_ ?_ ?_
  · exact IntegerRange.contains_iff.mpr ⟨by simp only [IntegerRange.int64]; omega,
      by simp only [IntegerRange.int64]; omega⟩
  · exact IntegerRange.contains_iff.mpr ⟨by simp only [IntegerRange.uint64]; omega,
      by simp only [IntegerRange.uint64]; omega⟩
  · rw [Int.toNat_natCast, UInt64.ofNat_toNat]

end Value

end Json

end TxReceipt
