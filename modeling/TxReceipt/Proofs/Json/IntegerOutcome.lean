import TxReceipt.Proofs.Json.LooseInteger

/-!
# What comes of loose integers

Three kinds of words are read from loose integers. `WordKind.Outcome` says for each of them and for
every document which word comes of it or which fault is told, by what the document spells and not by
how it is read; `loose_integers_exact` says that this is what is read. A number in a text spells an
integer if it is written without point and exponent, and not as a zero with a sign.
-/

namespace TxReceipt

namespace Text

/-- The written integer is one of its spellings. -/
theorem spellsInt_toString (n : Int) : SpellsInt n (toString n).toList := by
  have hnone : ∀ c ∈ ([] : List Char), isBlank c = true := fun c hc => absurd hc List.not_mem_nil
  rw [toString_eq_intChars, String.toList_ofList]
  cases n with
  | ofNat n =>
    refine ⟨[], [], [], mem_signs_iff.mpr (.inl ⟨by simp, .inl rfl⟩), 0, hnone, hnone, ?_⟩
    simp [intChars]
  | negSucc n =>
    refine ⟨[], [], ['-'], mem_signs_iff.mpr (.inr ⟨by omega, rfl⟩), 0, hnone, hnone, ?_⟩
    simp [intChars]

/-- Blanks alone spell no integer, and a sign between blanks does not either. -/
theorem not_spellsInt_of_trimChars {cs : List Char} (h : trimChars cs ∈ [[], ['+'], ['-']])
    (n : Int) : ¬ SpellsInt n cs := by
  rw [← readInt?_trimChars_eq_some_iff]
  simp only [List.mem_cons, List.not_mem_nil, or_false] at h
  rcases h with h | h | h <;> rw [h] <;> exact fun hread => by cases hread

end Text

namespace Json

/-- The numeral is written as an integer: without point and exponent, and zero without a sign. -/
def Numeral.WritesInt (num : Numeral) (n : Int) : Prop :=
  num.fraction = [] ∧ num.exponent = none ∧
    ((num.negative = false ∧ n = Text.digitsValue num.whole) ∨
      (num.negative = true ∧ n = -(Text.digitsValue num.whole : Int) ∧ n ≠ 0))

theorem Numeral.toNumber?_eq_int_iff {num : Numeral} {n : Int}
    {fits : -9223372036854775808 ≤ n ∧ n < 18446744073709551616} :
    num.toNumber? = some (.int n fits) ↔ num.WritesInt n := by
  have hfloat : num.toBinary64?.map Number.float ≠ some (.int n fits) := by
    intro h
    obtain ⟨x, -, hx⟩ := Option.map_eq_some_iff.mp h
    cases hx
  simp only [toNumber?]
  constructor
  · intro h
    split at h
    · rename_i hplain
      refine ⟨hplain.1, hplain.2, ?_⟩
      split at h
      · rename_i hpositive
        cases h
        exact .inl ⟨hpositive.1, rfl⟩
      · split at h
        · rename_i hnegative
          cases h
          exact .inr ⟨hnegative.1, rfl, by omega⟩
        · exact absurd h hfloat
    · exact absurd h hfloat
  · rintro ⟨hfraction, hexponent, ⟨hsign, rfl⟩ | ⟨hsign, rfl, hzero⟩⟩
    · rw [if_pos ⟨hfraction, hexponent⟩, dif_pos ⟨hsign, by omega⟩]
    · rw [if_pos ⟨hfraction, hexponent⟩, dif_neg (by simp [hsign]),
        dif_pos ⟨hsign, by omega, by omega⟩]

/-- The numerals that spell an integer are written as one that fits 64 bits, with or without
sign. -/
theorem Document.spellsInt_ofNumeral_iff {num : Numeral} {n : Int} :
    (Document.ofNumeral num).SpellsInt n ↔
      num.WritesInt n ∧ -9223372036854775808 ≤ n ∧ n < 18446744073709551616 := by
  rw [Document.ofNumeral]
  constructor
  · intro h
    split at h
    · rename_i x hx
      cases h with
      | number fits => exact ⟨Numeral.toNumber?_eq_int_iff.mp hx, fits⟩
    · cases h
  · rintro ⟨hwrites, fits⟩
    have hnumber : num.toNumber? = some (.int n fits) := Numeral.toNumber?_eq_int_iff.mpr hwrites
    rw [hnumber]
    exact .number fits

theorem toInt_ofInt_of_contains {n : Int} (h : IntegerRange.int64.contains n = true) :
    (Int64.ofInt n).toInt = n := by
  simp only [IntegerRange.contains_iff, IntegerRange.int64] at h
  exact Int64.toInt_ofInt_of_le (by omega) (by omega)

theorem message_ofInt64 {n : Int} (h : IntegerRange.int64.contains n = true) :
    (IntegerFault.outOfRange (.ofInt64 (Int64.ofInt n))).message =
      "integer out of range: " ++ toString n := by
  have hchars : (Number.ofInt64 (Int64.ofInt n)).chars = Text.intChars n :=
    congrArg Text.intChars (toInt_ofInt_of_contains h)
  rw [Text.toString_eq_intChars, ← hchars]
  rfl

theorem looseIntegerWithin?_eq_error {range : IntegerRange} {v : Value} {fault : IntegerFault}
    (h : looseInteger? v = .error fault) : looseIntegerWithin? range v = .error fault := by
  rw [looseIntegerWithin?, h]
  rfl

namespace Document

theorem readPayload_eq_error {d : Document} {e : ReadError} (h : d.readPayload = .error e) :
    e = .malformed := by
  rw [readPayload, map_eq_error_iff, readValue] at h
  split at h <;> cases h
  rfl

theorem exists_array_of_readPayload {items : List Document} {closed : Bool} {v : Payload}
    (h : (array items closed).readPayload = .ok v) : ∃ vs, v.value = .array vs := by
  obtain ⟨w, hw, rfl⟩ := map_eq_ok_iff.mp h
  obtain ⟨vs, -, hclosed⟩ := Option.bind_eq_some_iff.mp (toValue?_of_readValue hw)
  cases closed <;> cases hclosed
  exact ⟨_, rfl⟩

theorem exists_object_of_readPayload {fields : List DocumentField} {closed : Bool} {v : Payload}
    (h : (object fields closed).readPayload = .ok v) : ∃ fs, v.value = .object fs := by
  obtain ⟨w, hw, rfl⟩ := map_eq_ok_iff.mp h
  obtain ⟨fs, -, hclosed⟩ := Option.bind_eq_some_iff.mp (toValue?_of_readValue hw)
  cases closed <;> cases hclosed
  exact ⟨_, rfl⟩

end Document

inductive WordKind where
  | int32
  | int64
  | uint64

namespace WordKind

def Word : WordKind → Type
  | .int32 => Int32
  | .int64 => Int64
  | .uint64 => UInt64

def toInt : (k : WordKind) → k.Word → Int
  | .int32, w => Int32.toInt w
  | .int64, w => Int64.toInt w
  | .uint64, w => (UInt64.toNat w : Int)

def range : WordKind → IntegerRange
  | .int32 => .int32
  | .int64 => .int64
  | .uint64 => .uint64

def read : (k : WordKind) → Document → Except ReadError k.Word
  | .int32, d => d.readLooseInt32
  | .int64, d => d.readLooseInt64
  | .uint64, d => d.readLooseUInt64

/-- The words of a kind hold the integers of its range. -/
theorem range_contains_iff {k : WordKind} {n : Int} :
    k.range.contains n = true ↔ ∃ w, k.toInt w = n := by
  rw [IntegerRange.contains_iff]
  cases k with
  | int32 =>
    constructor
    · simp only [range, IntegerRange.int32]
      rintro ⟨hlow, hhigh⟩
      exact ⟨Int32.ofInt n, Int32.toInt_ofInt_of_le (by omega) (by omega)⟩
    · rintro ⟨w, rfl⟩
      exact ⟨Int32.le_toInt w, Int.le_of_lt_add_one (Int32.toInt_lt w)⟩
  | int64 =>
    constructor
    · simp only [range, IntegerRange.int64]
      rintro ⟨hlow, hhigh⟩
      exact ⟨Int64.ofInt n, Int64.toInt_ofInt_of_le (by omega) (by omega)⟩
    · rintro ⟨w, rfl⟩
      exact ⟨Int64.le_toInt w, Int.le_of_lt_add_one (Int64.toInt_lt w)⟩
  | uint64 =>
    constructor
    · simp only [range, IntegerRange.uint64]
      rintro ⟨hlow, hhigh⟩
      have hsize : n.toNat < 18446744073709551616 := by omega
      have hvalue : (UInt64.ofNat n.toNat).toNat = n.toNat := UInt64.toNat_ofNat_of_lt' hsize
      exact ⟨UInt64.ofNat n.toNat, (congrArg Int.ofNat hvalue).trans (Int.toNat_of_nonneg hlow)⟩
    · rintro ⟨w, rfl⟩
      exact ⟨Int.natCast_nonneg _, Int.le_of_lt_add_one (Int.ofNat_lt.mpr (UInt64.toNat_lt w))⟩

/-- A word is read where its integer is. -/
theorem read_eq_ok_iff {k : WordKind} {d : Document} {w : k.Word} :
    k.read d = .ok w ↔ d.readLoose k.range = .ok (k.toInt w) := by
  have hword {n : Int} (h : d.readLoose k.range = .ok n) : ∃ v, k.toInt v = n :=
    range_contains_iff.mp (Document.readLoose_eq_ok_iff.mp h).2.2
  have hread {v : k.Word} (h : d.readLoose k.range = .ok (k.toInt v)) : k.read d = .ok v := by
    cases k with
    | int32 => exact map_eq_ok_iff.mpr ⟨_, h, Int32.ofInt_toInt v⟩
    | int64 => exact map_eq_ok_iff.mpr ⟨_, h, Int64.ofInt_toInt v⟩
    | uint64 => exact map_eq_ok_iff.mpr ⟨_, h, UInt64.ofNat_toNat⟩
  constructor
  · intro h
    have hsome : ∃ n, d.readLoose k.range = .ok n := by
      cases k with
      | int32 => exact (map_eq_ok_iff.mp h).imp fun _ => And.left
      | int64 => exact (map_eq_ok_iff.mp h).imp fun _ => And.left
      | uint64 => exact (map_eq_ok_iff.mp h).imp fun _ => And.left
    obtain ⟨n, hn⟩ := hsome
    obtain ⟨v, rfl⟩ := hword hn
    rw [hread hn] at h
    cases h
    exact hn
  · exact hread

theorem read_eq_error_iff {k : WordKind} {d : Document} {e : ReadError} :
    k.read d = .error e ↔ d.readLoose k.range = .error e := by
  cases k with
  | int32 => exact map_eq_error_iff
  | int64 => exact map_eq_error_iff
  | uint64 => exact map_eq_error_iff

theorem read_congr {k : WordKind} {d d' : Document}
    (h : d.readLoose k.range = d'.readLoose k.range) : k.read d = k.read d' := by
  cases k with
  | int32 => exact congrArg (Except.map Int32.ofInt) h
  | int64 => exact congrArg (Except.map Int64.ofInt) h
  | uint64 => exact congrArg (Except.map fun n => UInt64.ofNat n.toNat) h

/-- What comes of a document in the place of a word: the word, or what is told of the fault. A
document that holds no value has a fault of another kind. -/
inductive Outcome (k : WordKind) : Document → Except (Option String) k.Word → Prop
  | accepted {d : Document} {w : k.Word} (spells : d.SpellsInt (k.toInt w))
    (within : IntegerRange.int64.contains (k.toInt w) = true) : Outcome k d (.ok w)
  | misfit {d : Document} {n : Int} (spells : d.SpellsInt n)
    (within : IntegerRange.int64.contains n = true) (misfits : ∀ w, k.toInt w ≠ n) :
    Outcome k d (.error (some ("integer out of range: " ++ toString n)))
  | number {x : Number}
    (unspelled : ∀ n, (Document.number x).SpellsInt n → IntegerRange.int64.contains n = false) :
    Outcome k (.number x) (.error (some ("integer out of range: " ++ String.ofList x.chars)))
  | text {s : String}
    (unspelled : ∀ n, Text.SpellsInt n s.toList → IntegerRange.int64.contains n = false) :
    Outcome k (.text s) (.error (some ("invalid integer: " ++ s)))
  | bool (b : Bool) :
    Outcome k (.bool b) (.error (some ("expected integer, got " ++ (Value.bool b).compact)))
  | array {items : List Document} {closed : Bool} {v : Payload}
    (holds : (Document.array items closed).readPayload = .ok v) :
    Outcome k (.array items closed)
      (.error (some ("expected integer, got " ++ v.value.compact)))
  | object {fields : List DocumentField} {closed : Bool} {v : Payload}
    (holds : (Document.object fields closed).readPayload = .ok v) :
    Outcome k (.object fields closed)
      (.error (some ("expected integer, got " ++ v.value.compact)))
  | unheld {d : Document} (unheld : ∀ v, d.readPayload ≠ .ok v) : Outcome k d (.error none)

/-- Some outcome is right. -/
theorem exists_outcome (k : WordKind) (d : Document) : ∃ r, k.Outcome d r := by
  by_cases hheld : ∃ v, d.readPayload = .ok v
  · by_cases hspelled : ∃ n, d.SpellsInt n ∧ IntegerRange.int64.contains n = true
    · obtain ⟨n, hspells, hwithin⟩ := hspelled
      by_cases hword : ∃ w, k.toInt w = n
      · obtain ⟨w, rfl⟩ := hword
        exact ⟨_, .accepted hspells hwithin⟩
      · exact ⟨_, .misfit hspells hwithin (not_exists.mp hword)⟩
    · have hunspelled : ∀ n, d.SpellsInt n → IntegerRange.int64.contains n = false :=
        fun n hn => Bool.eq_false_iff.mpr fun hwithin => hspelled ⟨n, hn, hwithin⟩
      obtain ⟨v, hv⟩ := hheld
      cases d with
      | null => exact absurd (hunspelled 0 (.null rfl)) (by decide)
      | bool b => exact ⟨_, .bool b⟩
      | number x => exact ⟨_, .number hunspelled⟩
      | text s => exact ⟨_, .text fun n hn => hunspelled n (.text hn)⟩
      | array items closed => exact ⟨_, .array hv⟩
      | object fields closed => exact ⟨_, .object hv⟩
      | unholdable inner => cases hv
      | broken => cases hv
  · exact ⟨_, .unheld (not_exists.mp hheld)⟩

/-- A fault of the value is told of the document that holds it. -/
theorem read_eq_error_of_held {k : WordKind} {d : Document} {v : Payload} {fault : IntegerFault}
    (hv : d.readPayload = .ok v) (h : looseIntegerWithin? k.range v.value = .error fault) :
    (k.read d).mapError ReadError.cause? = .error (some fault.message) := by
  have hread : k.read d = .error (.integer fault) := by
    rw [read_eq_error_iff, Document.readLoose, hv]
    simp only [bind, Except.bind, h, Except.mapError]
  rw [hread]
  rfl

/-- The right outcome is what is read. -/
theorem Outcome.read_eq {k : WordKind} {d : Document} {r : Except (Option String) k.Word}
    (h : k.Outcome d r) : (k.read d).mapError ReadError.cause? = r := by
  cases h with
  | @accepted d w spells within =>
    have hfits : k.range.contains (k.toInt w) = true := range_contains_iff.mpr ⟨w, rfl⟩
    rw [mapError_eq_ok_iff, read_eq_ok_iff]
    exact Document.readLoose_eq_ok_iff.mpr ⟨spells, within, hfits⟩
  | @misfit d n spells within misfits =>
    obtain ⟨v, hv⟩ := spells.exists_readPayload
    have hinteger := (Document.looseInteger?_eq_ok_iff hv).mpr ⟨spells, within⟩
    have hmisfit : k.range.contains n = false := by
      rw [Bool.eq_false_iff, ne_eq, range_contains_iff]
      exact fun ⟨w, hw⟩ => misfits w hw
    have hfault : looseIntegerWithin? k.range v.value =
        .error (.outOfRange (.ofInt64 (Int64.ofInt n))) := by
      rw [looseIntegerWithin?, hinteger]
      simp only [bind, Except.bind, hmisfit, Bool.false_eq_true, if_false]
    rw [← message_ofInt64 within]
    exact read_eq_error_of_held hv hfault
  | @number x unspelled =>
    have hfault : looseInteger? (.number x) = .error (.outOfRange x) := by
      cases x with
      | int n fits =>
        simp only [looseInteger?, unspelled n (.number fits), Bool.false_eq_true, if_false]
      | float x => rfl
    exact read_eq_error_of_held (d := .number x) rfl (looseIntegerWithin?_eq_error hfault)
  | @text s unspelled =>
    have hnone : Text.readIntWithin? .int64 (Text.trimChars s.toList) = none := by
      apply Option.eq_none_iff_forall_ne_some.mpr
      intro n hn
      obtain ⟨hread, hwithin⟩ := Option.filter_eq_some_iff.mp hn
      rw [unspelled n (Text.readInt?_trimChars_eq_some_iff.mp hread)] at hwithin
      cases hwithin
    have hfault : looseInteger? (.text s) = .error (.notNumeral s) := by
      rw [looseInteger?, hnone]
    exact read_eq_error_of_held (d := .text s) rfl (looseIntegerWithin?_eq_error hfault)
  | bool b =>
    exact read_eq_error_of_held (d := .bool b) rfl
      (looseIntegerWithin?_eq_error (v := .bool b) rfl)
  | @array items closed v holds =>
    obtain ⟨vs, hvs⟩ := Document.exists_array_of_readPayload holds
    have hfault : looseInteger? v.value = .error (.notInteger v.value) := by
      rw [hvs]
      rfl
    exact read_eq_error_of_held holds (looseIntegerWithin?_eq_error hfault)
  | @object fields closed v holds =>
    obtain ⟨fs, hfs⟩ := Document.exists_object_of_readPayload holds
    have hfault : looseInteger? v.value = .error (.notInteger v.value) := by
      rw [hfs]
      rfl
    exact read_eq_error_of_held holds (looseIntegerWithin?_eq_error hfault)
  | @unheld d unheld =>
    have hread : k.read d = .error .malformed := by
      rw [read_eq_error_iff, Document.readLoose]
      cases hv : d.readPayload with
      | ok v => exact absurd hv (unheld v)
      | error e =>
        rw [Document.readPayload_eq_error hv]
        rfl
    rw [hread]
    rfl

theorem outcome_iff {k : WordKind} {d : Document} {r : Except (Option String) k.Word} :
    (k.read d).mapError ReadError.cause? = r ↔ k.Outcome d r := by
  constructor
  · rintro rfl
    obtain ⟨r, h⟩ := k.exists_outcome d
    rwa [h.read_eq]
  · exact Outcome.read_eq

/-- Of an integer of 64 bits and of its text the same comes. -/
theorem read_text_eq_read_number (k : WordKind) {n : Int}
    (fits : -9223372036854775808 ≤ n ∧ n < 18446744073709551616)
    (h : IntegerRange.int64.contains n = true) :
    k.read (.text (toString n)) = k.read (.number (.int n fits)) := by
  have htext : looseInteger? (.text (toString n)) = .ok n :=
    (Document.looseInteger?_eq_ok_iff (d := .text (toString n)) rfl).mpr
      ⟨.text (Text.spellsInt_toString n), h⟩
  have hnumber : looseInteger? (.number (.int n fits)) = .ok n :=
    (Document.looseInteger?_eq_ok_iff (d := .number (.int n fits)) rfl).mpr ⟨.number fits, h⟩
  have hsame : looseIntegerWithin? k.range (.text (toString n)) =
      looseIntegerWithin? k.range (.number (.int n fits)) := by
    rw [looseIntegerWithin?, looseIntegerWithin?, htext, hnumber]
  exact read_congr (congrArg (Except.mapError ReadError.integer) hsame)

end WordKind

/-- Of every document comes exactly its outcome, for each kind of word. A numeral of a text spells
an integer where it is written as one of up to 64 bits; a text that holds blanks alone, or a lone
sign, spells none; and an integer of 64 bits fares as its text does. -/
theorem loose_integers_exact (k : WordKind) :
    (∀ d r, (k.read d).mapError ReadError.cause? = r ↔ k.Outcome d r) ∧
    (∀ (num : Numeral) (n : Int), (Document.ofNumeral num).SpellsInt n ↔
      num.WritesInt n ∧ -9223372036854775808 ≤ n ∧ n < 18446744073709551616) ∧
    (∀ s : String, Text.trimChars s.toList ∈ [[], ['+'], ['-']] →
      ∀ n, ¬ Text.SpellsInt n s.toList) ∧
    ∀ (n : Int) (fits : -9223372036854775808 ≤ n ∧ n < 18446744073709551616),
      IntegerRange.int64.contains n = true →
      k.read (.text (toString n)) = k.read (.number (.int n fits)) :=
  ⟨fun _ _ => WordKind.outcome_iff, fun _ _ => Document.spellsInt_ofNumeral_iff,
    fun _ => Text.not_spellsInt_of_trimChars, fun _ fits => k.read_text_eq_read_number fits⟩

-- The integer is told, and not the text that spells it.
example : (WordKind.uint64.read (.text " -01 ")).mapError ReadError.cause? =
    .error (some "integer out of range: -1") :=
  rfl

end Json

end TxReceipt
