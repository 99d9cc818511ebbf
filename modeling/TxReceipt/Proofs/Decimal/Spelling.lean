import Mathlib
import TxReceipt.Decimal.Parse
import TxReceipt.Proofs.Json.LooseInteger

/-!
# Spellings of doubles

`Spells` is the grammar of the texts that are read as doubles: a sign, which may be missing, and
then a word for infinity or NaN, or digits, with a point among them or at their ends and an exponent
behind them, of which both may be missing. `readBinary64?_eq_some_iff` says that these texts are
read and no others. All numerals of integers are among them.
-/

namespace TxReceipt

namespace Text

/-- The text is a numeral of the integer: a sign, which may be missing where the integer is not
negative, and digits, of which zeros may come first. -/
def NumeralOf (n : Int) (cs : List Char) : Prop :=
  ∃ sign ∈ signs n, ∃ zeros, cs = sign ++ (List.replicate zeros '0' ++ natChars n.natAbs)

theorem readInt?_eq_some_iff {n : Int} {cs : List Char} :
    readInt? cs = some n ↔ NumeralOf n cs := by
  constructor
  · exact exists_numeral_of_readInt?
  · rintro ⟨sign, hsign, zeros, rfl⟩
    exact readInt?_numeral hsign zeros

theorem readIntWithin?_eq_some_iff {range : IntegerRange} {n : Int} {cs : List Char} :
    readIntWithin? range cs = some n ↔ NumeralOf n cs ∧ range.contains n = true := by
  rw [readIntWithin?, Option.filter_eq_some_iff, readInt?_eq_some_iff]

end Text

namespace Decimal

open Text (isDigit NumeralOf)

variable {cs : List Char} {x : Binary64} {e : Int}

/-- The text is the word, in letters of either case. -/
def IsWord (word : String) (cs : List Char) : Prop :=
  String.ofList (cs.map Char.toLower) = word

inductive SpellsExponent : List Char → Int → Prop
  | absent : SpellsExponent [] 0
  | stated {mark : Char} {cs : List Char} {e : Int} (letter : mark = 'e' ∨ mark = 'E')
    (numeral : NumeralOf e cs) : SpellsExponent (mark :: cs) e

/-- A number without a sign, or a word for one that is not finite. -/
inductive SpellsMagnitude : List Char → Binary64 → Prop
  | infinity {cs : List Char} (word : IsWord "inf" cs ∨ IsWord "infinity" cs) :
    SpellsMagnitude cs .infinity
  | nan {cs : List Char} (word : IsWord "nan" cs) : SpellsMagnitude cs .nan
  | whole {digits exponent : List Char} {e : Int} (nonempty : digits ≠ [])
    (areDigits : ∀ c ∈ digits, isDigit c = true) (exponentSpelled : SpellsExponent exponent e) :
    SpellsMagnitude (digits ++ exponent) (ofScientific digits e)
  | pointed {whole fraction exponent : List Char} {e : Int} (nonempty : whole ++ fraction ≠ [])
    (areDigits : ∀ c ∈ whole ++ fraction, isDigit c = true)
    (exponentSpelled : SpellsExponent exponent e) :
    SpellsMagnitude (whole ++ '.' :: (fraction ++ exponent))
      (ofScientific (whole ++ fraction) (e - fraction.length))

/-- A double with a sign, which may be missing. -/
inductive Spells : List Char → Binary64 → Prop
  | unsigned {cs : List Char} {x : Binary64} (magnitude : SpellsMagnitude cs x) : Spells cs x
  | plus {cs : List Char} {x : Binary64} (magnitude : SpellsMagnitude cs x) : Spells ('+' :: cs) x
  | minus {cs : List Char} {x : Binary64} (magnitude : SpellsMagnitude cs x) :
    Spells ('-' :: cs) x.negate

theorem readExponent?_eq_some_iff : readExponent? cs = some e ↔ SpellsExponent cs e := by
  constructor
  · intro h
    cases cs with
    | nil =>
      cases h
      exact .absent
    | cons mark cs =>
      rw [readExponent?] at h
      split at h
      · rename_i letter
        exact .stated letter (Text.readInt?_eq_some_iff.mp h)
      · cases h
  · intro h
    cases h with
    | absent => rfl
    | stated letter numeral =>
      rw [readExponent?, if_pos letter]
      exact Text.readInt?_eq_some_iff.mpr numeral

/-- No digit and no point is at the start of an exponent. -/
theorem SpellsExponent.head (h : SpellsExponent cs e) :
    ∀ c ∈ cs.head?, isDigit c = false ∧ c ≠ '.' := by
  cases h with
  | absent => exact nofun
  | stated letter numeral =>
    rintro c ⟨⟩
    rcases letter with rfl | rfl <;> decide

theorem readUnsigned?_whole {digits exponent : List Char} (nonempty : digits ≠ [])
    (areDigits : ∀ c ∈ digits, isDigit c = true) (h : SpellsExponent exponent e) :
    readUnsigned? (digits ++ exponent) = some (ofScientific digits e) := by
  obtain ⟨htake, hdrop⟩ := Lists.takeWhile_dropWhile_append areDigits fun c hc => (h.head c hc).1
  have hread := readExponent?_eq_some_iff.mpr h
  simp only [readUnsigned?, htake, hdrop]
  split
  · rename_i rest _
    exact absurd rfl (h.head '.' rfl).2
  · rw [if_neg fun hnone => nonempty hnone.1, hread]
    simp

theorem readUnsigned?_pointed {whole fraction exponent : List Char}
    (nonempty : whole ++ fraction ≠ []) (areDigits : ∀ c ∈ whole ++ fraction, isDigit c = true)
    (h : SpellsExponent exponent e) :
    readUnsigned? (whole ++ '.' :: (fraction ++ exponent)) =
      some (ofScientific (whole ++ fraction) (e - fraction.length)) := by
  obtain ⟨hwhole, hfraction⟩ := List.forall_mem_append.mp areDigits
  have hpoint : ∀ c ∈ ('.' :: (fraction ++ exponent)).head?, isDigit c = false := by
    rintro _ ⟨⟩
    rfl
  obtain ⟨htake, hdrop⟩ := Lists.takeWhile_dropWhile_append hwhole hpoint
  obtain ⟨htake', hdrop'⟩ :=
    Lists.takeWhile_dropWhile_append hfraction fun c hc => (h.head c hc).1
  have hread := readExponent?_eq_some_iff.mpr h
  simp only [readUnsigned?, htake, hdrop, htake', hdrop']
  rw [if_neg fun hnone => nonempty (by rw [hnone.1, hnone.2]; rfl), hread]
  rfl

theorem spellsMagnitude_of_readUnsigned? (h : readUnsigned? cs = some x) :
    SpellsMagnitude cs x := by
  have hwhole : ∀ c ∈ cs.takeWhile isDigit, isDigit c = true := fun c => Lists.of_mem_takeWhile
  have hcut : cs.takeWhile isDigit ++ cs.dropWhile isDigit = cs := List.takeWhile_append_dropWhile
  simp only [readUnsigned?] at h
  generalize cs.takeWhile isDigit = whole at h hwhole hcut
  generalize cs.dropWhile isDigit = left at h hcut
  subst hcut
  split at h
  · rename_i tail
    have hfraction : ∀ c ∈ tail.takeWhile isDigit, isDigit c = true :=
      fun c => Lists.of_mem_takeWhile
    have hcut : tail.takeWhile isDigit ++ tail.dropWhile isDigit = tail :=
      List.takeWhile_append_dropWhile
    simp only at h
    generalize tail.takeWhile isDigit = fraction at h hfraction hcut
    generalize tail.dropWhile isDigit = exponent at h hcut
    subst hcut
    split at h
    · cases h
    · rename_i hsome
      obtain ⟨e, hexponent, rfl⟩ := Option.map_eq_some_iff.mp h
      exact .pointed (fun hnone => hsome (List.append_eq_nil_iff.mp hnone))
        (List.forall_mem_append.mpr ⟨hwhole, hfraction⟩) (readExponent?_eq_some_iff.mp hexponent)
  · simp only [and_true] at h
    split at h
    · cases h
    · rename_i hsome
      obtain ⟨e, hexponent, rfl⟩ := Option.map_eq_some_iff.mp h
      have hvalue : ofScientific (whole ++ []) (e - ([] : List Char).length) =
          ofScientific whole e := by
        rw [List.append_nil, List.length_nil, Int.ofNat_zero, Int.sub_zero]
      rw [hvalue]
      exact .whole hsome hwhole (readExponent?_eq_some_iff.mp hexponent)

def StartsNumber (c : Char) : Prop :=
  isDigit c = true ∨ c = '.'

/-- The small letters that words for what is not finite start with. -/
def StartsWord (c : Char) : Prop :=
  c.toLower = 'i' ∨ c.toLower = 'n'

theorem exists_start_whole {digits exponent : List Char} (nonempty : digits ≠ [])
    (areDigits : ∀ c ∈ digits, isDigit c = true) :
    ∃ c rest, digits ++ exponent = c :: rest ∧ StartsNumber c := by
  cases digits with
  | nil => exact absurd rfl nonempty
  | cons c digits => exact ⟨c, digits ++ exponent, rfl, .inl (areDigits c (.head _))⟩

theorem exists_start_pointed {whole tail : List Char}
    (areDigits : ∀ c ∈ whole, isDigit c = true) :
    ∃ c rest, whole ++ '.' :: tail = c :: rest ∧ StartsNumber c := by
  cases whole with
  | nil => exact ⟨'.', tail, rfl, .inr rfl⟩
  | cons c whole => exact ⟨c, whole ++ '.' :: tail, rfl, .inl (areDigits c (.head _))⟩

theorem IsWord.head? {word : String} (h : IsWord word cs) :
    word.toList.head? = cs.head?.map Char.toLower := by
  rw [← h, String.toList_ofList, List.head?_map]

theorem IsWord.exists_startsWord {word : String} (h : IsWord word cs)
    (hword : word.toList.head? = some 'i' ∨ word.toList.head? = some 'n') :
    ∃ c rest, cs = c :: rest ∧ StartsWord c := by
  rw [h.head?] at hword
  cases cs with
  | nil => rcases hword with hi | hn <;> contradiction
  | cons c rest =>
    exact ⟨c, rest, rfl, hword.imp Option.some.inj Option.some.inj⟩

theorem toLower_eq_self {c : Char} (h : c.toNat < 65 ∨ 90 < c.toNat) : c.toLower = c := by
  apply Char.toLower_eq_of_not_isUpper
  intro hupper
  have hrange : 65 ≤ c.toNat ∧ c.toNat ≤ 90 := by
    simpa [Char.isUpper, UInt32.le_iff_toNat_le] using hupper
  omega

theorem StartsNumber.toLower_eq {c : Char} (h : StartsNumber c) : c.toLower = c := by
  apply toLower_eq_self
  rcases h with hdigit | rfl
  · have hrange := Text.isDigit_iff.mp hdigit
    omega
  · decide

/-- No word for what is not finite starts as a number does. -/
theorem StartsNumber.not_startsWord {c : Char} (h : StartsNumber c) : ¬ StartsWord c := by
  rw [StartsWord, h.toLower_eq]
  rintro (rfl | rfl) <;> exact absurd h (by simp [StartsNumber, isDigit])

/-- What is read without a sign starts as a number or as a word. -/
theorem SpellsMagnitude.start (h : SpellsMagnitude cs x) :
    ∃ c rest, cs = c :: rest ∧ (StartsNumber c ∨ StartsWord c) := by
  cases h with
  | infinity word =>
    obtain ⟨c, rest, rfl, hc⟩ := word.elim (fun h => h.exists_startsWord (.inl (by decide)))
      fun h => h.exists_startsWord (.inl (by decide))
    exact ⟨c, rest, rfl, .inr hc⟩
  | nan word =>
    obtain ⟨c, rest, rfl, hc⟩ := word.exists_startsWord (.inr (by decide))
    exact ⟨c, rest, rfl, .inr hc⟩
  | whole nonempty areDigits =>
    obtain ⟨c, rest, h, hc⟩ := exists_start_whole nonempty areDigits
    exact ⟨c, rest, h, .inl hc⟩
  | pointed _ areDigits =>
    obtain ⟨c, rest, h, hc⟩ := exists_start_pointed (List.forall_mem_append.mp areDigits).1
    exact ⟨c, rest, h, .inl hc⟩

theorem readMagnitude?_of_startsNumber {c : Char} (h : StartsNumber c) :
    readMagnitude? (c :: cs) = readUnsigned? (c :: cs) := by
  -- The words are tried first, and none of them fits.
  have hno {word : String} (hi : word.toList.head? = some 'i' ∨ word.toList.head? = some 'n') :
      ¬ IsWord word (c :: cs) := by
    intro hword
    obtain ⟨_, _, ⟨⟩, hc⟩ := hword.exists_startsWord hi
    exact h.not_startsWord hc
  rw [readMagnitude?]
  split
  · exact absurd ‹_› (hno (.inl (by decide)))
  · exact absurd ‹_› (hno (.inl (by decide)))
  · exact absurd ‹_› (hno (.inr (by decide)))
  · rfl

theorem readMagnitude?_eq_some_iff : readMagnitude? cs = some x ↔ SpellsMagnitude cs x := by
  constructor
  · intro h
    rw [readMagnitude?] at h
    split at h
    · cases h
      exact .infinity (.inl ‹_›)
    · cases h
      exact .infinity (.inr ‹_›)
    · cases h
      exact .nan ‹_›
    · exact spellsMagnitude_of_readUnsigned? h
  · intro h
    cases h with
    | infinity word =>
      simp only [IsWord] at word
      rcases word with word | word <;> simp only [readMagnitude?, word]
    | nan word =>
      rw [IsWord] at word
      simp only [readMagnitude?, word]
    | whole nonempty areDigits exponentSpelled =>
      have hread := readUnsigned?_whole nonempty areDigits exponentSpelled
      obtain ⟨c, rest, hstart, hc⟩ := exists_start_whole nonempty areDigits
      rw [hstart] at hread ⊢
      rw [readMagnitude?_of_startsNumber hc, hread]
    | pointed nonempty areDigits exponentSpelled =>
      have hread := readUnsigned?_pointed nonempty areDigits exponentSpelled
      obtain ⟨c, rest, hstart, hc⟩ :=
        exists_start_pointed (List.forall_mem_append.mp areDigits).1
      rw [hstart] at hread ⊢
      rw [readMagnitude?_of_startsNumber hc, hread]

theorem ne_sign_of_start {c : Char} (h : StartsNumber c ∨ StartsWord c) : c ≠ '+' ∧ c ≠ '-' := by
  constructor <;> rintro rfl <;> exact absurd h (by simp [StartsNumber, StartsWord, isDigit])

/-- The texts of the grammar are read as doubles, and no others. -/
theorem readBinary64?_eq_some_iff : readBinary64? cs = some x ↔ Spells cs x := by
  constructor
  · intro h
    rw [readBinary64?.eq_def] at h
    split at h
    · exact .plus (readMagnitude?_eq_some_iff.mp h)
    · obtain ⟨y, hread, rfl⟩ := Option.map_eq_some_iff.mp h
      exact .minus (readMagnitude?_eq_some_iff.mp hread)
    · exact .unsigned (readMagnitude?_eq_some_iff.mp h)
  · intro h
    cases h with
    | unsigned magnitude =>
      have hread := readMagnitude?_eq_some_iff.mpr magnitude
      obtain ⟨c, rest, rfl, hc⟩ := magnitude.start
      obtain ⟨hplus, hminus⟩ := ne_sign_of_start hc
      rw [readBinary64?.eq_def]
      split
      · rename_i heq
        exact absurd (List.cons.inj heq).1 hplus
      · rename_i heq
        exact absurd (List.cons.inj heq).1 hminus
      · exact hread
    | plus magnitude => rw [readBinary64?, readMagnitude?_eq_some_iff.mpr magnitude]
    | minus magnitude => rw [readBinary64?, readMagnitude?_eq_some_iff.mpr magnitude]; rfl

theorem Spells.of_numeral {n : Int} (h : NumeralOf n cs) : ∃ x, Spells cs x := by
  obtain ⟨sign, hsign, zeros, rfl⟩ := h
  have hdigits : ∀ c ∈ List.replicate zeros '0' ++ Text.natChars n.natAbs, isDigit c = true :=
    fun c => Text.isDigit_of_mem_digits
  have hmagnitude := SpellsMagnitude.whole (by simp [Text.natChars_ne_nil]) hdigits .absent
  rw [List.append_nil] at hmagnitude
  rcases Text.mem_signs_iff.mp hsign with ⟨-, rfl | rfl⟩ | ⟨-, rfl⟩
  · exact ⟨_, .unsigned hmagnitude⟩
  · exact ⟨_, .plus hmagnitude⟩
  · exact ⟨_, .minus hmagnitude⟩

/-- A double starts as a number or as a word, or with a sign. -/
theorem Spells.start (h : Spells cs x) :
    ∃ c rest, cs = c :: rest ∧ (StartsNumber c ∨ StartsWord c ∨ c = '+' ∨ c = '-') := by
  cases h with
  | unsigned magnitude =>
    obtain ⟨c, rest, rfl, hc⟩ := magnitude.start
    exact ⟨c, rest, rfl, hc.imp_right .inl⟩
  | @plus cs => exact ⟨'+', cs, rfl, .inr (.inr (.inl rfl))⟩
  | @minus cs => exact ⟨'-', cs, rfl, .inr (.inr (.inr rfl))⟩

end Decimal

end TxReceipt
