import TxReceipt.Proofs.Decimal.Spelling
import TxReceipt.Settings.Environment

/-!
# Values of variables as texts

A variable's value is taken for a truth value, an integer or a double where it can be one, and a
setting that is a text has it written down again. `Recast` relates the value to that text, which is
another one wherever the value is not written as the program writes it: `007` becomes `7`.
-/

namespace TxReceipt

namespace Text

theorem trim_eq_empty_iff {s : String} : trim s = "" ↔ ∀ c ∈ s.toList, isBlank c = true := by
  have hempty : trim s = "" ↔ trimChars s.toList = [] := by
    rw [trim, ← String.toList_inj, String.toList_ofList]
    rfl
  rw [hempty]
  constructor
  · intro h
    obtain ⟨front, back, hfront, hback, hs⟩ := exists_blanks s.toList
    rw [h, List.append_nil] at hs
    rw [hs]
    exact List.forall_mem_append.mpr ⟨hfront, hback⟩
  · intro h
    have hnone : ∀ c ∈ ([] : List Char), isBlank c = true := fun _ => nofun
    have htrim := trimChars_append h hnone (List.forall_mem_nil fun c => isBlank c = false)
    rwa [List.append_nil, List.append_nil] at htrim

theorem trim_ne_empty {s : String} (h : ∃ c ∈ s.toList, isBlank c = false) : trim s ≠ "" := by
  obtain ⟨c, hc, hblank⟩ := h
  intro hempty
  rw [trim_eq_empty_iff.mp hempty c hc] at hblank
  cases hblank

/-- No blank is the small letter of another character. -/
theorem isBlank_eq_false_of_toLower {c : Char} (h : isBlank c.toLower = false) :
    isBlank c = false := by
  by_contra hblank
  have hsame : c.toLower = c := by
    apply Decimal.toLower_eq_self
    simp only [isBlank, Bool.or_eq_true, Bool.and_eq_true, decide_eq_true_eq, beq_iff_eq,
      Bool.not_eq_false] at hblank
    omega
  exact hblank (hsame ▸ h)

theorem exists_mem_natChars_not_isBlank (n : Nat) : ∃ c ∈ natChars n, isBlank c = false := by
  obtain ⟨c, hc⟩ := List.exists_mem_of_ne_nil _ (natChars_ne_nil n)
  exact ⟨c, hc, isBlank_of_isDigit (isDigit_of_mem_natChars hc)⟩

theorem exists_mem_intChars_not_isBlank (n : Int) : ∃ c ∈ intChars n, isBlank c = false := by
  cases n with
  | ofNat n => exact exists_mem_natChars_not_isBlank n
  | negSucc n => exact ⟨'-', .head _, by decide⟩

end Text

namespace Decimal

variable {cs : List Char} {x : Binary64}

theorem IsWord.exists_not_isBlank {word : String} (h : IsWord word cs)
    (hword : ∃ c ∈ word.toList, Text.isBlank c = false) : ∃ c ∈ cs, Text.isBlank c = false := by
  obtain ⟨c, hc, hblank⟩ := hword
  rw [← h, String.toList_ofList] at hc
  obtain ⟨d, hd, rfl⟩ := List.mem_map.mp hc
  exact ⟨d, hd, Text.isBlank_eq_false_of_toLower hblank⟩

theorem Spells.exists_not_isBlank (h : Spells cs x) : ∃ c ∈ cs, Text.isBlank c = false := by
  obtain ⟨c, rest, rfl, hc⟩ := h.start
  refine ⟨c, .head _, ?_⟩
  rcases hc with (hdigit | rfl) | hword | rfl | rfl
  · exact Text.isBlank_of_isDigit hdigit
  · decide
  · apply Text.isBlank_eq_false_of_toLower
    rcases hword with hc | hc <;> rw [hc] <;> decide
  · decide
  · decide

theorem Scientific.exists_not_isBlank (d : Scientific) :
    ∃ c ∈ d.positional, Text.isBlank c = false := by
  rw [Scientific.positional]
  split
  · obtain ⟨c, hc, hblank⟩ := Text.exists_mem_natChars_not_isBlank d.digits
    exact ⟨c, List.mem_append_left _ hc, hblank⟩
  · split
    · exact ⟨'.', by simp, by decide⟩
    · exact ⟨'.', by simp, by decide⟩

/-- No double is written with blanks alone. -/
theorem Binary64.exists_not_isBlank (x : Binary64) :
    ∃ c ∈ x.plainChars, Text.isBlank c = false := by
  rw [Binary64.plainChars]
  split
  · exact ⟨'i', by simp, by decide⟩
  · split
    · obtain ⟨c, hc, hblank⟩ := x.shortest.exists_not_isBlank
      exact ⟨c, List.mem_append_right _ hc, hblank⟩
    · exact ⟨'N', by simp, by decide⟩

end Decimal

namespace Settings

open Decimal (IsWord Spells)
open Text (NumeralOf)

def truthText (b : Bool) : String :=
  if b then "true" else "false"

/-- The text that a setting holds if a variable with the value sets it. -/
inductive Recast (value : String) : String → Prop
  | truth {b : Bool} (word : IsWord (truthText b) value.toList) : Recast value (truthText b)
  | integer {n : Int} (numeral : NumeralOf n value.toList)
    (fits : IntegerRange.int64.contains n = true) : Recast value (String.ofList (Text.intChars n))
  | number {x : Decimal.Binary64} (spelled : Spells value.toList x)
    (noInteger : ∀ n, NumeralOf n value.toList → IntegerRange.int64.contains n = false) :
    Recast value (String.ofList x.plainChars)
  | literal (noTruth : ∀ b, ¬ IsWord (truthText b) value.toList)
    (noNumber : ∀ x, ¬ Spells value.toList x) : Recast value value

variable {s t : String}

/-- No double starts as a word for a truth value does. -/
theorem not_isWord_of_spells {cs : List Char} {x : Decimal.Binary64} (h : Spells cs x) (b : Bool) :
    ¬ IsWord (truthText b) cs := by
  intro word
  obtain ⟨c, rest, rfl, hc⟩ := h.start
  have hstart : c.toLower = 't' ∨ c.toLower = 'f' := by
    have hhead := word.head?
    cases b
    · exact .inr (Option.some.inj hhead.symm)
    · exact .inl (Option.some.inj hhead.symm)
  rcases hc with hnumber | hword | rfl | rfl
  · rw [hnumber.toLower_eq] at hstart
    rcases hstart with rfl | rfl <;>
      exact absurd hnumber (by simp [Decimal.StartsNumber, Text.isDigit])
  · rcases hstart with hc | hc <;> simp [Decimal.StartsWord, hc] at hword
  · revert hstart
    decide
  · revert hstart
    decide

theorem nodeOfVariable_of_not_isWord (h : ∀ b, ¬ IsWord (truthText b) s.toList) :
    nodeOfVariable s = match Text.readIntWithin? .int64 s.toList with
      | some n => .int n
      | none => match Decimal.readBinary64? s.toList with
        | some x => .float x
        | none => .text s := by
  rw [nodeOfVariable]
  split
  · exact absurd ‹_› (h true)
  · exact absurd ‹_› (h false)
  · rfl

theorem asText?_of_recast (h : Recast s t) : (nodeOfVariable s).asText? = some t := by
  cases h with
  | @truth b word =>
    rw [IsWord] at word
    cases b <;> simp only [nodeOfVariable, word, truthText] <;> rfl
  | integer numeral fits =>
    obtain ⟨x, spelled⟩ := Spells.of_numeral numeral
    rw [nodeOfVariable_of_not_isWord (not_isWord_of_spells spelled),
      Text.readIntWithin?_eq_some_iff.mpr ⟨numeral, fits⟩]
    rfl
  | number spelled noInteger =>
    have hnone : Text.readIntWithin? .int64 s.toList = none := by
      apply Option.eq_none_iff_forall_ne_some.mpr
      intro n hn
      obtain ⟨numeral, fits⟩ := Text.readIntWithin?_eq_some_iff.mp hn
      rw [noInteger n numeral] at fits
      cases fits
    rw [nodeOfVariable_of_not_isWord (not_isWord_of_spells spelled), hnone,
      Decimal.readBinary64?_eq_some_iff.mpr spelled]
    rfl
  | literal noTruth noNumber =>
    have hnone : Text.readIntWithin? .int64 s.toList = none := by
      apply Option.eq_none_iff_forall_ne_some.mpr
      intro n hn
      obtain ⟨x, spelled⟩ := Spells.of_numeral (Text.readIntWithin?_eq_some_iff.mp hn).1
      exact noNumber x spelled
    have hnone' : Decimal.readBinary64? s.toList = none := by
      apply Option.eq_none_iff_forall_ne_some.mpr
      exact fun x hx => noNumber x (Decimal.readBinary64?_eq_some_iff.mp hx)
    rw [nodeOfVariable_of_not_isWord noTruth, hnone, hnone']
    rfl

/-- Every value becomes some text. -/
theorem exists_recast (s : String) : ∃ t, Recast s t := by
  by_cases htruth : ∃ b, IsWord (truthText b) s.toList
  · obtain ⟨b, word⟩ := htruth
    exact ⟨_, .truth word⟩
  by_cases hinteger : ∃ n, NumeralOf n s.toList ∧ IntegerRange.int64.contains n = true
  · obtain ⟨n, numeral, fits⟩ := hinteger
    exact ⟨_, .integer numeral fits⟩
  by_cases hnumber : ∃ x, Spells s.toList x
  · obtain ⟨x, spelled⟩ := hnumber
    refine ⟨_, .number spelled fun n numeral => ?_⟩
    exact Bool.eq_false_iff.mpr fun fits => hinteger ⟨n, numeral, fits⟩
  · exact ⟨s, .literal (not_exists.mp htruth) (not_exists.mp hnumber)⟩

/-- The text that a variable's value is as a node is the one that the relation names. -/
theorem asText?_nodeOfVariable : (nodeOfVariable s).asText? = some t ↔ Recast s t := by
  constructor
  · intro h
    obtain ⟨t', hrecast⟩ := exists_recast s
    rw [asText?_of_recast hrecast] at h
    cases h
    exact hrecast
  · exact asText?_of_recast

example : (nodeOfVariable "1e2").asText? = some "100" := by decide +kernel

theorem Recast.unique {t' : String} (h : Recast s t) (h' : Recast s t') : t = t' := by
  rw [← asText?_nodeOfVariable] at h h'
  exact Option.some.inj (h.symm.trans h')

/-- A value and the text it becomes are blank together. -/
theorem Recast.trim_eq_empty_iff (h : Recast s t) : Text.trim t = "" ↔ Text.trim s = "" := by
  cases h with
  | @truth b word =>
    have hletter : 'e' ∈ (truthText b).toList := by cases b <;> simp [truthText]
    have hword : ∃ c ∈ (truthText b).toList, Text.isBlank c = false := ⟨'e', hletter, by decide⟩
    have hvalue := word.exists_not_isBlank hword
    exact iff_of_false (Text.trim_ne_empty hword) (Text.trim_ne_empty hvalue)
  | @integer n numeral =>
    obtain ⟨x, spelled⟩ := Spells.of_numeral numeral
    have hwritten := Text.exists_mem_intChars_not_isBlank n
    rw [← String.toList_ofList (l := Text.intChars n)] at hwritten
    exact iff_of_false (Text.trim_ne_empty hwritten) (Text.trim_ne_empty spelled.exists_not_isBlank)
  | @number x spelled =>
    have hwritten := x.exists_not_isBlank
    rw [← String.toList_ofList (l := x.plainChars)] at hwritten
    exact iff_of_false (Text.trim_ne_empty hwritten) (Text.trim_ne_empty spelled.exists_not_isBlank)
  | literal => rfl

end Settings

end TxReceipt
