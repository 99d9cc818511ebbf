import TxReceipt.Amount
import TxReceipt.Proofs.Lists

/-!
# What amount texts state

Coins are counted by digits that a word follows, tokens of a collection by an amount and an id with
a colon between them. `Counted` says which amount a text states, also where it states none, and the
parsers find it. `Spelled` gives the grammar of coins by ranges of characters, and
`amount_texts_parsed_exactly` says that the parsers accept nothing else.
-/

namespace TxReceipt

namespace CoinAmount

/-- An amount of digits and a denomination that is a word and does not start with a digit. -/
structure WellFormed (coins : CoinAmount) : Prop where
  amount_ne : coins.amount.toList ≠ []
  digits : ∀ c ∈ coins.amount.toList, Text.isDigit c = true
  denomination_ne : coins.denomination.toList ≠ []
  word : ∀ c ∈ coins.denomination.toList, isDenominationChar c = true
  head : ∀ c ∈ coins.denomination.toList.head?, Text.isDigit c = false

/-- The amount that a text states; both parts are empty where the text is no such amount. -/
inductive Counted (text : String) : CoinAmount → Prop
  | stated {coins : CoinAmount} (wellFormed : coins.WellFormed)
      (written : text = coins.amount ++ coins.denomination) : Counted text coins
  | malformed (unwritten : ∀ coins : CoinAmount, coins.WellFormed →
      text ≠ coins.amount ++ coins.denomination) : Counted text ⟨"", ""⟩

theorem exists_counted (text : String) : ∃ coins, Counted text coins := by
  by_cases h : ∃ coins : CoinAmount,
      coins.WellFormed ∧ text = coins.amount ++ coins.denomination
  · obtain ⟨coins, wellFormed, written⟩ := h
    exact ⟨coins, .stated wellFormed written⟩
  · exact ⟨⟨"", ""⟩, .malformed fun coins wellFormed written => h ⟨coins, wellFormed, written⟩⟩

theorem parse_append {coins : CoinAmount} (h : coins.WellFormed) :
    parse (coins.amount ++ coins.denomination) = coins := by
  obtain ⟨htake, hdrop⟩ := Lists.takeWhile_dropWhile_append h.digits h.head
  have hword : coins.denomination.toList.all isDenominationChar = true :=
    List.all_eq_true.mpr h.word
  simp only [parse, String.toList_append, htake, hdrop]
  rw [if_pos ⟨h.amount_ne, h.denomination_ne, hword⟩, String.ofList_toList, String.ofList_toList]

/-- A text that is no amount of coins states none. -/
theorem parse_eq_of_unwritten {text : String} (unwritten : ∀ coins : CoinAmount,
    coins.WellFormed → text ≠ coins.amount ++ coins.denomination) : parse text = ⟨"", ""⟩ := by
  rw [parse, if_neg]
  rintro ⟨hamount, hword, hall⟩
  apply unwritten ⟨String.ofList (text.toList.takeWhile Text.isDigit),
    String.ofList (text.toList.dropWhile Text.isDigit)⟩
  · constructor <;> simp only [String.toList_ofList]
    · exact hamount
    · exact fun c => Lists.of_mem_takeWhile
    · exact hword
    · exact List.all_eq_true.mp hall
    · exact fun c => Lists.head?_dropWhile
  · rw [← String.ofList_append, List.takeWhile_append_dropWhile, String.ofList_toList]

theorem parse_eq_of_counted {text : String} {coins : CoinAmount} (h : Counted text coins) :
    parse text = coins := by
  cases h with
  | stated wellFormed written => rw [written, parse_append wellFormed]
  | malformed unwritten => exact parse_eq_of_unwritten unwritten

def IsDigit (c : Char) : Prop :=
  '0' ≤ c ∧ c ≤ '9'

def IsWordChar (c : Char) : Prop :=
  ('A' ≤ c ∧ c ≤ 'Z') ∨ ('a' ≤ c ∧ c ≤ 'z') ∨ IsDigit c ∨ c = '_'

/-- One or more digits, and then a word that does not start with a digit. -/
structure Spelled (text amount denomination : String) : Prop where
  joined : amount ++ denomination = text
  amount_ne : amount ≠ ""
  digits : ∀ c ∈ amount.toList, IsDigit c
  denomination_ne : denomination ≠ ""
  word : ∀ c ∈ denomination.toList, IsWordChar c
  head : ∀ c ∈ denomination.toList.head?, ¬ IsDigit c

theorem isDigit_eq_true_iff {c : Char} : Text.isDigit c = true ↔ IsDigit c := by
  rw [Text.isDigit, Bool.and_eq_true, decide_eq_true_eq, decide_eq_true_eq, IsDigit]

theorem isDenominationChar_iff {c : Char} : isDenominationChar c = true ↔ IsWordChar c := by
  have hupper : c.isUpper = decide ('A' ≤ c ∧ c ≤ 'Z') := rfl
  have hlower : c.isLower = (decide ('a' ≤ c) && decide (c ≤ 'z')) := rfl
  have hdigit : c.isDigit = Text.isDigit c := rfl
  have hword : c.isAlphanum = (c.isUpper || c.isLower || c.isDigit) := rfl
  rw [isDenominationChar, hword, hupper, hlower, hdigit, IsWordChar]
  simp only [Bool.or_eq_true, Bool.and_eq_true, decide_eq_true_eq, isDigit_eq_true_iff, beq_iff_eq,
    or_assoc]

theorem spelled_iff {text amount denomination : String} : Spelled text amount denomination ↔
    (⟨amount, denomination⟩ : CoinAmount).WellFormed ∧ text = amount ++ denomination := by
  have hdigit {c : Char} : Text.isDigit c = false ↔ ¬ IsDigit c := by
    rw [← isDigit_eq_true_iff, Bool.not_eq_true]
  constructor
  · rintro ⟨joined, amount_ne, digits, denomination_ne, word, head⟩
    refine ⟨⟨?_, ?_, ?_, ?_, ?_⟩, joined.symm⟩
    · exact fun h => amount_ne (String.toList_eq_nil_iff.mp h)
    · exact fun c hc => isDigit_eq_true_iff.mpr (digits c hc)
    · exact fun h => denomination_ne (String.toList_eq_nil_iff.mp h)
    · exact fun c hc => isDenominationChar_iff.mpr (word c hc)
    · exact fun c hc => hdigit.mpr (head c hc)
  · rintro ⟨⟨amount_ne, digits, denomination_ne, word, head⟩, joined⟩
    refine ⟨joined.symm, ?_, ?_, ?_, ?_, ?_⟩
    · exact fun h => amount_ne (String.toList_eq_nil_iff.mpr h)
    · exact fun c hc => isDigit_eq_true_iff.mp (digits c hc)
    · exact fun h => denomination_ne (String.toList_eq_nil_iff.mpr h)
    · exact fun c hc => isDenominationChar_iff.mp (word c hc)
    · exact fun c hc => hdigit.mp (head c hc)

/-- Two parts that are not empty are read of the texts of the grammar alone. -/
theorem parse_eq_iff_spelled {text amount denomination : String} :
    (parse text = ⟨amount, denomination⟩ ∧ amount ≠ "" ∧ denomination ≠ "") ↔
      Spelled text amount denomination := by
  constructor
  · rintro ⟨hparse, amount_ne, -⟩
    obtain ⟨coins, counted⟩ := exists_counted text
    obtain rfl : coins = ⟨amount, denomination⟩ := (parse_eq_of_counted counted).symm.trans hparse
    cases counted with
    | stated wellFormed written => exact spelled_iff.mpr ⟨wellFormed, written⟩
    | malformed => exact absurd rfl amount_ne
  · intro h
    obtain ⟨wellFormed, rfl⟩ := spelled_iff.mp h
    have hparse := parse_append wellFormed
    exact ⟨hparse, h.amount_ne, h.denomination_ne⟩

theorem parse_eq_of_not_spelled {text : String}
    (h : ¬ ∃ amount denomination, Spelled text amount denomination) : parse text = ⟨"", ""⟩ := by
  apply parse_eq_of_unwritten
  intro coins wellFormed written
  exact h ⟨coins.amount, coins.denomination, spelled_iff.mpr ⟨wellFormed, written⟩⟩

/-- No longer run of digits starts the text. -/
theorem Spelled.longest {text amount denomination : String} (h : Spelled text amount denomination)
    {run : List Char} (hrun : run <+: text.toList) (digits : ∀ c ∈ run, IsDigit c) :
    run <+: amount.toList := by
  obtain ⟨wellFormed, rfl⟩ := spelled_iff.mp h
  rw [String.toList_append] at hrun
  exact Lists.prefix_of_cut wellFormed.head hrun fun c hc => isDigit_eq_true_iff.mpr (digits c hc)

end CoinAmount

namespace CompositeAmount

/-- The amount and the token id that a text states; without a colon it states no id. -/
inductive Counted (text : String) : CompositeAmount → Prop
  | stated {amount tokenId : String} (uncut : ':' ∉ amount.toList)
      (written : text = amount ++ ":" ++ tokenId) : Counted text ⟨amount, tokenId⟩
  | amountAlone (uncut : ':' ∉ text.toList) : Counted text ⟨text, ""⟩

theorem exists_counted (text : String) : ∃ tokens, Counted text tokens := by
  by_cases cut : ':' ∈ text.toList
  · obtain ⟨amount, tokenId, written, uncut⟩ := List.eq_append_cons_of_mem cut
    refine ⟨⟨String.ofList amount, String.ofList tokenId⟩, .stated ?_ ?_⟩
    · rw [String.toList_ofList]
      exact uncut
    · apply String.toList_inj.mp
      simp [written]
  · exact ⟨⟨text, ""⟩, .amountAlone cut⟩

theorem ne_colon_of_notMem {cs : List Char} (h : ':' ∉ cs) : ∀ c ∈ cs, (c != ':') = true := by
  intro c hc
  have hne : c ≠ ':' := by rintro rfl; exact h hc
  simpa using hne

theorem parse_eq_of_counted {text : String} {tokens : CompositeAmount} (h : Counted text tokens) :
    parse text = tokens := by
  cases h with
  | @stated amount tokenId uncut written =>
    have hcolon : (":" : String).toList = [':'] := rfl
    have hstop : ∀ c ∈ (':' :: tokenId.toList).head?, (c != ':') = false := by
      rintro c ⟨⟩
      rfl
    obtain ⟨htake, hdrop⟩ :=
      Lists.takeWhile_dropWhile_append (ne_colon_of_notMem uncut) hstop
    simp only [parse, written, String.toList_append, hcolon, List.append_assoc,
      List.singleton_append, htake, hdrop, List.tail_cons, String.ofList_toList]
  | amountAlone uncut =>
    have hend : ∀ c ∈ ([] : List Char).head?, (c != ':') = false := by
      rintro c ⟨⟩
    have hcut := Lists.takeWhile_dropWhile_append (ne_colon_of_notMem uncut) hend
    rw [List.append_nil] at hcut
    obtain ⟨htake, hdrop⟩ := hcut
    simp only [parse, htake, hdrop, String.ofList_toList]
    rfl

/-- The amount ends in front of the first colon, and the id starts behind it. -/
theorem parse_spec (text : String) :
    ':' ∉ (parse text).amount.toList ∧
    (':' ∈ text.toList → (parse text).amount ++ ":" ++ (parse text).tokenId = text) ∧
    (':' ∉ text.toList → parse text = ⟨text, ""⟩) := by
  obtain ⟨tokens, counted⟩ := exists_counted text
  rw [parse_eq_of_counted counted]
  cases counted with
  | stated uncut written =>
    refine ⟨uncut, fun _ => written.symm, fun h => absurd ?_ h⟩
    simp [written]
  | amountAlone uncut => exact ⟨uncut, fun h => absurd h uncut, fun _ => rfl⟩

end CompositeAmount

/-- Amounts of coins are read of the texts of their grammar alone, with all leading digits as the
amount, and of every other text both parts are empty. Amounts of tokens are cut at the first
colon. -/
theorem amount_texts_parsed_exactly (text : String) :
    (∀ amount denomination : String,
      (CoinAmount.parse text = ⟨amount, denomination⟩ ∧ amount ≠ "" ∧ denomination ≠ "") ↔
        CoinAmount.Spelled text amount denomination) ∧
    (∀ amount denomination : String, CoinAmount.Spelled text amount denomination →
      amount ++ denomination = text ∧
      ∀ run : List Char, run <+: text.toList → (∀ c ∈ run, CoinAmount.IsDigit c) →
        run <+: amount.toList) ∧
    ((¬ ∃ amount denomination, CoinAmount.Spelled text amount denomination) →
      CoinAmount.parse text = ⟨"", ""⟩) ∧
    ':' ∉ (CompositeAmount.parse text).amount.toList ∧
    (':' ∈ text.toList → (CompositeAmount.parse text).amount ++ ":" ++
      (CompositeAmount.parse text).tokenId = text) ∧
    (':' ∉ text.toList → CompositeAmount.parse text = ⟨text, ""⟩) ∧
    ∀ amount tokenId : String, ':' ∉ amount.toList →
      CompositeAmount.parse (amount ++ ":" ++ tokenId) = ⟨amount, tokenId⟩ := by
  obtain ⟨uncut, hjoined, halone⟩ := CompositeAmount.parse_spec text
  refine ⟨fun _ _ => CoinAmount.parse_eq_iff_spelled, fun amount denomination spelled => ?_,
    CoinAmount.parse_eq_of_not_spelled, uncut, hjoined, halone, fun amount tokenId free => ?_⟩
  · exact ⟨spelled.joined, fun run hrun digits => spelled.longest hrun digits⟩
  · exact CompositeAmount.parse_eq_of_counted (.stated free rfl)

end TxReceipt
