import Mathlib
import TxReceipt.Proofs.Account.Checksum
import TxReceipt.Proofs.Except

/-!
# What bech32 texts say

A text is determined, up to the case of its letters, by its human-readable part in lower case and
its symbols: the separator is the last one, each symbol has one lower-case character, and the
checksum is the only one that fits. `decode_encode` and `encode_of_decode` say so in the two
directions.
-/

namespace TxReceipt.Account.Bech32

theorem symbolOfChar?_symbolChar (s : Symbol) : symbolOfChar? (symbolChar s) = some s := by
  revert s
  decide

theorem symbolChar_of_symbolOfChar? {c : Char} {s : Symbol} (h : symbolOfChar? c = some s) :
    symbolChar s = c.toLower := by
  simpa using List.find?_some h

theorem symbolChar_ne_separator (s : Symbol) : symbolChar s ≠ '1' := by
  revert s
  decide

theorem toNat_symbolChar_lt (s : Symbol) : (symbolChar s).toNat < 128 := by
  revert s
  decide

def LetterCase.admits : LetterCase → Char → Bool
  | .lower, c => !c.isUpper
  | .upper, c => !c.isLower

/-- No other case has been seen. -/
def LetterCase.Agrees (k : LetterCase) (seen : Option LetterCase) : Prop :=
  ∀ j ∈ seen, j = k

theorem LetterCase.agrees_none (k : LetterCase) : k.Agrees none := by
  intro j hj
  cases hj

theorem LetterCase.exists_agrees (seen : Option LetterCase) : ∃ k : LetterCase, k.Agrees seen := by
  cases seen with
  | none => exact ⟨.lower, LetterCase.agrees_none _⟩
  | some k => exact ⟨k, fun j hj => (Option.some.inj hj).symm⟩

/-- A character is passed by a reader that has seen one case exactly if the case admits it. -/
theorem exists_seeCase_iff (k : LetterCase) (seen : Option LetterCase) (c : Char) :
    (∃ next, seeCase seen c = .ok next ∧ k.Agrees next) ↔ k.Agrees seen ∧ k.admits c = true := by
  by_cases hl : c.isLower = true
  · have hu : ¬ c.isUpper = true := Char.not_isUpper_of_isLower hl
    rcases seen with _ | _ | _ <;> cases k <;>
      simp [seeCase, LetterCase.Agrees, LetterCase.admits, hl, hu]
  · by_cases hu : c.isUpper = true
    · rcases seen with _ | _ | _ <;> cases k <;>
        simp [seeCase, LetterCase.Agrees, LetterCase.admits, hl, hu]
    · rcases seen with _ | _ | _ <;> cases k <;>
        simp [seeCase, LetterCase.Agrees, LetterCase.admits, hl, hu]

theorem admits_symbolChar (s : Symbol) : LetterCase.lower.admits (symbolChar s) = true := by
  revert s
  decide

theorem admits_toLower (c : Char) : LetterCase.lower.admits c.toLower = true := by
  simp [LetterCase.admits]

def Visible (c : Char) : Prop :=
  33 ≤ c.toNat ∧ c.toNat ≤ 126

instance (c : Char) : Decidable (Visible c) :=
  inferInstanceAs (Decidable (_ ∧ _))

/-- A human-readable part: some visible characters, of one byte each, whose letters have one
case. -/
structure IsPart (part : List Char) : Prop where
  ne_nil : part ≠ []
  length_le : part.length ≤ maxPartLength
  visible : ∀ c ∈ part, Visible c
  oneCase : ∃ k : LetterCase, ∀ c ∈ part, k.admits c = true

theorem utf8EncodeChar_of_visible {c : Char} (h : Visible c) :
    ∃ b : UInt8, String.utf8EncodeChar c = [b] ∧ b.toNat = c.toNat := by
  have hle : c.val ≤ 127 := by
    have hval : c.val.toNat = c.toNat := rfl
    have hbound := h.2
    rw [UInt32.le_iff_toNat_le, hval]
    exact Nat.le_trans hbound (by decide)
  refine ⟨c.val.toUInt8, String.utf8EncodeChar_eq_singleton (Char.utf8Size_eq_one_iff.mpr hle), ?_⟩
  have hval : c.val.toNat = c.toNat := rfl
  have hbound := h.2
  rw [UInt32.toNat_toUInt8, hval]
  omega

/-- The first byte of any other character is not visible either. -/
theorem utf8EncodeChar_of_not_visible {c : Char} (h : ¬ Visible c) :
    ∃ (b : UInt8) (bytes : List UInt8), String.utf8EncodeChar c = b :: bytes ∧
      ¬ (33 ≤ b ∧ b ≤ 126) := by
  have hval : c.val.toNat = c.toNat := rfl
  have hvisible : ¬ (33 ≤ c.toNat ∧ c.toNat ≤ 126) := h
  rw [String.utf8EncodeChar, hval]
  -- One case for each number of bytes a character can have.
  split_ifs
  all_goals
    refine ⟨_, _, rfl, ?_⟩
    simp only [UInt8.le_iff_toNat_le, UInt8.toNat_ofNat', UInt8.reduceToNat]
    omega

theorem length_utf8Bytes_of_visible {cs : List Char} (h : ∀ c ∈ cs, Visible c) :
    (utf8Bytes cs).length = cs.length := by
  induction cs with
  | nil => rfl
  | cons c cs ih =>
    obtain ⟨b, hb, -⟩ := utf8EncodeChar_of_visible (h c List.mem_cons_self)
    have hrest := ih fun d hd => h d (List.mem_cons_of_mem _ hd)
    simp only [utf8Bytes, List.flatMap_cons, List.length_append, hb, List.length_cons,
      List.length_nil] at hrest ⊢
    omega

/-- The bytes of a part pass exactly if its characters are visible and of one case. -/
theorem exists_checkPartBytes_iff (k : LetterCase) (cs : List Char) (seen : Option LetterCase) :
    (∃ last, checkPartBytes seen (utf8Bytes cs) = .ok last ∧ k.Agrees last) ↔
      k.Agrees seen ∧ ∀ c ∈ cs, Visible c ∧ k.admits c = true := by
  induction cs generalizing seen with
  | nil => simp [utf8Bytes, checkPartBytes]
  | cons c cs ih =>
    by_cases hc : Visible c
    · obtain ⟨b, hb, hnat⟩ := utf8EncodeChar_of_visible hc
      have hbytes : utf8Bytes (c :: cs) = b :: utf8Bytes cs := by
        rw [utf8Bytes, List.flatMap_cons, hb]
        rfl
      have hrange : 33 ≤ b ∧ b ≤ 126 := by
        simp only [UInt8.le_iff_toNat_le, UInt8.reduceToNat, hnat]
        exact hc
      have hchar : Char.ofNat b.toNat = c := by rw [hnat, Char.ofNat_toNat]
      rw [hbytes, checkPartBytes]
      simp only [hrange, hchar, and_self, if_true, bind_eq_ok_iff, List.forall_mem_cons, hc,
        true_and]
      constructor
      · rintro ⟨last, ⟨next, hnext, hlast⟩, hagrees⟩
        obtain ⟨hnextAgrees, hrest⟩ := (ih next).mp ⟨last, hlast, hagrees⟩
        obtain ⟨hseen, hadmits⟩ := (exists_seeCase_iff k seen c).mp ⟨next, hnext, hnextAgrees⟩
        exact ⟨hseen, hadmits, hrest⟩
      · rintro ⟨hseen, hadmits, hrest⟩
        obtain ⟨next, hnext, hnextAgrees⟩ := (exists_seeCase_iff k seen c).mpr ⟨hseen, hadmits⟩
        obtain ⟨last, hlast, hagrees⟩ := (ih next).mpr ⟨hnextAgrees, hrest⟩
        exact ⟨last, ⟨next, hnext, hlast⟩, hagrees⟩
    · obtain ⟨b, bytes, hb, hrange⟩ := utf8EncodeChar_of_not_visible hc
      have hbytes : utf8Bytes (c :: cs) = b :: (bytes ++ utf8Bytes cs) := by
        rw [utf8Bytes, List.flatMap_cons, hb]
        rfl
      rw [hbytes, checkPartBytes]
      simp [hrange, hc]

/-- The check of a part passes exactly the parts, and has seen no case but theirs. -/
theorem exists_checkPart_iff (k : LetterCase) (part : List Char) :
    (∃ seen, checkPart part = .ok seen ∧ k.Agrees seen) ↔
      part ≠ [] ∧ part.length ≤ maxPartLength ∧ ∀ c ∈ part, Visible c ∧ k.admits c = true := by
  have hbytes := exists_checkPartBytes_iff k part none
  -- The check counts bytes; these are the characters only where all of them are visible.
  by_cases hvisible : ∀ c ∈ part, Visible c ∧ k.admits c = true
  · have hlength := length_utf8Bytes_of_visible fun c hc => (hvisible c hc).1
    have hempty : utf8Bytes part = [] ↔ part = [] := by
      rw [← List.length_eq_zero_iff, hlength, List.length_eq_zero_iff]
    have hchecked := hbytes.mpr ⟨LetterCase.agrees_none k, hvisible⟩
    simp only [checkPart, List.isEmpty_iff, Bool.or_eq_true, hempty, hlength, decide_eq_true_eq]
    by_cases hbad : part = [] ∨ maxPartLength < part.length
    · rw [if_pos hbad]
      constructor
      · rintro ⟨seen, h, -⟩
        cases h
      · rintro ⟨hne, hle, -⟩
        rcases hbad with hbad | hbad
        · exact absurd hbad hne
        · omega
    · rw [if_neg hbad]
      rw [not_or, Nat.not_lt] at hbad
      exact ⟨fun _ => ⟨hbad.1, hbad.2, hvisible⟩, fun _ => hchecked⟩
  · constructor
    · rintro ⟨seen, h, hagrees⟩
      rw [checkPart] at h
      split at h
      · cases h
      · exact absurd (hbytes.mp ⟨seen, h, hagrees⟩).2 hvisible
    · rintro ⟨-, -, h⟩
      exact absurd h hvisible

theorem IsPart.exists_checkPart {part : List Char} (h : IsPart part) :
    ∃ seen, checkPart part = .ok seen := by
  obtain ⟨k, hk⟩ := h.oneCase
  obtain ⟨seen, hseen, -⟩ := (exists_checkPart_iff k part).mpr
    ⟨h.ne_nil, h.length_le, fun c hc => ⟨h.visible c hc, hk c hc⟩⟩
  exact ⟨seen, hseen⟩

theorem isPart_of_checkPart {part : List Char} {seen : Option LetterCase}
    (h : checkPart part = .ok seen) : IsPart part := by
  obtain ⟨k, hk⟩ := LetterCase.exists_agrees seen
  obtain ⟨hne, hle, hall⟩ := (exists_checkPart_iff k part).mp ⟨seen, h, hk⟩
  exact ⟨hne, hle, fun c hc => (hall c hc).1, k, fun c hc => (hall c hc).2⟩

theorem visible_toLower {c : Char} (h : Visible c) : Visible c.toLower := by
  by_cases hu : c.isUpper = true
  · have hcode : c.toNat + 32 ≤ 126 ∧ 33 ≤ c.toNat := by
      simp only [Char.isUpper, decide_eq_true_eq, UInt32.le_iff_toNat_le] at hu
      have hval : c.val.toNat = c.toNat := rfl
      have hz : ('Z' : Char).val.toNat = 90 := rfl
      have ha : ('A' : Char).val.toNat = 65 := rfl
      omega
    have hvalid : (c.toNat + 32).isValidChar := Or.inl (by omega)
    have hlower : c.toLower.toNat = c.toNat + 32 := by
      rw [Char.toLower_eq_of_isUpper hu, Char.toNat_ofNat, if_pos hvalid]
    rw [Visible, hlower]
    omega
  · rw [Char.toLower_eq_of_not_isUpper hu]
    exact h

/-- A part in lower case is a part, and all case seen in it is lower. -/
theorem IsPart.exists_checkPart_lowerPart {part : List Char} (h : IsPart part) :
    ∃ seen, checkPart (lowerPart part) = .ok seen ∧ LetterCase.lower.Agrees seen := by
  refine (exists_checkPart_iff .lower (lowerPart part)).mpr ⟨?_, ?_, ?_⟩
  · simpa [lowerPart] using h.ne_nil
  · simpa [lowerPart] using h.length_le
  · intro c hc
    obtain ⟨d, hd, rfl⟩ := List.mem_map.mp hc
    exact ⟨visible_toLower (h.visible d hd), admits_toLower d⟩

theorem lowerPart_lowerPart (part : List Char) : lowerPart (lowerPart part) = lowerPart part := by
  rw [lowerPart, lowerPart, List.map_map]
  exact List.map_congr_left fun c _ => Char.toLower_toLower_eq_toLower c

theorem toLower_eq_ofList (text : String) :
    text.toLower = String.ofList (lowerPart text.toList) := by
  apply String.toList_injective
  rw [String.toLower, String.toList_map, String.toList_ofList, lowerPart]

theorem toLower_eq_self {text : String} (h : ∀ c ∈ text.toList, c.isUpper = false) :
    text.toLower = text := by
  have hchars : lowerPart text.toList = text.toList := by
    refine (List.map_congr_left fun c hc => ?_).trans (List.map_id _)
    exact Char.toLower_eq_of_not_isUpper (by rw [h c hc]; decide)
  rw [toLower_eq_ofList, hchars, String.ofList_toList]

/-- The cut is at the last separator. -/
theorem splitLast?_eq_some_iff {cs part data : List Char} :
    splitLast? cs = some (part, data) ↔ cs = part ++ '1' :: data ∧ '1' ∉ data := by
  constructor
  · intro h
    rw [splitLast?] at h
    split at h
    · cases h
    · next c rest hrest =>
      injection h with h
      injection h with hpart hdata
      have hc : c = '1' := by
        have hhead := List.head_dropWhile_not (p := (· != '1')) (l := cs.reverse) (by simp [hrest])
        simpa [hrest] using hhead
      have hback : cs.reverse = cs.reverse.takeWhile (· != '1') ++ c :: rest := by
        rw [← hrest, List.takeWhile_append_dropWhile]
      have hcs : cs = part ++ '1' :: data := by
        have := congrArg List.reverse hback
        rw [List.reverse_reverse] at this
        rw [this, ← hpart, ← hdata, hc]
        simp
      refine ⟨hcs, fun hmem => ?_⟩
      rw [← hdata, List.mem_reverse] at hmem
      simpa using List.mem_takeWhile_imp hmem
  · rintro ⟨rfl, hdata⟩
    have hall : ∀ c ∈ data.reverse, (c != '1') = true := by
      intro c hc
      rw [bne_iff_ne]
      rintro rfl
      exact hdata (List.mem_reverse.mp hc)
    have hreverse : (part ++ '1' :: data).reverse = data.reverse ++ '1' :: part.reverse := by simp
    simp only [splitLast?, hreverse, List.dropWhile_append_of_pos hall,
      List.takeWhile_append_of_pos hall]
    simp

theorem readSymbols_map_symbolChar (symbols : List Symbol) {seen : Option LetterCase}
    (h : LetterCase.lower.Agrees seen) :
    readSymbols seen (symbols.map symbolChar) = .ok symbols := by
  induction symbols generalizing seen with
  | nil => rfl
  | cons s symbols ih =>
    obtain ⟨next, hnext, hagrees⟩ :=
      (exists_seeCase_iff .lower seen (symbolChar s)).mpr ⟨h, admits_symbolChar s⟩
    have hascii : ¬ 128 ≤ (symbolChar s).toNat := Nat.not_le.mpr (toNat_symbolChar_lt s)
    rw [List.map_cons, readSymbols, if_neg hascii, symbolOfChar?_symbolChar]
    exact bind_eq_ok_iff.mpr ⟨next, hnext, bind_eq_ok_iff.mpr ⟨symbols, ih hagrees, rfl⟩⟩

theorem map_symbolChar_of_readSymbols {cs : List Char} {seen : Option LetterCase}
    {symbols : List Symbol} (h : readSymbols seen cs = .ok symbols) :
    symbols.map symbolChar = cs.map Char.toLower := by
  induction cs generalizing seen symbols with
  | nil =>
    cases h
    rfl
  | cons c cs ih =>
    rw [readSymbols] at h
    split at h
    · cases h
    · obtain ⟨next, -, h⟩ := bind_eq_ok_iff.mp h
      split at h
      · cases h
      · next s hs =>
        obtain ⟨rest, hrest, h⟩ := bind_eq_ok_iff.mp h
        cases h
        rw [List.map_cons, List.map_cons, symbolChar_of_symbolOfChar? hs, ih hrest]

theorem residue_of_ofResidue? {register : UInt32} {variant : Variant}
    (h : Variant.ofResidue? register = some variant) : register = variant.residue := by
  rw [Variant.ofResidue?] at h
  split at h
  · next hregister =>
    cases h
    exact hregister
  · split at h
    · next hregister =>
      cases h
      exact hregister
    · cases h

/-- A part and symbols can be written, and are read back with the part in lower case. -/
theorem decode_encode {part : String} (h : IsPart part.toList) (symbols : List Symbol) :
    ∃ text, encode part symbols = .ok text ∧
      decode text = .ok (part.toLower, symbols, .bech32) := by
  obtain ⟨_, hpart⟩ := h.exists_checkPart
  obtain ⟨seen, hlower, hagrees⟩ := h.exists_checkPart_lowerPart
  let lower := lowerPart part.toList
  let data := (symbols ++ checksum lower symbols).map symbolChar
  refine ⟨String.ofList (lower ++ '1' :: data), ?_, ?_⟩
  · rw [encode, hpart]
    rfl
  · have hsplit : splitLast? (lower ++ '1' :: data) = some (lower, data) := by
      refine splitLast?_eq_some_iff.mpr ⟨rfl, fun hmem => ?_⟩
      obtain ⟨s, -, hs⟩ := List.mem_map.mp hmem
      exact symbolChar_ne_separator s hs
    have hsymbols : readSymbols seen data = .ok (symbols ++ checksum lower symbols) :=
      readSymbols_map_symbolChar _ hagrees
    have hlength : (symbols ++ checksum lower symbols).length =
        symbols.length + checksumLength := by
      rw [List.length_append, length_checksum]
    have hvariant : Variant.ofResidue?
        (polymod (expandPart lower ++ symbolValues (symbols ++ checksum lower symbols))) =
          some .bech32 := by
      rw [(polymod_eq_residue_iff lower symbols (length_checksum lower symbols)).mpr rfl]
      rfl
    have hlong : ¬ symbols.length + checksumLength < checksumLength := by omega
    have htake : (symbols ++ checksum lower symbols).take symbols.length = symbols :=
      List.take_left
    have hfixed : lowerPart lower = lower := lowerPart_lowerPart _
    have htext : part.toLower = String.ofList lower := toLower_eq_ofList part
    rw [decode, String.toList_ofList, hsplit]
    simp only [hlower, hsymbols, hlength, hlong, hfixed, hvariant, htake, htext, lower,
      bind, Except.bind, if_false, Nat.add_sub_cancel, pure, Except.pure]

/-- A text that is read: a part, the last separator, symbols, and six more that leave the register
of the checksum. -/
theorem exists_of_decode {text part : String} {symbols : List Symbol} {variant : Variant}
    (h : decode text = .ok (part, symbols, variant)) :
    ∃ cs data seen last, text.toList = cs ++ '1' :: data ∧ checkPart cs = .ok seen ∧
      readSymbols seen data = .ok (symbols ++ last) ∧ last.length = checksumLength ∧
      polymod (expandPart (lowerPart cs) ++ symbolValues (symbols ++ last)) = variant.residue ∧
      part = String.ofList (lowerPart cs) := by
  rw [decode] at h
  split at h
  · cases h
  · next cs data hsplit =>
    obtain ⟨seen, hpart, h⟩ := bind_eq_ok_iff.mp h
    obtain ⟨read, hread, h⟩ := bind_eq_ok_iff.mp h
    dsimp only at h
    split at h
    · cases h
    · next hlength =>
      split at h
      · cases h
      · next variant hvariant =>
        cases h
        have hcut : read.take (read.length - checksumLength) ++
            read.drop (read.length - checksumLength) = read := List.take_append_drop _ read
        refine ⟨cs, data, seen, read.drop (read.length - checksumLength),
          (splitLast?_eq_some_iff.mp hsplit).1, hpart, ?_, ?_, ?_, rfl⟩
        · rw [hcut, hread]
        · rw [List.length_drop]
          omega
        · rw [hcut, residue_of_ofResidue? hvariant]

/-- The part that is read is in lower case. -/
theorem isPart_of_decode {text part : String} {symbols : List Symbol} {variant : Variant}
    (h : decode text = .ok (part, symbols, variant)) :
    IsPart part.toList ∧ part.toLower = part := by
  obtain ⟨cs, _, _, _, -, hpart, -, -, -, rfl⟩ := exists_of_decode h
  obtain ⟨_, hlower, -⟩ := (isPart_of_checkPart hpart).exists_checkPart_lowerPart
  rw [toLower_eq_ofList, String.toList_ofList, lowerPart_lowerPart]
  exact ⟨isPart_of_checkPart hlower, rfl⟩

/-- What a text of the right checksum says is written as the text in lower case. -/
theorem encode_of_decode {text part : String} {symbols : List Symbol}
    (h : decode text = .ok (part, symbols, .bech32)) : encode part symbols = .ok text.toLower := by
  obtain ⟨cs, data, seen, last, htext, hpart, hread, hlength, hresidue, rfl⟩ := exists_of_decode h
  obtain ⟨_, hlower, -⟩ := (isPart_of_checkPart hpart).exists_checkPart_lowerPart
  have hlast : last = checksum (lowerPart cs) symbols :=
    (polymod_eq_residue_iff _ _ hlength).mp hresidue
  have hdata : (symbols ++ checksum (lowerPart cs) symbols).map symbolChar = lowerPart data := by
    rw [← hlast]
    exact map_symbolChar_of_readSymbols hread
  have hlowerText : text.toLower = String.ofList (lowerPart cs ++ '1' :: lowerPart data) := by
    rw [toLower_eq_ofList, htext, lowerPart, List.map_append, List.map_cons]
    rfl
  rw [encode, String.toList_ofList, hlowerText, ← hdata]
  refine bind_eq_ok_iff.mpr ⟨_, hlower, ?_⟩
  dsimp only
  rw [lowerPart_lowerPart]
  rfl

end TxReceipt.Account.Bech32
