import TxReceipt.Account.Address
import TxReceipt.Proofs.Account.Bech32
import TxReceipt.Proofs.Account.BitGroups

/-!
# Bytes in bech32 texts

Bytes are cut into symbols with zeros at the end, and are read back only if what is left over is
such zeros. So there is one list of symbols for each list of bytes, and one text, up to the case of
its letters, for each part and list of bytes.
-/

namespace TxReceipt.Account

open BitGroups

def symbolGroup (s : Bech32.Symbol) : UInt8 :=
  UInt8.ofNat s.val

theorem toNat_symbolGroup (s : Bech32.Symbol) : (symbolGroup s).toNat = s.val := by
  have hlt := s.isLt
  rw [symbolGroup, UInt8.toNat_ofNat', Nat.mod_eq_of_lt (by omega)]

theorem symbolGroup_mk {value : UInt8} (h : value.toNat < 32) :
    symbolGroup ⟨value.toNat, h⟩ = value :=
  UInt8.ofNat_toNat

theorem symbolOfByte_eq_ok_iff {value : UInt8} {s : Bech32.Symbol} :
    Bech32.symbolOfByte value = .ok s ↔ value = symbolGroup s := by
  constructor
  · intro h
    rw [Bech32.symbolOfByte] at h
    split at h
    · cases h
      exact (symbolGroup_mk _).symm
    · cases h
  · rintro rfl
    have hlt : (symbolGroup s).toNat < 32 := by
      rw [toNat_symbolGroup]
      exact s.isLt
    rw [Bech32.symbolOfByte, dif_pos hlt]
    exact congrArg Except.ok (Fin.ext (toNat_symbolGroup s))

theorem mapM_symbolOfByte_eq_ok_iff {groups : List UInt8} {symbols : List Bech32.Symbol} :
    groups.mapM Bech32.symbolOfByte = .ok symbols ↔ groups = symbols.map symbolGroup := by
  induction groups generalizing symbols with
  | nil =>
    rw [List.mapM_nil, eq_comm (a := []), List.map_eq_nil_iff]
    exact ⟨fun h => (Except.ok.inj h).symm, fun h => congrArg Except.ok h.symm⟩
  | cons g groups ih =>
    rw [mapM_cons_eq_ok_iff, eq_comm (a := g :: groups), List.map_eq_cons_iff]
    constructor
    · rintro ⟨s, rest, hs, hrest, rfl⟩
      exact ⟨s, rest, rfl, (symbolOfByte_eq_ok_iff.mp hs).symm, (ih.mp hrest).symm⟩
    · rintro ⟨s, rest, rfl, hs, hrest⟩
      exact ⟨s, rest, symbolOfByte_eq_ok_iff.mpr hs.symm, ih.mpr hrest.symm, rfl⟩

/-- Groups of five bits are symbols. -/
theorem exists_map_symbolGroup_eq {groups : List UInt8} (h : Fits 5 groups) :
    ∃ symbols : List Bech32.Symbol, groups = symbols.map symbolGroup := by
  induction groups with
  | nil => exact ⟨[], rfl⟩
  | cons g groups ih =>
    obtain ⟨symbols, hsymbols⟩ := ih fun g' hg' => h g' (List.mem_cons_of_mem _ hg')
    have hg : g = symbolGroup ⟨g.toNat, h g List.mem_cons_self⟩ := (symbolGroup_mk _).symm
    exact ⟨_ :: symbols, congrArg₂ List.cons hg hsymbols⟩

def Says (symbols : List Bech32.Symbol) (bytes : List UInt8) : Prop :=
  regroup bytes 8 5 true = .ok (symbols.map symbolGroup)

theorem fits_bytes (bytes : List UInt8) : Fits 8 bytes :=
  fun b _ => b.toNat_lt

theorem exists_says (bytes : List UInt8) : ∃ symbols, Says symbols bytes := by
  obtain ⟨groups, -, hgroups, hfits, -⟩ :=
    regroup_padded (f := 8) (t := 5) rfl rfl (fits_bytes bytes)
  obtain ⟨symbols, rfl⟩ := exists_map_symbolGroup_eq hfits
  exact ⟨symbols, hgroups⟩

/-- Bytes are read from symbols exactly if these are the padded regrouping of the bytes. -/
theorem regroup_symbols_iff {symbols : List Bech32.Symbol} {bytes : List UInt8} :
    regroup (symbols.map symbolGroup) 5 8 false = .ok bytes ↔ Says symbols bytes :=
  ⟨regroup_padded_of_strict rfl rfl,
    regroup_strict_of_padded rfl rfl (by decide) (fits_bytes bytes)⟩

theorem encodeBytes_eq_ok_iff {part text : String} {bytes : List UInt8} :
    encodeBytes part bytes = .ok text ↔
      ∃ symbols, Says symbols bytes ∧ Bech32.encode part symbols = .ok text := by
  simp only [encodeBytes, bind_eq_ok_iff, mapError_eq_ok_iff, mapM_symbolOfByte_eq_ok_iff, Says]
  constructor
  · rintro ⟨groups, hgroups, symbols, rfl, htext⟩
    exact ⟨symbols, hgroups, htext⟩
  · rintro ⟨symbols, hgroups, htext⟩
    exact ⟨_, hgroups, symbols, rfl, htext⟩

theorem decodeBytes_eq_ok_iff {text part : String} {bytes : List UInt8} :
    decodeBytes text = .ok (part, bytes) ↔
      ∃ symbols, Bech32.decode text = .ok (part, symbols, .bech32) ∧ Says symbols bytes := by
  constructor
  · intro h
    obtain ⟨⟨read, symbols, variant⟩, hdecode, h⟩ := bind_eq_ok_iff.mp h
    dsimp only at h
    split at h
    · next hvariant =>
      obtain ⟨_, hregroup, h⟩ := bind_eq_ok_iff.mp h
      cases h
      subst hvariant
      exact ⟨symbols, mapError_eq_ok_iff.mp hdecode,
        regroup_symbols_iff.mp (mapError_eq_ok_iff.mp hregroup)⟩
    · cases h
  · rintro ⟨symbols, hdecode, hsays⟩
    refine bind_eq_ok_iff.mpr ⟨_, mapError_eq_ok_iff.mpr hdecode, ?_⟩
    exact bind_eq_ok_iff.mpr ⟨_, mapError_eq_ok_iff.mpr (regroup_symbols_iff.mpr hsays), rfl⟩

theorem decodeBytes_encodeBytes {part : String} (h : Bech32.IsPart part.toList)
    (bytes : List UInt8) :
    ∃ text, encodeBytes part bytes = .ok text ∧ decodeBytes text = .ok (part.toLower, bytes) := by
  obtain ⟨symbols, hsays⟩ := exists_says bytes
  obtain ⟨text, hencode, hdecode⟩ := Bech32.decode_encode h symbols
  exact ⟨text, encodeBytes_eq_ok_iff.mpr ⟨symbols, hsays, hencode⟩,
    decodeBytes_eq_ok_iff.mpr ⟨symbols, hdecode, hsays⟩⟩

theorem encodeBytes_of_decodeBytes {text part : String} {bytes : List UInt8}
    (h : decodeBytes text = .ok (part, bytes)) : encodeBytes part bytes = .ok text.toLower := by
  obtain ⟨symbols, hdecode, hsays⟩ := decodeBytes_eq_ok_iff.mp h
  exact encodeBytes_eq_ok_iff.mpr ⟨symbols, hsays, Bech32.encode_of_decode hdecode⟩

/-- What can be written at all is determined by the part alone. -/
theorem exists_encodeBytes_iff {part : String} {bytes : List UInt8} :
    (∃ text, encodeBytes part bytes = .ok text) ↔ Bech32.IsPart part.toList := by
  constructor
  · rintro ⟨text, h⟩
    obtain ⟨symbols, -, hencode⟩ := encodeBytes_eq_ok_iff.mp h
    obtain ⟨seen, hpart, -⟩ := bind_eq_ok_iff.mp hencode
    exact Bech32.isPart_of_checkPart hpart
  · intro h
    obtain ⟨text, hencode, -⟩ := decodeBytes_encodeBytes h bytes
    exact ⟨text, hencode⟩

/-- What was written is read with the part in lower case. -/
theorem decodeBytes_of_encodeBytes {part text : String} {bytes : List UInt8}
    (h : encodeBytes part bytes = .ok text) : decodeBytes text = .ok (part.toLower, bytes) := by
  obtain ⟨written, hencode, hdecode⟩ :=
    decodeBytes_encodeBytes (exists_encodeBytes_iff.mp ⟨text, h⟩) bytes
  cases hencode.symm.trans h
  exact hdecode

/-- A text that is read says the same in lower case. -/
theorem decodeBytes_toLower {text part : String} {bytes : List UInt8}
    (h : decodeBytes text = .ok (part, bytes)) :
    decodeBytes text.toLower = .ok (part, bytes) := by
  obtain ⟨_, hdecode, -⟩ := decodeBytes_eq_ok_iff.mp h
  obtain ⟨hpart, hlower⟩ := Bech32.isPart_of_decode hdecode
  obtain ⟨written, hwritten, hread⟩ := decodeBytes_encodeBytes hpart bytes
  rw [encodeBytes_of_decodeBytes h] at hwritten
  rw [Except.ok.inj hwritten, hread, hlower]

/-- A text says one part and its bytes, and up to the case of letters no other text says the
same. -/
theorem payload_round_trip :
    (∀ (part : String) (bytes : List UInt8), Bech32.IsPart part.toList →
      ∃ text, encodeBytes part bytes = .ok text ∧
        decodeBytes text = .ok (part.toLower, bytes)) ∧
    (∀ (text part : String) (bytes : List UInt8), decodeBytes text = .ok (part, bytes) →
      encodeBytes part bytes = .ok text.toLower) ∧
    (∀ (text text' part : String) (bytes : List UInt8), decodeBytes text = .ok (part, bytes) →
      decodeBytes text' = .ok (part, bytes) → text.toLower = text'.toLower) := by
  refine ⟨fun part bytes h => decodeBytes_encodeBytes h bytes,
    fun text part bytes h => encodeBytes_of_decodeBytes h, ?_⟩
  intro text text' part bytes h h'
  have hencode := encodeBytes_of_decodeBytes h
  rw [encodeBytes_of_decodeBytes h'] at hencode
  exact (Except.ok.inj hencode).symm

theorem payload_round_trip_of_capitals :
    ∃ text, encodeBytes "TLINK" [0x2e, 0xef, 0x74, 0xc2, 0x26] = .ok text ∧
      decodeBytes text = .ok ("tlink", [0x2e, 0xef, 0x74, 0xc2, 0x26]) ∧
      encodeBytes "tlink" [0x2e, 0xef, 0x74, 0xc2, 0x26] = .ok "TLINK19MHHFS3XD63XE8".toLower ∧
      text.toLower = "TLINK19MHHFS3XD63XE8".toLower := by
  have hpart : Bech32.IsPart "TLINK".toList := by
    rw [show "TLINK".toList = ['T', 'L', 'I', 'N', 'K'] from rfl]
    exact ⟨by decide, by decide, by simp [Bech32.Visible], .upper,
      by simp [Bech32.LetterCase.admits]⟩
  have hcapitals : decodeBytes "TLINK19MHHFS3XD63XE8" =
      .ok ("tlink", [0x2e, 0xef, 0x74, 0xc2, 0x26]) := by decide +kernel
  have hlower : "TLINK".toLower = "tlink" := by decide +kernel
  obtain ⟨hwrite, hread, hsame⟩ := payload_round_trip
  obtain ⟨text, hencode, hdecode⟩ := hwrite "TLINK" [0x2e, 0xef, 0x74, 0xc2, 0x26] hpart
  rw [hlower] at hdecode
  exact ⟨text, hencode, hdecode, hread _ _ _ hcapitals, hsame _ _ _ _ hdecode hcapitals⟩

end TxReceipt.Account
