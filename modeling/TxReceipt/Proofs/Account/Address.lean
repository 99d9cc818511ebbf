import TxReceipt.Proofs.Account.Payload

/-!
# Texts of addresses and public keys

What stands around a body is taken off in the order in which it was put on: the `pub` of keys from
the end, the network from the front, and what is left has to be the suffix of a type. So a text on a
network names a value exactly if it says the value's human-readable part and bytes.
-/

namespace TxReceipt.Account

theorem dropFront?_eq_some_iff {α : Type} [DecidableEq α] {ys xs rest : List α} :
    dropFront? ys xs = some rest ↔ xs = ys ++ rest := by
  induction ys generalizing xs with
  | nil => rw [dropFront?, Option.some.injEq, List.nil_append]
  | cons y ys ih =>
    cases xs with
    | nil => simp [dropFront?]
    | cons x xs =>
      rw [dropFront?, List.cons_append, List.cons.injEq]
      split
      · next heq => simp [ih, heq]
      · next hne => simp [Ne.symm hne]

theorem afterNetwork_eq_ok_iff {part network suffix : String} :
    afterNetwork part network = .ok suffix ↔ part = network ++ suffix := by
  rw [afterNetwork, ← String.toList_inj, String.toList_append, ← dropFront?_eq_some_iff]
  constructor
  · intro h
    split at h
    · next rest hrest =>
      cases h
      rw [hrest, String.toList_ofList]
    · cases h
  · intro h
    rw [h]
    exact congrArg Except.ok String.ofList_toList

theorem AccountType.ofSuffix_eq_ok_iff {suffix : String} {t : AccountType} :
    AccountType.ofSuffix suffix = .ok t ↔ suffix = t.suffix := by
  constructor
  · intro h
    unfold AccountType.ofSuffix at h
    split at h
    all_goals
      cases h
    all_goals
      rfl
  · rintro rfl
    cases t <;> rfl

theorem PubKey.withoutKeySuffix_eq_ok_iff {part rest : String} :
    withoutKeySuffix part = .ok rest ↔ part = rest ++ keySuffix := by
  have hback : part = rest ++ keySuffix ↔
      dropFront? keySuffix.toList.reverse part.toList.reverse = some rest.toList.reverse := by
    rw [dropFront?_eq_some_iff, ← List.reverse_append, List.reverse_inj, ← String.toList_append,
      String.toList_inj]
  rw [hback, withoutKeySuffix]
  constructor
  · intro h
    split at h
    · next back hdrop =>
      cases h
      rw [hdrop, String.toList_ofList, List.reverse_reverse]
    · cases h
  · intro h
    rw [h]
    exact congrArg Except.ok (by rw [List.reverse_reverse, String.ofList_toList])

/-- What stands before the body of a key: the mark of its type and its length. -/
def keyMark : List UInt8 :=
  [0xeb, 0x5a, 0xe9, 0x87, 33]

theorem mark?_secp256k1 :
    Amino.mark? (Sha256.digest Amino.secp256k1.toUTF8.toList) = some [0xeb, 0x5a, 0xe9, 0x87] := by
  decide +kernel

theorem registration_secp256k1 {body : List UInt8} (h : body.length = BodyKind.pubKey.length) :
    Amino.registration Amino.secp256k1 body = .ok keyMark := by
  have hshort : ¬ Amino.maxBodyLength < body.length := by
    rw [h]
    decide
  rw [Amino.registration, Amino.registrationOfDigest, if_neg hshort, mark?_secp256k1, h]
  decide +kernel

theorem Address.ofBody_eq_ok_iff {type : AccountType} {body : List UInt8} {a : Address} :
    Address.ofBody type body = .ok a ↔ type = a.type ∧ body = a.body := by
  constructor
  · intro h
    rw [Address.ofBody] at h
    split at h
    · cases h
      exact ⟨rfl, rfl⟩
    · cases h
  · rintro ⟨rfl, rfl⟩
    rw [Address.ofBody, dif_pos a.length_body]

theorem PubKey.ofBody_eq_ok_iff {type : AccountType} {body : List UInt8} {k : PubKey} :
    PubKey.ofBody type body = .ok k ↔ type = k.type ∧ body = k.body := by
  constructor
  · intro h
    rw [PubKey.ofBody] at h
    split at h
    · cases h
      exact ⟨rfl, rfl⟩
    · cases h
  · rintro ⟨rfl, rfl⟩
    rw [PubKey.ofBody, dif_pos k.length_body]

theorem Address.ofBech32_eq_ok_iff {text network : String} {a : Address} :
    Address.ofBech32 text network = .ok a ↔
      decodeBytes text = .ok (a.type.hrp network, a.body) := by
  constructor
  · intro h
    obtain ⟨⟨part, bytes⟩, hdecode, h⟩ := bind_eq_ok_iff.mp h
    obtain ⟨suffix, hsuffix, h⟩ := bind_eq_ok_iff.mp h
    obtain ⟨type, htype, h⟩ := bind_eq_ok_iff.mp h
    obtain ⟨rfl, rfl⟩ := Address.ofBody_eq_ok_iff.mp h
    rw [hdecode, afterNetwork_eq_ok_iff.mp hsuffix, AccountType.ofSuffix_eq_ok_iff.mp htype,
      AccountType.hrp]
  · intro h
    refine bind_eq_ok_iff.mpr ⟨_, h, bind_eq_ok_iff.mpr ⟨a.type.suffix, ?_, ?_⟩⟩
    · exact afterNetwork_eq_ok_iff.mpr rfl
    · exact bind_eq_ok_iff.mpr ⟨a.type, AccountType.ofSuffix_eq_ok_iff.mpr rfl,
        Address.ofBody_eq_ok_iff.mpr ⟨rfl, rfl⟩⟩

theorem PubKey.toBech32_eq (k : PubKey) (network : String) :
    k.toBech32 network =
      encodeBytes (k.type.hrp network ++ PubKey.keySuffix) (keyMark ++ k.body) := by
  rw [PubKey.toBech32, registration_secp256k1 k.length_body]
  rfl

theorem PubKey.ofBech32_eq_ok_iff {text network : String} {k : PubKey} :
    PubKey.ofBech32 text network = .ok k ↔
      decodeBytes text = .ok (k.type.hrp network ++ PubKey.keySuffix, keyMark ++ k.body) := by
  have hmark : Amino.registration Amino.secp256k1 (List.replicate BodyKind.pubKey.length 0) =
      .ok keyMark := registration_secp256k1 List.length_replicate
  constructor
  · intro h
    obtain ⟨⟨part, bytes⟩, hdecode, h⟩ := bind_eq_ok_iff.mp h
    obtain ⟨typePart, htypePart, h⟩ := bind_eq_ok_iff.mp h
    obtain ⟨suffix, hsuffix, h⟩ := bind_eq_ok_iff.mp h
    obtain ⟨type, htype, h⟩ := bind_eq_ok_iff.mp h
    obtain ⟨mark, hregistered, h⟩ := bind_eq_ok_iff.mp h
    cases hmark.symm.trans hregistered
    split at h
    · next body hbody =>
      obtain ⟨rfl, rfl⟩ := PubKey.ofBody_eq_ok_iff.mp h
      rw [hdecode, PubKey.withoutKeySuffix_eq_ok_iff.mp htypePart,
        afterNetwork_eq_ok_iff.mp hsuffix, AccountType.ofSuffix_eq_ok_iff.mp htype,
        dropFront?_eq_some_iff.mp hbody, AccountType.hrp]
    · cases h
  · intro h
    refine bind_eq_ok_iff.mpr ⟨_, h, ?_⟩
    refine bind_eq_ok_iff.mpr ⟨_, PubKey.withoutKeySuffix_eq_ok_iff.mpr rfl, ?_⟩
    refine bind_eq_ok_iff.mpr ⟨_, afterNetwork_eq_ok_iff.mpr rfl, ?_⟩
    refine bind_eq_ok_iff.mpr ⟨_, AccountType.ofSuffix_eq_ok_iff.mpr rfl, ?_⟩
    refine bind_eq_ok_iff.mpr ⟨_, hmark, ?_⟩
    rw [dropFront?_eq_some_iff.mpr rfl]
    exact PubKey.ofBody_eq_ok_iff.mpr ⟨rfl, rfl⟩

/-- A reader finds in a text the one value whose part and bytes the text says. -/
def ReadsAs {β : Type} (read : String → Except Error β) (part : β → String)
    (bytes : β → List UInt8) : Prop :=
  ∀ text v, read text = .ok v ↔ decodeBytes text = .ok (part v, bytes v)

namespace ReadsAs

variable {β : Type} {read : String → Except Error β} {part : β → String} {bytes : β → List UInt8}

theorem exists_text (h : ReadsAs read part bytes) {v : β} (hpart : Bech32.IsPart (part v).toList)
    (hlower : (part v).toLower = part v) :
    ∃ text, encodeBytes (part v) (bytes v) = .ok text ∧ read text = .ok v := by
  obtain ⟨text, hencode, hdecode⟩ := decodeBytes_encodeBytes hpart (bytes v)
  rw [hlower] at hdecode
  exact ⟨text, hencode, (h text v).mpr hdecode⟩

theorem encodeBytes_of_read (h : ReadsAs read part bytes) {text : String} {v : β}
    (hread : read text = .ok v) : encodeBytes (part v) (bytes v) = .ok text.toLower :=
  encodeBytes_of_decodeBytes ((h text v).mp hread)

theorem read_toLower (h : ReadsAs read part bytes) {text : String} {v : β}
    (hread : read text = .ok v) : read text.toLower = .ok v :=
  (h _ v).mpr (decodeBytes_toLower ((h text v).mp hread))

theorem eq_iff_toLower_eq (h : ReadsAs read part bytes) {text text' : String} {v v' : β}
    (hread : read text = .ok v) (hread' : read text' = .ok v') :
    v = v' ↔ text.toLower = text'.toLower := by
  constructor
  · rintro rfl
    exact Except.ok.inj ((h.encodeBytes_of_read hread).symm.trans (h.encodeBytes_of_read hread'))
  · intro hlower
    have hsame := h.read_toLower hread
    rw [hlower, h.read_toLower hread'] at hsame
    exact (Except.ok.inj hsame).symm

end ReadsAs

theorem Address.readsAs (network : String) :
    ReadsAs (Address.ofBech32 · network) (fun a => a.type.hrp network) Address.body :=
  fun _ _ => Address.ofBech32_eq_ok_iff

theorem PubKey.readsAs (network : String) :
    ReadsAs (PubKey.ofBech32 · network) (fun k => k.type.hrp network ++ PubKey.keySuffix)
      (fun k => keyMark ++ k.body) :=
  fun _ _ => PubKey.ofBech32_eq_ok_iff

theorem AccountType.isUpper_of_mem_suffix (t : AccountType) :
    ∀ c ∈ t.suffix.toList, c.isUpper = false := by
  cases t <;> simp [AccountType.suffix]

theorem AccountType.isUpper_of_mem_hrp (t : AccountType) {network : String}
    (h : ∀ c ∈ network.toList, c.isUpper = false) :
    ∀ c ∈ (t.hrp network).toList, c.isUpper = false := by
  intro c hc
  rw [AccountType.hrp, String.toList_append, List.mem_append] at hc
  exact hc.elim (h c) (t.isUpper_of_mem_suffix c)

theorem PubKey.isUpper_of_mem_part (t : AccountType) {network : String}
    (h : ∀ c ∈ network.toList, c.isUpper = false) :
    ∀ c ∈ (t.hrp network ++ PubKey.keySuffix).toList, c.isUpper = false := by
  have hsuffix : ∀ c ∈ PubKey.keySuffix.toList, c.isUpper = false := by simp [PubKey.keySuffix]
  intro c hc
  rw [String.toList_append, List.mem_append] at hc
  exact hc.elim (t.isUpper_of_mem_hrp h c) (hsuffix c)

/-- On a network whose name has no capitals every value that can be written is read back. Whatever
the network is called, a text that is read is the value's text up to the case of letters, and two
such texts name one value exactly if they differ by nothing else. -/
theorem typed_text_round_trip (network : String) :
    ((∀ c ∈ network.toList, c.isUpper = false) →
      (∀ a : Address, Bech32.IsPart (a.type.hrp network).toList →
        ∃ text, a.toBech32 network = .ok text ∧ Address.ofBech32 text network = .ok a) ∧
      (∀ k : PubKey, Bech32.IsPart (k.type.hrp network ++ PubKey.keySuffix).toList →
        ∃ text, k.toBech32 network = .ok text ∧ PubKey.ofBech32 text network = .ok k)) ∧
    (∀ (text : String) (a : Address), Address.ofBech32 text network = .ok a →
      a.toBech32 network = .ok text.toLower) ∧
    (∀ (text : String) (k : PubKey), PubKey.ofBech32 text network = .ok k →
      k.toBech32 network = .ok text.toLower) ∧
    (∀ (text text' : String) (a a' : Address), Address.ofBech32 text network = .ok a →
      Address.ofBech32 text' network = .ok a' → (a = a' ↔ text.toLower = text'.toLower)) ∧
    (∀ (text text' : String) (k k' : PubKey), PubKey.ofBech32 text network = .ok k →
      PubKey.ofBech32 text' network = .ok k' → (k = k' ↔ text.toLower = text'.toLower)) := by
  refine ⟨fun hnetwork => ⟨fun a hpart => ?_, fun k hpart => ?_⟩, fun text a h => ?_,
    fun text k h => ?_, fun text text' a a' h h' => ?_, fun text text' k k' h h' => ?_⟩
  · exact (Address.readsAs network).exists_text hpart
      (Bech32.toLower_eq_self (a.type.isUpper_of_mem_hrp hnetwork))
  · rw [k.toBech32_eq]
    exact (PubKey.readsAs network).exists_text hpart
      (Bech32.toLower_eq_self (PubKey.isUpper_of_mem_part k.type hnetwork))
  · exact (Address.readsAs network).encodeBytes_of_read h
  · rw [k.toBech32_eq]
    exact (PubKey.readsAs network).encodeBytes_of_read h
  · exact (Address.readsAs network).eq_iff_toLower_eq h h'
  · exact (PubKey.readsAs network).eq_iff_toLower_eq h h'

theorem typed_text_round_trip_on_tlink :
    ∃ (a : Address) (k : PubKey),
      (∃ text, a.toBech32 "tlink" = .ok text ∧ Address.ofBech32 text "tlink" = .ok a ∧
        text.toLower = "TLINK19MHHFS3XMYT9LK9UAH33KK9LGUCQZ9DQHGPFZ8".toLower) ∧
      (∃ text, k.toBech32 "tlink" = .ok text ∧ PubKey.ofBech32 text "tlink" = .ok k ∧
        text.toLower = ("TLINKPUB1ADDWNPEPQGQSYQCYQ5RQWZQFPG9SCRGWPUGPZYSNZS23V9CCRYD" ++
          "PK8QARC0JQCXYE2A").toLower) ∧
      a.toBech32 "tlink" = .ok "TLINK19MHHFS3XMYT9LK9UAH33KK9LGUCQZ9DQHGPFZ8".toLower ∧
      k.toBech32 "tlink" = .ok ("TLINKPUB1ADDWNPEPQGQSYQCYQ5RQWZQFPG9SCRGWPUGPZYSNZS23V9CCRYD" ++
        "PK8QARC0JQCXYE2A").toLower := by
  let a : Address := ⟨.account, [0x2e, 0xef, 0x74, 0xc2, 0x26, 0xd9, 0x16, 0x5f, 0xd8, 0xbc, 0xed,
    0xe3, 0x1b, 0x58, 0xbf, 0x47, 0x30, 0x01, 0x15, 0xa0], rfl⟩
  let k : PubKey := ⟨.account, 2 :: (List.range 32).map fun i => UInt8.ofNat (i + 1), rfl⟩
  have hnetwork : ∀ c ∈ "tlink".toList, c.isUpper = false := by simp
  have haddress : Bech32.IsPart (a.type.hrp "tlink").toList := by
    have hchars : (a.type.hrp "tlink").toList = ['t', 'l', 'i', 'n', 'k'] := by decide +kernel
    rw [hchars]
    exact ⟨by decide, by decide, by simp [Bech32.Visible], .lower,
      by simp [Bech32.LetterCase.admits]⟩
  have hkey : Bech32.IsPart (k.type.hrp "tlink" ++ PubKey.keySuffix).toList := by
    have hchars : (k.type.hrp "tlink" ++ PubKey.keySuffix).toList =
        ['t', 'l', 'i', 'n', 'k', 'p', 'u', 'b'] := by decide +kernel
    rw [hchars]
    exact ⟨by decide, by decide, by simp [Bech32.Visible], .lower,
      by simp [Bech32.LetterCase.admits]⟩
  have hreadAddress : Address.ofBech32 "TLINK19MHHFS3XMYT9LK9UAH33KK9LGUCQZ9DQHGPFZ8" "tlink" =
      .ok a := by decide +kernel
  have hreadKey : PubKey.ofBech32 ("TLINKPUB1ADDWNPEPQGQSYQCYQ5RQWZQFPG9SCRGWPUGPZYSNZS23V9CCRYD" ++
      "PK8QARC0JQCXYE2A") "tlink" = .ok k := by decide +kernel
  obtain ⟨hwrite, htextAddress, htextKey, hsameAddress, hsameKey⟩ := typed_text_round_trip "tlink"
  obtain ⟨hwriteAddress, hwriteKey⟩ := hwrite hnetwork
  obtain ⟨address, haddressWritten, haddressRead⟩ := hwriteAddress a haddress
  obtain ⟨key, hkeyWritten, hkeyRead⟩ := hwriteKey k hkey
  exact ⟨a, k,
    ⟨address, haddressWritten, haddressRead,
      (hsameAddress _ _ _ _ haddressRead hreadAddress).mp rfl⟩,
    ⟨key, hkeyWritten, hkeyRead, (hsameKey _ _ _ _ hkeyRead hreadKey).mp rfl⟩,
    htextAddress _ _ hreadAddress, htextKey _ _ hreadKey⟩

end TxReceipt.Account
