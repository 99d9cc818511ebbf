import TxReceipt.Proofs.Account.Address
import TxReceipt.Settings.Basic

/-!
# Networks and kinds kept apart

A text that was written on one network is read on another exactly if the names of the networks, each
with the suffix of some type, make up one human-readable part. An address and a key are not taken
for each other on any network, since their bytes differ in number. `Network.part_ne` keeps the two
known networks apart whatever follows their names.
-/

namespace TxReceipt

/-- No human-readable part begins with the names of both networks. -/
theorem Network.part_ne {n m : Network} (h : n ≠ m) (rest rest' : String) :
    n.hrp ++ rest ≠ m.hrp ++ rest' := by
  intro hpart
  have hchars := congrArg String.toList hpart
  rw [String.toList_append, String.toList_append] at hchars
  cases n <;> cases m <;> simp [Network.hrp] at h hchars

theorem Network.toLower_hrp (n : Network) : n.hrp.toLower = n.hrp := by
  apply Account.Bech32.toLower_eq_self
  cases n <;> simp [Network.hrp]

namespace Account

theorem toLower_append_suffix (front suffix : String)
    (h : ∀ c ∈ suffix.toList, c.isUpper = false) :
    (front ++ suffix).toLower = front.toLower ++ suffix := by
  have hsuffix : Bech32.lowerPart suffix.toList = suffix.toList := by
    rw [← String.toList_ofList (l := Bech32.lowerPart suffix.toList), ← Bech32.toLower_eq_ofList,
      Bech32.toLower_eq_self h]
  apply String.toList_injective
  rw [Bech32.toLower_eq_ofList, Bech32.toLower_eq_ofList, String.toList_ofList,
    String.toList_append, String.toList_append, String.toList_ofList, Bech32.lowerPart,
    List.map_append]
  exact congrArg _ hsuffix

theorem AccountType.toLower_hrp (t : AccountType) (network : String) :
    (t.hrp network).toLower = network.toLower ++ t.suffix :=
  toLower_append_suffix network t.suffix t.isUpper_of_mem_suffix

theorem PubKey.toLower_part (t : AccountType) (network : String) :
    (t.hrp network ++ keySuffix).toLower = network.toLower ++ t.suffix ++ keySuffix := by
  rw [toLower_append_suffix _ _ (by simp [keySuffix]), t.toLower_hrp]

/-- A written text is read as the value, if any, that has the part in lower case and the bytes. -/
theorem ReadsAs.read_written_iff {β : Type} {read : String → Except Error β} {part : β → String}
    {bytes : β → List UInt8} (h : ReadsAs read part bytes) {written text : String}
    {data : List UInt8} {v : β} (hwritten : encodeBytes written data = .ok text) :
    read text = .ok v ↔ written.toLower = part v ∧ data = bytes v := by
  rw [h text v, decodeBytes_of_encodeBytes hwritten]
  constructor
  · intro hsame
    exact Prod.mk.inj (Except.ok.inj hsame)
  · rintro ⟨hpart, hdata⟩
    rw [hpart, hdata]

theorem Address.ofBech32_written_iff {a b : Address} {p q text : String}
    (h : a.toBech32 p = .ok text) :
    Address.ofBech32 text q = .ok b ↔
      p.toLower ++ a.type.suffix = q ++ b.type.suffix ∧ a.body = b.body := by
  rw [(Address.readsAs q).read_written_iff h, AccountType.toLower_hrp, AccountType.hrp]

theorem PubKey.ofBech32_written_iff {k l : PubKey} {p q text : String}
    (h : k.toBech32 p = .ok text) :
    PubKey.ofBech32 text q = .ok l ↔
      p.toLower ++ k.type.suffix = q ++ l.type.suffix ∧ k.body = l.body := by
  rw [k.toBech32_eq] at h
  rw [(PubKey.readsAs q).read_written_iff h, PubKey.toLower_part, AccountType.hrp,
    String.append_left_inj, List.append_cancel_left_eq]

theorem body_ne_marked (a : Address) (k : PubKey) : a.body ≠ keyMark ++ k.body := by
  intro h
  have hlength := congrArg List.length h
  rw [List.length_append, a.length_body, k.length_body] at hlength
  revert hlength
  decide

theorem PubKey.ofBech32_address_ne {a : Address} {p q text : String}
    (h : a.toBech32 p = .ok text) (k : PubKey) : PubKey.ofBech32 text q ≠ .ok k := by
  intro hread
  exact body_ne_marked a k (((PubKey.readsAs q).read_written_iff h).mp hread).2

theorem Address.ofBech32_key_ne {k : PubKey} {p q text : String}
    (h : k.toBech32 p = .ok text) (a : Address) : Address.ofBech32 text q ≠ .ok a := by
  intro hread
  rw [k.toBech32_eq] at h
  exact body_ne_marked a k (((Address.readsAs q).read_written_iff h).mp hread).2.symm

def Writes (network text : String) : Prop :=
  (∃ a : Address, a.toBech32 network = .ok text) ∨ ∃ k : PubKey, k.toBech32 network = .ok text

def Accepts (network text : String) : Prop :=
  (∃ a, Address.ofBech32 text network = .ok a) ∨ ∃ k, PubKey.ofBech32 text network = .ok k

theorem exists_part_of_writes {network text : String} (h : Writes network text) :
    ∃ rest bytes, decodeBytes text = .ok (network.toLower ++ rest, bytes) := by
  rcases h with ⟨a, h⟩ | ⟨k, h⟩
  · have hdecode := decodeBytes_of_encodeBytes h
    rw [AccountType.toLower_hrp] at hdecode
    exact ⟨_, _, hdecode⟩
  · rw [k.toBech32_eq] at h
    have hdecode := decodeBytes_of_encodeBytes h
    rw [PubKey.toLower_part, String.append_assoc] at hdecode
    exact ⟨_, _, hdecode⟩

theorem exists_part_of_accepts {network text : String} (h : Accepts network text) :
    ∃ rest bytes, decodeBytes text = .ok (network ++ rest, bytes) := by
  rcases h with ⟨a, h⟩ | ⟨k, h⟩
  · exact ⟨_, _, Address.ofBech32_eq_ok_iff.mp h⟩
  · have hdecode := PubKey.ofBech32_eq_ok_iff.mp h
    rw [AccountType.hrp, String.append_assoc] at hdecode
    exact ⟨_, _, hdecode⟩

theorem not_accepts_of_other_network {n m : Network} (hne : n ≠ m) {text : String}
    (h : Writes n.hrp text ∨ Accepts n.hrp text) : ¬ Accepts m.hrp text := by
  intro haccepts
  have hpart : ∃ rest bytes, decodeBytes text = .ok (n.hrp ++ rest, bytes) := by
    rcases h with h | h
    · obtain ⟨rest, bytes, hdecode⟩ := exists_part_of_writes h
      rw [n.toLower_hrp] at hdecode
      exact ⟨rest, bytes, hdecode⟩
    · exact exists_part_of_accepts h
  obtain ⟨rest, bytes, hdecode⟩ := hpart
  obtain ⟨rest', bytes', hdecode'⟩ := exists_part_of_accepts haccepts
  have hsame := Except.ok.inj (hdecode.symm.trans hdecode')
  exact Network.part_ne hne rest rest' (congrArg Prod.fst hsame)

/-- A text is read on another network exactly if that network's name and the suffix of a type make
up its human-readable part, and then as the value of that type with the same body. Addresses and
keys are not taken for each other, and the texts of a known network not for those of the other. -/
theorem networks_and_kinds_kept_apart (p q : String) :
    (∀ (a : Address) (text : String), a.toBech32 p = .ok text →
      ((∃ b, Address.ofBech32 text q = .ok b) ↔
        ∃ s : AccountType, p.toLower ++ a.type.suffix = q ++ s.suffix) ∧
      (∀ s : AccountType, p.toLower ++ a.type.suffix = q ++ s.suffix →
        Address.ofBech32 text q = .ok ⟨s, a.body, a.length_body⟩) ∧
      ∀ k, PubKey.ofBech32 text q ≠ .ok k) ∧
    (∀ (k : PubKey) (text : String), k.toBech32 p = .ok text →
      ((∃ l, PubKey.ofBech32 text q = .ok l) ↔
        ∃ s : AccountType, p.toLower ++ k.type.suffix = q ++ s.suffix) ∧
      (∀ s : AccountType, p.toLower ++ k.type.suffix = q ++ s.suffix →
        PubKey.ofBech32 text q = .ok ⟨s, k.body, k.length_body⟩) ∧
      ∀ a, Address.ofBech32 text q ≠ .ok a) ∧
    ∀ (n m : Network) (text : String), n ≠ m → Writes n.hrp text ∨ Accepts n.hrp text →
      ¬ Accepts m.hrp text := by
  refine ⟨fun a text h => ?_, fun k text h => ?_,
    fun n m text hne htext => not_accepts_of_other_network hne htext⟩
  · have read : ∀ s : AccountType, p.toLower ++ a.type.suffix = q ++ s.suffix →
        Address.ofBech32 text q = .ok ⟨s, a.body, a.length_body⟩ :=
      fun s hs => (Address.ofBech32_written_iff h).mpr ⟨hs, rfl⟩
    refine ⟨⟨?_, ?_⟩, read, PubKey.ofBech32_address_ne h⟩
    · rintro ⟨b, hread⟩
      exact ⟨b.type, ((Address.ofBech32_written_iff h).mp hread).1⟩
    · rintro ⟨s, hs⟩
      exact ⟨_, read s hs⟩
  · have read : ∀ s : AccountType, p.toLower ++ k.type.suffix = q ++ s.suffix →
        PubKey.ofBech32 text q = .ok ⟨s, k.body, k.length_body⟩ :=
      fun s hs => (PubKey.ofBech32_written_iff h).mpr ⟨hs, rfl⟩
    refine ⟨⟨?_, ?_⟩, read, Address.ofBech32_key_ne h⟩
    · rintro ⟨l, hread⟩
      exact ⟨l.type, ((PubKey.ofBech32_written_iff h).mp hread).1⟩
    · rintro ⟨s, hs⟩
      exact ⟨_, read s hs⟩

/-- The text of an address on a network with a long name is one of a validator on `tlink`, and none
of a key or of `link`; the text of a key is none of an address. -/
theorem networks_and_kinds_kept_apart_on_tlink :
    let a : Address := ⟨.account, [0x2e, 0xef, 0x74, 0xc2, 0x26, 0xd9, 0x16, 0x5f, 0xd8, 0xbc, 0xed,
      0xe3, 0x1b, 0x58, 0xbf, 0x47, 0x30, 0x01, 0x15, 0xa0], rfl⟩
    let k : PubKey := ⟨.account, 2 :: (List.range 32).map fun i => UInt8.ofNat (i + 1), rfl⟩
    let address := "tlinkvalcons19mhhfs3xmyt9lk9uah33kk9lgucqz9dq7t6uez"
    let key := "tlinkpub1addwnpepqgqsyqcyq5rqwzqfpg9scrgwpugpzysnzs23v9ccrydpk8qarc0jqcxye2a"
    a.toBech32 "TLINKVALCONS" = .ok address ∧
    Address.ofBech32 address "tlink" = .ok ⟨.validatorConsensus, a.body, a.length_body⟩ ∧
    (∀ l, PubKey.ofBech32 address "tlink" ≠ .ok l) ∧
    k.toBech32 "tlink" = .ok key ∧ (∀ b, Address.ofBech32 key "tlink" ≠ .ok b) ∧
    Accepts Network.test.hrp address ∧ ¬ Accepts Network.main.hrp address := by
  intro a k address key
  have haddress : a.toBech32 "TLINKVALCONS" = .ok address := by decide +kernel
  have hkey : k.toBech32 "tlink" = .ok key := by decide +kernel
  have hpart : "TLINKVALCONS".toLower ++ a.type.suffix =
      "tlink" ++ AccountType.suffix .validatorConsensus := by decide +kernel
  obtain ⟨haddresses, -, hnetworks⟩ := networks_and_kinds_kept_apart "TLINKVALCONS" "tlink"
  obtain ⟨-, hkeys, -⟩ := networks_and_kinds_kept_apart "tlink" "tlink"
  obtain ⟨-, hread, hnokey⟩ := haddresses a address haddress
  have haccepts : Accepts Network.test.hrp address := Or.inl ⟨_, hread _ hpart⟩
  exact ⟨haddress, hread _ hpart, hnokey, hkey, (hkeys k key hkey).2.2, haccepts,
    hnetworks .test .main address (by decide) (Or.inr haccepts)⟩

end Account

end TxReceipt
