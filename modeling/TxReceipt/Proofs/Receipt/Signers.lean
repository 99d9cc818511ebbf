import TxReceipt.Proofs.Account.Address
import TxReceipt.Proofs.Account.Base64
import TxReceipt.Proofs.AscendingSet
import TxReceipt.Proofs.Extract.Logs
import TxReceipt.Receipt.Adapt

/-!
# Signers

Signers are derived from all signatures or from none. Where every signature has a usable key and the
name of the network can be written, the signers are the addresses of the keys, as a set, so that
neither the order of the signatures nor how often one is repeated has a part in them. The name of
the network has a part in nothing else.
-/

namespace TxReceipt

def Raw.Result.withSignatures (raw : Raw.Result) (signatures : List Raw.Signature) : Raw.Result :=
  { raw with tx := { raw.tx with value := { raw.tx.value with signatures } } }

namespace Raw.Signature

/-- The signature names a key of the supported type, in 44 characters of base64 without padding. -/
def HasUsableKey (s : Signature) : Prop :=
  ∃ text, s.pubKey = some ⟨Account.Amino.secp256k1, text⟩ ∧ text.length = 44 ∧
    ∀ c ∈ text.toList, Account.Base64.IsSymbol c

/-- The signature names a key, whose text is read. -/
def NamesKey (s : Signature) (key : Account.PubKey) : Prop :=
  ∃ text, s.pubKey = some ⟨Account.Amino.secp256k1, text⟩ ∧
    Account.PubKey.ofBase64 .account text = .ok key

end Raw.Signature

namespace Account.PubKey

theorem ofBase64_eq_ok_iff {t : AccountType} {text : String} {key : PubKey} :
    PubKey.ofBase64 t text = .ok key ↔ t = key.type ∧ Base64.decode text = .ok key.body := by
  constructor
  · intro h
    obtain ⟨body, hbody, h⟩ := bind_eq_ok_iff.mp h
    obtain ⟨rfl, rfl⟩ := PubKey.ofBody_eq_ok_iff.mp h
    exact ⟨rfl, mapError_eq_ok_iff.mp hbody⟩
  · rintro ⟨rfl, hbody⟩
    exact bind_eq_ok_iff.mpr
      ⟨key.body, mapError_eq_ok_iff.mpr hbody, PubKey.ofBody_eq_ok_iff.mpr ⟨rfl, rfl⟩⟩

/-- A key is read from the texts of 44 characters of the alphabet, which say 33 bytes. -/
theorem exists_ofBase64_iff {t : AccountType} {text : String} :
    (∃ key, PubKey.ofBase64 t text = .ok key) ↔
      text.length = 44 ∧ ∀ c ∈ text.toList, Base64.IsSymbol c := by
  rw [← Base64.exists_decode_iff (n := 11)]
  constructor
  · rintro ⟨key, h⟩
    exact ⟨key.body, (ofBase64_eq_ok_iff.mp h).2, key.length_body⟩
  · rintro ⟨body, hbody, hlength⟩
    exact ⟨⟨t, body, hlength⟩, ofBase64_eq_ok_iff.mpr ⟨rfl, hbody⟩⟩

end Account.PubKey

namespace Raw.Signature

variable {s : Signature} {network : String}

theorem exists_namesKey_iff : (∃ key, s.NamesKey key) ↔ s.HasUsableKey := by
  constructor
  · rintro ⟨key, text, htext, hkey⟩
    exact ⟨text, htext, Account.PubKey.exists_ofBase64_iff.mp ⟨key, hkey⟩⟩
  · rintro ⟨text, htext, hsymbols⟩
    obtain ⟨key, hkey⟩ :=
      (Account.PubKey.exists_ofBase64_iff (t := .account)).mpr hsymbols
    exact ⟨key, text, htext, hkey⟩

theorem signerAddress_eq_ok_iff {address : String} :
    s.signerAddress network = .ok address ↔
      ∃ key, s.NamesKey key ∧ (Account.Address.ofPubKey key).toBech32 network = .ok address := by
  constructor
  · intro h
    rw [signerAddress] at h
    split at h
    · cases h
    · next key hkey =>
      obtain ⟨type, text⟩ := key
      split at h
      · next htype =>
        obtain ⟨pubKey, hpubKey, haddress⟩ := bind_eq_ok_iff.mp h
        dsimp only at htype
        subst htype
        exact ⟨pubKey, ⟨text, hkey, hpubKey⟩, haddress⟩
      · cases h
  · rintro ⟨key, ⟨text, htext, hkey⟩, haddress⟩
    rw [signerAddress, htext]
    exact bind_eq_ok_iff.mpr ⟨key, hkey, haddress⟩

theorem exists_signerAddress_iff :
    (∃ address, s.signerAddress network = .ok address) ↔
      s.HasUsableKey ∧ Account.Bech32.IsPart network.toList := by
  have written : ∀ key, s.NamesKey key →
      ((∃ address, (Account.Address.ofPubKey key).toBech32 network = .ok address) ↔
        Account.Bech32.IsPart network.toList) := by
    rintro key ⟨text, -, hkey⟩
    have hpart : (Account.Address.ofPubKey key).type.hrp network = network := by
      rw [Account.Address.ofPubKey, ← (Account.PubKey.ofBase64_eq_ok_iff.mp hkey).1]
      exact String.append_empty
    rw [Account.Address.toBech32, hpart]
    exact Account.exists_encodeBytes_iff
  rw [← exists_namesKey_iff]
  constructor
  · rintro ⟨address, h⟩
    obtain ⟨key, hkey, haddress⟩ := signerAddress_eq_ok_iff.mp h
    exact ⟨⟨key, hkey⟩, (written key hkey).mp ⟨address, haddress⟩⟩
  · rintro ⟨⟨key, hkey⟩, hpart⟩
    obtain ⟨address, haddress⟩ := (written key hkey).mpr hpart
    exact ⟨address, signerAddress_eq_ok_iff.mpr ⟨key, hkey, haddress⟩⟩

end Raw.Signature

variable {raw : Raw.Result} {network : String}

theorem exists_signerAddresses_iff :
    (∃ addresses, raw.signerAddresses network = .ok addresses) ↔
      ∀ s ∈ raw.tx.value.signatures, ∃ address, s.signerAddress network = .ok address := by
  rw [← exists_mapM_iff]
  constructor
  · rintro ⟨addresses, h⟩
    obtain ⟨list, hlist, -⟩ := map_eq_ok_iff.mp h
    exact ⟨list, hlist⟩
  · rintro ⟨list, hlist⟩
    exact ⟨.ofList list, map_eq_ok_iff.mpr ⟨list, hlist, rfl⟩⟩

theorem mem_signerAddresses {addresses : AscendingSet String}
    (h : raw.signerAddresses network = .ok addresses) {address : String} :
    address ∈ addresses.toList ↔
      ∃ s ∈ raw.tx.value.signatures, s.signerAddress network = .ok address := by
  obtain ⟨list, hlist, rfl⟩ := map_eq_ok_iff.mp h
  rw [AscendingSet.mem_ofList, mem_of_mapM hlist]

/-- The signers are the addresses of all signatures, if each has one. -/
theorem mem_signers {address : String} :
    address ∈ (signers raw network).toList ↔
      (∀ s ∈ raw.tx.value.signatures, ∃ other, s.signerAddress network = .ok other) ∧
      ∃ s ∈ raw.tx.value.signatures, s.signerAddress network = .ok address := by
  rw [← exists_signerAddresses_iff, signers]
  cases h : raw.signerAddresses network with
  | ok addresses => simp [mem_signerAddresses h]
  | error e => simp [AscendingSet.empty]

theorem signers_withSignatures {signatures : List Raw.Signature}
    (same : ∀ s, s ∈ signatures ↔ s ∈ raw.tx.value.signatures) :
    signers (raw.withSignatures signatures) network = signers raw network := by
  have hsignatures : (raw.withSignatures signatures).tx.value.signatures = signatures := rfl
  apply AscendingSet.eq_of_mem_iff
  intro address
  simp only [mem_signers, hsignatures, same]

/-- The signers are those of all signatures or of none. They are the set of the addresses of the
keys if all signatures have usable keys and the name of the network can be written, and the first
signature that has no address tells why there are none. Signatures may be repeated and change places,
and the network changes nothing but the signers. -/
theorem signers_all_or_none (raw : Raw.Result) (network : String) :
    ((∃ addresses, raw.signerAddresses network = .ok addresses) ↔
      (∀ s ∈ raw.tx.value.signatures, s.HasUsableKey) ∧
        (raw.tx.value.signatures = [] ∨ Account.Bech32.IsPart network.toList)) ∧
    (∀ error, raw.signerAddresses network = .error error ↔
      ∃ front s back, raw.tx.value.signatures = front ++ s :: back ∧
        (∀ t ∈ front, ∃ address, t.signerAddress network = .ok address) ∧
        s.signerAddress network = .error error) ∧
    (∀ addresses, raw.signerAddresses network = .ok addresses →
      (∀ address, address ∈ addresses.toList ↔ ∃ s ∈ raw.tx.value.signatures, ∃ key,
        s.NamesKey key ∧ (Account.Address.ofPubKey key).toBech32 network = .ok address) ∧
      (Receipt.ofRaw raw network).summary.signers = addresses) ∧
    (∀ error, raw.signerAddresses network = .error error →
      (Receipt.ofRaw raw network).summary.signers = .empty) ∧
    (∀ signatures : List Raw.Signature,
      (∀ s, s ∈ signatures ↔ s ∈ raw.tx.value.signatures) →
        Receipt.ofRaw (raw.withSignatures signatures) network = Receipt.ofRaw raw network) ∧
    ∀ other : String, Receipt.ofRaw raw other =
      { Receipt.ofRaw raw network with
        summary := { (Receipt.ofRaw raw network).summary with
          signers := (Receipt.ofRaw raw other).summary.signers } } := by
  refine ⟨?_, fun error => ?_, fun addresses h => ⟨fun address => ?_, ?_⟩, fun error h => ?_,
    fun signatures same => ?_, fun other => rfl⟩
  · simp only [exists_signerAddresses_iff, Raw.Signature.exists_signerAddress_iff]
    constructor
    · intro h
      refine ⟨fun s hs => (h s hs).1, ?_⟩
      cases hsignatures : raw.tx.value.signatures with
      | nil => exact Or.inl rfl
      | cons s rest => exact Or.inr (h s (hsignatures ▸ .head _)).2
    · rintro ⟨husable, hnil | hpart⟩ s hs
      · rw [hnil] at hs
        cases hs
      · exact ⟨husable s hs, hpart⟩
  · rw [Raw.Result.signerAddresses, map_eq_error_iff, mapM_eq_error_iff]
  · simp only [mem_signerAddresses h, Raw.Signature.signerAddress_eq_ok_iff]
  · show signers raw network = addresses
    rw [signers, h]
  · show signers raw network = .empty
    rw [signers, h]
  · have hsigners : signers (raw.withSignatures signatures) network = signers raw network :=
      signers_withSignatures same
    show Receipt.mk { Summary.ofRaw raw network with
      signers := signers (raw.withSignatures signatures) network } _ _ = _
    rw [hsigners]
    rfl

/-- A signature that stands twice gives one signer, and one without a key leaves none. -/
theorem signers_all_or_none_of_repeated :
    let s : Raw.Signature := ⟨some ⟨"tendermint/PubKeySecp256k1",
      "AgECAwQFBgcICQoLDA0ODxAREhMUFRYXGBkaGxwdHh8g"⟩, ""⟩
    let raw := (Extract.bareResult [] []).withSignatures [s, s]
    let unsigned := raw.withSignatures [s, ⟨none, ""⟩]
    (∀ t ∈ raw.tx.value.signatures, t.HasUsableKey) ∧ Account.Bech32.IsPart "tlink".toList ∧
    (∃ addresses, raw.signerAddresses "tlink" = .ok addresses ∧
      "tlink19mhhfs3xmyt9lk9uah33kk9lgucqz9dqhgpfz8" ∈ addresses.toList ∧
      (Receipt.ofRaw raw "tlink").summary.signers = addresses) ∧
    Receipt.ofRaw (raw.withSignatures [s]) "tlink" = Receipt.ofRaw raw "tlink" ∧
    unsigned.signerAddresses "tlink" = .error .missingPubKey ∧
    (Receipt.ofRaw unsigned "tlink").summary.signers = .empty := by
  intro s raw unsigned
  let key : Account.PubKey := ⟨.account, 2 :: (List.range 32).map fun i => UInt8.ofNat (i + 1), rfl⟩
  have hdecode : Account.Base64.decode "AgECAwQFBgcICQoLDA0ODxAREhMUFRYXGBkaGxwdHh8g" =
      .ok key.body := by
    rw [Account.Base64.decode, Account.Base64.toList_toUTF8]
    decide +kernel
  have named : s.NamesKey key :=
    ⟨_, rfl, Account.PubKey.ofBase64_eq_ok_iff.mpr ⟨rfl, hdecode⟩⟩
  have usable : s.HasUsableKey := Raw.Signature.exists_namesKey_iff.mp ⟨key, named⟩
  have haddress : (Account.Address.ofPubKey key).toBech32 "tlink" =
      .ok "tlink19mhhfs3xmyt9lk9uah33kk9lgucqz9dqhgpfz8" := by decide +kernel
  have part : Account.Bech32.IsPart "tlink".toList :=
    Account.exists_encodeBytes_iff.mp ⟨_, haddress⟩
  have all : ∀ t ∈ raw.tx.value.signatures, t.HasUsableKey := by
    intro t ht
    rcases List.mem_cons.mp ht with rfl | ht
    · exact usable
    · exact List.mem_singleton.mp ht ▸ usable
  obtain ⟨hok, -, hset, -, hsame, -⟩ := signers_all_or_none raw "tlink"
  obtain ⟨-, herror, -, hempty, -, -⟩ := signers_all_or_none unsigned "tlink"
  obtain ⟨addresses, haddresses⟩ := hok.mpr ⟨all, Or.inr part⟩
  have hmissing : unsigned.signerAddresses "tlink" = .error .missingPubKey := by
    refine (herror _).mpr ⟨[s], ⟨none, ""⟩, [], rfl, ?_, rfl⟩
    intro t ht
    rw [List.mem_singleton.mp ht]
    exact ⟨_, Raw.Signature.signerAddress_eq_ok_iff.mpr ⟨key, named, haddress⟩⟩
  refine ⟨all, part, ⟨addresses, haddresses, ?_, (hset _ haddresses).2⟩, hsame [s] ?_, hmissing,
    hempty _ hmissing⟩
  · exact ((hset _ haddresses).1 _).mpr ⟨s, .head _, key, named, haddress⟩
  · intro t
    show t ∈ [s] ↔ t ∈ [s, s]
    simp

end TxReceipt
