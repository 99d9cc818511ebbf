import TxReceipt.Account.Address
import TxReceipt.AscendingSet
import TxReceipt.Raw.Basic

/-!
# Signers

The signers of a transaction are the account addresses of the keys of its signatures. One signature
without a usable key leaves no answer at all.
-/

namespace TxReceipt.Raw

open Account (PubKey Address)

def Signature.signerAddress (s : Signature) (network : String) : Except Account.Error String :=
  match s.pubKey with
  | none => .error .missingPubKey
  | some key =>
    if key.type = Account.Amino.secp256k1 then do
      let pubKey ← Account.PubKey.ofBase64 .account key.value
      (Address.ofPubKey pubKey).toBech32 network
    else .error (.unsupportedKeyType key.type)

/-- The addresses of all signatures on a network, as a set; the first failure decides. -/
def Result.signerAddresses (r : Result) (network : String) :
    Except Account.Error (AscendingSet String) :=
  (r.tx.value.signatures.mapM fun (s : Signature) => s.signerAddress network).map .ofList

end TxReceipt.Raw
