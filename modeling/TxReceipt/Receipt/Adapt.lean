import TxReceipt.Extract.Events
import TxReceipt.Raw.Read
import TxReceipt.Raw.Signers
import TxReceipt.Receipt.Basic

/-!
# Receipts of raw results

The receipt of a raw result on a network. The network matters to the signers alone; where they
cannot be derived there are none.
-/

namespace TxReceipt

/-- The signers, or none if they cannot be derived. -/
def signers (raw : Raw.Result) (network : String) : AscendingSet String :=
  match raw.signerAddresses network with
  | .ok addresses => addresses
  | .error _ => .empty

namespace Summary

def ofRaw (raw : Raw.Result) (network : String) : Summary where
  height := raw.height
  txIndex := raw.index
  txHash := raw.txHash
  timestamp := raw.timestamp
  signers := TxReceipt.signers raw network
  status := .ofCode raw.code (raw.codespace.getD "")

end Summary

def Message.ofRaw (raw : Raw.Result) : List Message :=
  raw.messages.mapIdx fun i m => ⟨UInt64.ofNat i, m.type, m.value⟩

namespace Receipt

def ofRaw (raw : Raw.Result) (network : String) : Receipt where
  summary := .ofRaw raw network
  messages := Message.ofRaw raw
  events := Extract.events raw

def ofRawText (text network : String) : Except Raw.FormatError Receipt :=
  (Raw.Result.ofText text).map fun raw => ofRaw raw network

end Receipt

end TxReceipt
