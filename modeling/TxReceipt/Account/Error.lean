import TxReceipt.Account.Base64
import TxReceipt.Account.Bech32
import TxReceipt.Account.BitGroups

/-!
# Faults of the account codec
-/

namespace TxReceipt.Account

/-- What a fixed number of bytes stands for. -/
inductive BodyKind where
  | address
  | pubKey
  deriving DecidableEq

namespace BodyKind

def length : BodyKind → Nat
  | .address => 20
  | .pubKey => 33

def name : BodyKind → String
  | .address => "address"
  | .pubKey => "public key"

end BodyKind

inductive Error where
  | invalidLength (kind : BodyKind) (got : Nat)
  | otherNetwork (part network : String)
  | unknownTypeSuffix (suffix : String)
  | aminoBodyTooLarge (length max : Nat)
  | aminoPrefixNotFound (name : String)
  | aminoPrefixMismatch (name : String)
  | unsupportedKeyType (keyType : String)
  | missingPubKey
  | unsupportedVariant (variant : String)
  | bech32 (error : Bech32.Error)
  | bitGroups (error : BitGroupError)
  | base64 (error : Base64.Error)
  deriving DecidableEq

def Error.message : Error → String
  | .invalidLength kind got =>
    "Invalid " ++ kind.name ++ " length: expected " ++ toString kind.length ++ " bytes, got " ++
      toString got
  | .otherNetwork part network =>
    "Human-readable part '" ++ part ++ "' does not start with prefix '" ++ network ++ "'"
  | .unknownTypeSuffix suffix => "Unknown account type suffix: '" ++ suffix ++ "'"
  | .aminoBodyTooLarge length max =>
    "Amino body too large: " ++ toString length ++ " bytes, at most " ++ toString max ++
      " supported"
  | .aminoPrefixNotFound name => "Amino prefix not found in hash of type name '" ++ name ++ "'"
  | .aminoPrefixMismatch name => "Amino prefix mismatch for type '" ++ name ++ "'"
  | .unsupportedKeyType keyType => "Unsupported public key type: " ++ keyType
  | .missingPubKey => "Signature has no public key"
  | .unsupportedVariant variant => "Unsupported bech32 variant: " ++ variant
  | .bech32 error => "Bech32 error: " ++ error.message
  | .bitGroups error => "Bit conversion error: " ++ error.message
  | .base64 error => "Base64 decode error: " ++ error.message

end TxReceipt.Account
