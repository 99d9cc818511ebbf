import TxReceipt.Account.Amino
import TxReceipt.Account.Error
import TxReceipt.Account.Ripemd160
import TxReceipt.Account.Sha256

/-!
# Addresses and public keys

An address has a type and a body of 20 bytes, a public key a type and 33 bytes. Their texts are
bech32 under the name of the network, a suffix for the type, and `pub` for keys. The body of a key
follows the mark of its registered type.
-/

namespace TxReceipt.Account

inductive AccountType where
  | account
  | validatorConsensus
  | validatorOperator
  deriving DecidableEq

namespace AccountType

/-- What stands after the name of the network. -/
def suffix : AccountType → String
  | .account => ""
  | .validatorConsensus => "valcons"
  | .validatorOperator => "valoper"

def ofSuffix : String → Except Error AccountType
  | "" => .ok .account
  | "valcons" => .ok .validatorConsensus
  | "valoper" => .ok .validatorOperator
  | suffix => .error (.unknownTypeSuffix suffix)

def hrp (t : AccountType) (network : String) : String :=
  network ++ t.suffix

end AccountType

/-- Drops some items from the front of a list, if they stand there. -/
def dropFront? {α : Type} [DecidableEq α] : List α → List α → Option (List α)
  | [], xs => some xs
  | _ :: _, [] => none
  | y :: ys, x :: xs => if y = x then dropFront? ys xs else none

/-- What follows the name of the network in a human-readable part. -/
def afterNetwork (part network : String) : Except Error String :=
  match dropFront? network.toList part.toList with
  | some rest => .ok (String.ofList rest)
  | none => .error (.otherNetwork part network)

def encodeBytes (part : String) (bytes : List UInt8) : Except Error String := do
  let groups ← (regroup bytes 8 5 true).mapError .bitGroups
  let symbols ← (groups.mapM Bech32.symbolOfByte).mapError .bech32
  (Bech32.encode part symbols).mapError .bech32

def decodeBytes (text : String) : Except Error (String × List UInt8) := do
  let (part, symbols, variant) ← (Bech32.decode text).mapError .bech32
  if variant = .bech32 then
    let bytes ← (regroup (symbols.map fun s => UInt8.ofNat s.val) 5 8 false).mapError .bitGroups
    return (part, bytes)
  else .error (.unsupportedVariant variant.name)

structure Address where
  type : AccountType
  body : List UInt8
  length_body : body.length = BodyKind.address.length
  deriving DecidableEq

structure PubKey where
  type : AccountType
  body : List UInt8
  length_body : body.length = BodyKind.pubKey.length
  deriving DecidableEq

namespace Address

def ofBody (type : AccountType) (body : List UInt8) : Except Error Address :=
  if h : body.length = BodyKind.address.length then .ok ⟨type, body, h⟩
  else .error (.invalidLength .address body.length)

/-- The address of a public key: the RIPEMD-160 digest of the SHA-256 digest of its body. -/
def ofPubKey (key : PubKey) : Address :=
  ⟨key.type, Ripemd160.digest (Sha256.digest key.body), Ripemd160.length_digest _⟩

def toBech32 (a : Address) (network : String) : Except Error String :=
  encodeBytes (a.type.hrp network) a.body

def ofBech32 (text network : String) : Except Error Address := do
  let (part, bytes) ← decodeBytes text
  let suffix ← afterNetwork part network
  let type ← AccountType.ofSuffix suffix
  ofBody type bytes

end Address

namespace PubKey

def ofBody (type : AccountType) (body : List UInt8) : Except Error PubKey :=
  if h : body.length = BodyKind.pubKey.length then .ok ⟨type, body, h⟩
  else .error (.invalidLength .pubKey body.length)

def ofBase64 (type : AccountType) (text : String) : Except Error PubKey := do
  let body ← (Base64.decode text).mapError .base64
  ofBody type body

/-- What keys have after the suffix of their type. -/
def keySuffix : String := "pub"

def toBech32 (k : PubKey) (network : String) : Except Error String := do
  let mark ← Amino.registration Amino.secp256k1 k.body
  encodeBytes (k.type.hrp network ++ keySuffix) (mark ++ k.body)

/-- The human-readable part without the suffix of keys. -/
def withoutKeySuffix (part : String) : Except Error String :=
  match dropFront? keySuffix.toList.reverse part.toList.reverse with
  | some rest => .ok (String.ofList rest.reverse)
  | none => .error (.unknownTypeSuffix part)

def ofBech32 (text network : String) : Except Error PubKey := do
  let (part, bytes) ← decodeBytes text
  let typePart ← withoutKeySuffix part
  let suffix ← afterNetwork typePart network
  let type ← AccountType.ofSuffix suffix
  let mark ← Amino.registration Amino.secp256k1 (List.replicate BodyKind.pubKey.length 0)
  match dropFront? mark bytes with
  | some body => ofBody type body
  | none => .error (.aminoPrefixMismatch Amino.secp256k1)

end PubKey

end TxReceipt.Account
