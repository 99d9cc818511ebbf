import TxReceipt.Event.Write
import TxReceipt.Json.Record
import TxReceipt.Raw.Read

/-!
# Reading events

Reading is strict: every field of the kind has to be there and of its type. The name of the kind may
stand anywhere in the object, but once, and the whole event has to hold values only, so that parts
that are passed over are no exception. An event may also be an array of its name and its fields.
-/

namespace TxReceipt

open Json (Document Member Members ReadError)
open Json.Document (readInt32 readList readText readUInt64)

/-- Reads a name that stands for itself, as a text or as the only key of an object. `holds` says
what the object may hold under the key. -/
def readName (holds : Document → Bool) : Document → Except ReadError String
  | .text name => .ok name
  | .object [(some name, d)] true => if holds d then .ok name else .error d.mismatch
  | .object _ _ => .error .malformed
  | d => .error d.mismatch

def readNamed {α : Type} (ofName? : String → Option α) (holds : Document → Bool) (d : Document) :
    Except ReadError α := do
  let name ← readName holds d
  match ofName? name with
  | some x => .ok x
  | none => .error (.unknownName name)

def isNull : Document → Bool
  | .null => true
  | _ => false

/-- Null, or an object without fields. -/
def isNullOrEmpty : Document → Bool
  | .null | .object [] true => true
  | _ => false

/-- Reads an attribute whose two members are texts. -/
def readExactAttribute (d : Document) : Except ReadError Attribute :=
  (Members.read (.cons (.required ["key"] readText) <| .cons (.required ["value"] readText) .nil)
    d).map fun (key, value, _) => ⟨key, value⟩

/-- Reads changes, in any order and with repetitions. -/
def readChanges (d : Document) : Except ReadError Changes :=
  (readList readExactAttribute d).map AscendingSet.ofList

namespace EventName

def text (name : String) : Member String :=
  .required [name] readText

def texts (name : String) : Member (List String) :=
  .required [name] (readList readText)

def decimals (name : String) : Member Int32 :=
  .required [name] readInt32

def changes (name : String) : Member Changes :=
  .required [name] readChanges

def attributes (name : String) : Member (List Attribute) :=
  .required [name] (readList readExactAttribute)

def tokenPermission (name : String) : Member TokenPermission :=
  .required [name] (readNamed TokenPermission.ofWireName? isNullOrEmpty)

def itemPermission (name : String) : Member ItemPermission :=
  .required [name] (readNamed ItemPermission.ofWireName? isNullOrEmpty)

/-- Reads the fields of an event, of which the index of the message is the first. -/
def readEvent {ρ : Type} (members : Members ρ) (effect : ρ → Effect) (d : Document) :
    Except ReadError Event :=
  (Members.read (.cons (.required ["msgIndex"] readUInt64) members) d).map
    fun (msgIndex, r) => ⟨msgIndex, effect r⟩

/-- Reads the fields of an event whose effect starts with a contract. -/
def readContractEvent {ρ : Type} (members : Members ρ) (effect : String × ρ → Effect) :
    Document → Except ReadError Event :=
  readEvent (.cons (text "contractId") members) effect

def readFields : EventName → Document → Except ReadError Event
  | .accountCreated =>
    readEvent (.cons (text "createdAccountAddress") .nil)
      fun (address, _) => .accountCreated address
  | .emptyMessageCreated =>
    readEvent (.cons (text "senderAddress") .nil)
      fun (sender, _) => .emptyMessageCreated sender
  | .coinTransferred =>
    readEvent (.cons (text "denomination") <| .cons (text "amount") <|
      .cons (text "fromAddress") <| .cons (text "toAddress") .nil)
      fun (denomination, amount, sender, recipient, _) =>
        .coinTransferred denomination amount sender recipient
  | .tokenIssued =>
    readContractEvent (.cons (text "issuerAddress") <| .cons (text "name") <|
      .cons (text "symbol") <| .cons (text "receiverAddress") <| .cons (text "amount") <|
      .cons (decimals "decimals") .nil)
      fun (contractId, issuer, name, symbol, recipient, amount, decimals, _) =>
        .tokenIssued contractId issuer name symbol recipient amount decimals
  | .tokenMinted =>
    readContractEvent (.cons (text "minterAddress") <| .cons (text "toAddress") <|
      .cons (text "amount") .nil)
      fun (contractId, minter, recipient, amount, _) =>
        .tokenMinted contractId minter recipient amount
  | .tokenBurned =>
    readContractEvent (.cons (text "amount") <| .cons (text "fromAddress") <|
      .cons (text "proxyAddress") .nil)
      fun (contractId, amount, holder, proxy, _) => .tokenBurned contractId amount holder proxy
  | .tokenModified =>
    readContractEvent (.cons (text "modifierAddress") <| .cons (changes "tokenAttributes") .nil)
      fun (contractId, modifier, changes, _) => .tokenModified contractId modifier changes
  | .tokenTransferred =>
    readContractEvent (.cons (text "fromAddress") <| .cons (text "amount") <|
      .cons (text "toAddress") <| .cons (text "proxyAddress") .nil)
      fun (contractId, sender, amount, recipient, proxy, _) =>
        .tokenTransferred contractId sender amount recipient proxy
  | .tokenProxyApproved =>
    readContractEvent (.cons (text "approverAddress") <| .cons (text "proxyAddress") .nil)
      fun (contractId, approver, proxy, _) => .tokenProxyApproved contractId approver proxy
  | .tokenProxyDisapproved =>
    readContractEvent (.cons (text "approverAddress") <| .cons (text "proxyAddress") .nil)
      fun (contractId, approver, proxy, _) => .tokenProxyDisapproved contractId approver proxy
  | .tokenPermissionGranted =>
    readContractEvent (.cons (text "granterAddress") <| .cons (text "granteeAddress") <|
      .cons (tokenPermission "permission") .nil)
      fun (contractId, granter, grantee, permission, _) =>
        .tokenPermissionGranted contractId granter grantee permission
  | .tokenPermissionRenounced =>
    readContractEvent (.cons (text "granteeAddress") <| .cons (tokenPermission "permission") .nil)
      fun (contractId, grantee, permission, _) =>
        .tokenPermissionRenounced contractId grantee permission
  | .collectionCreated =>
    readContractEvent (.cons (text "creatorAddress") <| .cons (text "name") .nil)
      fun (contractId, creator, name, _) => .collectionCreated contractId creator name
  | .collectionModified =>
    readContractEvent (.cons (text "modifierAddress") <| .cons (changes "tokenAttributes") .nil)
      fun (contractId, modifier, changes, _) => .collectionModified contractId modifier changes
  | .collectionProxyApproved =>
    readContractEvent (.cons (text "approverAddress") <| .cons (text "proxyAddress") .nil)
      fun (contractId, approver, proxy, _) => .collectionProxyApproved contractId approver proxy
  | .collectionProxyDisapproved =>
    readContractEvent (.cons (text "approverAddress") <| .cons (text "proxyAddress") .nil)
      fun (contractId, approver, proxy, _) =>
        .collectionProxyDisapproved contractId approver proxy
  | .collectionPermissionGranted =>
    readContractEvent (.cons (text "granterAddress") <| .cons (text "granteeAddress") <|
      .cons (itemPermission "permission") .nil)
      fun (contractId, granter, grantee, permission, _) =>
        .collectionPermissionGranted contractId granter grantee permission
  | .collectionPermissionRenounced =>
    readContractEvent (.cons (text "granteeAddress") <| .cons (itemPermission "permission") .nil)
      fun (contractId, grantee, permission, _) =>
        .collectionPermissionRenounced contractId grantee permission
  | .ftIssued =>
    readContractEvent (.cons (text "name") <| .cons (text "tokenType") <|
      .cons (text "amount") <| .cons (decimals "decimals") <| .cons (text "issuerAddress") <|
      .cons (text "receiverAddress") .nil)
      fun (contractId, name, tokenType, amount, decimals, issuer, recipient, _) =>
        .ftIssued contractId name tokenType amount decimals issuer recipient
  | .ftMinted =>
    readContractEvent (.cons (text "tokenId") <| .cons (text "tokenType") <|
      .cons (text "amount") <| .cons (text "minterAddress") <| .cons (text "toAddress") .nil)
      fun (contractId, tokenId, tokenType, amount, minter, recipient, _) =>
        .ftMinted contractId tokenId tokenType amount minter recipient
  | .ftBurned =>
    readContractEvent (.cons (text "tokenId") <| .cons (text "tokenType") <|
      .cons (text "fromAddress") <| .cons (text "amount") <| .cons (text "proxyAddress") .nil)
      fun (contractId, tokenId, tokenType, holder, amount, proxy, _) =>
        .ftBurned contractId tokenId tokenType holder amount proxy
  | .ftTransferred =>
    readContractEvent (.cons (text "amount") <| .cons (text "tokenId") <|
      .cons (text "tokenType") <| .cons (text "fromAddress") <| .cons (text "toAddress") <|
      .cons (text "proxyAddress") .nil)
      fun (contractId, amount, tokenId, tokenType, sender, recipient, proxy, _) =>
        .ftTransferred contractId amount tokenId tokenType sender recipient proxy
  | .ftModified =>
    readContractEvent (.cons (text "tokenType") <| .cons (text "modifierAddress") <|
      .cons (changes "tokenAttributes") .nil)
      fun (contractId, tokenType, modifier, changes, _) =>
        .ftModified contractId tokenType modifier changes
  | .nftIssued =>
    readContractEvent (.cons (text "tokenType") <| .cons (text "issuerAddress") .nil)
      fun (contractId, tokenType, issuer, _) => .nftIssued contractId tokenType issuer
  | .nftMinted =>
    readContractEvent (.cons (texts "tokenIds") <| .cons (text "toAddress") <|
      .cons (text "minterAddress") .nil)
      fun (contractId, tokenIds, recipient, minter, _) =>
        .nftMinted contractId tokenIds recipient minter
  | .nftBurned =>
    readContractEvent (.cons (texts "tokenIds") <| .cons (text "fromAddress") <|
      .cons (text "proxyAddress") .nil)
      fun (contractId, tokenIds, holder, proxy, _) => .nftBurned contractId tokenIds holder proxy
  | .nftTransferred =>
    readContractEvent (.cons (texts "tokenIds") <| .cons (text "fromAddress") <|
      .cons (text "toAddress") <| .cons (text "proxyAddress") .nil)
      fun (contractId, tokenIds, sender, recipient, proxy, _) =>
        .nftTransferred contractId tokenIds sender recipient proxy
  | .nftHolderChanged =>
    readContractEvent (.cons (texts "tokenIds") <| .cons (text "fromAddress") <|
      .cons (text "toAddress") .nil)
      fun (contractId, tokenIds, sender, recipient, _) =>
        .nftHolderChanged contractId tokenIds sender recipient
  | .nftModified =>
    readContractEvent (.cons (text "tokenId") <| .cons (text "modifierAddress") <|
      .cons (changes "tokenAttributes") .nil)
      fun (contractId, tokenId, modifier, changes, _) =>
        .nftModified contractId tokenId modifier changes
  | .nftTypeModified =>
    readContractEvent (.cons (text "tokenType") <| .cons (text "modifierAddress") <|
      .cons (changes "tokenAttributes") .nil)
      fun (contractId, tokenType, modifier, changes, _) =>
        .nftTypeModified contractId tokenType modifier changes
  | .nftAttached =>
    readContractEvent (.cons (text "holderAddress") <| .cons (text "childTokenId") <|
      .cons (text "parentTokenId") <| .cons (text "proxyAddress") .nil)
      fun (contractId, holder, child, parent, proxy, _) =>
        .nftAttached contractId holder child parent proxy
  | .nftDetached =>
    readContractEvent (.cons (text "holderAddress") <| .cons (text "exChildTokenId") <|
      .cons (text "exParentTokenId") <| .cons (text "proxyAddress") .nil)
      fun (contractId, holder, exChild, exParent, proxy, _) =>
        .nftDetached contractId holder exChild exParent proxy
  | .nftRootChanged =>
    readContractEvent (.cons (texts "tokenIds") <| .cons (text "oldRootTokenId") <|
      .cons (text "newRootTokenId") .nil)
      fun (contractId, tokenIds, oldRoot, newRoot, _) =>
        .nftRootChanged contractId tokenIds oldRoot newRoot
  | .unknown =>
    readEvent (.cons (text "type") <| .cons (attributes "attributes") <|
      .cons (text "extraMessage") .nil)
      fun (type, attributes, note, _) => .unknown type attributes note

end EventName

namespace Event

/-- Takes the name of the kind out of the fields; it has to stand there once. -/
def takeName : List (Option String × Document) →
    Except ReadError (Document × List (Option String × Document))
  | [] => .error (.missingField nameField)
  | field :: fields =>
    if field.1 = some nameField then
      if fields.any fun f => f.1 == some nameField then .error (.duplicateField nameField)
      else .ok (field.2, fields)
    else do
      let (name, rest) ← takeName fields
      return (name, field :: rest)

def readKind (d : Document) : Except ReadError EventName := do
  let name ← readText d
  match EventName.ofWireName? name with
  | some kind => .ok kind
  | none => .error (.unknownName name)

def read (d : Document) : Except ReadError Event := do
  let _ ← d.readValue
  match d with
  | .object fields closed => do
    let (name, rest) ← takeName fields
    let kind ← readKind name
    kind.readFields (.object rest closed)
  | .array (name :: rest) closed => do
    let kind ← readKind name
    kind.readFields (.array rest closed)
  | .array [] _ => .error (.missingField nameField)
  | d => .error d.mismatch

end Event

end TxReceipt
