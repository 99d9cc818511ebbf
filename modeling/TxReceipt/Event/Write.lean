import TxReceipt.Event.Name
import TxReceipt.Json.Value
import TxReceipt.Raw.Write

/-!
# Writing events

On the wire an event is one object: the name of its kind, the index of its message, and the fields
of its effect in their order.
-/

namespace TxReceipt

open Json (Value)
open Json.Value (texts)

def Changes.toValue (changes : Changes) : Value :=
  .array (changes.toList.map Raw.attributeValue)

def Effect.fields : Effect → List (String × Value)
  | .accountCreated address => [("createdAccountAddress", .text address)]
  | .emptyMessageCreated sender => [("senderAddress", .text sender)]
  | .coinTransferred denomination amount sender recipient => [
    ("denomination", .text denomination), ("amount", .text amount),
    ("fromAddress", .text sender), ("toAddress", .text recipient)]
  | .tokenIssued contractId issuer name symbol recipient amount decimals => [
    ("contractId", .text contractId), ("issuerAddress", .text issuer), ("name", .text name),
    ("symbol", .text symbol), ("receiverAddress", .text recipient), ("amount", .text amount),
    ("decimals", .number (.ofInt32 decimals))]
  | .tokenMinted contractId minter recipient amount => [
    ("contractId", .text contractId), ("minterAddress", .text minter),
    ("toAddress", .text recipient), ("amount", .text amount)]
  | .tokenBurned contractId amount holder proxy => [
    ("contractId", .text contractId), ("amount", .text amount), ("fromAddress", .text holder),
    ("proxyAddress", .text proxy)]
  | .tokenModified contractId modifier changes => [
    ("contractId", .text contractId), ("modifierAddress", .text modifier),
    ("tokenAttributes", changes.toValue)]
  | .tokenTransferred contractId sender amount recipient proxy => [
    ("contractId", .text contractId), ("fromAddress", .text sender), ("amount", .text amount),
    ("toAddress", .text recipient), ("proxyAddress", .text proxy)]
  | .tokenProxyApproved contractId approver proxy => [
    ("contractId", .text contractId), ("approverAddress", .text approver),
    ("proxyAddress", .text proxy)]
  | .tokenProxyDisapproved contractId approver proxy => [
    ("contractId", .text contractId), ("approverAddress", .text approver),
    ("proxyAddress", .text proxy)]
  | .tokenPermissionGranted contractId granter grantee permission => [
    ("contractId", .text contractId), ("granterAddress", .text granter),
    ("granteeAddress", .text grantee), ("permission", .text permission.wireName)]
  | .tokenPermissionRenounced contractId grantee permission => [
    ("contractId", .text contractId), ("granteeAddress", .text grantee),
    ("permission", .text permission.wireName)]
  | .collectionCreated contractId creator name => [
    ("contractId", .text contractId), ("creatorAddress", .text creator), ("name", .text name)]
  | .collectionModified contractId modifier changes => [
    ("contractId", .text contractId), ("modifierAddress", .text modifier),
    ("tokenAttributes", changes.toValue)]
  | .collectionProxyApproved contractId approver proxy => [
    ("contractId", .text contractId), ("approverAddress", .text approver),
    ("proxyAddress", .text proxy)]
  | .collectionProxyDisapproved contractId approver proxy => [
    ("contractId", .text contractId), ("approverAddress", .text approver),
    ("proxyAddress", .text proxy)]
  | .collectionPermissionGranted contractId granter grantee permission => [
    ("contractId", .text contractId), ("granterAddress", .text granter),
    ("granteeAddress", .text grantee), ("permission", .text permission.wireName)]
  | .collectionPermissionRenounced contractId grantee permission => [
    ("contractId", .text contractId), ("granteeAddress", .text grantee),
    ("permission", .text permission.wireName)]
  | .ftIssued contractId name tokenType amount decimals issuer recipient => [
    ("contractId", .text contractId), ("name", .text name), ("tokenType", .text tokenType),
    ("amount", .text amount), ("decimals", .number (.ofInt32 decimals)),
    ("issuerAddress", .text issuer), ("receiverAddress", .text recipient)]
  | .ftMinted contractId tokenId tokenType amount minter recipient => [
    ("contractId", .text contractId), ("tokenId", .text tokenId), ("tokenType", .text tokenType),
    ("amount", .text amount), ("minterAddress", .text minter), ("toAddress", .text recipient)]
  | .ftBurned contractId tokenId tokenType holder amount proxy => [
    ("contractId", .text contractId), ("tokenId", .text tokenId), ("tokenType", .text tokenType),
    ("fromAddress", .text holder), ("amount", .text amount), ("proxyAddress", .text proxy)]
  | .ftTransferred contractId amount tokenId tokenType sender recipient proxy => [
    ("contractId", .text contractId), ("amount", .text amount), ("tokenId", .text tokenId),
    ("tokenType", .text tokenType), ("fromAddress", .text sender),
    ("toAddress", .text recipient), ("proxyAddress", .text proxy)]
  | .ftModified contractId tokenType modifier changes => [
    ("contractId", .text contractId), ("tokenType", .text tokenType),
    ("modifierAddress", .text modifier), ("tokenAttributes", changes.toValue)]
  | .nftIssued contractId tokenType issuer => [
    ("contractId", .text contractId), ("tokenType", .text tokenType),
    ("issuerAddress", .text issuer)]
  | .nftMinted contractId tokenIds recipient minter => [
    ("contractId", .text contractId), ("tokenIds", texts tokenIds),
    ("toAddress", .text recipient), ("minterAddress", .text minter)]
  | .nftBurned contractId tokenIds holder proxy => [
    ("contractId", .text contractId), ("tokenIds", texts tokenIds), ("fromAddress", .text holder),
    ("proxyAddress", .text proxy)]
  | .nftTransferred contractId tokenIds sender recipient proxy => [
    ("contractId", .text contractId), ("tokenIds", texts tokenIds), ("fromAddress", .text sender),
    ("toAddress", .text recipient), ("proxyAddress", .text proxy)]
  | .nftHolderChanged contractId tokenIds sender recipient => [
    ("contractId", .text contractId), ("tokenIds", texts tokenIds), ("fromAddress", .text sender),
    ("toAddress", .text recipient)]
  | .nftModified contractId tokenId modifier changes => [
    ("contractId", .text contractId), ("tokenId", .text tokenId),
    ("modifierAddress", .text modifier), ("tokenAttributes", changes.toValue)]
  | .nftTypeModified contractId tokenType modifier changes => [
    ("contractId", .text contractId), ("tokenType", .text tokenType),
    ("modifierAddress", .text modifier), ("tokenAttributes", changes.toValue)]
  | .nftAttached contractId holder child parent proxy => [
    ("contractId", .text contractId), ("holderAddress", .text holder),
    ("childTokenId", .text child), ("parentTokenId", .text parent), ("proxyAddress", .text proxy)]
  | .nftDetached contractId holder exChild exParent proxy => [
    ("contractId", .text contractId), ("holderAddress", .text holder),
    ("exChildTokenId", .text exChild), ("exParentTokenId", .text exParent),
    ("proxyAddress", .text proxy)]
  | .nftRootChanged contractId tokenIds oldRoot newRoot => [
    ("contractId", .text contractId), ("tokenIds", texts tokenIds),
    ("oldRootTokenId", .text oldRoot), ("newRootTokenId", .text newRoot)]
  | .unknown type attributes note => [
    ("type", .text type), ("attributes", .array (attributes.map Raw.attributeValue)),
    ("extraMessage", .text note)]

namespace Event

def name (e : Event) : String :=
  (EventName.ofEffect e.effect).wireName

/-- The fields of an event without the name of its kind. -/
def fields (e : Event) : List (String × Value) :=
  ("msgIndex", .number (.ofUInt64 e.msgIndex)) :: e.effect.fields

def nameField : String := "eventName"

def toValue (e : Event) : Value :=
  .object ((nameField, .text e.name) :: e.fields)

end Event

end TxReceipt
