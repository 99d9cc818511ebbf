import TxReceipt.Extract.Effects
import TxReceipt.Registry

/-!
# Events of a transaction

Each log of a successful transaction gives events, in the order of the messages. A log whose message
is not declared, not registered or not described by the log gives one event that says so; no log is
passed over. Equal events are given once.
-/

namespace TxReceipt.Extract

open Registry (Entry MessageKind)

/-- A log together with the message that it is about and the events that describe it. -/
structure MessageLog where
  log : Raw.Log
  message : Raw.Message
  entry : Entry
  primary : Raw.Event
  auxiliary : Option Raw.Event

inductive Unexplained where
  | undeclared (msgIndex : UInt64)
  | unregistered (messageType : String)
  | undescribed (messageType eventName : String)

namespace Unexplained

/-- The declared type, empty if there is none. -/
def messageType : Unexplained → String
  | .undeclared _ => ""
  | .unregistered messageType => messageType
  | .undescribed messageType _ => messageType

def note : Unexplained → String
  | .undeclared msgIndex =>
    "no message declared at index " ++ String.ofList (Text.natChars msgIndex.toNat)
  | .unregistered messageType => "unregistered message type " ++ messageType
  | .undescribed _ eventName => "event " ++ eventName ++ " not found in log"

def effect (u : Unexplained) : Effect :=
  .unknown u.messageType [] u.note

end Unexplained

namespace MessageLog

def ofLog (raw : Raw.Result) (log : Raw.Log) : Except Unexplained MessageLog :=
  match raw.message? log.msgIndex with
  | none => .error (.undeclared log.msgIndex)
  | some message =>
    match Registry.lookup? message.type with
    | none => .error (.unregistered message.type)
    | some entry =>
      match entry.findPrimary? log with
      | none => .error (.undescribed message.type entry.eventName)
      | some primary => .ok ⟨log, message, entry, primary, entry.findAuxiliary? log⟩

def sender (c : MessageLog) : String :=
  match c.log.findEvent? Registry.messageEvent with
  | some e => e.find .sender
  | none => ""

/-- The creator of a collection: who was granted a permission on it, or else the sender. -/
def creator (c : MessageLog) : String :=
  match c.log.findEvent? Registry.grantEvent with
  | some e => firstNonEmpty [e.find .destination, c.sender]
  | none => c.sender

/-- The effect, or one that says that the permission is not known. -/
def orUnknownPermission (c : MessageLog) : Option Effect → Effect
  | some effect => effect
  | none =>
    .unknown c.message.type c.primary.attributes
      ("unknown permission '" ++ c.primary.find .permission ++ "'")

/-- Fungible tokens were burned; if the log does not say which, the message does. -/
def ftBurned (c : MessageLog) : Effect :=
  if countedTokenId c.primary = "" then
    match Raw.PayloadFields.ofValue? c.message.value.value with
    | some fields => ftBurnedOfMessage fields
    | none => Extract.ftBurned c.primary
  else Extract.ftBurned c.primary

/-- The events that describe a mint. -/
def primaries (c : MessageLog) : List Raw.Event :=
  match c.entry.correlation with
  | .allPrimaries => c.log.findEvents c.primary.type
  | .single | .auxiliary _ => [c.primary]

def effects (c : MessageLog) : List Effect :=
  match c.entry.kind with
  | .accountCreateAccount => [accountCreated c.primary]
  | .accountEmpty => [emptyMessageCreated c.primary]
  | .coinSend => [coinTransferred c.primary]
  | .tokenIssue => [tokenIssued c.primary]
  | .tokenMint => [tokenMinted c.primary]
  | .tokenBurn | .tokenBurnFrom => [tokenBurned c.primary]
  | .tokenTransfer | .tokenTransferFrom => [tokenTransferred c.primary]
  | .tokenModify => [tokenModified c.primary c.sender]
  | .tokenApprove => [tokenProxyApproved c.primary]
  | .tokenDisapprove => [tokenProxyDisapproved c.primary]
  | .tokenGrantPermission => [c.orUnknownPermission (tokenPermissionGranted? c.primary)]
  | .tokenRevokePermission => [c.orUnknownPermission (tokenPermissionRenounced? c.primary)]
  | .collectionCreate => [collectionCreated c.primary c.creator]
  | .collectionModify => [collectionModified c.primary c.sender]
  | .collectionIssueFt => [ftIssued c.primary]
  | .collectionMintFt => [ftMinted c.primary]
  | .collectionBurnFt | .collectionBurnFtFrom => [c.ftBurned]
  | .collectionTransferFt | .collectionTransferFtFrom => [ftTransferred c.primary]
  | .collectionIssueNft => [nftIssued c.primary]
  | .collectionMintNft => nftMinted c.primaries
  | .collectionBurnNft | .collectionBurnNftFrom => [nftBurned c.primary c.auxiliary]
  | .collectionTransferNft | .collectionTransferNftFrom =>
    [nftTransferred c.primary, nftHolderChanged c.primary c.auxiliary]
  | .collectionAttach | .collectionAttachFrom =>
    [nftAttached c.primary, nftRootChangedByAttach c.primary c.auxiliary]
  | .collectionDetach | .collectionDetachFrom =>
    [nftDetached c.primary, nftRootChangedByDetach c.primary c.auxiliary]
  | .collectionApprove => [collectionProxyApproved c.primary]
  | .collectionDisapprove => [collectionProxyDisapproved c.primary]
  | .collectionGrantPermission => [c.orUnknownPermission (collectionPermissionGranted? c.primary)]
  | .collectionRevokePermission =>
    [c.orUnknownPermission (collectionPermissionRenounced? c.primary)]

end MessageLog

def logEffects (raw : Raw.Result) (log : Raw.Log) : List Effect :=
  match MessageLog.ofLog raw log with
  | .ok c => c.effects
  | .error u => [u.effect]

def logEvents (raw : Raw.Result) (log : Raw.Log) : List Event :=
  (logEffects raw log).map fun effect => ⟨log.msgIndex, effect⟩

/-- The logs in the order of their messages; logs of one message keep their order. -/
def orderedLogs (raw : Raw.Result) : List Raw.Log :=
  raw.logs.mergeSort fun a b => a.msgIndex ≤ b.msgIndex

/-- The events of a transaction, each once, in the order of the messages; none if it failed. -/
def events (raw : Raw.Result) : List Event :=
  if raw.succeeded then ((orderedLogs raw).flatMap (logEvents raw)).eraseDups else []

end TxReceipt.Extract
