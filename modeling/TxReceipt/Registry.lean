import TxReceipt.Raw.Basic

/-!
# The registry of messages

Which raw events describe a message is known by its declared type. An entry names the event to look
for, others to fall back on, and how the events of one log combine. `lookup?` finds the entry of a
type; types are unique in the table.
-/

namespace TxReceipt.Registry

inductive MessageKind where
  | accountCreateAccount
  | accountEmpty
  | coinSend
  | tokenIssue
  | tokenMint
  | tokenBurn
  | tokenBurnFrom
  | tokenTransfer
  | tokenTransferFrom
  | tokenModify
  | tokenApprove
  | tokenDisapprove
  | tokenGrantPermission
  | tokenRevokePermission
  | collectionCreate
  | collectionIssueFt
  | collectionIssueNft
  | collectionMintFt
  | collectionMintNft
  | collectionBurnFt
  | collectionBurnFtFrom
  | collectionBurnNft
  | collectionBurnNftFrom
  | collectionTransferFt
  | collectionTransferFtFrom
  | collectionTransferNft
  | collectionTransferNftFrom
  | collectionAttach
  | collectionAttachFrom
  | collectionDetach
  | collectionDetachFrom
  | collectionApprove
  | collectionDisapprove
  | collectionModify
  | collectionGrantPermission
  | collectionRevokePermission
  deriving DecidableEq

/-- How the raw events of one message combine. -/
inductive Correlation where
  /-- The primary event alone describes the message. -/
  | single
  /-- A second event of the log lists all the tokens concerned. -/
  | auxiliary (name : String)
  /-- Every primary event of the log is part of the message, one for each recipient. -/
  | allPrimaries
  deriving DecidableEq

/-- What is known of a type of message. -/
structure Entry where
  messageType : String
  kind : MessageKind
  eventName : String
  /-- Names to fall back on, in the order in which they are tried. -/
  candidates : List String
  correlation : Correlation
  deriving DecidableEq

namespace Entry

/-- An entry whose primary event is all there is to look for. -/
def single (messageType : String) (kind : MessageKind) (eventName : String) : Entry :=
  ⟨messageType, kind, eventName, [], .single⟩

def withAuxiliary (messageType : String) (kind : MessageKind) (eventName auxiliary : String) :
    Entry :=
  ⟨messageType, kind, eventName, [], .auxiliary auxiliary⟩

/-- The names to look for, in the order in which they are tried. -/
def eventNames (entry : Entry) : List String :=
  entry.eventName :: entry.candidates

def findPrimary? (entry : Entry) (log : Raw.Log) : Option Raw.Event :=
  entry.eventNames.findSome? log.findEvent?

/-- The event that lists the tokens concerned, where the entry has one. -/
def findAuxiliary? (entry : Entry) (log : Raw.Log) : Option Raw.Event :=
  match entry.correlation with
  | .auxiliary name => log.findEvent? name
  | .single | .allPrimaries => none

end Entry

/-- The event that lists the tokens burned. -/
def burnOperation : String := "operation_burn_nft"

def transferOperation : String := "operation_transfer_nft"

def rootChangedOperation : String := "operation_root_changed"

/-- The event that names the sender of a message. -/
def messageEvent : String := "message"

def grantEvent : String := "grant_perm"

/-- The table of all known types, by module of the chain. -/
def entries : List Entry := [
  .single "account/MsgCreateAccount" .accountCreateAccount "create_account",
  .single "account/MsgEmpty" .accountEmpty messageEvent,
  .single "coin/MsgSend" .coinSend "transfer",
  .single "token/MsgIssue" .tokenIssue "issue",
  .single "token/MsgMint" .tokenMint "mint",
  .single "token/MsgBurn" .tokenBurn "burn",
  .single "token/MsgBurnFrom" .tokenBurnFrom "burn_from",
  .single "token/MsgTransfer" .tokenTransfer "transfer",
  .single "token/MsgTransferFrom" .tokenTransferFrom "transfer_from",
  .single "token/MsgModify" .tokenModify "modify_token",
  .single "token/MsgApprove" .tokenApprove "approve_token",
  .single "token/MsgDisapprove" .tokenDisapprove "disapprove_token",
  .single "token/MsgGrantPermission" .tokenGrantPermission grantEvent,
  .single "token/MsgRevokePermission" .tokenRevokePermission "revoke_perm",
  .single "collection/MsgCreate" .collectionCreate "create_collection",
  .single "collection/MsgIssueFT" .collectionIssueFt "issue_ft",
  .single "collection/MsgIssueNFT" .collectionIssueNft "issue_nft",
  .single "collection/MsgMintFT" .collectionMintFt "mint_ft",
  ⟨"collection/MsgMintNFT", .collectionMintNft, "mint_nft", [], .allPrimaries⟩,
  .single "collection/MsgBurnFT" .collectionBurnFt "burn_ft",
  .single "collection/MsgBurnFTFrom" .collectionBurnFtFrom "burn_ft_from",
  .withAuxiliary "collection/MsgBurnNFT" .collectionBurnNft "burn_nft" burnOperation,
  .withAuxiliary "collection/MsgBurnNFTFrom" .collectionBurnNftFrom "burn_nft_from" burnOperation,
  .single "collection/MsgTransferFT" .collectionTransferFt "transfer_ft",
  .single "collection/MsgTransferFTFrom" .collectionTransferFtFrom "transfer_ft_from",
  .withAuxiliary "collection/MsgTransferNFT" .collectionTransferNft "transfer_nft"
    transferOperation,
  .withAuxiliary "collection/MsgTransferNFTFrom" .collectionTransferNftFrom "transfer_nft_from"
    transferOperation,
  .withAuxiliary "collection/MsgAttach" .collectionAttach "attach" rootChangedOperation,
  .withAuxiliary "collection/MsgAttachFrom" .collectionAttachFrom "attach_from"
    rootChangedOperation,
  .withAuxiliary "collection/MsgDetach" .collectionDetach "detach" rootChangedOperation,
  .withAuxiliary "collection/MsgDetachFrom" .collectionDetachFrom "detach_from"
    rootChangedOperation,
  .single "collection/MsgApprove" .collectionApprove "approve_collection",
  .single "collection/MsgDisapprove" .collectionDisapprove "disapprove_collection",
  ⟨"collection/MsgModify", .collectionModify, "modify_collection",
    ["modify_token", "modify_token_type"], .single⟩,
  .single "collection/MsgGrantPermission" .collectionGrantPermission grantEvent,
  .single "collection/MsgRevokePermission" .collectionRevokePermission "revoke_perm"]

def lookup? (messageType : String) : Option Entry :=
  entries.find? fun entry => entry.messageType == messageType

theorem messageTypes_nodup : (entries.map Entry.messageType).Nodup := by
  decide

end TxReceipt.Registry
