import TxReceipt.Event.Basic

/-!
# Names of events

On the wire the kind of an event is a name. Names differ, so that a kind is known by its name.
-/

namespace TxReceipt

inductive EventName where
  | accountCreated
  | emptyMessageCreated
  | coinTransferred
  | tokenIssued
  | tokenMinted
  | tokenBurned
  | tokenModified
  | tokenTransferred
  | tokenProxyApproved
  | tokenProxyDisapproved
  | tokenPermissionGranted
  | tokenPermissionRenounced
  | collectionCreated
  | collectionModified
  | collectionProxyApproved
  | collectionProxyDisapproved
  | collectionPermissionGranted
  | collectionPermissionRenounced
  | ftIssued
  | ftMinted
  | ftBurned
  | ftTransferred
  | ftModified
  | nftIssued
  | nftMinted
  | nftBurned
  | nftTransferred
  | nftHolderChanged
  | nftModified
  | nftTypeModified
  | nftAttached
  | nftDetached
  | nftRootChanged
  | unknown
  deriving DecidableEq

namespace EventName

def ofEffect : Effect → EventName
  | .accountCreated .. => .accountCreated
  | .emptyMessageCreated .. => .emptyMessageCreated
  | .coinTransferred .. => .coinTransferred
  | .tokenIssued .. => .tokenIssued
  | .tokenMinted .. => .tokenMinted
  | .tokenBurned .. => .tokenBurned
  | .tokenModified .. => .tokenModified
  | .tokenTransferred .. => .tokenTransferred
  | .tokenProxyApproved .. => .tokenProxyApproved
  | .tokenProxyDisapproved .. => .tokenProxyDisapproved
  | .tokenPermissionGranted .. => .tokenPermissionGranted
  | .tokenPermissionRenounced .. => .tokenPermissionRenounced
  | .collectionCreated .. => .collectionCreated
  | .collectionModified .. => .collectionModified
  | .collectionProxyApproved .. => .collectionProxyApproved
  | .collectionProxyDisapproved .. => .collectionProxyDisapproved
  | .collectionPermissionGranted .. => .collectionPermissionGranted
  | .collectionPermissionRenounced .. => .collectionPermissionRenounced
  | .ftIssued .. => .ftIssued
  | .ftMinted .. => .ftMinted
  | .ftBurned .. => .ftBurned
  | .ftTransferred .. => .ftTransferred
  | .ftModified .. => .ftModified
  | .nftIssued .. => .nftIssued
  | .nftMinted .. => .nftMinted
  | .nftBurned .. => .nftBurned
  | .nftTransferred .. => .nftTransferred
  | .nftHolderChanged .. => .nftHolderChanged
  | .nftModified .. => .nftModified
  | .nftTypeModified .. => .nftTypeModified
  | .nftAttached .. => .nftAttached
  | .nftDetached .. => .nftDetached
  | .nftRootChanged .. => .nftRootChanged
  | .unknown .. => .unknown

def wireName : EventName → String
  | .accountCreated => "EventAccountCreated"
  | .emptyMessageCreated => "EventEmptyMsgCreated"
  | .coinTransferred => "EventCoinTransferred"
  | .tokenIssued => "EventTokenIssued"
  | .tokenMinted => "EventTokenMinted"
  | .tokenBurned => "EventTokenBurned"
  | .tokenModified => "EventTokenModified"
  | .tokenTransferred => "EventTokenTransferred"
  | .tokenProxyApproved => "EventTokenProxyApproved"
  | .tokenProxyDisapproved => "EventTokenProxyDisapproved"
  | .tokenPermissionGranted => "EventTokenPermissionGranted"
  | .tokenPermissionRenounced => "EventTokenPermissionRenounced"
  | .collectionCreated => "EventCollectionCreated"
  | .collectionModified => "EventCollectionModified"
  | .collectionProxyApproved => "EventCollectionProxyApproved"
  | .collectionProxyDisapproved => "EventCollectionProxyDisapproved"
  | .collectionPermissionGranted => "EventCollectionPermissionGranted"
  | .collectionPermissionRenounced => "EventCollectionPermissionRenounced"
  | .ftIssued => "EventCollectionFtIssued"
  | .ftMinted => "EventCollectionFtMinted"
  | .ftBurned => "EventCollectionFtBurned"
  | .ftTransferred => "EventCollectionFtTransferred"
  | .ftModified => "EventCollectionFtModified"
  | .nftIssued => "EventCollectionNftIssued"
  | .nftMinted => "EventCollectionNftMinted"
  | .nftBurned => "EventCollectionNftBurned"
  | .nftTransferred => "EventCollectionNftTransferred"
  | .nftHolderChanged => "EventCollectionNftHolderChanged"
  | .nftModified => "EventCollectionNftModified"
  | .nftTypeModified => "EventCollectionNftTypeModified"
  | .nftAttached => "EventCollectionNftAttached"
  | .nftDetached => "EventCollectionNftDetached"
  | .nftRootChanged => "EventCollectionNftRootChanged"
  | .unknown => "UnknownTransactionEvent"

def all : List EventName := [
  .accountCreated, .emptyMessageCreated, .coinTransferred, .tokenIssued, .tokenMinted,
  .tokenBurned, .tokenModified, .tokenTransferred, .tokenProxyApproved, .tokenProxyDisapproved,
  .tokenPermissionGranted, .tokenPermissionRenounced, .collectionCreated, .collectionModified,
  .collectionProxyApproved, .collectionProxyDisapproved, .collectionPermissionGranted,
  .collectionPermissionRenounced, .ftIssued, .ftMinted, .ftBurned, .ftTransferred, .ftModified,
  .nftIssued, .nftMinted, .nftBurned, .nftTransferred, .nftHolderChanged, .nftModified,
  .nftTypeModified, .nftAttached, .nftDetached, .nftRootChanged, .unknown]

def ofWireName? (name : String) : Option EventName :=
  all.find? fun n => n.wireName == name

theorem ofWireName?_wireName (n : EventName) : ofWireName? n.wireName = some n := by
  cases n <;> decide +kernel

end EventName

end TxReceipt
