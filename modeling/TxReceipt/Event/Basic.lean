import TxReceipt.AscendingSet
import TxReceipt.Attribute
import TxReceipt.Permission
import TxReceipt.Token

/-!
# Typed events

An event says what one message did: the index of the message and an effect. Effects are those of
accounts and coins, of service tokens, of item collections with their fungible and non-fungible
tokens, and one for messages whose events could not be understood. The second half of the module
says which contract and which non-fungible tokens an event is about.
-/

namespace TxReceipt

abbrev Changes : Type := AscendingSet Attribute

inductive Effect where
  | accountCreated (address : String)
  | emptyMessageCreated (sender : String)
  | coinTransferred (denomination amount sender recipient : String)
  | tokenIssued (contractId issuer name symbol recipient amount : String) (decimals : Int32)
  | tokenMinted (contractId minter recipient amount : String)
  | tokenBurned (contractId amount holder proxy : String)
  | tokenModified (contractId modifier : String) (changes : Changes)
  | tokenTransferred (contractId sender amount recipient proxy : String)
  | tokenProxyApproved (contractId approver proxy : String)
  | tokenProxyDisapproved (contractId approver proxy : String)
  | tokenPermissionGranted (contractId granter grantee : String) (permission : TokenPermission)
  | tokenPermissionRenounced (contractId grantee : String) (permission : TokenPermission)
  | collectionCreated (contractId creator name : String)
  | collectionModified (contractId modifier : String) (changes : Changes)
  | collectionProxyApproved (contractId approver proxy : String)
  | collectionProxyDisapproved (contractId approver proxy : String)
  | collectionPermissionGranted (contractId granter grantee : String) (permission : ItemPermission)
  | collectionPermissionRenounced (contractId grantee : String) (permission : ItemPermission)
  | ftIssued (contractId name tokenType amount : String) (decimals : Int32)
      (issuer recipient : String)
  | ftMinted (contractId tokenId tokenType amount minter recipient : String)
  | ftBurned (contractId tokenId tokenType holder amount proxy : String)
  | ftTransferred (contractId amount tokenId tokenType sender recipient proxy : String)
  | ftModified (contractId tokenType modifier : String) (changes : Changes)
  | nftIssued (contractId tokenType issuer : String)
  | nftMinted (contractId : String) (tokenIds : List String) (recipient minter : String)
  | nftBurned (contractId : String) (tokenIds : List String) (holder proxy : String)
  | nftTransferred (contractId : String) (tokenIds : List String) (sender recipient proxy : String)
  | nftHolderChanged (contractId : String) (tokenIds : List String) (sender recipient : String)
  | nftModified (contractId tokenId modifier : String) (changes : Changes)
  | nftTypeModified (contractId tokenType modifier : String) (changes : Changes)
  | nftAttached (contractId holder child parent proxy : String)
  | nftDetached (contractId holder exChild exParent proxy : String)
  | nftRootChanged (contractId : String) (tokenIds : List String) (oldRoot newRoot : String)
  | unknown (type : String) (attributes : List Attribute) (note : String)
  deriving DecidableEq

structure Event where
  msgIndex : UInt64
  effect : Effect
  deriving DecidableEq

inductive AssetType where
  | serviceToken
  | itemToken
  | itemTokenFungible
  | itemTokenNonFungible
  deriving DecidableEq

def AssetType.wireName : AssetType → String
  | .serviceToken => "SERVICE_TOKEN"
  | .itemToken => "ITEM_TOKEN"
  | .itemTokenFungible => "ITEM_TOKEN_FUNGIBLE"
  | .itemTokenNonFungible => "ITEM_TOKEN_NON_FUNGIBLE"

/-- A contract with the kind of asset that an event of it is about. -/
structure ContractIdentifier where
  assetType : AssetType
  contractId : String
  deriving DecidableEq

namespace Effect

def assetType? : Effect → Option AssetType
  | .accountCreated .. | .emptyMessageCreated .. | .coinTransferred .. | .unknown .. => none
  | .tokenIssued .. | .tokenMinted .. | .tokenBurned .. | .tokenModified ..
  | .tokenTransferred .. | .tokenProxyApproved .. | .tokenProxyDisapproved ..
  | .tokenPermissionGranted .. | .tokenPermissionRenounced .. => some .serviceToken
  | .collectionCreated .. | .collectionModified .. | .collectionProxyApproved ..
  | .collectionProxyDisapproved .. | .collectionPermissionGranted ..
  | .collectionPermissionRenounced .. => some .itemToken
  | .ftIssued .. | .ftMinted .. | .ftBurned .. | .ftTransferred .. | .ftModified .. =>
    some .itemTokenFungible
  | .nftIssued .. | .nftMinted .. | .nftBurned .. | .nftTransferred .. | .nftHolderChanged ..
  | .nftModified .. | .nftTypeModified .. | .nftAttached .. | .nftDetached ..
  | .nftRootChanged .. => some .itemTokenNonFungible

/-- The contract that the effect belongs to. Those on accounts and coins belong to none. -/
def contractId? : Effect → Option String
  | .accountCreated .. | .emptyMessageCreated .. | .coinTransferred .. | .unknown .. => none
  | .tokenIssued c .. | .tokenMinted c .. | .tokenBurned c .. | .tokenModified c ..
  | .tokenTransferred c .. | .tokenProxyApproved c .. | .tokenProxyDisapproved c ..
  | .tokenPermissionGranted c .. | .tokenPermissionRenounced c ..
  | .collectionCreated c .. | .collectionModified c .. | .collectionProxyApproved c ..
  | .collectionProxyDisapproved c .. | .collectionPermissionGranted c ..
  | .collectionPermissionRenounced c ..
  | .ftIssued c .. | .ftMinted c .. | .ftBurned c .. | .ftTransferred c .. | .ftModified c ..
  | .nftIssued c .. | .nftMinted c .. | .nftBurned c .. | .nftTransferred c ..
  | .nftHolderChanged c .. | .nftModified c .. | .nftTypeModified c .. | .nftAttached c ..
  | .nftDetached c .. | .nftRootChanged c .. => some c

def tokenIds : Effect → List String
  | .nftMinted _ ids _ _ | .nftBurned _ ids _ _ | .nftTransferred _ ids _ _ _
  | .nftHolderChanged _ ids _ _ | .nftRootChanged _ ids _ _ => ids
  | .nftModified _ id _ _ => [id]
  | .nftAttached _ _ child _ _ => [child]
  | .nftDetached _ _ exChild _ _ => [exChild]
  | _ => []

end Effect

namespace Event

def contractId? (e : Event) : Option String :=
  e.effect.contractId?

def contractIdentifier? (e : Event) : Option ContractIdentifier := do
  let assetType ← e.effect.assetType?
  let contractId ← e.contractId?
  return ⟨assetType, contractId⟩

def tokenIds (e : Event) : List String :=
  e.effect.tokenIds

/-- The token types of the well-formed ids, each once, in the order of first appearance. -/
def tokenTypes (e : Event) : List String :=
  (e.tokenIds.filterMap fun id => (Token.type id).toOption).eraseDups

/-- The indices of the well-formed ids, in their order. -/
def tokenIndices (e : Event) : List String :=
  e.tokenIds.filterMap fun id => (Token.index id).toOption

end Event

end TxReceipt
