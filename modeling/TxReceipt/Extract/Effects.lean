import TxReceipt.Amount
import TxReceipt.Event.Basic
import TxReceipt.Raw.LogicalAttribute

/-!
# Effects of raw events

One function for each effect, from the raw events that describe it. Absent attributes become empty
texts; only a permission that is not known leaves nothing to say. Where tokens move with all that is
attached to them, an auxiliary event lists them; it only adds ids and roots, and contract and
addresses are always those of the primary event.
-/

namespace TxReceipt.Extract

open Raw (LogicalAttribute PayloadFields)

def firstNonEmpty (texts : List String) : String :=
  (texts.find? fun s => s ≠ "").getD ""

/-- The count of decimals, zero where none is stated. -/
def decimals (e : Raw.Event) : Int32 :=
  match Text.readIntWithin? .int32 (Text.trimChars (e.find .decimals).toList) with
  | some n => Int32.ofInt n
  | none => 0

/-- The attributes that no excluded logical attribute accepts, as records of a change. -/
def changes (e : Raw.Event) (excluded : List LogicalAttribute) : Changes :=
  .ofList (e.excluding excluded)

/-- The token ids of the auxiliary event, or others where it has none. -/
def auxiliaryTokenIds (auxiliary : Option Raw.Event) (others : List String) : List String :=
  match auxiliary with
  | some e => if (e.findAll .tokenId).isEmpty then others else e.findAll .tokenId
  | none => others

def auxiliaryText (auxiliary : Option Raw.Event) (a : LogicalAttribute) : String :=
  match auxiliary with
  | some e => e.find a
  | none => ""

def accountCreated (e : Raw.Event) : Effect :=
  .accountCreated (e.find .createAccountTarget)

/-- A message without effect was sent. -/
def emptyMessageCreated (e : Raw.Event) : Effect :=
  .emptyMessageCreated (e.find .sender)

def coinTransferred (e : Raw.Event) : Effect :=
  let coins := CoinAmount.parse (e.find .amount)
  .coinTransferred coins.denomination coins.amount (e.find .sender) (e.find .recipient)

def tokenIssued (e : Raw.Event) : Effect :=
  .tokenIssued (e.find .contractId) (e.find .owner) (e.find .name) (e.find .symbol)
    (e.find .destination) (e.find .amount) (decimals e)

def tokenMinted (e : Raw.Event) : Effect :=
  .tokenMinted (e.find .contractId) (e.find .source) (e.find .destination) (e.find .amount)

def tokenBurned (e : Raw.Event) : Effect :=
  .tokenBurned (e.find .contractId) (e.find .amount) (e.find .source) (e.find .proxy)

def tokenModified (e : Raw.Event) (modifier : String) : Effect :=
  .tokenModified (e.find .contractId) modifier (changes e [.contractId])

def tokenTransferred (e : Raw.Event) : Effect :=
  .tokenTransferred (e.find .contractId) (e.find .source) (e.find .amount) (e.find .destination)
    (e.find .proxy)

def tokenProxyApproved (e : Raw.Event) : Effect :=
  .tokenProxyApproved (e.find .contractId) (e.find .approver) (e.find .proxy)

def tokenProxyDisapproved (e : Raw.Event) : Effect :=
  .tokenProxyDisapproved (e.find .contractId) (e.find .approver) (e.find .proxy)

def tokenPermissionGranted? (e : Raw.Event) : Option Effect :=
  (TokenPermission.ofRaw? (e.find .permission)).map fun permission =>
    .tokenPermissionGranted (e.find .contractId) (e.find .source) (e.find .destination) permission

def tokenPermissionRenounced? (e : Raw.Event) : Option Effect :=
  (TokenPermission.ofRaw? (e.find .permission)).map fun permission =>
    .tokenPermissionRenounced (e.find .contractId) (e.find .source) permission

def collectionCreated (e : Raw.Event) (creator : String) : Effect :=
  .collectionCreated (e.find .contractId) creator (e.find .name)

/-- A collection, a token type or a token was modified. The type of the raw event tells which; for
tokens, the token type or else the token id tells whether they are fungible. -/
def collectionModified (e : Raw.Event) (modifier : String) : Effect :=
  let contractId := e.find .contractId
  if e.type = "modify_collection" then
    .collectionModified contractId modifier (changes e [.contractId])
  else if e.type = "modify_token_type" then
    .nftTypeModified contractId (e.find .tokenType) modifier
      (changes e [.contractId, .tokenType])
  else
    let tokenId := e.find .tokenId
    let routing := firstNonEmpty [e.find .tokenType, tokenId]
    let records := changes e [.contractId, .tokenId]
    if Token.isFungible routing then
      .ftModified contractId (Token.typeOr routing "") modifier records
    else .nftModified contractId tokenId modifier records

def collectionProxyApproved (e : Raw.Event) : Effect :=
  .collectionProxyApproved (e.find .contractId) (e.find .approver) (e.find .proxy)

def collectionProxyDisapproved (e : Raw.Event) : Effect :=
  .collectionProxyDisapproved (e.find .contractId) (e.find .approver) (e.find .proxy)

def collectionPermissionGranted? (e : Raw.Event) : Option Effect :=
  (ItemPermission.ofRaw? (e.find .permission)).map fun permission =>
    .collectionPermissionGranted (e.find .contractId) (e.find .source) (e.find .destination)
      permission

def collectionPermissionRenounced? (e : Raw.Event) : Option Effect :=
  (ItemPermission.ofRaw? (e.find .permission)).map fun permission =>
    .collectionPermissionRenounced (e.find .contractId) (e.find .source) permission

def ftIssued (e : Raw.Event) : Effect :=
  let tokenId := e.find .tokenId
  .ftIssued (e.find .contractId) (e.find .name) (Token.typeOr tokenId tokenId) (e.find .amount)
    (decimals e) (e.find .owner) (e.find .destination)

def ftMinted (e : Raw.Event) : Effect :=
  let tokens := CompositeAmount.parse (e.find .amount)
  .ftMinted (e.find .contractId) tokens.tokenId tokens.tokenType tokens.amount (e.find .source)
    (e.find .destination)

def countedTokenId (e : Raw.Event) : String :=
  (CompositeAmount.parse (e.find .amount)).tokenId

def ftBurned (e : Raw.Event) : Effect :=
  let tokens := CompositeAmount.parse (e.find .amount)
  .ftBurned (e.find .contractId) tokens.tokenId tokens.tokenType (e.find .source) tokens.amount
    (e.find .proxy)

/-- Fungible tokens were burned, as the declared message says it. -/
def ftBurnedOfMessage (fields : PayloadFields) : Effect :=
  let first := (fields.findList .amount).headD []
  let tokenId := first.find .tokenId
  .ftBurned (fields.find .contractId) tokenId (Token.typeOr tokenId "") (fields.find .source)
    (first.find .amount) (fields.find .proxy)

def ftTransferred (e : Raw.Event) : Effect :=
  let tokens := CompositeAmount.parse (e.find .amount)
  .ftTransferred (e.find .contractId) tokens.amount tokens.tokenId tokens.tokenType
    (e.find .source) (e.find .destination) (e.find .proxy)

/-- A type of non-fungible tokens was issued. -/
def nftIssued (e : Raw.Event) : Effect :=
  .nftIssued (e.find .contractId) (e.find .tokenType) (e.find .owner)

/-- The tokens that one minter minted for one recipient. -/
structure Mint where
  contractId : String
  recipient : String
  minter : String
  tokenIds : List String
  deriving DecidableEq

namespace Mint

def ofEvent (e : Raw.Event) : Mint :=
  ⟨e.find .contractId, e.find .destination, e.find .source, e.findAll .tokenId⟩

def sameParties (m n : Mint) : Bool :=
  m.contractId == n.contractId && m.recipient == n.recipient && m.minter == n.minter

/-- Adds tokens to the first entry of the same parties, or a new entry at the end. -/
def add (m : Mint) : List Mint → List Mint
  | [] => [m]
  | n :: ns => if n.sameParties m then { n with tokenIds := n.tokenIds ++ m.tokenIds } :: ns
    else n :: add m ns

/-- The entries of some events, one for the same parties, in the order of first appearance. -/
def group (events : List Raw.Event) : List Mint :=
  events.foldl (fun mints e => add (ofEvent e) mints) []

def effect (m : Mint) : Effect :=
  .nftMinted m.contractId m.tokenIds m.recipient m.minter

end Mint

/-- Tokens were minted, for one or several recipients. -/
def nftMinted (events : List Raw.Event) : List Effect :=
  (Mint.group events).map Mint.effect

def nftBurned (primary : Raw.Event) (auxiliary : Option Raw.Event) : Effect :=
  .nftBurned (primary.find .contractId) (auxiliaryTokenIds auxiliary (primary.findAll .tokenId))
    (primary.find .source) (primary.find .proxy)

def nftTransferred (e : Raw.Event) : Effect :=
  .nftTransferred (e.find .contractId) (e.findAll .tokenId) (e.find .source) (e.find .destination)
    (e.find .proxy)

/-- The tokens transferred, and what is attached to them, changed their holder. -/
def nftHolderChanged (primary : Raw.Event) (auxiliary : Option Raw.Event) : Effect :=
  .nftHolderChanged (primary.find .contractId)
    (auxiliaryTokenIds auxiliary (primary.findAll .tokenId))
    (primary.find .source) (primary.find .destination)

/-- The token that is attached; chain versions name it differently. -/
def attachedChild (e : Raw.Event) : String :=
  firstNonEmpty [e.find .tokenId, e.find .sourceTokenId]

def nftAttached (e : Raw.Event) : Effect :=
  .nftAttached (e.find .contractId) (e.find .source) (attachedChild e) (e.find .parentTokenId)
    (e.find .proxy)

def nftDetached (e : Raw.Event) : Effect :=
  .nftDetached (e.find .contractId) (e.find .source) (e.find .tokenId) (e.find .exParentTokenId)
    (e.find .proxy)

/-- A token and what is attached to it changed their root. The auxiliary event knows the tokens and
the roots best. -/
def nftRootChanged (primary : Raw.Event) (auxiliary : Option Raw.Event)
    (child oldRoot newRoot : String) : Effect :=
  .nftRootChanged (primary.find .contractId) (auxiliaryTokenIds auxiliary [child])
    (firstNonEmpty [auxiliaryText auxiliary .oldRootTokenId, oldRoot])
    (firstNonEmpty [auxiliaryText auxiliary .newRootTokenId, newRoot])

/-- An attached token is no root any more; its parent stands for the new root. -/
def nftRootChangedByAttach (primary : Raw.Event) (auxiliary : Option Raw.Event) : Effect :=
  let child := attachedChild primary
  nftRootChanged primary auxiliary child child (primary.find .parentTokenId)

/-- A detached token becomes a root; its former parent stands for the old one. -/
def nftRootChangedByDetach (primary : Raw.Event) (auxiliary : Option Raw.Event) : Effect :=
  let child := primary.find .tokenId
  nftRootChanged primary auxiliary child (primary.find .exParentTokenId) child

end TxReceipt.Extract
