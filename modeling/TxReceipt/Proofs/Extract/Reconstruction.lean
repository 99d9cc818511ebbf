import TxReceipt.Proofs.Amount
import TxReceipt.Proofs.Extract.Events
import TxReceipt.Proofs.Json.LooseInteger
import TxReceipt.Proofs.Raw.LogicalAttribute
import TxReceipt.Proofs.Token

/-!
# Events from stated attributes

Where the primary event is the only one of its type, states each attribute of its kind of message
once and has no auxiliary event beside it, the values of the attributes tell the effects of the
message: `Told` lists for each kind which value becomes which field. Neither the key that a value
stands under nor the order of the attributes nor what else the event and the log hold has a part in
it. Whatever the values are, they tell effects, where no permission has to be named. Modifications
are left out, since their effects repeat the attributes of other keys.
-/

namespace TxReceipt

def Registry.MessageKind.attributes : MessageKind → List Raw.LogicalAttribute
  | .accountCreateAccount => [.createAccountTarget]
  | .accountEmpty => [.sender]
  | .coinSend => [.amount, .sender, .recipient]
  | .tokenIssue => [.contractId, .owner, .name, .symbol, .destination, .amount, .decimals]
  | .tokenMint => [.contractId, .source, .destination, .amount]
  | .tokenBurn | .tokenBurnFrom => [.contractId, .amount, .source, .proxy]
  | .tokenTransfer | .tokenTransferFrom => [.contractId, .source, .amount, .destination, .proxy]
  | .tokenModify => [.contractId]
  | .tokenApprove | .tokenDisapprove => [.contractId, .approver, .proxy]
  | .tokenGrantPermission => [.contractId, .source, .destination, .permission]
  | .tokenRevokePermission => [.contractId, .source, .permission]
  | .collectionCreate => [.contractId, .name]
  | .collectionIssueFt =>
    [.contractId, .name, .tokenId, .amount, .decimals, .owner, .destination]
  | .collectionIssueNft => [.contractId, .tokenType, .owner]
  | .collectionMintFt => [.contractId, .amount, .source, .destination]
  | .collectionMintNft => [.contractId, .tokenId, .destination, .source]
  | .collectionBurnFt | .collectionBurnFtFrom => [.contractId, .amount, .source, .proxy]
  | .collectionBurnNft | .collectionBurnNftFrom => [.contractId, .tokenId, .source, .proxy]
  | .collectionTransferFt | .collectionTransferFtFrom =>
    [.contractId, .amount, .source, .destination, .proxy]
  | .collectionTransferNft | .collectionTransferNftFrom =>
    [.contractId, .tokenId, .source, .destination, .proxy]
  | .collectionAttach | .collectionAttachFrom =>
    [.contractId, .source, .tokenId, .sourceTokenId, .parentTokenId, .proxy]
  | .collectionDetach | .collectionDetachFrom =>
    [.contractId, .source, .tokenId, .exParentTokenId, .proxy]
  | .collectionApprove | .collectionDisapprove => [.contractId, .approver, .proxy]
  | .collectionModify => [.contractId, .tokenType, .tokenId]
  | .collectionGrantPermission => [.contractId, .source, .destination, .permission]
  | .collectionRevokePermission => [.contractId, .source, .permission]

namespace Extract

open Raw (LogicalAttribute)
open Registry (Entry MessageKind)

/-- Who created a collection: who was granted a permission on it, or else who sent the message. -/
inductive CreatedBy (log : Raw.Log) : String → Prop
  | granted {grant : Raw.Event} (first : log.findEvent? Registry.grantEvent = some grant)
      (named : grant.find .destination ≠ "") : CreatedBy log (grant.find .destination)
  | sent {message : Raw.Event}
      (unnamed : ∀ grant ∈ log.findEvent? Registry.grantEvent, grant.find .destination = "")
      (first : log.findEvent? Registry.messageEvent = some message) :
      CreatedBy log (message.find .sender)
  | unstated
      (unnamed : ∀ grant ∈ log.findEvent? Registry.grantEvent, grant.find .destination = "")
      (unsent : log.findEvent? Registry.messageEvent = none) : CreatedBy log ""

/-- The count of decimals that a text states, zero where it is no numeral of 32 bits. -/
inductive StatesDecimals (text : String) : Int32 → Prop
  | stated {n : Int} (fits : IntegerRange.int32.contains n = true)
      (numeral : Text.SpellsInt n text.toList) : StatesDecimals text (Int32.ofInt n)
  | unstated (absent : ∀ n : Int, IntegerRange.int32.contains n = true →
      ¬ Text.SpellsInt n text.toList) : StatesDecimals text 0

/-- The text names a permission as the wire does, up to case and blanks at its ends. -/
def NamesPermission (text wireName : String) : Prop :=
  permissionName text = permissionName wireName

/-- The effects that the values of the attributes tell of a kind of message. The log names who
created a collection. A burn whose amount names no token is told by the payload, if that is an
object. -/
def Told (log : Raw.Log) (payload : Json.Value) (v : LogicalAttribute → String)
    (effects : List Effect) : MessageKind → Prop
  | .accountCreateAccount => effects = [.accountCreated (v .createAccountTarget)]
  | .accountEmpty => effects = [.emptyMessageCreated (v .sender)]
  | .coinSend => ∃ coins, CoinAmount.Counted (v .amount) coins ∧
    effects = [.coinTransferred coins.denomination coins.amount (v .sender) (v .recipient)]
  | .tokenIssue => ∃ decimals, StatesDecimals (v .decimals) decimals ∧
    effects = [.tokenIssued (v .contractId) (v .owner) (v .name) (v .symbol) (v .destination)
      (v .amount) decimals]
  | .tokenMint =>
    effects = [.tokenMinted (v .contractId) (v .source) (v .destination) (v .amount)]
  | .tokenBurn | .tokenBurnFrom =>
    effects = [.tokenBurned (v .contractId) (v .amount) (v .source) (v .proxy)]
  | .tokenTransfer | .tokenTransferFrom =>
    effects = [.tokenTransferred (v .contractId) (v .source) (v .amount) (v .destination)
      (v .proxy)]
  | .tokenApprove => effects = [.tokenProxyApproved (v .contractId) (v .approver) (v .proxy)]
  | .tokenDisapprove => effects = [.tokenProxyDisapproved (v .contractId) (v .approver) (v .proxy)]
  | .tokenGrantPermission => ∃ permission : TokenPermission,
    NamesPermission (v .permission) permission.wireName ∧
    effects = [.tokenPermissionGranted (v .contractId) (v .source) (v .destination) permission]
  | .tokenRevokePermission => ∃ permission : TokenPermission,
    NamesPermission (v .permission) permission.wireName ∧
    effects = [.tokenPermissionRenounced (v .contractId) (v .source) permission]
  | .collectionCreate => ∃ creator, CreatedBy log creator ∧
    effects = [.collectionCreated (v .contractId) creator (v .name)]
  | .collectionApprove =>
    effects = [.collectionProxyApproved (v .contractId) (v .approver) (v .proxy)]
  | .collectionDisapprove =>
    effects = [.collectionProxyDisapproved (v .contractId) (v .approver) (v .proxy)]
  | .collectionGrantPermission => ∃ permission : ItemPermission,
    NamesPermission (v .permission) permission.wireName ∧
    effects = [.collectionPermissionGranted (v .contractId) (v .source) (v .destination) permission]
  | .collectionRevokePermission => ∃ permission : ItemPermission,
    NamesPermission (v .permission) permission.wireName ∧
    effects = [.collectionPermissionRenounced (v .contractId) (v .source) permission]
  | .collectionIssueFt => ∃ tokenType decimals,
    Token.Typed (v .tokenId) (v .tokenId) tokenType ∧ StatesDecimals (v .decimals) decimals ∧
    effects = [.ftIssued (v .contractId) (v .name) tokenType (v .amount) decimals (v .owner)
      (v .destination)]
  | .collectionMintFt => ∃ tokens tokenType,
    CompositeAmount.Counted (v .amount) tokens ∧ Token.Typed tokens.tokenId "" tokenType ∧
    effects = [.ftMinted (v .contractId) tokens.tokenId tokenType tokens.amount (v .source)
      (v .destination)]
  | .collectionBurnFt | .collectionBurnFtFrom => ∃ tokens tokenType,
    CompositeAmount.Counted (v .amount) tokens ∧ Token.Typed tokens.tokenId "" tokenType ∧
    (((tokens.tokenId ≠ "" ∨ ∀ fields, payload ≠ .object fields) ∧
      effects = [.ftBurned (v .contractId) tokens.tokenId tokenType (v .source) tokens.amount
        (v .proxy)]) ∨
    (tokens.tokenId = "" ∧ ∃ fields, payload = .object fields ∧
      effects = [ftBurnedOfMessage fields]))
  | .collectionTransferFt | .collectionTransferFtFrom => ∃ tokens tokenType,
    CompositeAmount.Counted (v .amount) tokens ∧ Token.Typed tokens.tokenId "" tokenType ∧
    effects = [.ftTransferred (v .contractId) tokens.amount tokens.tokenId tokenType (v .source)
      (v .destination) (v .proxy)]
  | .collectionIssueNft => effects = [.nftIssued (v .contractId) (v .tokenType) (v .owner)]
  | .collectionMintNft =>
    effects = [.nftMinted (v .contractId) [v .tokenId] (v .destination) (v .source)]
  | .collectionBurnNft | .collectionBurnNftFrom =>
    effects = [.nftBurned (v .contractId) [v .tokenId] (v .source) (v .proxy)]
  | .collectionTransferNft | .collectionTransferNftFrom =>
    effects = [.nftTransferred (v .contractId) [v .tokenId] (v .source) (v .destination) (v .proxy),
      .nftHolderChanged (v .contractId) [v .tokenId] (v .source) (v .destination)]
  | .collectionAttach | .collectionAttachFrom =>
    ∃ child, child = (if v .tokenId = "" then v .sourceTokenId else v .tokenId) ∧
    effects = [.nftAttached (v .contractId) (v .source) child (v .parentTokenId) (v .proxy),
      .nftRootChanged (v .contractId) [child] child (v .parentTokenId)]
  | .collectionDetach | .collectionDetachFrom =>
    effects = [.nftDetached (v .contractId) (v .source) (v .tokenId) (v .exParentTokenId)
        (v .proxy),
      .nftRootChanged (v .contractId) [v .tokenId] (v .exParentTokenId) (v .tokenId)]
  | .tokenModify | .collectionModify => False

theorem exists_createdBy (log : Raw.Log) : ∃ creator, CreatedBy log creator := by
  by_cases h : ∃ grant, log.findEvent? Registry.grantEvent = some grant ∧
      grant.find .destination ≠ ""
  · obtain ⟨grant, first, named⟩ := h
    exact ⟨_, .granted first named⟩
  · have unnamed : ∀ grant ∈ log.findEvent? Registry.grantEvent, grant.find .destination = "" := by
      intro grant first
      exact Decidable.byContradiction fun named => h ⟨grant, first, named⟩
    cases hmessage : log.findEvent? Registry.messageEvent with
    | none => exact ⟨_, .unstated unnamed hmessage⟩
    | some message => exact ⟨_, .sent unnamed hmessage⟩

theorem exists_statesDecimals (text : String) : ∃ decimals, StatesDecimals text decimals := by
  by_cases h : ∃ n : Int, IntegerRange.int32.contains n = true ∧ Text.SpellsInt n text.toList
  · obtain ⟨n, fits, numeral⟩ := h
    exact ⟨_, .stated fits numeral⟩
  · exact ⟨0, .unstated fun n fits numeral => h ⟨n, fits, numeral⟩⟩

/-- Whatever the values are, they tell effects, where no permission has to be named. -/
theorem exists_told (log : Raw.Log) (payload : Json.Value) (v : LogicalAttribute → String)
    {kind : MessageKind} (unpermitted : .permission ∉ kind.attributes)
    (unmodified : kind ≠ .tokenModify ∧ kind ≠ .collectionModify) :
    ∃ effects, Told log payload v effects kind := by
  cases kind with
  | tokenModify => exact absurd rfl unmodified.1
  | collectionModify => exact absurd rfl unmodified.2
  | tokenGrantPermission | tokenRevokePermission | collectionGrantPermission
  | collectionRevokePermission => exact absurd (by decide) unpermitted
  | coinSend =>
    obtain ⟨coins, counted⟩ := CoinAmount.exists_counted (v .amount)
    exact ⟨_, coins, counted, rfl⟩
  | tokenIssue =>
    obtain ⟨decimals, stated⟩ := exists_statesDecimals (v .decimals)
    exact ⟨_, decimals, stated, rfl⟩
  | collectionCreate =>
    obtain ⟨creator, created⟩ := exists_createdBy log
    exact ⟨_, creator, created, rfl⟩
  | collectionIssueFt =>
    obtain ⟨tokenType, typed⟩ := Token.exists_typed (v .tokenId) (v .tokenId)
    obtain ⟨decimals, stated⟩ := exists_statesDecimals (v .decimals)
    exact ⟨_, tokenType, decimals, typed, stated, rfl⟩
  | collectionMintFt | collectionTransferFt | collectionTransferFtFrom =>
    obtain ⟨tokens, counted⟩ := CompositeAmount.exists_counted (v .amount)
    obtain ⟨tokenType, typed⟩ := Token.exists_typed tokens.tokenId ""
    exact ⟨_, tokens, tokenType, counted, typed, rfl⟩
  | collectionBurnFt | collectionBurnFtFrom =>
    obtain ⟨tokens, counted⟩ := CompositeAmount.exists_counted (v .amount)
    obtain ⟨tokenType, typed⟩ := Token.exists_typed tokens.tokenId ""
    by_cases unnamed : tokens.tokenId = ""
    · by_cases declared : ∃ fields, payload = .object fields
      · obtain ⟨fields, declared⟩ := declared
        exact ⟨_, tokens, tokenType, counted, typed, Or.inr ⟨unnamed, fields, declared, rfl⟩⟩
      · have noObject := not_exists.mp declared
        exact ⟨_, tokens, tokenType, counted, typed, Or.inl ⟨Or.inr noObject, rfl⟩⟩
    · exact ⟨_, tokens, tokenType, counted, typed, Or.inl ⟨Or.inl unnamed, rfl⟩⟩
  | collectionAttach | collectionAttachFrom => exact ⟨_, _, rfl, rfl⟩
  | _ => exact ⟨_, rfl⟩

theorem countedTokenId_eq_of_counted {e : Raw.Event} {tokens : CompositeAmount}
    (h : CompositeAmount.Counted (e.find .amount) tokens) : countedTokenId e = tokens.tokenId := by
  rw [countedTokenId, CompositeAmount.parse_eq_of_counted h]

theorem firstNonEmpty_pair (s t : String) : firstNonEmpty [s, t] = if s = "" then t else s := by
  by_cases hs : s = ""
  · by_cases ht : t = "" <;> simp [firstNonEmpty, hs, ht]
  · simp [firstNonEmpty, hs]

namespace MessageLog

variable {c : MessageLog}

/-- The event tells of a burn if its amount names a token, or if the payload is no object. -/
theorem ftBurned_eq_of_event
    (h : countedTokenId c.primary ≠ "" ∨ ∀ fields, c.message.value.value ≠ .object fields) :
    c.ftBurned = Extract.ftBurned c.primary := by
  rw [ftBurned]
  split
  · rename_i unnamed
    have noObject := h.resolve_left (not_not_intro unnamed)
    split
    · rename_i fields hfields
      cases hvalue : c.message.value.value with
      | object fields => exact absurd hvalue (noObject fields)
      | _ => rw [hvalue] at hfields; cases hfields
    · rfl
  · rfl

theorem ftBurned_eq_of_message {fields : Raw.PayloadFields}
    (unnamed : countedTokenId c.primary = "") (declared : c.message.value.value = .object fields) :
    c.ftBurned = ftBurnedOfMessage fields := by
  rw [ftBurned, if_pos unnamed, declared]
  rfl

end MessageLog

section
variable {log : Raw.Log} {entry : Entry} {primary : Raw.Event}

end

end Extract

end TxReceipt
