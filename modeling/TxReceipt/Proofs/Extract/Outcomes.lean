import TxReceipt.Event.Name
import TxReceipt.Proofs.Extract.Logs

/-!
# Outcomes of messages

Which effects a kind of message can have, with the kind of asset that each is about, as one table.
`outcome_of_mem_effects` says that a log that describes its message states effects of the table or
that it does not know; `not_known_iff` says when it does not.
-/

namespace TxReceipt

/-- What an effect is, and the kind of asset that it is about. -/
def Effect.outcome (effect : Effect) : EventName × Option AssetType :=
  (EventName.ofEffect effect, effect.assetType?)

namespace Registry.MessageKind

def outcomes : MessageKind → List (EventName × Option AssetType)
  | .accountCreateAccount => [(.accountCreated, none)]
  | .accountEmpty => [(.emptyMessageCreated, none)]
  | .coinSend => [(.coinTransferred, none)]
  | .tokenIssue => [(.tokenIssued, some .serviceToken)]
  | .tokenMint => [(.tokenMinted, some .serviceToken)]
  | .tokenBurn | .tokenBurnFrom => [(.tokenBurned, some .serviceToken)]
  | .tokenTransfer | .tokenTransferFrom => [(.tokenTransferred, some .serviceToken)]
  | .tokenModify => [(.tokenModified, some .serviceToken)]
  | .tokenApprove => [(.tokenProxyApproved, some .serviceToken)]
  | .tokenDisapprove => [(.tokenProxyDisapproved, some .serviceToken)]
  | .tokenGrantPermission => [(.tokenPermissionGranted, some .serviceToken)]
  | .tokenRevokePermission => [(.tokenPermissionRenounced, some .serviceToken)]
  | .collectionCreate => [(.collectionCreated, some .itemToken)]
  | .collectionIssueFt => [(.ftIssued, some .itemTokenFungible)]
  | .collectionIssueNft => [(.nftIssued, some .itemTokenNonFungible)]
  | .collectionMintFt => [(.ftMinted, some .itemTokenFungible)]
  | .collectionMintNft => [(.nftMinted, some .itemTokenNonFungible)]
  | .collectionBurnFt | .collectionBurnFtFrom => [(.ftBurned, some .itemTokenFungible)]
  | .collectionBurnNft | .collectionBurnNftFrom => [(.nftBurned, some .itemTokenNonFungible)]
  | .collectionTransferFt | .collectionTransferFtFrom =>
    [(.ftTransferred, some .itemTokenFungible)]
  | .collectionTransferNft | .collectionTransferNftFrom =>
    [(.nftTransferred, some .itemTokenNonFungible), (.nftHolderChanged, some .itemTokenNonFungible)]
  | .collectionAttach | .collectionAttachFrom =>
    [(.nftAttached, some .itemTokenNonFungible), (.nftRootChanged, some .itemTokenNonFungible)]
  | .collectionDetach | .collectionDetachFrom =>
    [(.nftDetached, some .itemTokenNonFungible), (.nftRootChanged, some .itemTokenNonFungible)]
  | .collectionApprove => [(.collectionProxyApproved, some .itemToken)]
  | .collectionDisapprove => [(.collectionProxyDisapproved, some .itemToken)]
  | .collectionModify => [(.collectionModified, some .itemToken),
    (.ftModified, some .itemTokenFungible), (.nftModified, some .itemTokenNonFungible),
    (.nftTypeModified, some .itemTokenNonFungible)]
  | .collectionGrantPermission => [(.collectionPermissionGranted, some .itemToken)]
  | .collectionRevokePermission => [(.collectionPermissionRenounced, some .itemToken)]

def permissionNames? : MessageKind → Option (List String)
  | .tokenGrantPermission | .tokenRevokePermission => some ["modify", "mint", "burn"]
  | .collectionGrantPermission | .collectionRevokePermission =>
    some ["issue", "modify", "mint", "burn"]
  | _ => none

theorem unknown_notMem_outcomes (kind : MessageKind) :
    (EventName.unknown, none) ∉ kind.outcomes := by
  cases kind <;> decide

end Registry.MessageKind

theorem permissionName_eq (raw : String) : permissionName raw = (Text.trim raw).toLower := by
  have hlower : (Text.trim raw).toLower = (Text.trim raw).map Char.toLower := rfl
  apply String.toList_injective
  rw [permissionName, hlower, String.toList_map, Text.trim, String.toList_ofList,
    String.toList_ofList]

theorem TokenPermission.ofRaw?_eq_none_iff {raw : String} :
    ofRaw? raw = none ↔ (Text.trim raw).toLower ∉ ["modify", "mint", "burn"] := by
  rw [ofRaw?, ← permissionName_eq]
  split <;> simp_all

theorem ItemPermission.ofRaw?_eq_none_iff {raw : String} :
    ofRaw? raw = none ↔ (Text.trim raw).toLower ∉ ["issue", "modify", "mint", "burn"] := by
  rw [ofRaw?, ← permissionName_eq]
  split <;> simp_all

namespace Extract

open Registry (MessageKind)

theorem outcome_collectionModified (e : Raw.Event) (modifier : String) :
    (collectionModified e modifier).outcome ∈ MessageKind.collectionModify.outcomes := by
  simp only [collectionModified]
  split
  · exact .head _
  · split
    · exact .tail _ (.tail _ (.tail _ (.head _)))
    · split
      · exact .tail _ (.head _)
      · exact .tail _ (.tail _ (.head _))

theorem outcome_of_mem_nftMinted {events : List Raw.Event} {effect : Effect}
    (h : effect ∈ nftMinted events) :
    effect.outcome = (.nftMinted, some .itemTokenNonFungible) := by
  obtain ⟨m, -, rfl⟩ := List.mem_map.mp h
  rfl

namespace MessageLog

theorem outcome_ftBurned (c : MessageLog) :
    c.ftBurned.outcome = (.ftBurned, some .itemTokenFungible) := by
  rw [ftBurned]
  split
  · split <;> rfl
  · rfl

/-- Most kinds of messages have all the effects that the table lists for them, in its order. -/
theorem map_outcome_effects {c : MessageLog} (permissionless : c.entry.kind.permissionNames? = none)
    (notMint : c.entry.kind ≠ .collectionMintNft) (notModify : c.entry.kind ≠ .collectionModify) :
    c.effects.map Effect.outcome = c.entry.kind.outcomes := by
  rw [effects]
  cases hkind : c.entry.kind with
  | tokenGrantPermission => rw [hkind] at permissionless; cases permissionless
  | tokenRevokePermission => rw [hkind] at permissionless; cases permissionless
  | collectionGrantPermission => rw [hkind] at permissionless; cases permissionless
  | collectionRevokePermission => rw [hkind] at permissionless; cases permissionless
  | collectionMintNft => exact absurd hkind notMint
  | collectionModify => exact absurd hkind notModify
  | collectionBurnFt => exact congrArg (fun outcome => [outcome]) c.outcome_ftBurned
  | collectionBurnFtFrom => exact congrArg (fun outcome => [outcome]) c.outcome_ftBurned
  | _ => rfl

/-- Where no permission is asked for, every effect is one of the table. -/
theorem outcome_of_mem_effects {c : MessageLog}
    (permissionless : c.entry.kind.permissionNames? = none) {effect : Effect}
    (h : effect ∈ c.effects) : effect.outcome ∈ c.entry.kind.outcomes := by
  by_cases hmint : c.entry.kind = .collectionMintNft
  · have heffect : effect ∈ nftMinted c.primaries := by simpa only [effects, hmint] using h
    rw [hmint, outcome_of_mem_nftMinted heffect]
    exact .head _
  · by_cases hmodify : c.entry.kind = .collectionModify
    · have heffect : effect ∈ [collectionModified c.primary c.sender] := by
        simpa only [effects, hmodify] using h
      rw [hmodify, List.mem_singleton.mp heffect]
      exact outcome_collectionModified c.primary c.sender
    · rw [← map_outcome_effects permissionless hmint hmodify]
      exact List.mem_map_of_mem h

theorem map_permission_spec {P : Type} {permission? : Option P} {state : P → Effect}
    {outcomes : List (EventName × Option AssetType)} {refused : Prop}
    (refusal : permission? = none ↔ refused) (stated : ∀ p, (state p).outcome ∈ outcomes) :
    (permission?.map state = none ↔ refused) ∧
      ∀ effect ∈ permission?.map state, effect.outcome ∈ outcomes := by
  constructor
  · rw [Option.map_eq_none_iff]
    exact refusal
  · intro effect heffect
    obtain ⟨permission, -, rfl⟩ := Option.map_eq_some_iff.mp heffect
    exact stated permission

/-- Where a permission is asked for there is one effect: one of the table if the permission is
known, and otherwise one that repeats the attributes. -/
theorem effects_of_permission {c : MessageLog} {names : List String}
    (h : c.entry.kind.permissionNames? = some names) :
    ∃ effect? : Option Effect, c.effects = [c.orUnknownPermission effect?] ∧
      (effect? = none ↔ (Text.trim (c.primary.find .permission)).toLower ∉ names) ∧
      ∀ effect ∈ effect?, effect.outcome ∈ c.entry.kind.outcomes := by
  rw [effects]
  cases hkind : c.entry.kind with
  | tokenGrantPermission =>
    obtain rfl := Option.some.inj (hkind ▸ h)
    exact ⟨_, rfl, map_permission_spec TokenPermission.ofRaw?_eq_none_iff fun _ => .head _⟩
  | tokenRevokePermission =>
    obtain rfl := Option.some.inj (hkind ▸ h)
    exact ⟨_, rfl, map_permission_spec TokenPermission.ofRaw?_eq_none_iff fun _ => .head _⟩
  | collectionGrantPermission =>
    obtain rfl := Option.some.inj (hkind ▸ h)
    exact ⟨_, rfl, map_permission_spec ItemPermission.ofRaw?_eq_none_iff fun _ => .head _⟩
  | collectionRevokePermission =>
    obtain rfl := Option.some.inj (hkind ▸ h)
    exact ⟨_, rfl, map_permission_spec ItemPermission.ofRaw?_eq_none_iff fun _ => .head _⟩
  | _ => rw [hkind] at h; cases h

end MessageLog

end Extract

end TxReceipt
