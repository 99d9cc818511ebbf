import TxReceipt.Proofs.Event.ReadBack
import TxReceipt.Proofs.Lists

/-!
# What an event says of itself

An event tells its name, its message, its contract and its non-fungible tokens without being
written. `told_as_written` says that the object that it is written as tells the same: each is in a
field of its own, and where the event tells nothing the object has no such field.
-/

namespace TxReceipt

open Json (Value)
open Json.Value (field?)

theorem field?_cons_self (key : String) (v : Value) (fields : List (String × Value)) :
    field? ((key, v) :: fields) key = some v := by
  simp [field?]

theorem field?_cons_of_ne {key key' : String} (h : key' ≠ key) (v : Value)
    (fields : List (String × Value)) : field? ((key', v) :: fields) key = field? fields key := by
  simp [field?, h]

theorem field?_eq_none_iff {fields : List (String × Value)} {key : String} :
    field? fields key = none ↔ key ∉ fields.map (·.1) := by
  rw [field?, Option.map_eq_none_iff, List.find?_eq_none, List.mem_map]
  simp only [beq_iff_eq, not_exists, not_and]

/-- The fields under which an object may name one token. -/
def singleTokenFields : List String :=
  ["tokenId", "childTokenId", "exChildTokenId"]

/-- The tokens that an object names: those of its list, if it has one, or else the one of its fields
that name one token, if it has any of them. A list that is no array names nothing. -/
def namedTokens? (fields : List (String × Value)) : Option (List Value) :=
  match field? fields "tokenIds" with
  | some (.array ids) => some ids
  | some _ => none
  | none => some (singleTokenFields.findSome? (field? fields)).toList

/-- A field that names no token may stand in front. -/
theorem namedTokens?_cons_of_notMem {key : String} (h : key ∉ "tokenIds" :: singleTokenFields)
    (v : Value) (fields : List (String × Value)) :
    namedTokens? ((key, v) :: fields) = namedTokens? fields := by
  rw [List.mem_cons, not_or] at h
  obtain ⟨hlist, hsingle⟩ := h
  have hothers : ∀ name ∈ singleTokenFields,
      field? ((key, v) :: fields) name = field? fields name := by
    intro name hname
    have hne : key ≠ name := by rintro rfl; exact hsingle hname
    exact field?_cons_of_ne hne v fields
  rw [namedTokens?, namedTokens?, field?_cons_of_ne hlist, Lists.findSome?_congr hothers]

namespace Effect

theorem field?_contractId (f : Effect) :
    field? f.fields "contractId" = f.contractId?.map .text := by
  cases f <;> rfl

theorem isSome_assetType? (f : Effect) : f.assetType?.isSome = f.contractId?.isSome := by
  cases f <;> rfl

theorem tokenIds_eq_nil {f : Effect} (h : f.assetType? ≠ some .itemTokenNonFungible) :
    f.tokenIds = [] := by
  cases f with
  | nftIssued | nftMinted | nftBurned | nftTransferred | nftHolderChanged | nftModified
  | nftTypeModified | nftAttached | nftDetached | nftRootChanged => exact absurd rfl h
  | _ => rfl

theorem namedTokens?_fields {f : Effect} (h : f.assetType? = some .itemTokenNonFungible) :
    namedTokens? f.fields = some (f.tokenIds.map .text) := by
  cases f with
  | nftIssued | nftMinted | nftBurned | nftTransferred | nftHolderChanged | nftModified
  | nftTypeModified | nftAttached | nftDetached | nftRootChanged => rfl
  | _ => cases h

end Effect

namespace Event

theorem map_contractId_contractIdentifier? (e : Event) :
    e.contractIdentifier?.map ContractIdentifier.contractId = e.contractId? := by
  have hsome := e.effect.isSome_assetType?
  rw [contractIdentifier?, contractId?]
  cases hasset : e.effect.assetType? with
  | none =>
    rw [hasset] at hsome
    exact (Option.isNone_iff_eq_none.mp (by simpa using hsome.symm)).symm
  | some asset =>
    cases e.effect.contractId? <;> rfl

/-- What an event tells of itself is what its written object tells. -/
theorem told_as_written (e : Event) : ∃ fields, e.toValue = .object fields ∧
    (fields.map (·.1)).Nodup ∧
    field? fields "eventName" = some (.text e.name) ∧
    field? fields "msgIndex" = some (.number (.ofUInt64 e.msgIndex)) ∧
    field? fields "contractId" = e.contractId?.map .text ∧
    (e.contractId? = none ↔ "contractId" ∉ fields.map (·.1)) ∧
    e.contractIdentifier?.map ContractIdentifier.contractId = e.contractId? ∧
    (e.effect.assetType? ≠ some .itemTokenNonFungible → e.tokenIds = []) ∧
    (e.effect.assetType? = some .itemTokenNonFungible →
      namedTokens? fields = some (e.tokenIds.map .text)) := by
  have hcontract : field? ((nameField, .text e.name) :: e.fields) "contractId" =
      e.contractId?.map .text := by
    rw [field?_cons_of_ne (by decide), fields, field?_cons_of_ne (by decide)]
    exact e.effect.field?_contractId
  refine ⟨_, rfl, e.nodup_keys, field?_cons_self _ _ _, ?_, hcontract, ?_,
    e.map_contractId_contractIdentifier?, Effect.tokenIds_eq_nil, fun h => ?_⟩
  · rw [field?_cons_of_ne (by decide)]
    exact field?_cons_self _ _ _
  · rw [← field?_eq_none_iff, hcontract, Option.map_eq_none_iff]
  · rw [namedTokens?_cons_of_notMem (by decide), fields, namedTokens?_cons_of_notMem (by decide)]
    exact Effect.namedTokens?_fields h

end Event

end TxReceipt
