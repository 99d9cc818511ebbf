import TxReceipt.Extract.Effects
import TxReceipt.Proofs.Raw.Lookup

/-!
# The records of a modification

A modification repeats the attributes of its event as records of the change, without those that only
say what was modified. `changes_of_collectionModified` says how far this goes: what was modified is
told by a token type or else by a token id, but of a token only the id is left out. Where its type
tells it, the type is among the records.
-/

namespace TxReceipt

/-- The records of the change, where the effect is a modification. -/
def Effect.changes? : Effect → Option Changes
  | .tokenModified _ _ changes | .collectionModified _ _ changes | .ftModified _ _ _ changes
  | .nftModified _ _ _ changes | .nftTypeModified _ _ _ changes => some changes
  | _ => none

namespace Extract

open Raw (LogicalAttribute)

/-- An event of a modification tells neither of a collection nor of a whole token type. -/
def OfTokens (e : Raw.Event) : Prop :=
  e.type ≠ "modify_collection" ∧ e.type ≠ "modify_token_type"

instance (e : Raw.Event) : Decidable (OfTokens e) :=
  inferInstanceAs (Decidable (_ ∧ _))

/-- The attribute says what was modified. -/
inductive Routes (e : Raw.Event) : LogicalAttribute → Prop
  | wholeType (typed : e.type = "modify_token_type") : Routes e .tokenType
  | byType (ofTokens : OfTokens e) (named : e.find .tokenType ≠ "") : Routes e .tokenType
  | byId (ofTokens : OfTokens e) (untyped : e.find .tokenType = "")
      (named : e.find .tokenId ≠ "") : Routes e .tokenId

/-- The attributes that are no records of the change. -/
def unrecorded (e : Raw.Event) : List LogicalAttribute :=
  if e.type = "modify_collection" then [.contractId]
  else if e.type = "modify_token_type" then [.contractId, .tokenType]
  else [.contractId, .tokenId]

theorem contractId_mem_unrecorded (e : Raw.Event) : .contractId ∈ unrecorded e := by
  rw [unrecorded]
  split
  · exact .head _
  · split <;> exact .head _

theorem unrecorded_subset (e : Raw.Event) :
    unrecorded e ⊆ [.contractId, .tokenId, .tokenType] := by
  rw [unrecorded]
  split
  · decide
  · split <;> decide

theorem unrecorded_of_ofTokens {e : Raw.Event} (h : OfTokens e) :
    unrecorded e = [.contractId, .tokenId] := by
  rw [unrecorded, if_neg h.1, if_neg h.2]

theorem mem_changes {e : Raw.Event} {excluded : List LogicalAttribute} {x : Attribute} :
    x ∈ (changes e excluded).toList ↔
      x ∈ e.attributes ∧ ∀ a ∈ excluded, x.key ∉ a.keys := by
  rw [changes, AscendingSet.mem_ofList, Raw.Event.mem_excluding]

theorem changes?_collectionModified (e : Raw.Event) (modifier : String) :
    (collectionModified e modifier).changes? = some (changes e (unrecorded e)) := by
  simp only [collectionModified, unrecorded]
  split
  · rfl
  · split
    · rfl
    · split <;> rfl

/-- What says what was modified is a record of the change exactly if it is a token's type. -/
theorem exists_record_of_routes_iff {e : Raw.Event} {a : LogicalAttribute} (h : Routes e a) :
    (∃ x ∈ (changes e (unrecorded e)).toList, x.key ∈ a.keys) ↔
      OfTokens e ∧ e.find .tokenType ≠ "" := by
  have leftOut : a ∈ unrecorded e → ¬ ∃ x ∈ (changes e (unrecorded e)).toList, x.key ∈ a.keys := by
    rintro ha ⟨x, hx, hkey⟩
    exact (mem_changes.mp hx).2 a ha hkey
  cases h with
  | wholeType typed =>
    have ha : .tokenType ∈ unrecorded e := by simp [unrecorded, typed]
    exact iff_of_false (leftOut ha) fun h => h.1.2 typed
  | byType ofTokens named =>
    have apart : ∀ key ∈ LogicalAttribute.tokenType.keys,
        ∀ b ∈ [LogicalAttribute.contractId, .tokenId], key ∉ b.keys := by decide
    obtain ⟨x, hx, hkey⟩ := Raw.Event.exists_mem_of_find_ne named
    refine iff_of_true ⟨x, mem_changes.mpr ⟨hx, ?_⟩, hkey⟩ ⟨ofTokens, named⟩
    rw [unrecorded_of_ofTokens ofTokens]
    exact apart x.key hkey
  | byId ofTokens untyped named =>
    have ha : .tokenId ∈ unrecorded e := by
      rw [unrecorded_of_ofTokens ofTokens]
      exact .tail _ (.head _)
    exact iff_of_false (leftOut ha) fun h => h.2 untyped

/-- The records of a modification are attributes of its event, among them all that belong neither to
the contract nor to the token, and none of the contract. What says what was modified is left out,
unless it is the type of a token. -/
theorem changes_of_collectionModified (e : Raw.Event) (modifier : String) :
    ∃ records : Changes, (collectionModified e modifier).changes? = some records ∧
      (∀ x ∈ records.toList,
        x ∈ e.attributes ∧ x.key ∉ LogicalAttribute.contractId.keys) ∧
      (∀ x ∈ e.attributes,
        (∀ a ∈ [LogicalAttribute.contractId, .tokenId, .tokenType], x.key ∉ a.keys) →
          x ∈ records.toList) ∧
      ∀ a, Routes e a →
        ((∃ x ∈ records.toList, x.key ∈ a.keys) ↔ OfTokens e ∧ e.find .tokenType ≠ "") := by
  refine ⟨changes e (unrecorded e), changes?_collectionModified e modifier, ?_, ?_, ?_⟩
  · intro x hx
    obtain ⟨hmem, hkeys⟩ := mem_changes.mp hx
    exact ⟨hmem, hkeys _ (contractId_mem_unrecorded e)⟩
  · intro x hx hkeys
    exact mem_changes.mpr ⟨hx, fun a ha => hkeys a (unrecorded_subset e ha)⟩
  · intro a ha
    exact exists_record_of_routes_iff ha

/-- A token found by its id, which is left out. -/
theorem changes_of_collectionModified_by_id :
    let e : Raw.Event := ⟨"modify_token", [⟨"contract_id", "9be17165"⟩,
      ⟨"tokenId", "1000000100000001"⟩, ⟨"name", "gold"⟩]⟩
    Routes e .tokenId ∧ ∃ records : Changes,
      (collectionModified e "m").changes? = some records ∧ ⟨"name", "gold"⟩ ∈ records.toList ∧
      (∀ x ∈ records.toList, x ∈ e.attributes ∧ x.key ∉ LogicalAttribute.contractId.keys) ∧
      ¬ ∃ x ∈ records.toList, x.key ∈ LogicalAttribute.tokenId.keys := by
  intro e
  have untyped : e.find .tokenType = "" := by decide
  have routes : Routes e .tokenId := .byId (by decide) untyped (by decide)
  obtain ⟨records, hrecords, hmem, hall, hroute⟩ := changes_of_collectionModified e "m"
  refine ⟨routes, records, hrecords, hall _ (.tail _ (.tail _ (.head _))) (by decide), hmem, ?_⟩
  intro hrecord
  exact ((hroute .tokenId routes).mp hrecord).2 untyped

/-- A token found by its type, which is repeated. -/
theorem routing_type_recorded :
    let e : Raw.Event := ⟨"modify_token", [⟨"contract_id", "9be17165"⟩,
      ⟨"token_type", "00000001"⟩, ⟨"name", "gold"⟩]⟩
    Routes e .tokenType ∧
    (collectionModified e "m").changes?.map AscendingSet.toList =
      some [⟨"name", "gold"⟩, ⟨"token_type", "00000001"⟩] ∧
    ¬ ∀ (e : Raw.Event) (modifier : String) (records : Changes),
      (collectionModified e modifier).changes? = some records →
        ∀ a, Routes e a → ∀ x ∈ records.toList, x.key ∉ a.keys := by
  intro e
  have routes : Routes e .tokenType := .byType (by decide) (by decide)
  have hlist : (collectionModified e "m").changes?.map AscendingSet.toList =
      some [⟨"name", "gold"⟩, ⟨"token_type", "00000001"⟩] := by decide
  refine ⟨routes, hlist, fun h => ?_⟩
  obtain ⟨records, hrecords, hrecord⟩ := Option.map_eq_some_iff.mp hlist
  have hmem : ⟨"token_type", "00000001"⟩ ∈ records.toList := by
    rw [hrecord]
    exact .tail _ (.head _)
  exact h e "m" records hrecords .tokenType routes _ hmem (by decide)

end Extract

end TxReceipt
