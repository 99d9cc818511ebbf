import TxReceipt.Event.Basic
import TxReceipt.Proofs.Lists
import TxReceipt.Proofs.Token

/-!
# Token types and indices of an event

An event names tokens by ids. Of these ids the types are listed once each, and the indices one by
one. `token_parts_listed` says what both lists hold, in terms of the bytes of the ids, and that the
ids come back from the two lists where all of them are whole.
-/

namespace TxReceipt

namespace Token

/-- The types that some ids have, each once, in the order of the first ids that have them. -/
structure ListsTypes (ids types : List String) : Prop where
  mem_iff : ∀ type, type ∈ types ↔ ∃ id ∈ ids, PartAt id 0 type
  once : types.Nodup
  ordered : types.Pairwise fun type type' =>
    ids.findIdx (fun id => PartAt id 0 type) < ids.findIdx (fun id => PartAt id 0 type')

/-- The indices of some ids, one for each id that has one. -/
inductive ListsIndices : List String → List String → Prop
  | nil : ListsIndices [] []
  | indexed {id index : String} {ids indices : List String} (part : PartAt id 8 index)
      (rest : ListsIndices ids indices) : ListsIndices (id :: ids) (index :: indices)
  | passed {id : String} {ids indices : List String} (unindexed : ∀ index, ¬ PartAt id 8 index)
      (rest : ListsIndices ids indices) : ListsIndices (id :: ids) indices

theorem toOption_type_eq_some_iff {id type : String} :
    (Token.type id).toOption = some type ↔ PartAt id 0 type := by
  rw [← type_eq_ok_iff_partAt]
  cases Token.type id <;> simp [Except.toOption]

theorem toOption_index_eq_some_iff {id index : String} :
    (Token.index id).toOption = some index ↔ PartAt id 8 index := by
  rw [← index_eq_ok_iff_partAt]
  cases Token.index id <;> simp [Except.toOption]

theorem listsTypes_eraseDups (ids : List String) :
    ListsTypes ids (ids.filterMap fun id => (Token.type id).toOption).eraseDups where
  mem_iff type := by
    rw [List.mem_eraseDups, List.mem_filterMap]
    simp only [toOption_type_eq_some_iff]
  once := Lists.nodup_eraseDups _
  ordered := by
    have hfound (type : String) : (fun id => (Token.type id).toOption == some type) =
        fun id => decide (PartAt id 0 type) := by
      funext id
      rw [Bool.eq_iff_iff, beq_iff_eq, decide_eq_true_eq, toOption_type_eq_some_iff]
    have hordered := Lists.pairwise_findIdx_eraseDups (fun id => (Token.type id).toOption) ids
    simpa only [hfound] using hordered

theorem listsIndices_filterMap (ids : List String) :
    ListsIndices ids (ids.filterMap fun id => (Token.index id).toOption) := by
  induction ids with
  | nil => exact .nil
  | cons id ids ih =>
    rw [List.filterMap_cons]
    cases h : (Token.index id).toOption with
    | none =>
      refine .passed (fun index part => ?_) ih
      rw [toOption_index_eq_some_iff.mpr part] at h
      cases h
    | some index => exact .indexed (toOption_index_eq_some_iff.mp h) ih

theorem HexDigits.exists_parts {id : String} (h : HexDigits 16 id) :
    ∃ type index, id = type ++ index ∧ PartAt id 0 type ∧ PartAt id 8 index := by
  obtain ⟨hlength, hall⟩ := hexDigits_iff.mp h
  have htype : IsPart (String.ofList (id.toList.take 8)) := by
    rw [IsPart, String.toList_ofList, List.length_take, hlength]
    exact ⟨rfl, fun c hc => hall c (List.mem_of_mem_take hc)⟩
  have hindex : IsPart (String.ofList (id.toList.drop 8)) := by
    rw [IsPart, String.toList_ofList, List.length_drop, hlength]
    exact ⟨rfl, fun c hc => hall c (List.mem_of_mem_drop hc)⟩
  have joined : id = String.ofList (id.toList.take 8) ++ String.ofList (id.toList.drop 8) := by
    rw [← String.ofList_append, List.take_append_drop, String.ofList_toList]
  refine ⟨_, _, joined, ?_, ?_⟩
  · exact partAt_iff.mpr ⟨htype, "", _, by rwa [String.empty_append], rfl⟩
  · exact partAt_iff.mpr ⟨hindex, _, "", by rwa [String.append_empty], htype.utf8ByteSize_eq⟩

/-- Where every id has an index, the indices stand in the places of the ids. -/
theorem ListsIndices.getElem?_eq {ids indices : List String} (h : ListsIndices ids indices)
    (all : ∀ id ∈ ids, ∃ index, PartAt id 8 index) :
    indices.length = ids.length ∧
    ∀ {k : Nat} {id : String}, ids[k]? = some id →
      ∃ index, indices[k]? = some index ∧ PartAt id 8 index := by
  induction h with
  | nil => exact ⟨rfl, fun hk => by cases hk⟩
  | @indexed id index ids indices part rest ih =>
    obtain ⟨hlength, hrest⟩ := ih fun id hid => all id (.tail _ hid)
    refine ⟨by rw [List.length_cons, List.length_cons, hlength], fun {k id'} hk => ?_⟩
    cases k with
    | zero =>
      cases hk
      exact ⟨index, rfl, part⟩
    | succ k => exact hrest hk
  | passed unindexed rest ih =>
    obtain ⟨index, part⟩ := all _ (.head _)
    exact absurd part (unindexed index)

end Token

/-- The type and the index of a text are its first and its second eight bytes, where these are
hexadecimal digits, and a cut that would fall inside a character is an error. The types of an event
are listed once each, its indices in their order, and where all ids are whole, each id is some type
of the event with the index in its place. -/
theorem token_parts_listed (text : String) (e : Event) :
    (∀ type, Token.type text = .ok type ↔ Token.PartAt text 0 type) ∧
    (∀ index, Token.index text = .ok index ↔ Token.PartAt text 8 index) ∧
    (∀ n, Text.splitBytes? n text.toList = none ↔ ¬ String.Pos.Raw.IsValid text ⟨n⟩) ∧
    (¬ String.Pos.Raw.IsValid text ⟨8⟩ →
      Token.type text = .error (.invalidType text) ∧ Token.index text = .error (.invalidId text)) ∧
    (¬ String.Pos.Raw.IsValid text ⟨16⟩ → Token.index text = .error (.invalidId text)) ∧
    Token.ListsTypes e.tokenIds e.tokenTypes ∧
    Token.ListsIndices e.tokenIds e.tokenIndices ∧
    ((∀ id ∈ e.tokenIds, Token.HexDigits 16 id) →
      e.tokenIndices.length = e.tokenIds.length ∧
      ∀ (k : Nat) (id : String), e.tokenIds[k]? = some id →
        ∃ type ∈ e.tokenTypes, ∃ index, e.tokenIndices[k]? = some index ∧ id = type ++ index) := by
  have htypes := Token.listsTypes_eraseDups e.tokenIds
  have hindices := Token.listsIndices_filterMap e.tokenIds
  refine ⟨fun _ => Token.type_eq_ok_iff_partAt, fun _ => Token.index_eq_ok_iff_partAt,
    fun _ => Text.splitBytes?_eq_none_iff, fun inside => ⟨?_, ?_⟩, fun inside => ?_, htypes,
    hindices, fun whole => ?_⟩
  · exact Token.type_eq_error fun type stated =>
      inside (Token.type_eq_ok_iff_partAt.mp stated).isValid_end
  · exact Token.index_eq_error fun index stated =>
      inside (Token.index_eq_ok_iff_partAt.mp stated).between
  · exact Token.index_eq_error fun index stated =>
      inside (Token.index_eq_ok_iff_partAt.mp stated).isValid_end
  · have indexed : ∀ id ∈ e.tokenIds, ∃ index, Token.PartAt id 8 index := by
      intro id hid
      obtain ⟨type, index, -, -, part⟩ := (whole id hid).exists_parts
      exact ⟨index, part⟩
    obtain ⟨hlength, hplace⟩ := hindices.getElem?_eq indexed
    refine ⟨hlength, fun k id hk => ?_⟩
    have hid := List.mem_of_getElem? hk
    obtain ⟨index, hindex, part⟩ := hplace hk
    obtain ⟨type, index', joined, typed, part'⟩ := (whole id hid).exists_parts
    obtain rfl : index = index' := part.unique part'
    exact ⟨type, (htypes.mem_iff type).mpr ⟨id, hid, typed⟩, index, hindex, joined⟩

end TxReceipt
