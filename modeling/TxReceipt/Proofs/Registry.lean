import Mathlib.Data.List.Nodup
import TxReceipt.Registry

/-!
# Entries of the registry

An entry is found by its type exactly if it stands in the table. What holds of the rows of the table
holds of every entry that is found, and what is listed of some rows is listed of entries that are
found.
-/

namespace TxReceipt.Registry

theorem spec_of_lookup? {messageType : String} {entry : Entry}
    (h : lookup? messageType = some entry) :
    entry ∈ entries ∧ entry.messageType = messageType := by
  have htype := List.find?_some h
  exact ⟨List.mem_of_find?_eq_some h, by simpa using htype⟩

/-- An entry is found by its type exactly if it stands in the table. -/
theorem lookup?_eq_some_iff {messageType : String} {entry : Entry} :
    lookup? messageType = some entry ↔ entry ∈ entries ∧ entry.messageType = messageType := by
  constructor
  · exact spec_of_lookup?
  · rintro ⟨hmem, rfl⟩
    cases hfound : lookup? entry.messageType with
    | none =>
      have hnone := List.find?_eq_none.mp hfound entry hmem
      simp at hnone
    | some found =>
      obtain ⟨hmem', htype⟩ := spec_of_lookup? hfound
      rw [List.inj_on_of_nodup_map messageTypes_nodup hmem' hmem htype]

/-- What is listed of some entries is listed of one that is found by its type. -/
theorem exists_lookup?_of_listed {β : Type} {p : Entry → Bool} {view : Entry → β} {b : β}
    (h : b ∈ (entries.filter p).map view) :
    ∃ entry, lookup? entry.messageType = some entry ∧ p entry = true ∧ view entry = b := by
  obtain ⟨entry, hentry, hview⟩ := List.mem_map.mp h
  obtain ⟨hmem, hp⟩ := List.mem_filter.mp hentry
  exact ⟨entry, lookup?_eq_some_iff.mpr ⟨hmem, rfl⟩, hp, hview⟩

theorem lookup?_eq_none_iff {messageType : String} :
    lookup? messageType = none ↔ messageType ∉ entries.map Entry.messageType := by
  rw [lookup?, List.find?_eq_none]
  constructor
  · intro h hmem
    obtain ⟨entry, hentry, htype⟩ := List.mem_map.mp hmem
    have hne := h entry hentry
    simp [htype] at hne
  · intro h entry hentry heq
    have htype : entry.messageType = messageType := by simpa using heq
    exact h (htype ▸ List.mem_map_of_mem hentry)

end TxReceipt.Registry
