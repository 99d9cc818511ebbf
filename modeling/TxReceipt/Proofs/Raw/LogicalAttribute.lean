import TxReceipt.Proofs.Text.Numeral
import TxReceipt.Raw.LogicalAttribute

/-!
# Attributes that stand once

What is found stands under one of the keys. Where an event has one attribute under the keys of a
logical attribute, the order of its attributes and of the keys decides nothing: the value is found,
and it is the only one. So it is with a payload that has one value under these keys.
-/

namespace TxReceipt.Raw

theorem LogicalAttribute.accepts_iff {a : LogicalAttribute} {key : String} :
    a.accepts key = true ↔ key ∈ a.keys := by
  rw [accepts, List.contains_iff_mem]

namespace Event

variable {e : Event} {a : LogicalAttribute}

/-- One attribute of the event stands under a key of the logical attribute, with this value. -/
def StatesOnce (e : Event) (a : LogicalAttribute) (value : String) : Prop :=
  ∃ key ∈ a.keys, e.attributes.filter (fun x => x.key ∈ a.keys) = [⟨key, value⟩]

instance (e : Event) (a : LogicalAttribute) (value : String) : Decidable (e.StatesOnce a value) :=
  inferInstanceAs (Decidable (∃ key ∈ a.keys, _ = _))

theorem mem_of_lookup? {x : Attribute} (h : e.lookup? a = some x) :
    x ∈ e.attributes ∧ x.key ∈ a.keys := by
  obtain ⟨key, hkey, hfind⟩ := List.exists_of_findSome?_eq_some h
  have hx : x.key = key := by simpa using List.find?_some hfind
  exact ⟨List.mem_of_find?_eq_some hfind, hx ▸ hkey⟩

/-- A value that is found and not empty stands under one of the keys. -/
theorem exists_mem_of_find_ne (h : e.find a ≠ "") : ∃ x ∈ e.attributes, x.key ∈ a.keys := by
  rw [find] at h
  split at h
  · rename_i x hx
    exact ⟨x, mem_of_lookup? hx⟩
  · exact absurd rfl h

theorem lookup?_eq_none_iff : e.lookup? a = none ↔ ∀ x ∈ e.attributes, x.key ∉ a.keys := by
  rw [lookup?, List.findSome?_eq_none_iff]
  constructor
  · intro h x hx hkey
    have hnone := List.find?_eq_none.mp (h x.key hkey) x hx
    simp at hnone
  · intro h key hkey
    apply List.find?_eq_none.mpr
    intro x hx heq
    have hx' : x.key = key := by simpa using heq
    exact h x hx (hx' ▸ hkey)

theorem StatesOnce.mem_iff {value : String} (h : e.StatesOnce a value) :
    ∃ key ∈ a.keys, ∀ x, x ∈ e.attributes ∧ x.key ∈ a.keys ↔ x = ⟨key, value⟩ := by
  obtain ⟨key, hkey, hfilter⟩ := h
  refine ⟨key, hkey, fun x => ?_⟩
  rw [← List.mem_singleton, ← hfilter, List.mem_filter, decide_eq_true_eq]

theorem StatesOnce.find_eq {value : String} (h : e.StatesOnce a value) : e.find a = value := by
  obtain ⟨key, hkey, only⟩ := h.mem_iff
  rw [find]
  cases hx : e.lookup? a with
  | none =>
    obtain ⟨hmem, -⟩ := (only ⟨key, value⟩).mpr rfl
    exact absurd hkey (lookup?_eq_none_iff.mp hx _ hmem)
  | some x => rw [(only x).mp (mem_of_lookup? hx)]

end Event

namespace PayloadFields

variable {fields : PayloadFields} {a : LogicalAttribute}

/-- The payload has this value under some key of the logical attribute, and no other one under
any. -/
structure States (fields : PayloadFields) (a : LogicalAttribute) (value : Json.Value) : Prop where
  stated : ∃ key ∈ a.keys, Json.Value.field? fields key = some value
  alone : ∀ key ∈ a.keys, ∀ other, Json.Value.field? fields key = some other → other = value

theorem States.lookup?_eq {value : Json.Value} (h : fields.States a value) :
    fields.lookup? a = some value := by
  obtain ⟨key, hkey, hfield⟩ := h.stated
  rw [lookup?]
  cases hfound : a.keys.findSome? (Json.Value.field? fields) with
  | none =>
    have hnone := List.findSome?_eq_none_iff.mp hfound key hkey
    rw [hfield] at hnone
    cases hnone
  | some found =>
    obtain ⟨key', hkey', hsome⟩ := List.exists_of_findSome?_eq_some hfound
    rw [h.alone key' hkey' found hsome]

theorem States.find_eq {text : String} (h : fields.States a (.text text)) :
    fields.find a = text := by
  rw [find, h.lookup?_eq]

theorem States.find_eq_toString {n : Int}
    {fits : -9223372036854775808 ≤ n ∧ n < 18446744073709551616}
    (h : fields.States a (.number (.int n fits))) : fields.find a = toString n := by
  rw [find, h.lookup?_eq, Text.toString_eq_intChars]
  rfl

/-- The first entry of a list that is an object is the first one found. -/
theorem States.findList_eq {front rest : List Json.Value} {entry : PayloadFields}
    (h : fields.States a (.array (front ++ .object entry :: rest)))
    (skipped : ∀ value ∈ front, ∀ other, value ≠ .object other) :
    fields.findList a = entry :: rest.filterMap ofValue? := by
  have hfront : front.filterMap ofValue? = [] := by
    apply List.filterMap_eq_nil_iff.mpr
    intro value hvalue
    cases value with
    | object other => exact absurd rfl (skipped _ hvalue other)
    | _ => rfl
  rw [findList, h.lookup?_eq]
  simp only [List.filterMap_append, hfront, List.nil_append]
  rfl

end PayloadFields

end TxReceipt.Raw
