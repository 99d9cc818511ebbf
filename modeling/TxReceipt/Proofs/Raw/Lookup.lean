import Mathlib.Data.Prod.Lex
import TxReceipt.Proofs.Lists
import TxReceipt.Proofs.Raw.LogicalAttribute

/-!
# Four ways to look up an attribute

One value is found by trying the keys in their order, each from the front of the event. The other
ways go through the event once: they list all values, ask whether there is one, or leave some
attributes out. `Finds` says which value is found without any search, and `lookups_agree` that the
four ways speak of the same attributes, whatever keys stand in the event and how often.
-/

namespace TxReceipt.Raw

/-- What is looked up first precedes: the rank of the key decides, then the place in the event. -/
def LogicalAttribute.precedence (a : LogicalAttribute) (key : String) (place : ℕ) : ℕ ×ₗ ℕ :=
  toLex (a.keys.idxOf key, place)

namespace Event

variable {e : Event} {a : LogicalAttribute}

/-- The value of the attribute that precedes all others under keys of the logical attribute, and an
empty text if there is none. -/
inductive Finds (e : Event) (a : LogicalAttribute) : String → Prop
  | least {i : ℕ} {x : Attribute} (stands : e.attributes[i]? = some x) (accepted : x.key ∈ a.keys)
      (first : ∀ j y, e.attributes[j]? = some y → y.key ∈ a.keys →
        a.precedence x.key i ≤ a.precedence y.key j) : Finds e a x.value
  | absent (unstated : ∀ x ∈ e.attributes, x.key ∉ a.keys) : Finds e a ""

theorem Finds.unique {value value' : String} (h : e.Finds a value) (h' : e.Finds a value') :
    value = value' := by
  cases h with
  | @least i x stands accepted first =>
    cases h' with
    | @least j y stands' accepted' first' =>
      have hsame := (first j y stands' accepted').antisymm (first' i x stands accepted)
      obtain ⟨-, hplace⟩ := Prod.mk.inj (toLex_inj.mp hsame)
      rw [hplace] at stands
      rw [Option.some.inj (stands.symm.trans stands')]
    | absent unstated => exact absurd accepted (unstated x (List.mem_of_getElem? stands))
  | absent unstated =>
    cases h' with
    | @least j y stands' accepted' first' =>
      exact absurd accepted' (unstated y (List.mem_of_getElem? stands'))
    | absent => rfl

/-- The attribute that is looked up stands under the key of least rank, in front of all others under
this key. -/
theorem exists_least_of_lookup? {x : Attribute} (h : e.lookup? a = some x) :
    ∃ i, e.attributes[i]? = some x ∧ ∀ j y, e.attributes[j]? = some y → y.key ∈ a.keys →
      a.precedence x.key i ≤ a.precedence y.key j := by
  obtain ⟨tried, key, later, hkeys, hfind, hnone⟩ := List.findSome?_eq_some_iff.mp h
  obtain ⟨hkey, i, hi, hx, hbefore⟩ := List.find?_eq_some_iff_getElem.mp hfind
  obtain rfl : x.key = key := eq_of_beq hkey
  have untried {j : ℕ} {y : Attribute} (hy : e.attributes[j]? = some y) : y.key ∉ tried := by
    intro hmem
    have habsent := List.find?_eq_none.mp (hnone y.key hmem) y (List.mem_of_getElem? hy)
    simp at habsent
  have stands : e.attributes[i]? = some x := List.getElem?_eq_some_iff.mpr ⟨hi, hx⟩
  have rank : a.keys.idxOf x.key = tried.length := by
    rw [hkeys, List.idxOf_append_of_notMem (untried stands), List.idxOf_cons_self, Nat.add_zero]
  refine ⟨i, stands, fun j y hy haccepted => ?_⟩
  rw [LogicalAttribute.precedence, LogicalAttribute.precedence, Prod.Lex.toLex_le_toLex, rank]
  by_cases hsame : y.key = x.key
  · refine .inr ⟨hsame ▸ rank.symm, ?_⟩
    -- An attribute in front of the one found has another key.
    apply Nat.le_of_not_lt
    intro hji
    obtain ⟨hj, rfl⟩ := List.getElem?_eq_some_iff.mp hy
    have hother := hbefore j hji
    simp [hsame] at hother
  · left
    rw [hkeys, List.idxOf_append_of_notMem (untried hy), List.idxOf_cons_ne _ (Ne.symm hsame)]
    omega

theorem finds_find (e : Event) (a : LogicalAttribute) : e.Finds a (e.find a) := by
  rw [find]
  cases h : e.lookup? a with
  | none => exact .absent (lookup?_eq_none_iff.mp h)
  | some x =>
    obtain ⟨i, stands, first⟩ := exists_least_of_lookup? h
    exact .least stands (mem_of_lookup? h).2 first

theorem has_eq_true_iff : e.has a = true ↔ ∃ x ∈ e.attributes, x.key ∈ a.keys := by
  rw [has, List.any_eq_true]
  simp only [LogicalAttribute.accepts_iff]

theorem mem_findAll {value : String} :
    value ∈ e.findAll a ↔ ∃ x ∈ e.attributes, x.key ∈ a.keys ∧ x.value = value := by
  rw [findAll, List.mem_map]
  simp only [List.mem_filter, LogicalAttribute.accepts_iff, and_assoc]

theorem has_iff_findAll_ne : e.has a = true ↔ e.findAll a ≠ [] := by
  rw [has_eq_true_iff]
  constructor
  · rintro ⟨x, hx, hkey⟩
    exact List.ne_nil_of_mem (mem_findAll.mpr ⟨x, hx, hkey, rfl⟩)
  · intro hne
    obtain ⟨value, hvalue⟩ := List.exists_mem_of_ne_nil _ hne
    obtain ⟨x, hx, hkey, -⟩ := mem_findAll.mp hvalue
    exact ⟨x, hx, hkey⟩

theorem find_mem_findAll (h : e.has a = true) : e.find a ∈ e.findAll a := by
  rw [find]
  cases hx : e.lookup? a with
  | none =>
    obtain ⟨x, hmem, hkey⟩ := has_eq_true_iff.mp h
    exact absurd hkey (lookup?_eq_none_iff.mp hx x hmem)
  | some x =>
    obtain ⟨hmem, hkey⟩ := mem_of_lookup? hx
    exact mem_findAll.mpr ⟨x, hmem, hkey, rfl⟩

-- The key of lower rank is found, though it stands behind the other one.
example : (⟨"burn_nft", [⟨"token_id", "1"⟩, ⟨"tokenId", "2"⟩]⟩ : Event).find .tokenId = "2" := by
  decide

def underKeys (e : Event) (excluded : List LogicalAttribute) : List Attribute :=
  e.attributes.filter fun x => ∃ a ∈ excluded, x.key ∈ a.keys

theorem mem_underKeys {excluded : List LogicalAttribute} {x : Attribute} :
    x ∈ e.underKeys excluded ↔ x ∈ e.attributes ∧ ∃ a ∈ excluded, x.key ∈ a.keys := by
  rw [underKeys, List.mem_filter, decide_eq_true_eq]

theorem excluding_eq (e : Event) (excluded : List LogicalAttribute) :
    e.excluding excluded =
      e.attributes.filter fun x => !decide (∃ a ∈ excluded, x.key ∈ a.keys) := by
  have hany : (fun x : Attribute => !excluded.any fun a => a.accepts x.key) =
      fun x => !decide (∃ a ∈ excluded, x.key ∈ a.keys) := by
    funext x
    congr 1
    rw [Bool.eq_iff_iff, List.any_eq_true, decide_eq_true_eq]
    simp only [LogicalAttribute.accepts_iff]
  rw [excluding, hany]

theorem mem_excluding {excluded : List LogicalAttribute} {x : Attribute} :
    x ∈ e.excluding excluded ↔ x ∈ e.attributes ∧ ∀ a ∈ excluded, x.key ∉ a.keys := by
  rw [excluding_eq, List.mem_filter, Bool.not_eq_true', decide_eq_false_iff_not]
  simp only [not_exists, not_and]

theorem has_iff_length_excluding_lt :
    e.has a = true ↔ (e.excluding [a]).length < e.attributes.length := by
  rw [has_eq_true_iff, excluding_eq, List.length_filter_lt_length_iff_exists]
  simp

theorem merges_excluding (e : Event) (excluded : List LogicalAttribute) :
    Lists.Merges (e.excluding excluded) (e.underKeys excluded) e.attributes := by
  rw [excluding_eq, underKeys]
  exact Lists.merges_filter _ e.attributes

/-- What is found is the value that precedes. An attribute is there exactly if it has values, and
exactly if leaving it out makes the event shorter, and then the value found is one of them. Leaving
attributes out divides the event in two. -/
theorem lookups_agree (e : Event) (a : LogicalAttribute) :
    (∀ value, e.find a = value ↔ e.Finds a value) ∧
    (e.has a = true ↔ e.findAll a ≠ []) ∧
    (e.has a = true ↔ (e.excluding [a]).length < e.attributes.length) ∧
    (e.has a = true → e.find a ∈ e.findAll a) ∧
    ∀ excluded : List LogicalAttribute,
      Lists.Merges (e.excluding excluded) (e.underKeys excluded) e.attributes ∧
      ∀ x ∈ e.attributes, Xor (x ∈ e.excluding excluded) (x ∈ e.underKeys excluded) := by
  refine ⟨fun value => ⟨?_, ?_⟩, has_iff_findAll_ne, has_iff_length_excluding_lt,
    find_mem_findAll, fun excluded => ⟨merges_excluding e excluded, fun x hx => ?_⟩⟩
  · rintro rfl
    exact finds_find e a
  · exact (finds_find e a).unique
  · by_cases hkey : ∃ a ∈ excluded, x.key ∈ a.keys
    · obtain ⟨a, ha, hkey'⟩ := hkey
      exact .inr ⟨mem_underKeys.mpr ⟨hx, a, ha, hkey'⟩,
        fun h => (mem_excluding.mp h).2 a ha hkey'⟩
    · exact .inl ⟨mem_excluding.mpr ⟨hx, fun a ha hkey' => hkey ⟨a, ha, hkey'⟩⟩,
        fun h => hkey (mem_underKeys.mp h).2⟩

end Event

end TxReceipt.Raw
