import TxReceipt.Proofs.Raw.LogicalAttribute

/-!
# Keys in their other spelling

Versions of the chain spell some keys in two ways. An event that has no key in both of its spellings
tells the same in the other ones: every logical attribute is found with the same value
(`find_withOtherKeys`, `findAll_withOtherKeys`), and what is left over when attributes are excluded is
the same but for its keys (`excluding_withOtherKeys`).
-/

namespace TxReceipt

namespace Raw

def keyPairs : List (String × String) := [
  ("contract_id", "contractId"),
  ("create_account_target", "createAccountTarget"),
  ("from_token_id", "fromTokenId"),
  ("to_token_id", "toTokenId"),
  ("new_root_token_id", "newRootTokenId"),
  ("old_root_token_id", "oldRootTokenId"),
  ("token_id", "tokenId"),
  ("token_type", "tokenType"),
  ("perm", "permission")]

/-- The other spelling of a key, or the key itself if it has one spelling. -/
def otherKey (key : String) : String :=
  match keyPairs.find? fun p => p.1 == key || p.2 == key with
  | some p => if p.1 = key then p.2 else p.1
  | none => key

theorem otherKey_of_mem : ∀ p ∈ keyPairs, otherKey p.1 = p.2 ∧ otherKey p.2 = p.1 := by
  decide

/-- A key with two spellings stands in a pair with the other one. -/
theorem exists_pair_of_otherKey_ne {key : String} (h : otherKey key ≠ key) :
    ∃ p ∈ keyPairs, p = (key, otherKey key) ∨ p = (otherKey key, key) := by
  cases hfind : keyPairs.find? fun p => p.1 == key || p.2 == key with
  | none =>
    rw [otherKey, hfind] at h
    exact absurd rfl h
  | some p =>
    have hmem := List.mem_of_find?_eq_some hfind
    obtain ⟨hfirst, hsecond⟩ := otherKey_of_mem p hmem
    have hkey : p.1 = key ∨ p.2 = key := by simpa using List.find?_some hfind
    rcases hkey with rfl | rfl
    · exact ⟨p, hmem, .inl (by rw [hfirst])⟩
    · exact ⟨p, hmem, .inr (by rw [hsecond])⟩

theorem otherKey_otherKey (key : String) : otherKey (otherKey key) = key := by
  by_cases h : otherKey key = key
  · rw [h, h]
  · obtain ⟨p, hp, rfl | rfl⟩ := exists_pair_of_otherKey_ne h
    · exact (otherKey_of_mem _ hp).2
    · exact (otherKey_of_mem _ hp).1

theorem otherKey_eq_iff {key key' : String} : otherKey key = key' ↔ key = otherKey key' := by
  constructor
  · rintro rfl
    exact (otherKey_otherKey key).symm
  · rintro rfl
    exact otherKey_otherKey key'

end Raw

def Attribute.withOtherKey (x : Attribute) : Attribute :=
  { x with key := Raw.otherKey x.key }

theorem Attribute.withOtherKey_withOtherKey (x : Attribute) :
    x.withOtherKey.withOtherKey = x := by
  simp only [withOtherKey, Raw.otherKey_otherKey]

namespace Raw

/-- Of keys with two spellings, both stand side by side. -/
def keysPaired : List String → Bool
  | [] => true
  | [key] => otherKey key = key
  | key :: key' :: keys =>
    if otherKey key = key then keysPaired (key' :: keys)
    else otherKey key = key' && keysPaired keys

theorem LogicalAttribute.keysPaired_keys (a : LogicalAttribute) : keysPaired a.keys = true := by
  cases a <;> decide

theorem LogicalAttribute.accepts_otherKey (a : LogicalAttribute) (key : String) :
    a.accepts (otherKey key) = a.accepts key := by
  have closed : ∀ key ∈ a.keys, otherKey key ∈ a.keys := by
    cases a <;> decide
  rw [Bool.eq_iff_iff, accepts_iff, accepts_iff]
  refine ⟨fun h => ?_, closed key⟩
  have hback := closed _ h
  rwa [otherKey_otherKey] at hback

/-- Where at most one spelling of a key is found, it does not matter which of two neighbours is tried
first. -/
theorem findSome?_otherKey {β : Type} {found : String → Option β}
    (one : ∀ key, otherKey key ≠ key → found key = none ∨ found (otherKey key) = none)
    {keys : List String} (h : keysPaired keys = true) :
    keys.findSome? (fun key => found (otherKey key)) = keys.findSome? found := by
  fun_induction keysPaired keys with
  | case1 => rfl
  | case2 key =>
    rw [List.findSome?_singleton, List.findSome?_singleton, of_decide_eq_true h]
  | case3 key key' keys hone ih =>
    rw [List.findSome?_cons, ih h, hone, ← List.findSome?_cons]
  | case4 key key' keys htwo ih =>
    obtain ⟨hpair, hkeys⟩ := Bool.and_eq_true_iff.mp h
    obtain rfl : otherKey key = key' := of_decide_eq_true hpair
    simp only [List.findSome?_cons, otherKey_otherKey, ih hkeys]
    rcases one key htwo with hnone | hnone
    · rw [hnone]
    · rw [hnone]

namespace Event

def keys (e : Event) : List String :=
  e.attributes.map Attribute.key

/-- No key stands in the event in both of its spellings. -/
def OneSpelling (e : Event) : Prop :=
  ∀ p ∈ keyPairs, ¬ (p.1 ∈ e.keys ∧ p.2 ∈ e.keys)

instance (e : Event) : Decidable e.OneSpelling :=
  inferInstanceAs (Decidable (∀ p ∈ keyPairs, _))

def withOtherKeys (e : Event) : Event :=
  { e with attributes := e.attributes.map Attribute.withOtherKey }

variable {e : Event}

/-- The first attribute under a key. -/
theorem find?_key_withOtherKeys (key : String) :
    (e.withOtherKeys.attributes.find? fun x => x.key == key) =
      (e.attributes.find? fun x => x.key == otherKey key).map Attribute.withOtherKey := by
  have hkey : ((fun x : Attribute => x.key == key) ∘ Attribute.withOtherKey) =
      fun x => x.key == otherKey key := by
    funext x
    rw [Function.comp_apply, Bool.eq_iff_iff, beq_iff_eq, beq_iff_eq]
    exact otherKey_eq_iff
  rw [withOtherKeys, List.find?_map, hkey]

theorem OneSpelling.find?_key (h : e.OneSpelling) {key : String} (hkey : otherKey key ≠ key) :
    (e.attributes.find? fun x => x.key == key) = none ∨
      (e.attributes.find? fun x => x.key == otherKey key) = none := by
  have absent {key : String} (hnot : key ∉ e.keys) :
      (e.attributes.find? fun x => x.key == key) = none := by
    apply List.find?_eq_none.mpr
    intro x hx heq
    exact hnot (eq_of_beq heq ▸ List.mem_map_of_mem hx)
  obtain ⟨p, hp, rfl | rfl⟩ := exists_pair_of_otherKey_ne hkey
  · rcases Decidable.not_and_iff_or_not.mp (h _ hp) with hnot | hnot
    · exact .inl (absent hnot)
    · exact .inr (absent hnot)
  · rcases Decidable.not_and_iff_or_not.mp (h _ hp) with hnot | hnot
    · exact .inr (absent hnot)
    · exact .inl (absent hnot)

theorem lookup?_withOtherKeys (h : e.OneSpelling) (a : LogicalAttribute) :
    e.withOtherKeys.lookup? a = (e.lookup? a).map Attribute.withOtherKey := by
  let found (key : String) : Option Attribute := e.attributes.find? fun x => x.key == key
  have hfound : a.keys.findSome? (fun key => found (otherKey key)) = a.keys.findSome? found :=
    findSome?_otherKey (fun key => h.find?_key) a.keysPaired_keys
  rw [lookup?, lookup?, ← hfound, List.map_findSome?]
  congr 1
  funext key
  exact find?_key_withOtherKeys key

theorem find_withOtherKeys (h : e.OneSpelling) (a : LogicalAttribute) :
    e.withOtherKeys.find a = e.find a := by
  rw [find, find, lookup?_withOtherKeys h]
  cases e.lookup? a with
  | none => rfl
  | some x => rfl

theorem findAll_withOtherKeys (e : Event) (a : LogicalAttribute) :
    e.withOtherKeys.findAll a = e.findAll a := by
  have haccepts : ((fun x : Attribute => a.accepts x.key) ∘ Attribute.withOtherKey) =
      fun x => a.accepts x.key := by
    funext x
    exact a.accepts_otherKey x.key
  rw [findAll, findAll, withOtherKeys, List.filter_map, haccepts, List.map_map]
  rfl

theorem excluding_withOtherKeys (e : Event) (excluded : List LogicalAttribute) :
    e.withOtherKeys.excluding excluded =
      (e.excluding excluded).map Attribute.withOtherKey := by
  have haccepts : ((fun x : Attribute => !excluded.any fun a => a.accepts x.key) ∘
      Attribute.withOtherKey) = fun x => !excluded.any fun a => a.accepts x.key := by
    funext x
    simp only [Function.comp_apply, Attribute.withOtherKey, LogicalAttribute.accepts_otherKey]
  rw [excluding, excluding, withOtherKeys, List.filter_map, haccepts]

end Event

end Raw

end TxReceipt
