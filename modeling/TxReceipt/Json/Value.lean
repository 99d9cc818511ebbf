import TxReceipt.Json.Number

/-!
# JSON values

A value keeps the fields of its objects in the order in which they were written. `sorted` is the
normal form of data whose field order means nothing: in every object each key once, with its last
value, and the keys ascending. `Canonical` says that a value has that form; a `Payload` is such a
value.
-/

namespace TxReceipt.Json

inductive Value where
  | null
  | bool (b : Bool)
  | number (n : Number)
  | text (s : String)
  | array (items : List Value)
  | object (fields : List (String × Value))

namespace Value

instance : Inhabited Value := ⟨.null⟩

/-- Puts a field in its place among fields with ascending keys, unless its key is there. -/
def insertField (k : String) (v : Value) : List (String × Value) → List (String × Value)
  | [] => [(k, v)]
  | f :: fs =>
    if k < f.1 then (k, v) :: f :: fs
    else if k = f.1 then f :: fs
    else f :: insertField k v fs

mutual

/-- The normal form: each key once, with its last value, and the keys ascending. -/
def sorted : Value → Value
  | .null => .null
  | .bool b => .bool b
  | .number n => .number n
  | .text s => .text s
  | .array items => .array (sortedItems items)
  | .object fields => .object (sortedFields fields)
termination_by structural v => v

def sortedItems : List Value → List Value
  | [] => []
  | v :: vs => v.sorted :: sortedItems vs
termination_by structural vs => vs

/-- The fields of a normal form: of two fields with one key the later one stays. -/
def sortedFields : List (String × Value) → List (String × Value)
  | [] => []
  | (k, v) :: fs => insertField k v.sorted (sortedFields fs)
termination_by structural fs => fs

end

mutual

/-- In every object the keys ascend, so that no key stands twice. -/
def Canonical : Value → Prop
  | .null | .bool _ | .number _ | .text _ => True
  | .array items => CanonicalItems items
  | .object fields => (fields.map (·.1)).Pairwise (· < ·) ∧ CanonicalFields fields
termination_by structural v => v

def CanonicalItems : List Value → Prop
  | [] => True
  | v :: vs => v.Canonical ∧ CanonicalItems vs
termination_by structural vs => vs

def CanonicalFields : List (String × Value) → Prop
  | [] => True
  | (_, v) :: fs => v.Canonical ∧ CanonicalFields fs
termination_by structural fs => fs

end

theorem lt_of_not_lt_of_ne {a b : String} (hlt : ¬ a < b) (hne : a ≠ b) : b < a :=
  Std.lt_of_le_of_ne (String.not_lt.mp hlt) hne.symm

theorem mem_keys_insertField {k x : String} {v : Value} {fs : List (String × Value)}
    (h : x ∈ (insertField k v fs).map (·.1)) : x = k ∨ x ∈ fs.map (·.1) := by
  induction fs with
  | nil => simpa [insertField] using h
  | cons f fs ih =>
    simp only [insertField] at h
    split at h
    · simpa using h
    · split at h
      · exact Or.inr h
      · simp only [List.map_cons, List.mem_cons] at h ⊢
        rcases h with rfl | h
        · exact Or.inr (Or.inl rfl)
        · exact (ih h).imp id Or.inr

theorem pairwise_insertField {k : String} {v : Value} {fs : List (String × Value)}
    (h : (fs.map (·.1)).Pairwise (· < ·)) : ((insertField k v fs).map (·.1)).Pairwise (· < ·) := by
  induction fs with
  | nil => simp [insertField]
  | cons f fs ih =>
    simp only [List.map_cons, List.pairwise_cons] at h
    simp only [insertField]
    split
    · rename_i hk
      simp only [List.map_cons, List.pairwise_cons, List.mem_cons]
      refine ⟨?_, h.1, h.2⟩
      rintro x (rfl | hx)
      · exact hk
      · exact String.lt_trans hk (h.1 x hx)
    · split
      · simpa using h
      · rename_i hlt hne
        simp only [List.map_cons, List.pairwise_cons]
        refine ⟨fun x hx => ?_, ih h.2⟩
        rcases mem_keys_insertField hx with rfl | hx
        · exact lt_of_not_lt_of_ne hlt hne
        · exact h.1 x hx

theorem canonicalFields_insertField {k : String} {v : Value} {fs : List (String × Value)}
    (hv : v.Canonical) (h : CanonicalFields fs) : CanonicalFields (insertField k v fs) := by
  induction fs with
  | nil => exact ⟨hv, trivial⟩
  | cons f fs ih =>
    obtain ⟨k', v'⟩ := f
    simp only [insertField]
    split
    · exact ⟨hv, h⟩
    · split
      · exact h
      · exact ⟨h.1, ih h.2⟩

mutual

theorem canonical_sorted : (v : Value) → v.sorted.Canonical
  | .null | .bool _ | .number _ | .text _ => trivial
  | .array items => canonicalItems_sortedItems items
  | .object fields => canonicalFields_sortedFields fields

theorem canonicalItems_sortedItems : (vs : List Value) → CanonicalItems (sortedItems vs)
  | [] => trivial
  | v :: vs => ⟨canonical_sorted v, canonicalItems_sortedItems vs⟩

theorem canonicalFields_sortedFields : (fs : List (String × Value)) →
    ((sortedFields fs).map (·.1)).Pairwise (· < ·) ∧ CanonicalFields (sortedFields fs)
  | [] => ⟨.nil, trivial⟩
  | (_, v) :: fs =>
    have ih := canonicalFields_sortedFields fs
    ⟨pairwise_insertField ih.1, canonicalFields_insertField (canonical_sorted v) ih.2⟩

end

/-- The value of a field, the first one of that name. -/
def field? (fields : List (String × Value)) (key : String) : Option Value :=
  (fields.find? fun f => f.1 == key).map (·.2)

def texts (ss : List String) : Value :=
  .array (ss.map .text)

def optionalText : Option String → Value
  | none => .null
  | some s => .text s

end Value

/-- Data whose field order means nothing, in normal form. -/
structure Payload where
  value : Value
  canonical : value.Canonical

namespace Payload

def ofValue (v : Value) : Payload :=
  ⟨v.sorted, v.canonical_sorted⟩

def null : Payload :=
  ⟨.null, trivial⟩

end Payload

end TxReceipt.Json
