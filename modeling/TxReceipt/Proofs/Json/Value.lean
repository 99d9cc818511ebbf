import TxReceipt.Json.Value

/-!
# Depth and order of JSON values

How deep a value is nested, whether it holds doubles, and what the normal form does to it: it is the
value itself where the keys ascend already, it is no deeper and holds no other doubles, and the
fields of an object whose keys differ are only put into another order.
-/

namespace TxReceipt.Json

namespace Value

mutual

/-- How many containers are open at the deepest place. -/
def depth : Value → Nat
  | .null | .bool _ | .number _ | .text _ => 0
  | .array items => depthItems items + 1
  | .object fields => depthFields fields + 1
termination_by structural v => v

def depthItems : List Value → Nat
  | [] => 0
  | v :: vs => max v.depth (depthItems vs)
termination_by structural vs => vs

def depthFields : List (String × Value) → Nat
  | [] => 0
  | (_, v) :: fs => max v.depth (depthFields fs)
termination_by structural fs => fs

end

mutual

def FloatFree : Value → Prop
  | .null | .bool _ | .text _ | .number (.int _ _) => True
  | .number (.float _) => False
  | .array items => FloatFreeItems items
  | .object fields => FloatFreeFields fields
termination_by structural v => v

def FloatFreeItems : List Value → Prop
  | [] => True
  | v :: vs => v.FloatFree ∧ FloatFreeItems vs
termination_by structural vs => vs

def FloatFreeFields : List (String × Value) → Prop
  | [] => True
  | (_, v) :: fs => v.FloatFree ∧ FloatFreeFields fs
termination_by structural fs => fs

end

mutual

def decideFloatFree : (v : Value) → Decidable v.FloatFree
  | .null | .bool _ | .text _ | .number (.int _ _) => isTrue trivial
  | .number (.float _) => isFalse id
  | .array items => decideFloatFreeItems items
  | .object fields => decideFloatFreeFields fields
termination_by structural v => v

def decideFloatFreeItems : (vs : List Value) → Decidable (FloatFreeItems vs)
  | [] => isTrue trivial
  | v :: vs => @instDecidableAnd _ _ (decideFloatFree v) (decideFloatFreeItems vs)
termination_by structural vs => vs

def decideFloatFreeFields : (fs : List (String × Value)) → Decidable (FloatFreeFields fs)
  | [] => isTrue trivial
  | (_, v) :: fs => @instDecidableAnd _ _ (decideFloatFree v) (decideFloatFreeFields fs)
termination_by structural fs => fs

end

instance : DecidablePred FloatFree :=
  decideFloatFree

theorem depthItems_le_iff {vs : List Value} {n : Nat} :
    depthItems vs ≤ n ↔ ∀ v ∈ vs, v.depth ≤ n := by
  induction vs with
  | nil => simp [depthItems]
  | cons v vs ih => simp only [depthItems, Nat.max_le, ih, List.forall_mem_cons]

theorem depthFields_le_iff {fs : List (String × Value)} {n : Nat} :
    depthFields fs ≤ n ↔ ∀ f ∈ fs, f.2.depth ≤ n := by
  induction fs with
  | nil => simp [depthFields]
  | cons f fs ih =>
    obtain ⟨k, v⟩ := f
    simp only [depthFields, Nat.max_le, ih, List.forall_mem_cons]

theorem floatFreeItems_iff {vs : List Value} : FloatFreeItems vs ↔ ∀ v ∈ vs, v.FloatFree := by
  induction vs with
  | nil => simp [FloatFreeItems]
  | cons v vs ih => simp only [FloatFreeItems, ih, List.forall_mem_cons]

theorem floatFreeFields_iff {fs : List (String × Value)} :
    FloatFreeFields fs ↔ ∀ f ∈ fs, f.2.FloatFree := by
  induction fs with
  | nil => simp [FloatFreeFields]
  | cons f fs ih =>
    obtain ⟨k, v⟩ := f
    simp only [FloatFreeFields, ih, List.forall_mem_cons]

/-- Without doubles, and nested at most `n` deep. -/
def Plain (n : Nat) (v : Value) : Prop :=
  v.FloatFree ∧ v.depth ≤ n

theorem Plain.mono {m n : Nat} {v : Value} (h : v.Plain m) (hle : m ≤ n) : v.Plain n :=
  ⟨h.1, Nat.le_trans h.2 hle⟩

@[simp] theorem plain_null (n : Nat) : null.Plain n :=
  ⟨trivial, Nat.zero_le n⟩

@[simp] theorem plain_text (n : Nat) (s : String) : (text s).Plain n :=
  ⟨trivial, Nat.zero_le n⟩

@[simp] theorem plain_int32 (n : Nat) (i : Int32) : (number (.ofInt32 i)).Plain n :=
  ⟨trivial, Nat.zero_le n⟩

@[simp] theorem plain_int64 (n : Nat) (i : Int64) : (number (.ofInt64 i)).Plain n :=
  ⟨trivial, Nat.zero_le n⟩

@[simp] theorem plain_uint64 (n : Nat) (i : UInt64) : (number (.ofUInt64 i)).Plain n :=
  ⟨trivial, Nat.zero_le n⟩

theorem plain_array {n : Nat} {vs : List Value} (h : ∀ v ∈ vs, v.Plain n) :
    (array vs).Plain (n + 1) := by
  constructor
  · exact floatFreeItems_iff.mpr fun v hv => (h v hv).1
  · exact Nat.succ_le_succ (depthItems_le_iff.mpr fun v hv => (h v hv).2)

theorem plain_object {n : Nat} {fs : List (String × Value)} (h : ∀ f ∈ fs, f.2.Plain n) :
    (object fs).Plain (n + 1) := by
  constructor
  · exact floatFreeFields_iff.mpr fun f hf => (h f hf).1
  · exact Nat.succ_le_succ (depthFields_le_iff.mpr fun f hf => (h f hf).2)

/-- A list that is written item by item. -/
theorem plain_map {α : Type} {n : Nat} {write : α → Value} {xs : List α}
    (h : ∀ x ∈ xs, (write x).Plain n) : (array (xs.map write)).Plain (n + 1) :=
  plain_array (List.forall_mem_map.mpr h)

/-- A field in front of greater keys stays in front. -/
theorem insertField_of_lt {k : String} {v : Value} {fs : List (String × Value)}
    (h : ∀ x ∈ fs.map (·.1), k < x) : insertField k v fs = (k, v) :: fs := by
  cases fs with
  | nil => rfl
  | cons f fs =>
    have hk : k < f.1 := h f.1 (by simp)
    rw [insertField, if_pos hk]

theorem insertField_perm {k : String} {v : Value} {fs : List (String × Value)}
    (h : k ∉ fs.map (·.1)) : (insertField k v fs).Perm ((k, v) :: fs) := by
  induction fs with
  | nil => exact .refl _
  | cons f fs ih =>
    rw [List.map_cons, List.mem_cons, not_or] at h
    rw [insertField]
    split
    · exact .refl _
    · rw [if_neg h.1]
      exact ((ih h.2).cons f).trans (.swap _ _ _)

mutual

theorem sorted_of_canonical : (v : Value) → v.Canonical → v.sorted = v
  | .null, _ | .bool _, _ | .number _, _ | .text _, _ => rfl
  | .array items, h => by
    rw [sorted, sortedItems_of_canonical items h]
  | .object fields, h => by
    rw [sorted, sortedFields_of_canonical fields h.1 h.2]

theorem sortedItems_of_canonical : (vs : List Value) → CanonicalItems vs → sortedItems vs = vs
  | [], _ => rfl
  | v :: vs, h => by
    rw [sortedItems, sorted_of_canonical v h.1, sortedItems_of_canonical vs h.2]

theorem sortedFields_of_canonical : (fs : List (String × Value)) →
    (fs.map (·.1)).Pairwise (· < ·) → CanonicalFields fs → sortedFields fs = fs
  | [], _, _ => rfl
  | (k, v) :: fs, hkeys, h => by
    rw [List.map_cons, List.pairwise_cons] at hkeys
    rw [sortedFields, sorted_of_canonical v h.1, sortedFields_of_canonical fs hkeys.2 h.2]
    exact insertField_of_lt hkeys.1

end

theorem sortedItems_eq_map (vs : List Value) : sortedItems vs = vs.map sorted := by
  induction vs with
  | nil => rfl
  | cons v vs ih => rw [sortedItems, ih, List.map_cons]

/-- Fields whose keys differ are put into another order, and their values into normal form. -/
theorem sortedFields_perm {fs : List (String × Value)} (h : (fs.map (·.1)).Nodup) :
    (sortedFields fs).Perm (fs.map fun f => (f.1, f.2.sorted)) := by
  induction fs with
  | nil => exact .refl _
  | cons f fs ih =>
    obtain ⟨k, v⟩ := f
    rw [List.map_cons, List.nodup_cons] at h
    have hperm := ih h.2
    have hk : k ∉ (sortedFields fs).map (·.1) := by
      intro hmem
      have hmem := (hperm.map (·.1)).mem_iff.mp hmem
      rw [List.map_map] at hmem
      exact h.1 hmem
    exact (insertField_perm hk).trans (hperm.cons _)

theorem mem_insertField {k : String} {v : Value} {fs : List (String × Value)}
    {f : String × Value} (h : f ∈ insertField k v fs) : f = (k, v) ∨ f ∈ fs := by
  induction fs with
  | nil => exact Or.inl (List.mem_singleton.mp h)
  | cons g fs ih =>
    rw [insertField] at h
    split at h
    · exact List.mem_cons.mp h
    · split at h
      · exact Or.inr h
      · rcases List.mem_cons.mp h with rfl | h
        · exact Or.inr (.head _)
        · exact (ih h).imp id (.tail _)

mutual

/-- The normal form is no deeper than the value. -/
theorem depth_sorted_le : (v : Value) → v.sorted.depth ≤ v.depth
  | .null | .bool _ | .number _ | .text _ => Nat.le_refl _
  | .array items => Nat.succ_le_succ (depth_sortedItems_le items)
  | .object fields => Nat.succ_le_succ (depth_sortedFields_le fields)

theorem depth_sortedItems_le : (vs : List Value) → depthItems (sortedItems vs) ≤ depthItems vs
  | [] => Nat.le_refl _
  | v :: vs => by
    have hv := depth_sorted_le v
    have hvs := depth_sortedItems_le vs
    simp only [sortedItems, depthItems]
    omega

theorem depth_sortedFields_le :
    (fs : List (String × Value)) → depthFields (sortedFields fs) ≤ depthFields fs
  | [] => Nat.le_refl _
  | (k, v) :: fs => by
    have hv := depth_sorted_le v
    have hfs := depth_sortedFields_le fs
    rw [sortedFields, depthFields_le_iff]
    intro f hf
    rcases mem_insertField hf with rfl | hf
    · simp only [depthFields]
      omega
    · have hdepth := depthFields_le_iff.mp hfs f hf
      simp only [depthFields]
      omega

end

mutual

/-- The normal form of a value without doubles has none either. -/
theorem floatFree_sorted : (v : Value) → v.FloatFree → v.sorted.FloatFree
  | .null, _ | .bool _, _ | .text _, _ | .number (.int _ _), _ => trivial
  | .array items, h => floatFree_sortedItems items h
  | .object fields, h => floatFree_sortedFields fields h

theorem floatFree_sortedItems :
    (vs : List Value) → FloatFreeItems vs → FloatFreeItems (sortedItems vs)
  | [], _ => trivial
  | v :: vs, h => ⟨floatFree_sorted v h.1, floatFree_sortedItems vs h.2⟩

theorem floatFree_sortedFields :
    (fs : List (String × Value)) → FloatFreeFields fs → FloatFreeFields (sortedFields fs)
  | [], _ => trivial
  | (k, v) :: fs, h => by
    have hv := floatFree_sorted v h.1
    have hfs := floatFree_sortedFields fs h.2
    rw [sortedFields, floatFreeFields_iff]
    intro f hf
    rcases mem_insertField hf with rfl | hf
    · exact hv
    · exact floatFreeFields_iff.mp hfs f hf

end

theorem Plain.sorted {n : Nat} {v : Value} (h : v.Plain n) : v.sorted.Plain n :=
  ⟨floatFree_sorted v h.1, Nat.le_trans v.depth_sorted_le h.2⟩

end Value

end TxReceipt.Json
