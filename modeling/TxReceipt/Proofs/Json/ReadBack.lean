import TxReceipt.Json.Number
import TxReceipt.Proofs.Json.Items
import TxReceipt.Proofs.Json.Record
import TxReceipt.Proofs.Json.Value

/-!
# Reading back what was written

`v.ReadsAs read x` says that a value is read as `x`, both with its fields in the order in which they
were written and in normal form. The law is proved reader by reader; a record has it where each of
its fields has it, stands under a name of its member, and no two members share a name.
-/

namespace TxReceipt.Json

open Document (readText readIntWithin readInt32 readInt64 readUInt64 readList readPayload)

theorem Document.readOption_of_ne_null {α : Type} {read : Document → Except ReadError α}
    {d : Document} (h : d ≠ .null) : readOption read d = (read d).map some := by
  cases d with
  | null => exact absurd rfl h
  | _ => rfl

namespace Value

/-- The value is read as `x`, as it was written and in normal form. -/
structure ReadsAs {α : Type} (v : Value) (read : Document → Except ReadError α) (x : α) : Prop where
  asWritten : read v.toDocument = .ok x
  inNormalForm : read v.sorted.toDocument = .ok x

variable {α β : Type} {v : Value} {read : Document → Except ReadError α} {x : α}

/-- What is its own normal form is read in one way only. -/
theorem readsAs_of_sorted_eq (hsorted : v.sorted = v) (h : read v.toDocument = .ok x) :
    v.ReadsAs read x :=
  ⟨h, by rw [hsorted]; exact h⟩

theorem ReadsAs.map (f : α → β) (h : v.ReadsAs read x) :
    v.ReadsAs (fun d => (read d).map f) (f x) :=
  ⟨by rw [h.asWritten]; rfl, by rw [h.inNormalForm]; rfl⟩

theorem readsAs_text (s : String) : (text s).ReadsAs readText s :=
  readsAs_of_sorted_eq rfl rfl

/-- An integer of a range is read as what is made of it. -/
theorem readsAs_intWithin {range : IntegerRange} {n : Int}
    {fits : -9223372036854775808 ≤ n ∧ n < 18446744073709551616} (ofInt : Int → α)
    (hrange : range.least ≤ n ∧ n ≤ range.greatest) (hx : ofInt n = x) :
    (number (.int n fits)).ReadsAs (fun d => (readIntWithin range d).map ofInt) x := by
  have hread : readIntWithin range (.number (.int n fits)) = .ok n :=
    if_pos (IntegerRange.contains_iff.mpr hrange)
  apply readsAs_of_sorted_eq rfl
  rw [toDocument, hread, ← hx]
  rfl

theorem readsAs_int32 (n : Int32) : (number (.ofInt32 n)).ReadsAs readInt32 n := by
  have hrange : -2147483648 ≤ n.toInt ∧ n.toInt ≤ 2147483647 :=
    ⟨n.le_toInt, Int.lt_add_one_iff.mp n.toInt_lt⟩
  exact readsAs_intWithin Int32.ofInt hrange n.ofInt_toInt

theorem readsAs_int64 (n : Int64) : (number (.ofInt64 n)).ReadsAs readInt64 n := by
  have hrange : -9223372036854775808 ≤ n.toInt ∧ n.toInt ≤ 9223372036854775807 :=
    ⟨n.le_toInt, Int.lt_add_one_iff.mp n.toInt_lt⟩
  exact readsAs_intWithin Int64.ofInt hrange n.ofInt_toInt

theorem readsAs_uint64 (n : UInt64) : (number (.ofUInt64 n)).ReadsAs readUInt64 n := by
  have hlt := n.toNat_lt
  have hrange : 0 ≤ (n.toNat : Int) ∧ (n.toNat : Int) ≤ 18446744073709551615 := by omega
  refine readsAs_intWithin (fun n => UInt64.ofNat n.toNat) hrange ?_
  rw [Int.toNat_natCast, UInt64.ofNat_toNat]

theorem readsAs_payload (p : Payload) : p.value.ReadsAs readPayload p := by
  have hsorted : p.value.sorted = p.value := sorted_of_canonical p.value p.canonical
  have hpayload : Payload.ofValue p.value = p := by
    cases p
    simp only [Payload.ofValue, hsorted]
  apply readsAs_of_sorted_eq hsorted
  rw [readPayload, Document.readValue, toValue?_toDocument]
  exact congrArg Except.ok hpayload

theorem documentItems_eq_map (vs : List Value) : documentItems vs = vs.map toDocument := by
  induction vs with
  | nil => rfl
  | cons v vs ih => rw [documentItems, ih, List.map_cons]

theorem documentFields_eq_map (fs : List (String × Value)) :
    documentFields fs = fs.map fun f => (some f.1, f.2.toDocument) := by
  induction fs with
  | nil => rfl
  | cons f fs ih => rw [documentFields, ih, List.map_cons]

theorem readsAs_list {write : α → Value} {xs : List α} (h : ∀ x ∈ xs, (write x).ReadsAs read x) :
    (array (xs.map write)).ReadsAs (readList read) xs := by
  have hread (ds : α → Document) (hds : ∀ x ∈ xs, read (ds x) = .ok x) :
      readList read (.array (xs.map ds) true) = .ok xs := by
    rw [Document.readList_array, Document.readAll_map hds]
  constructor
  · rw [toDocument, documentItems_eq_map, List.map_map]
    exact hread _ fun x hx => (h x hx).asWritten
  · rw [sorted, sortedItems_eq_map, toDocument, documentItems_eq_map, List.map_map, List.map_map]
    exact hread _ fun x hx => (h x hx).inNormalForm

/-- In whatever order they stand, the fields are read as `x`, as they were written and with their
values in normal form. -/
structure FieldsReadAs {α : Type} (fields : List (String × Value))
    (read : Document → Except ReadError α) (x : α) : Prop where
  asWritten : ∀ ds, ds.Perm (documentFields fields) → read (.object ds true) = .ok x
  inNormalForm : ∀ ds, ds.Perm (documentFields (fields.map fun f => (f.1, f.2.sorted))) →
    read (.object ds true) = .ok x

theorem FieldsReadAs.map {fields : List (String × Value)} (f : α → β)
    (h : FieldsReadAs fields read x) : FieldsReadAs fields (fun d => (read d).map f) (f x) := by
  constructor
  · intro ds hds
    rw [h.asWritten ds hds]
    rfl
  · intro ds hds
    rw [h.inNormalForm ds hds]
    rfl

theorem FieldsReadAs.readsAs {fields : List (String × Value)} (h : FieldsReadAs fields read x)
    (hkeys : (fields.map (·.1)).Nodup) : (object fields).ReadsAs read x := by
  constructor
  · exact h.asWritten _ (.refl _)
  · apply h.inNormalForm
    rw [documentFields_eq_map, documentFields_eq_map]
    exact (sortedFields_perm hkeys).map _

end Value

namespace Members

open Value (ReadsAs FieldsReadAs toDocument documentFields)

def names : {ρ : Type} → Members ρ → List String
  | _, .nil => []
  | _, .cons m rest => m.names ++ rest.names

/-- The fields are the members of the record, in their order. -/
inductive Written : {ρ : Type} → Members ρ → List (String × Value) → ρ → Prop where
  | nil : Written .nil [] ()
  | cons {α ρ : Type} {m : Member α} {rest : Members ρ} {k : String} {v : Value}
      {fields : List (String × Value)} {x : α} {xs : ρ} (hkey : k ∈ m.names)
      (hv : v.ReadsAs m.read x) (hrest : Written rest fields xs) :
      Written (.cons m rest) ((k, v) :: fields) (x, xs)

variable {ρ : Type} {ms : Members ρ} {fields : List (String × Value)} {r : ρ}

theorem Written.mem_names (h : ms.Written fields r) {f : String × Value} (hf : f ∈ fields) :
    f.1 ∈ ms.names := by
  induction h with
  | nil => cases hf
  | cons hkey hv hrest ih =>
    rw [names, List.mem_append]
    rcases List.mem_cons.mp hf with rfl | hf
    · exact Or.inl hkey
    · exact Or.inr (ih hf)

theorem Written.nodup_keys (h : ms.Written fields r) (hnames : ms.names.Nodup) :
    (fields.map (·.1)).Nodup := by
  induction h with
  | nil => exact List.nodup_nil
  | @cons _ _ m rest k v fields x xs hkey hv hrest ih =>
    rw [names, List.nodup_append] at hnames
    rw [List.map_cons, List.nodup_cons]
    refine ⟨?_, ih hnames.2.1⟩
    intro hmem
    obtain ⟨f, hf, hk⟩ := List.mem_map.mp hmem
    exact hnames.2.2 k hkey f.1 (hrest.mem_names hf) hk.symm

/-- Documents that are read like the values of written fields hold the record. -/
theorem Written.holds (h : ms.Written fields r) (hnames : ms.names.Nodup)
    (document : Value → Document)
    (hread : ∀ {α : Type} {v : Value} {read : Document → Except ReadError α} {x : α},
      v.ReadsAs read x → read (document v) = .ok x) :
    ms.Holds (fields.map fun f => (some f.1, document f.2)) r := by
  induction h with
  | nil => exact List.forall_mem_nil _
  | @cons _ _ m rest k v fields x xs hkey hv hrest ih =>
    rw [names, List.nodup_append] at hnames
    have howns : m.owns (some k, document v) = true := List.contains_iff_mem.mpr hkey
    have hothers : ∀ f ∈ fields.map fun f => (some f.1, document f.2), m.owns f = false := by
      intro f hf
      obtain ⟨g, hg, rfl⟩ := List.mem_map.mp hf
      rw [Bool.eq_false_iff]
      intro hg'
      exact hnames.2.2 g.1 (List.contains_iff_mem.mp hg') g.1 (hrest.mem_names hg) rfl
    have hhits : (fields.map fun f => (some f.1, document f.2)).filter m.owns = [] :=
      List.filter_eq_nil_iff.mpr fun f hf => by simp [hothers f hf]
    have hmisses : (fields.map fun f => (some f.1, document f.2)).filter (fun f => !m.owns f) =
        fields.map fun f => (some f.1, document f.2) :=
      List.filter_eq_self.mpr fun f hf => by simp [hothers f hf]
    rw [List.map_cons, Holds, List.filter_cons_of_pos howns,
      List.filter_cons_of_neg (by simp [howns]), hhits, hmisses]
    exact ⟨hread hv, ih hnames.2.1⟩

theorem Written.fieldsReadAs (h : ms.Written fields r) (hnames : ms.names.Nodup) :
    FieldsReadAs fields ms.read r := by
  constructor
  · intro ds hds
    rw [Value.documentFields_eq_map] at hds
    apply read_perm hds.symm
    rw [read_object_eq_ok_iff]
    exact h.holds hnames toDocument fun hv => hv.asWritten
  · intro ds hds
    rw [Value.documentFields_eq_map, List.map_map] at hds
    apply read_perm hds.symm
    rw [read_object_eq_ok_iff]
    exact h.holds hnames (fun v => v.sorted.toDocument) fun hv => hv.inNormalForm

/-- What was written member by member is read back. -/
theorem Written.readsAs (h : ms.Written fields r) (hnames : ms.names.Nodup) :
    (Value.object fields).ReadsAs ms.read r :=
  (h.fieldsReadAs hnames).readsAs (h.nodup_keys hnames)

/-- The same for what is made of the record. -/
theorem Written.readsAs_map {α : Type} {f : ρ → α} {x : α} (h : ms.Written fields r)
    (hnames : ms.names.Nodup) (hx : f r = x) :
    (Value.object fields).ReadsAs (fun d => (ms.read d).map f) x := by
  rw [← hx]
  exact (h.readsAs hnames).map f

end Members

end TxReceipt.Json
