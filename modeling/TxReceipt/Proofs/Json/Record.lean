import TxReceipt.Json.Record
import TxReceipt.Proofs.Except

/-!
# What a record is read from

`read_object_eq_ok_iff` says when an object is read as a record, without reference to the order in
which its fields stand: every member has exactly one field, under one of its names, or none and a
default, and what is no member is skipped. So the order of the fields does not matter.
-/

namespace TxReceipt.Json

abbrev DocumentField : Type := Option String × Document

namespace Member

variable {α : Type}

def owns (m : Member α) (f : DocumentField) : Bool :=
  f.1.any m.names.contains

/-- The member is read from the fields that stand under its names. -/
def ReadFrom (m : Member α) (x : α) : List DocumentField → Prop
  | [] => m.absent = .ok x
  | [f] => m.read f.2 = .ok x
  | _ => False

/-- The member is read from the fields that stand under its names, unless its slot is filled. -/
def Completes (m : Member α) (x : α) (hits : List DocumentField) : Option α → Prop
  | some y => hits = [] ∧ x = y
  | none => m.ReadFrom x hits

theorem owns_some (m : Member α) (key : String) (d : Document) :
    m.owns (some key, d) = m.names.contains key :=
  rfl

theorem readFrom_perm {m : Member α} {x : α} {hits hits' : List DocumentField}
    (hperm : hits.Perm hits') (h : m.ReadFrom x hits) : m.ReadFrom x hits' := by
  match hits, h with
  | [], h =>
    obtain rfl := List.nil_perm.mp hperm
    exact h
  | [f], h =>
    obtain rfl := List.singleton_perm.mp hperm
    exact h

theorem readFrom_cons {m : Member α} {x : α} {f : DocumentField} {hits : List DocumentField} :
    m.ReadFrom x (f :: hits) ↔ hits = [] ∧ m.read f.2 = .ok x := by
  cases hits with
  | nil => simp [ReadFrom]
  | cons => simp [ReadFrom]

/-- A field that is put into the empty slot is the only one of its member. -/
theorem completes_cons {m : Member α} {x : α} {f : DocumentField} {hits : List DocumentField} :
    m.Completes x (f :: hits) none ↔ ∃ y, m.read f.2 = .ok y ∧ m.Completes x hits (some y) := by
  cases hits with
  | nil => simp [Completes, ReadFrom]
  | cons => simp [Completes, ReadFrom]

end Member

namespace Members

def Holds : {ρ : Type} → Members ρ → List DocumentField → ρ → Prop
  | _, .nil, fields, _ => ∀ f ∈ fields, f.1.isSome ∧ f.2.sound
  | _, .cons m rest, fields, r =>
    m.ReadFrom r.1 (fields.filter m.owns) ∧ rest.Holds (fields.filter fun f => !m.owns f) r.2

section
variable {α ρ : Type} {m : Member α} {rest : Members ρ} {key : String} {d : Document}
  {fields : List DocumentField} {r : α × ρ}

theorem holds_cons_of_owns (howns : m.names.contains key = true) :
    (Members.cons m rest).Holds ((some key, d) :: fields) r ↔
      m.ReadFrom r.1 ((some key, d) :: fields.filter m.owns) ∧
      rest.Holds (fields.filter fun f => !m.owns f) r.2 := by
  have hhits : ((some key, d) :: fields).filter m.owns = (some key, d) :: fields.filter m.owns :=
    List.filter_cons_of_pos howns
  have hmisses : ((some key, d) :: fields).filter (fun f => !m.owns f) =
      fields.filter fun f => !m.owns f :=
    List.filter_cons_of_neg (by rw [Member.owns_some, howns]; decide)
  rw [Holds, hhits, hmisses]

theorem holds_cons_of_not_owns (howns : m.names.contains key = false) :
    (Members.cons m rest).Holds ((some key, d) :: fields) r ↔
      m.ReadFrom r.1 (fields.filter m.owns) ∧
      rest.Holds ((some key, d) :: fields.filter fun f => !m.owns f) r.2 := by
  have hhits : ((some key, d) :: fields).filter m.owns = fields.filter m.owns :=
    List.filter_cons_of_neg (by rw [Member.owns_some, howns]; decide)
  have hmisses : ((some key, d) :: fields).filter (fun f => !m.owns f) =
      (some key, d) :: fields.filter fun f => !m.owns f :=
    List.filter_cons_of_pos (by rw [Member.owns_some, howns]; decide)
  rw [Holds, hhits, hmisses]

end

/-- The fields hold what the slots do not. -/
def Completes : {ρ : Type} → (ms : Members ρ) → ms.Slots → List DocumentField → ρ → Prop
  | _, .nil, _, fields, _ => ∀ f ∈ fields, f.1.isSome ∧ f.2.sound
  | _, .cons m rest, slots, fields, r =>
    m.Completes r.1 (fields.filter m.owns) slots.1 ∧
      rest.Completes slots.2 (fields.filter fun f => !m.owns f) r.2

theorem completes_empty {ρ : Type} (ms : Members ρ) (fields : List DocumentField) (r : ρ) :
    ms.Completes ms.empty fields r ↔ ms.Holds fields r := by
  induction ms generalizing fields with
  | nil => exact Iff.rfl
  | cons m rest ih => exact and_congr Iff.rfl (ih _ r.2)

theorem completes_nil {ρ : Type} (ms : Members ρ) (slots : ms.Slots) (r : ρ) :
    ms.Completes slots [] r ↔ ms.finish slots = .ok r := by
  induction ms with
  | nil => simp [Completes, finish]
  | cons m rest ih =>
    obtain ⟨slot, slots⟩ := slots
    have hfinish : (cons m rest).finish (slot, slots) = (do
        let x ← slot.elim m.absent .ok
        let xs ← rest.finish slots
        return (x, xs)) := by
      cases slot <;> rfl
    rw [hfinish, bind_pair_eq_ok_iff]
    refine and_congr ?_ (ih slots r.2)
    cases slot with
    | some y => simp [Member.Completes, eq_comm]
    | none => exact Iff.rfl

/-- A field whose key no text can hold spoils every record. -/
theorem not_completes_none {ρ : Type} (ms : Members ρ) (slots : ms.Slots) (d : Document)
    (fields : List DocumentField) (r : ρ) : ¬ ms.Completes slots ((none, d) :: fields) r := by
  induction ms generalizing fields with
  | nil =>
    intro h
    exact absurd (h (none, d) (.head _)).1 Bool.false_ne_true
  | cons m rest ih =>
    intro h
    have hrest := h.2
    rw [List.filter_cons_of_pos (by rfl)] at hrest
    exact ih slots.2 _ r.2 hrest

/-- Putting one field into its slot takes it from what the other fields have to hold. -/
theorem completes_cons {ρ : Type} (ms : Members ρ) (slots : ms.Slots) (key : String) (d : Document)
    (fields : List DocumentField) (r : ρ) :
    ms.Completes slots ((some key, d) :: fields) r ↔
      match ms.put slots key d with
      | .ok (some slots') => ms.Completes slots' fields r
      | .ok none => d.sound ∧ ms.Completes slots fields r
      | .error _ => False := by
  induction ms generalizing fields with
  | nil => simp [Completes, put]
  | cons m rest ih =>
    obtain ⟨slot, slots⟩ := slots
    obtain ⟨x, xs⟩ := r
    cases howns : m.names.contains key with
    | true =>
      -- the field is this member's: it fills the slot, or it stands there twice
      have hhits : ((some key, d) :: fields).filter m.owns =
          (some key, d) :: fields.filter m.owns := List.filter_cons_of_pos howns
      have hmisses : ((some key, d) :: fields).filter (fun f => !m.owns f) =
          fields.filter fun f => !m.owns f :=
        List.filter_cons_of_neg (by rw [Member.owns_some, howns]; decide)
      simp only [Completes, put, hhits, hmisses, howns, if_true]
      cases slot with
      | some y => simp [Member.Completes]
      | none =>
        cases hread : m.read d with
        | error e => simp [Member.completes_cons, Except.map, hread]
        | ok y => simp [Member.completes_cons, Except.map, hread]
    | false =>
      -- the field is a later member's or nobody's: the slot stays as it is
      have hhits : ((some key, d) :: fields).filter m.owns = fields.filter m.owns :=
        List.filter_cons_of_neg (by rw [Member.owns_some, howns]; decide)
      have hmisses : ((some key, d) :: fields).filter (fun f => !m.owns f) =
          (some key, d) :: fields.filter fun f => !m.owns f :=
        List.filter_cons_of_pos (by rw [Member.owns_some, howns]; decide)
      simp only [Completes, put, hhits, hmisses, howns, Bool.false_eq_true, if_false, ih]
      cases hput : rest.put slots key d with
      | error e => exact ⟨And.right, False.elim⟩
      | ok slots? =>
        cases slots? with
        | none => exact and_left_comm
        | some slots' => exact Iff.rfl

theorem putAll_finish_iff {ρ : Type} (ms : Members ρ) (slots : ms.Slots)
    (fields : List DocumentField) (r : ρ) :
    (ms.putAll slots fields >>= ms.finish) = .ok r ↔ ms.Completes slots fields r := by
  induction fields generalizing slots with
  | nil => rw [completes_nil]; rfl
  | cons f fields ih =>
    obtain ⟨key?, d⟩ := f
    cases key? with
    | none =>
      refine iff_of_false ?_ (not_completes_none ms slots d fields r)
      intro h
      cases h
    | some key =>
      rw [completes_cons, putAll]
      cases hput : ms.put slots key d with
      | error e => simp [bind, Except.bind]
      | ok slots? =>
        cases slots? with
        | some slots' => exact ih slots'
        | none =>
          cases hsound : d.sound with
          | false => simp [Document.skip, hsound, bind, Except.bind]
          | true => simpa [Document.skip, hsound, bind, Except.bind] using ih slots

/-- An object is read as a record if and only if its fields hold the record. -/
theorem read_object_eq_ok_iff {ρ : Type} (ms : Members ρ) (fields : List DocumentField) (r : ρ) :
    ms.read (.object fields true) = .ok r ↔ ms.Holds fields r := by
  rw [← completes_empty, ← putAll_finish_iff]
  rfl

theorem holds_perm {ρ : Type} {ms : Members ρ} {fields fields' : List DocumentField} {r : ρ}
    (hperm : fields.Perm fields') (h : ms.Holds fields r) : ms.Holds fields' r := by
  induction ms generalizing fields fields' with
  | nil =>
    intro f hf
    exact h f (hperm.mem_iff.mpr hf)
  | cons m rest ih =>
    exact ⟨Member.readFrom_perm (hperm.filter _) h.1, ih (hperm.filter _) h.2⟩

/-- The order of the fields does not matter. -/
theorem read_perm {ρ : Type} {ms : Members ρ} {fields fields' : List DocumentField} {r : ρ}
    (hperm : fields.Perm fields') (h : ms.read (.object fields true) = .ok r) :
    ms.read (.object fields' true) = .ok r := by
  rw [read_object_eq_ok_iff] at h ⊢
  exact holds_perm hperm h

theorem read_object_unclosed {ρ : Type} (ms : Members ρ) (fields : List DocumentField) (r : ρ) :
    ms.read (.object fields false) ≠ .ok r := by
  rw [read]
  cases ms.putAll ms.empty fields <;> exact nofun

section
variable {α ρ : Type} {m : Member α} {rest : Members ρ} {closed : Bool} {r : α × ρ}

/-- The first item of an array is read as the first member, and the others as the others. -/
theorem readItems_cons_eq_ok_iff {d : Document} {items : List Document} :
    (Members.cons m rest).readItems (d :: items) closed = .ok r ↔
      m.read d = .ok r.1 ∧ rest.readItems items closed = .ok r.2 := by
  rw [readItems]
  exact bind_pair_eq_ok_iff

/-- Where no item is left, the first member is absent, and so are the others. -/
theorem readItems_nil_eq_ok_iff :
    (Members.cons m rest).readItems [] closed = .ok r ↔
      closed = true ∧ m.absent = .ok r.1 ∧ rest.readItems [] closed = .ok r.2 := by
  cases closed with
  | false => simp [readItems, bind, Except.bind]
  | true =>
    rw [readItems, if_pos rfl, eq_self, true_and]
    exact bind_pair_eq_ok_iff

end

end Members

end TxReceipt.Json
