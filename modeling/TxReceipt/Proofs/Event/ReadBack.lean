import TxReceipt.Event.Read
import TxReceipt.Proofs.AscendingSet
import TxReceipt.Proofs.Json.ReadBack

/-!
# Reading back events

Every event of every kind is read back from what is written of it, whatever the order of its fields:
the name of its kind is found among the fields and decides which members the others are.
-/

namespace TxReceipt

open Json (Document DocumentField Member Members ReadError Value)
open Json.Document (readInt32 readList readText readUInt64)
open Json.Value (FieldsReadAs documentFields readsAs_text readsAs_int32 readsAs_uint64
  readsAs_list readsAs_of_sorted_eq)

theorem readsAs_attribute (a : Attribute) :
    (Raw.attributeValue a).ReadsAs readExactAttribute a := by
  refine Members.Written.readsAs_map (r := (a.key, a.value, ())) ?_ (by decide) rfl
  exact .cons (.head _) (readsAs_text a.key) <| .cons (.head _) (readsAs_text a.value) .nil

theorem readsAs_changes (changes : Changes) : changes.toValue.ReadsAs readChanges changes := by
  have hlist := readsAs_list fun a (_ : a ∈ changes.toList) => readsAs_attribute a
  have h := hlist.map AscendingSet.ofList
  rw [AscendingSet.ofList_toList] at h
  exact h

theorem readsAs_texts (ss : List String) : (Value.texts ss).ReadsAs (readList readText) ss :=
  readsAs_list fun s _ => readsAs_text s

theorem readsAs_named {α : Type} {ofName? : String → Option α} {name : String} {x : α}
    (holds : Document → Bool) (h : ofName? name = some x) :
    (Value.text name).ReadsAs (readNamed ofName? holds) x := by
  apply readsAs_of_sorted_eq rfl
  simp only [readNamed, Value.toDocument, readName, bind, Except.bind, h]

theorem TokenPermission.ofWireName?_wireName (p : TokenPermission) :
    ofWireName? p.wireName = some p := by
  cases p <;> rfl

theorem ItemPermission.ofWireName?_wireName (p : ItemPermission) :
    ofWireName? p.wireName = some p := by
  cases p <;> rfl

namespace Event

def isNameField (f : DocumentField) : Bool :=
  f.1 == some nameField

theorem takeName_eq_ok_iff {fields : List DocumentField} {name : Document}
    {rest : List DocumentField} :
    takeName fields = .ok (name, rest) ↔
      fields.filter isNameField = [(some nameField, name)] ∧
        rest = fields.filter fun f => !isNameField f := by
  induction fields generalizing rest with
  | nil => simp [takeName]
  | cons f fields ih =>
    obtain ⟨key?, d⟩ := f
    by_cases hname : key? = some nameField
    · subst hname
      have htaken : isNameField (some nameField, d) = true := beq_self_eq_true _
      rw [takeName, if_pos rfl, List.filter_cons_of_pos htaken,
        List.filter_cons_of_neg (by simp [htaken])]
      cases hany : fields.any fun f => f.1 == some nameField with
      | true =>
        obtain ⟨g, hg, hkey⟩ := List.any_eq_true.mp hany
        have hne : fields.filter isNameField ≠ [] :=
          List.ne_nil_of_mem (List.mem_filter.mpr ⟨hg, hkey⟩)
        simp [hne]
      | false =>
        have hnone : ∀ g ∈ fields, isNameField g = false := fun g hg =>
          Bool.eq_false_iff.mpr (List.any_eq_false.mp hany g hg)
        have hfilter : fields.filter (fun f => !isNameField f) = fields :=
          List.filter_eq_self.mpr fun g hg => by rw [hnone g hg]; rfl
        have hnil : fields.filter isNameField = [] :=
          List.filter_eq_nil_iff.mpr fun g hg => by rw [hnone g hg]; decide
        rw [hfilter, hnil]
        simp [eq_comm]
    · have hleft : isNameField (key?, d) = false := beq_eq_false_iff_ne.mpr hname
      have hstep : takeName ((key?, d) :: fields) = .ok (name, rest) ↔
          ∃ rest', takeName fields = .ok (name, rest') ∧ rest = (key?, d) :: rest' := by
        rw [takeName, if_neg hname]
        cases takeName fields with
        | error e => simp [bind, Except.bind]
        | ok taken =>
          obtain ⟨name', rest'⟩ := taken
          simp only [bind, Except.bind, pure, Except.pure, Except.ok.injEq, Prod.mk.injEq]
          constructor
          · rintro ⟨rfl, rfl⟩
            exact ⟨rest', ⟨rfl, rfl⟩, rfl⟩
          · rintro ⟨_, ⟨rfl, rfl⟩, rfl⟩
            exact ⟨rfl, rfl⟩
      rw [hstep, List.filter_cons_of_neg (by simp [hleft]),
        List.filter_cons_of_pos (by simp [hleft])]
      simp only [ih]
      constructor
      · rintro ⟨rest', ⟨hfilter, rfl⟩, hrest⟩
        exact ⟨hfilter, hrest⟩
      · rintro ⟨hfilter, hrest⟩
        exact ⟨_, ⟨hfilter, rfl⟩, hrest⟩

/-- The name stands once among fields of other names. -/
theorem takeName_of_perm {ds others : List DocumentField} {name : Document}
    (hothers : ∀ f ∈ others, isNameField f = false)
    (hperm : ds.Perm ((some nameField, name) :: others)) :
    ∃ rest, takeName ds = .ok (name, rest) ∧ rest.Perm others := by
  have htaken : isNameField (some nameField, name) = true := beq_self_eq_true _
  have hnil : others.filter isNameField = [] :=
    List.filter_eq_nil_iff.mpr fun g hg => by rw [hothers g hg]; decide
  have hself : others.filter (fun f => !isNameField f) = others :=
    List.filter_eq_self.mpr fun g hg => by rw [hothers g hg]; rfl
  have hname := hperm.filter isNameField
  have hrest := hperm.filter fun f => !isNameField f
  rw [List.filter_cons_of_pos htaken, hnil, List.perm_singleton] at hname
  rw [List.filter_cons_of_neg (by simp [htaken]), hself] at hrest
  exact ⟨_, takeName_eq_ok_iff.mpr ⟨hname, rfl⟩, hrest⟩

theorem readKind_name (e : Event) :
    readKind (.text e.name) = .ok (EventName.ofEffect e.effect) := by
  simp only [readKind, readText, bind, Except.bind, name, EventName.ofWireName?_wireName]

end Event

section Fields

variable {ρ : Type} {rest : Members ρ} {fields : List (String × Value)} {r : ρ} {k : String}

open EventName (text texts decimals changes attributes tokenPermission itemPermission)

theorem Json.Members.Written.text {s : String} (h : rest.Written fields r) :
    (Members.cons (text k) rest).Written ((k, .text s) :: fields) (s, r) :=
  .cons (.head _) (readsAs_text s) h

theorem Json.Members.Written.texts {ss : List String} (h : rest.Written fields r) :
    (Members.cons (texts k) rest).Written ((k, Value.texts ss) :: fields) (ss, r) :=
  .cons (.head _) (readsAs_texts ss) h

theorem Json.Members.Written.decimals {n : Int32} (h : rest.Written fields r) :
    (Members.cons (decimals k) rest).Written ((k, .number (.ofInt32 n)) :: fields) (n, r) :=
  .cons (.head _) (readsAs_int32 n) h

theorem Json.Members.Written.changes {c : Changes} (h : rest.Written fields r) :
    (Members.cons (changes k) rest).Written ((k, c.toValue) :: fields) (c, r) :=
  .cons (.head _) (readsAs_changes c) h

theorem Json.Members.Written.attributes {as : List Attribute} (h : rest.Written fields r) :
    (Members.cons (attributes k) rest).Written
      ((k, .array (as.map Raw.attributeValue)) :: fields) (as, r) :=
  .cons (.head _) (readsAs_list fun a _ => readsAs_attribute a) h

theorem Json.Members.Written.tokenPermission {p : TokenPermission} (h : rest.Written fields r) :
    (Members.cons (tokenPermission k) rest).Written ((k, .text p.wireName) :: fields) (p, r) :=
  .cons (.head _) (readsAs_named _ p.ofWireName?_wireName) h

theorem Json.Members.Written.itemPermission {p : ItemPermission} (h : rest.Written fields r) :
    (Members.cons (itemPermission k) rest).Written ((k, .text p.wireName) :: fields) (p, r) :=
  .cons (.head _) (readsAs_named _ p.ofWireName?_wireName) h

end Fields

namespace EventName

theorem fieldsReadAs_readEvent {ρ : Type} {members : Members ρ} {r : ρ} {effect : ρ → Effect}
    {e : Event} (h : members.Written e.effect.fields r)
    (hnames : ("msgIndex" :: members.names).Nodup) (heffect : effect r = e.effect) :
    FieldsReadAs e.fields (readEvent members effect) e := by
  have hwritten := Members.Written.cons (m := .required ["msgIndex"] readUInt64) (.head _)
    (readsAs_uint64 e.msgIndex) h
  have hread := (hwritten.fieldsReadAs hnames).map fun p => Event.mk p.1 (effect p.2)
  simp only [heffect] at hread
  exact hread

/-- The fields of an event are read as the event by the reader of its kind. -/
theorem fieldsReadAs_readFields (e : Event) :
    FieldsReadAs e.fields (readFields (ofEffect e.effect)) e := by
  obtain ⟨i, effect⟩ := e
  cases effect with rw [ofEffect, readFields]
  | accountCreated => exact fieldsReadAs_readEvent (.text .nil) (by decide) rfl
  | emptyMessageCreated => exact fieldsReadAs_readEvent (.text .nil) (by decide) rfl
  | coinTransferred =>
    exact fieldsReadAs_readEvent
      (.text <| .text <| .text <| .text .nil) (by decide) rfl
  | tokenIssued =>
    exact fieldsReadAs_readEvent
      (.text <| .text <| .text <| .text <| .text <| .text <| .decimals .nil) (by decide) rfl
  | tokenMinted =>
    exact fieldsReadAs_readEvent
      (.text <| .text <| .text <| .text .nil) (by decide) rfl
  | tokenBurned =>
    exact fieldsReadAs_readEvent
      (.text <| .text <| .text <| .text .nil) (by decide) rfl
  | tokenModified => exact fieldsReadAs_readEvent (.text <| .text <| .changes .nil) (by decide) rfl
  | tokenTransferred =>
    exact fieldsReadAs_readEvent
      (.text <| .text <| .text <| .text <| .text .nil) (by decide) rfl
  | tokenProxyApproved =>
    exact fieldsReadAs_readEvent
      (.text <| .text <| .text .nil) (by decide) rfl
  | tokenProxyDisapproved =>
    exact fieldsReadAs_readEvent
      (.text <| .text <| .text .nil) (by decide) rfl
  | tokenPermissionGranted =>
    exact fieldsReadAs_readEvent
      (.text <| .text <| .text <| .tokenPermission .nil) (by decide) rfl
  | tokenPermissionRenounced =>
    exact fieldsReadAs_readEvent
      (.text <| .text <| .tokenPermission .nil) (by decide) rfl
  | collectionCreated => exact fieldsReadAs_readEvent (.text <| .text <| .text .nil) (by decide) rfl
  | collectionModified =>
    exact fieldsReadAs_readEvent
      (.text <| .text <| .changes .nil) (by decide) rfl
  | collectionProxyApproved =>
    exact fieldsReadAs_readEvent
      (.text <| .text <| .text .nil) (by decide) rfl
  | collectionProxyDisapproved =>
    exact fieldsReadAs_readEvent
      (.text <| .text <| .text .nil) (by decide) rfl
  | collectionPermissionGranted =>
    exact fieldsReadAs_readEvent
      (.text <| .text <| .text <| .itemPermission .nil) (by decide) rfl
  | collectionPermissionRenounced =>
    exact fieldsReadAs_readEvent
      (.text <| .text <| .itemPermission .nil) (by decide) rfl
  | ftIssued =>
    exact fieldsReadAs_readEvent
      (.text <| .text <| .text <| .text <| .decimals <| .text <| .text .nil) (by decide) rfl
  | ftMinted =>
    exact fieldsReadAs_readEvent
      (.text <| .text <| .text <| .text <| .text <| .text .nil) (by decide) rfl
  | ftBurned =>
    exact fieldsReadAs_readEvent
      (.text <| .text <| .text <| .text <| .text <| .text .nil) (by decide) rfl
  | ftTransferred =>
    exact fieldsReadAs_readEvent
      (.text <| .text <| .text <| .text <| .text <| .text <| .text .nil) (by decide) rfl
  | ftModified =>
    exact fieldsReadAs_readEvent
      (.text <| .text <| .text <| .changes .nil) (by decide) rfl
  | nftIssued => exact fieldsReadAs_readEvent (.text <| .text <| .text .nil) (by decide) rfl
  | nftMinted =>
    exact fieldsReadAs_readEvent
      (.text <| .texts <| .text <| .text .nil) (by decide) rfl
  | nftBurned =>
    exact fieldsReadAs_readEvent
      (.text <| .texts <| .text <| .text .nil) (by decide) rfl
  | nftTransferred =>
    exact fieldsReadAs_readEvent
      (.text <| .texts <| .text <| .text <| .text .nil) (by decide) rfl
  | nftHolderChanged =>
    exact fieldsReadAs_readEvent
      (.text <| .texts <| .text <| .text .nil) (by decide) rfl
  | nftModified =>
    exact fieldsReadAs_readEvent
      (.text <| .text <| .text <| .changes .nil) (by decide) rfl
  | nftTypeModified =>
    exact fieldsReadAs_readEvent
      (.text <| .text <| .text <| .changes .nil) (by decide) rfl
  | nftAttached =>
    exact fieldsReadAs_readEvent
      (.text <| .text <| .text <| .text <| .text .nil) (by decide) rfl
  | nftDetached =>
    exact fieldsReadAs_readEvent
      (.text <| .text <| .text <| .text <| .text .nil) (by decide) rfl
  | nftRootChanged =>
    exact fieldsReadAs_readEvent
      (.text <| .texts <| .text <| .text .nil) (by decide) rfl
  | unknown => exact fieldsReadAs_readEvent (.text <| .attributes <| .text .nil) (by decide) rfl

end EventName

namespace Event

/-- The fields of an event have different names, none of them that of the name of the kind. -/
theorem nodup_keys (e : Event) : (nameField :: e.fields.map (·.1)).Nodup := by
  obtain ⟨i, effect⟩ := e
  cases effect <;> simp only [fields, Effect.fields, List.map_cons, List.map_nil] <;> decide

theorem isNameField_of_mem {fields : List (String × Value)}
    (h : nameField ∉ fields.map (·.1)) : ∀ f ∈ documentFields fields, isNameField f = false := by
  intro f hf
  rw [Value.documentFields_eq_map] at hf
  obtain ⟨g, hg, rfl⟩ := List.mem_map.mp hf
  refine beq_eq_false_iff_ne.mpr fun hkey => h ?_
  rw [← Option.some.inj hkey]
  exact List.mem_map_of_mem hg

/-- The name of the kind may stand anywhere. -/
theorem read_of_perm {v : Value} {ds : List DocumentField} {fields : List (String × Value)}
    {e : Event} (hdocument : v.toDocument = .object ds true) (hname : nameField ∉ fields.map (·.1))
    (hperm : ds.Perm ((some nameField, .text e.name) :: documentFields fields))
    (hfields : ∀ rest : List DocumentField, rest.Perm (documentFields fields) →
      (EventName.ofEffect e.effect).readFields (.object rest true) = .ok e) :
    read v.toDocument = .ok e := by
  obtain ⟨rest, htake, hrest⟩ := takeName_of_perm (isNameField_of_mem hname) hperm
  have hvalue := Value.toValue?_toDocument v
  rw [hdocument] at hvalue ⊢
  simp only [read, Document.readValue, hvalue, htake, readKind_name, hfields rest hrest, bind,
    Except.bind]

/-- An event is read back, as it was written and in normal form. -/
theorem readsAs (e : Event) : e.toValue.ReadsAs read e := by
  have hfields := EventName.fieldsReadAs_readFields e
  have hkeys := e.nodup_keys
  have hname := (List.nodup_cons.mp hkeys).1
  constructor
  · exact read_of_perm rfl hname (.refl _) hfields.asWritten
  · refine read_of_perm rfl (by rw [List.map_map]; exact hname) ?_ hfields.inNormalForm
    have hsorted : (Value.sortedFields ((nameField, .text e.name) :: e.fields)).Perm _ :=
      Value.sortedFields_perm hkeys
    rw [Value.documentFields_eq_map, Value.documentFields_eq_map]
    exact hsorted.map _

end Event

theorem plain_attribute (a : Attribute) : (Raw.attributeValue a).Plain 1 :=
  Value.plain_object (by simp)

@[simp] theorem plain_texts (ss : List String) : (Value.texts ss).Plain 2 :=
  (Value.plain_map fun s _ => Value.plain_text 0 s).mono (by decide)

@[simp] theorem plain_changes (changes : Changes) : changes.toValue.Plain 2 :=
  Value.plain_map fun a _ => plain_attribute a

@[simp] theorem plain_attributes (as : List Attribute) :
    (Value.array (as.map Raw.attributeValue)).Plain 2 :=
  Value.plain_map fun a _ => plain_attribute a

theorem Event.plain (e : Event) : e.toValue.Plain 3 := by
  obtain ⟨i, effect⟩ := e
  apply Value.plain_object
  cases effect <;> simp [fields, Effect.fields]

end TxReceipt
