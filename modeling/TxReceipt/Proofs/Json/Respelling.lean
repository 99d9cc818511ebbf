import Mathlib.Logic.Relation
import TxReceipt.Proofs.Json.Items
import TxReceipt.Proofs.Json.LooseInteger
import TxReceipt.Proofs.Json.Record

/-!
# Respelling documents

Records of several kinds may be written in many ways. `Respells` lists the steps from one way to
another: fields in another order or under another of their names, foreign fields, nulls that stand
for absent fields, other spellings of integers, and copies in lists that count each member once; at
any place that the records have. `Doubled` says that somewhere a field stands twice. A reader that
`Reads` a content takes all its spellings alike and nothing doubled; the law is proved reader by
reader, and for a record field by field.
-/

namespace TxReceipt.Json

open Document (readOption readList)

/-- What stands in a field, among records of several kinds. -/
inductive Content (κ : Type) where
  /-- Nothing that these steps change. -/
  | leaf
  /-- A loose integer. -/
  | integer
  | record (kind : κ)
  | list (kind : κ)
  /-- A list that counts each member once. -/
  | set (kind : κ)

/-- A field of a record: its names, what stands in it, and whether null stands for its absence. -/
structure FieldForm (κ : Type) where
  names : List String
  content : Content κ
  nullable : Bool

namespace FieldForm

variable {κ : Type}

def isNamed (f : FieldForm κ) (name : String) : Bool :=
  f.names.contains name

def named? (fields : List (FieldForm κ)) (name : String) : Option (FieldForm κ) :=
  fields.find? fun f => f.isNamed name

end FieldForm

open FieldForm (named?)

variable {κ : Type} (schema : κ → List (FieldForm κ))

/-- One step from a way to write some content to another. In objects it is made at the first field,
which may be any one, since they may be put into any order. -/
inductive Respells : Content κ → Document → Document → Prop
  | integer {n : Int} {d d' : Document} (spells : d.SpellsInt n) (spells' : d'.SpellsInt n) :
      Respells .integer d d'
  | reorder {k : κ} {fields fields' : List DocumentField} (perm : fields.Perm fields') :
      Respells (.record k) (.object fields true) (.object fields' true)
  | rename {k : κ} {f : FieldForm κ} {name name' : String} {d : Document}
      {fields : List DocumentField} (named : named? (schema k) name = some f)
      (named' : named? (schema k) name' = some f) :
      Respells (.record k) (.object ((some name, d) :: fields) true)
        (.object ((some name', d) :: fields) true)
  | foreign {k : κ} {name : String} {d : Document} {fields : List DocumentField}
      (unnamed : named? (schema k) name = none) (sound : d.sound = true) :
      Respells (.record k) (.object fields true) (.object ((some name, d) :: fields) true)
  | null {k : κ} {f : FieldForm κ} {name : String} {fields : List DocumentField}
      (named : named? (schema k) name = some f) (nullable : f.nullable = true)
      (absent : ∀ g ∈ fields, g.1.any f.isNamed = false) :
      Respells (.record k) (.object fields true) (.object ((some name, .null) :: fields) true)
  | field {k : κ} {f : FieldForm κ} {name : String} {d d' : Document} {fields : List DocumentField}
      (named : named? (schema k) name = some f) (respells : Respells f.content d d') :
      Respells (.record k) (.object ((some name, d) :: fields) true)
        (.object ((some name, d') :: fields) true)
  | item {k : κ} {f : FieldForm κ} {d d' : Document} {front back : List Document}
      (placed : (schema k)[front.length]? = some f) (respells : Respells f.content d d') :
      Respells (.record k) (.array (front ++ d :: back) true) (.array (front ++ d' :: back) true)
  | listed {k : κ} {d d' : Document} {front back : List Document}
      (respells : Respells (.record k) d d') :
      Respells (.list k) (.array (front ++ d :: back) true) (.array (front ++ d' :: back) true)
  | member {k : κ} {d d' : Document} {front back : List Document}
      (respells : Respells (.record k) d d') :
      Respells (.set k) (.array (front ++ d :: back) true) (.array (front ++ d' :: back) true)
  | copy {k : κ} {d : Document} {items : List Document} (mem : d ∈ items) :
      Respells (.set k) (.array items true) (.array (items ++ [d]) true)

/-- Somewhere in the content an object holds one field twice, perhaps under two of its names. -/
inductive Doubled : Content κ → Document → Prop
  | here {k : κ} {f : FieldForm κ} {name name' : String} {d d' : Document}
      {fields : List DocumentField} (named : named? (schema k) name = some f)
      (named' : named? (schema k) name' = some f)
      (twice : [(some name, d), (some name', d')].Sublist fields) :
      Doubled (.record k) (.object fields true)
  | field {k : κ} {f : FieldForm κ} {name : String} {d : Document} {fields : List DocumentField}
      (named : named? (schema k) name = some f) (mem : (some name, d) ∈ fields)
      (doubled : Doubled f.content d) : Doubled (.record k) (.object fields true)
  | item {k : κ} {f : FieldForm κ} {d : Document} {i : Nat} {items : List Document}
      (placed : (schema k)[i]? = some f) (mem : items[i]? = some d)
      (doubled : Doubled f.content d) : Doubled (.record k) (.array items true)
  | listed {k : κ} {d : Document} {items : List Document} (mem : d ∈ items)
      (doubled : Doubled (.record k) d) : Doubled (.list k) (.array items true)
  | member {k : κ} {d : Document} {items : List Document} (mem : d ∈ items)
      (doubled : Doubled (.record k) d) : Doubled (.set k) (.array items true)

/-- The reader takes all spellings of the content alike, and nothing in which a field stands
twice. -/
structure Reads {α : Type} (c : Content κ) (read : Document → Except ReadError α) : Prop where
  respells : ∀ {d d'}, Respells schema c d d' → ∀ x, read d = .ok x ↔ read d' = .ok x
  doubled : ∀ {d}, Doubled schema c d → ∀ x, read d ≠ .ok x

/-- The members of a record are read as its fields: under the same names, by readers of their
content, and null as what an absent one counts as. -/
inductive Follows : {ρ : Type} → Members ρ → List (FieldForm κ) → Prop
  | nil : Follows .nil []
  | cons {α ρ : Type} {m : Member α} {rest : Members ρ} {f : FieldForm κ} {fs : List (FieldForm κ)}
      (names : m.names = f.names) (content : Reads schema f.content m.read)
      (null : f.nullable = true → m.read .null = m.absent) (others : Follows rest fs) :
      Follows (.cons m rest) (f :: fs)

variable {schema}

section Members
variable {α ρ : Type} {m : Member α} {rest : Members ρ} {c : Content κ} {fs : List (FieldForm κ)}

theorem Follows.strict (content : Reads schema c m.read) (others : Follows schema rest fs) :
    Follows schema (.cons m rest) (⟨m.names, c, false⟩ :: fs) :=
  .cons rfl content nofun others

theorem Follows.nullable (content : Reads schema c m.read) (null : m.read .null = m.absent)
    (others : Follows schema rest fs) :
    Follows schema (.cons m rest) (⟨m.names, c, true⟩ :: fs) :=
  .cons rfl content (fun _ => null) others

end Members

theorem isNamed_of_named? {f : FieldForm κ} {fs : List (FieldForm κ)} {name : String}
    (h : named? fs name = some f) : f.isNamed name = true := by
  have hfound := List.find?_some (p := fun f : FieldForm κ => f.isNamed name) h
  exact hfound

/-- A name stands for the first field or for one of the others. -/
theorem named?_cons_cases {g f : FieldForm κ} {fs : List (FieldForm κ)} {name : String}
    (h : named? (g :: fs) name = some f) :
    (g.isNamed name = true ∧ g = f) ∨
      (g.isNamed name = false ∧ named? fs name = some f) := by
  cases hname : g.isNamed name with
  | true =>
    simp only [named?, List.find?_cons, hname, Option.some.injEq] at h
    exact Or.inl ⟨rfl, h⟩
  | false =>
    simp only [named?, List.find?_cons, hname] at h
    exact Or.inr ⟨rfl, h⟩

/-- Two names of one field stand for the same one of the fields. -/
theorem named?_cons_cases₂ {g f : FieldForm κ} {fs : List (FieldForm κ)} {name name' : String}
    (h : named? (g :: fs) name = some f) (h' : named? (g :: fs) name' = some f) :
    (g.isNamed name = true ∧ g.isNamed name' = true ∧ g = f) ∨
      (g.isNamed name = false ∧ g.isNamed name' = false ∧
        named? fs name = some f ∧ named? fs name' = some f) := by
  have hname := isNamed_of_named? h
  have hname' := isNamed_of_named? h'
  rcases named?_cons_cases h with ⟨hg, rfl⟩ | ⟨hg, hrest⟩
  · exact Or.inl ⟨hg, hname', rfl⟩
  · rcases named?_cons_cases h' with ⟨hg', rfl⟩ | ⟨hg', hrest'⟩
    · exact absurd hname (by simp [hg])
    · exact Or.inr ⟨hg, hg', hrest, hrest'⟩

/-- A member owns the fields under the names of the field that it is read as. -/
theorem owns_eq {α : Type} {m : Member α} {f : FieldForm κ} (names : m.names = f.names)
    (x : DocumentField) : m.owns x = x.1.any f.isNamed := by
  rw [Member.owns, names]
  rfl

theorem contains_eq {α : Type} {m : Member α} {f : FieldForm κ} {name : String} {b : Bool}
    (names : m.names = f.names) (h : f.isNamed name = b) : m.names.contains name = b := by
  rw [names]
  exact h

section Objects
variable {ρ : Type} {ms : Members ρ} {fs : List (FieldForm κ)} {f : FieldForm κ}
  {name name' : String} {d d' : Document} {fields : List DocumentField} {r : ρ}

/-- A foreign field does not matter. -/
theorem Follows.holds_foreign (h : Follows schema ms fs) (unnamed : named? fs name = none)
    (sound : d.sound = true) : ms.Holds ((some name, d) :: fields) r ↔ ms.Holds fields r := by
  -- the field is passed on from member to member, until no member is left
  induction h generalizing fields with
  | nil => simp [Members.Holds, sound]
  | @cons α ρ m rest g fs names content null others ih =>
    have howns : g.isNamed name = false := by
      simpa using List.find?_eq_none.mp unnamed g (.head _)
    rw [named?, List.find?_cons_of_neg (by simp [howns])] at unnamed
    rw [Members.holds_cons_of_not_owns (contains_eq names howns), ih unnamed]
    exact Iff.rfl

/-- Names of one field, and contents that its readers take alike, may stand for each other. -/
theorem Follows.holds_exchange (h : Follows schema ms fs) (named : named? fs name = some f)
    (named' : named? fs name' = some f)
    (alike : ∀ {α : Type} {read : Document → Except ReadError α}, Reads schema f.content read →
      ∀ x, read d = .ok x ↔ read d' = .ok x) :
    ms.Holds ((some name, d) :: fields) r ↔ ms.Holds ((some name', d') :: fields) r := by
  -- both names lead to the same member, which owns the field, and past the members before it
  induction h generalizing fields with
  | nil => cases named
  | @cons α ρ m rest g fs names content null others ih =>
    rcases named?_cons_cases₂ named named' with
      ⟨hname, hname', rfl⟩ | ⟨hname, hname', hrest, hrest'⟩
    · rw [Members.holds_cons_of_owns (contains_eq names hname),
        Members.holds_cons_of_owns (contains_eq names hname'),
        Member.readFrom_cons, Member.readFrom_cons, alike content]
    · rw [Members.holds_cons_of_not_owns (contains_eq names hname),
        Members.holds_cons_of_not_owns (contains_eq names hname'), ih hrest hrest']

/-- Null stands for an absent field. -/
theorem Follows.holds_null (h : Follows schema ms fs) (named : named? fs name = some f)
    (nullable : f.nullable = true) (absent : ∀ g ∈ fields, g.1.any f.isNamed = false) :
    ms.Holds ((some name, .null) :: fields) r ↔ ms.Holds fields r := by
  induction h generalizing fields with
  | nil => cases named
  | @cons α ρ m rest g fs names content null others ih =>
    rcases named?_cons_cases named with ⟨hname, rfl⟩ | ⟨hname, hrest⟩
    · have hits : fields.filter m.owns = [] := by
        apply List.filter_eq_nil_iff.mpr
        intro x hx
        rw [owns_eq names, absent x hx]
        exact Bool.false_ne_true
      rw [Members.holds_cons_of_owns (contains_eq names hname), Members.Holds,
        Member.readFrom_cons, hits, null nullable]
      simp [Member.ReadFrom]
    · rw [Members.holds_cons_of_not_owns (contains_eq names hname), ih hrest]
      · exact Iff.rfl
      · intro x hx
        exact absent x (List.mem_filter.mp hx |>.1)

/-- No record holds a field twice. -/
theorem Follows.not_holds_doubled (h : Follows schema ms fs) (named : named? fs name = some f)
    (named' : named? fs name' = some f) :
    ¬ ms.Holds ((some name, d) :: (some name', d') :: fields) r := by
  induction h generalizing fields with
  | nil => cases named
  | @cons α ρ m rest g fs names content null others ih =>
    intro hholds
    rcases named?_cons_cases₂ named named' with
      ⟨hname, hname', rfl⟩ | ⟨hname, hname', hrest, hrest'⟩
    · rw [Members.holds_cons_of_owns (contains_eq names hname), Member.readFrom_cons] at hholds
      have hmem : (some name', d') ∈ ((some name', d') :: fields).filter m.owns :=
        List.mem_filter.mpr ⟨.head _, contains_eq names hname'⟩
      rw [hholds.1.1] at hmem
      cases hmem
    · rw [Members.holds_cons_of_not_owns (contains_eq names hname)] at hholds
      have hothers := hholds.2
      have hkept : (!m.owns (some name', d')) = true := by
        rw [Member.owns_some, contains_eq names hname']
        rfl
      simp only [List.filter_cons, hkept, if_true] at hothers
      exact ih hrest hrest' hothers

/-- A field of a record has been read. -/
theorem Follows.exists_read_field (h : Follows schema ms fs) (named : named? fs name = some f)
    (hholds : ms.Holds ((some name, d) :: fields) r) :
    ∃ (α : Type) (read : Document → Except ReadError α) (x : α),
      Reads schema f.content read ∧ read d = .ok x := by
  induction h generalizing fields with
  | nil => cases named
  | @cons α ρ m rest g fs names content null others ih =>
    rcases named?_cons_cases named with ⟨hname, rfl⟩ | ⟨hname, hrest⟩
    · rw [Members.holds_cons_of_owns (contains_eq names hname), Member.readFrom_cons] at hholds
      exact ⟨α, m.read, r.1, content, hholds.1.2⟩
    · rw [Members.holds_cons_of_not_owns (contains_eq names hname)] at hholds
      exact ih hrest hholds.2

end Objects

section Arrays
variable {ρ : Type} {ms : Members ρ} {fs : List (FieldForm κ)} {f : FieldForm κ}
  {d d' : Document} {r : ρ}

/-- In a record that is written as an array, contents that the reader takes alike may stand for
each other. -/
theorem Follows.readItems_exchange (h : Follows schema ms fs) {front back : List Document}
    (placed : fs[front.length]? = some f)
    (alike : ∀ {α : Type} {read : Document → Except ReadError α}, Reads schema f.content read →
      ∀ x, read d = .ok x ↔ read d' = .ok x) :
    ms.readItems (front ++ d :: back) true = .ok r ↔
      ms.readItems (front ++ d' :: back) true = .ok r := by
  induction h generalizing front with
  | nil => cases placed
  | cons names content null others ih =>
    cases front with
    | nil =>
      cases placed
      rw [List.nil_append, List.nil_append, Members.readItems_cons_eq_ok_iff,
        Members.readItems_cons_eq_ok_iff, alike content]
    | cons e front =>
      rw [List.cons_append, List.cons_append, Members.readItems_cons_eq_ok_iff,
        Members.readItems_cons_eq_ok_iff, ih placed]

theorem Follows.exists_read_item (h : Follows schema ms fs) {items : List Document} {i : Nat}
    (placed : fs[i]? = some f) (mem : items[i]? = some d)
    (hread : ms.readItems items true = .ok r) :
    ∃ (α : Type) (read : Document → Except ReadError α) (x : α),
      Reads schema f.content read ∧ read d = .ok x := by
  induction h generalizing items i with
  | nil => cases placed
  | @cons α ρ m rest g fs names content null others ih =>
    cases items with
    | nil => cases mem
    | cons e items =>
      obtain ⟨hm, hrest⟩ := Members.readItems_cons_eq_ok_iff.mp hread
      cases i with
      | zero =>
        cases placed
        cases mem
        exact ⟨α, m.read, r.1, content, hm⟩
      | succ i => exact ih placed mem hrest

end Arrays

section Readers
variable {α : Type} {read : Document → Except ReadError α}

theorem Reads.leaf : Reads schema .leaf read :=
  ⟨nofun, nofun⟩

theorem Reads.integer (range : IntegerRange) (make : Int → α) :
    Reads schema .integer fun d => (d.readLoose range).map make := by
  constructor
  · intro d d' h x
    cases h with
    | integer spells spells' =>
      have alike {e e' : Document} {n : Int} (he : e.SpellsInt n) (he' : e'.SpellsInt n)
          (h : (e.readLoose range).map make = .ok x) : (e'.readLoose range).map make = .ok x := by
        obtain ⟨m, hm, hx⟩ := map_eq_ok_iff.mp h
        obtain ⟨hspells, hcontains⟩ := Document.readLoose_eq_ok_iff.mp hm
        obtain rfl := hspells.unique he
        exact map_eq_ok_iff.mpr ⟨m, Document.readLoose_eq_ok_iff.mpr ⟨he', hcontains⟩, hx⟩
      exact ⟨alike spells spells', alike spells' spells⟩
  · nofun

theorem Reads.record {k : κ} {ρ : Type} {ms : Members ρ} (h : Follows schema ms (schema k))
    (make : ρ → α) : Reads schema (.record k) fun d => (ms.read d).map make := by
  constructor
  · intro d d' hstep x
    suffices alike : ∀ r, ms.read d = .ok r ↔ ms.read d' = .ok r by
      simp only [map_eq_ok_iff, alike]
    intro r
    cases hstep with
    | reorder perm => exact ⟨Members.read_perm perm, Members.read_perm perm.symm⟩
    | rename named named' =>
      rw [Members.read_object_eq_ok_iff, Members.read_object_eq_ok_iff]
      exact h.holds_exchange named named' fun _ _ => Iff.rfl
    | foreign unnamed sound =>
      rw [Members.read_object_eq_ok_iff, Members.read_object_eq_ok_iff]
      exact (h.holds_foreign unnamed sound).symm
    | null named nullable absent =>
      rw [Members.read_object_eq_ok_iff, Members.read_object_eq_ok_iff]
      exact (h.holds_null named nullable absent).symm
    | field named hstep =>
      rw [Members.read_object_eq_ok_iff, Members.read_object_eq_ok_iff]
      exact h.holds_exchange named named fun hreads => hreads.respells hstep
    | item placed hstep =>
      exact h.readItems_exchange placed fun hreads => hreads.respells hstep
  · intro d hdoubled x hx
    obtain ⟨r, hr, -⟩ := map_eq_ok_iff.mp hx
    cases hdoubled with
    | here named named' twice =>
      obtain ⟨others, hperm⟩ := twice.exists_perm_append
      rw [Members.read_object_eq_ok_iff] at hr
      exact h.not_holds_doubled named named' (Members.holds_perm hperm hr)
    | field named mem hinner =>
      obtain ⟨front, back, rfl⟩ := List.append_of_mem mem
      rw [Members.read_object_eq_ok_iff] at hr
      obtain ⟨_, _, y, hreads, hy⟩ :=
        h.exists_read_field named (Members.holds_perm List.perm_middle hr)
      exact hreads.doubled hinner y hy
    | item placed mem hinner =>
      obtain ⟨_, _, y, hreads, hy⟩ := h.exists_read_item placed mem hr
      exact hreads.doubled hinner y hy

/-- What is respelled or doubled is no null, integers apart. -/
theorem Respells.ne_null {c : Content κ} {d d' : Document} (h : Respells schema c d d')
    (hc : c ≠ .integer) : d ≠ .null ∧ d' ≠ .null := by
  cases h with
  | integer => exact absurd rfl hc
  | _ => exact ⟨nofun, nofun⟩

theorem Doubled.ne_null {c : Content κ} {d : Document} (h : Doubled schema c d) : d ≠ .null := by
  cases h <;> exact nofun

theorem Reads.option {c : Content κ} (h : Reads schema c read) (hc : c ≠ .integer) :
    Reads schema c (readOption read) := by
  constructor
  · intro d d' hstep x
    obtain ⟨hd, hd'⟩ := hstep.ne_null hc
    rw [Document.readOption_of_ne_null hd, Document.readOption_of_ne_null hd']
    simp only [map_eq_ok_iff, h.respells hstep]
  · intro d hdoubled x hx
    rw [Document.readOption_of_ne_null hdoubled.ne_null] at hx
    obtain ⟨y, hy, -⟩ := map_eq_ok_iff.mp hx
    exact h.doubled hdoubled y hy

end Readers

section Lists
variable {α : Type} {read : Document → Except ReadError α}

theorem Reads.list {k : κ} (h : Reads schema (.record k) read) :
    Reads schema (.list k) (readList read) := by
  constructor
  · intro d d' hstep xs
    cases hstep with
    | listed hstep =>
      rw [Document.readList_array, Document.readList_array]
      exact Document.readAll_exchange (h.respells hstep) _ _ xs
  · intro d hdoubled xs hxs
    cases hdoubled with
    | listed mem hinner =>
      rw [Document.readList_array] at hxs
      obtain ⟨x, -, hx⟩ := Document.exists_read_of_mem hxs mem
      exact h.doubled hinner x hx

end Lists

/-- Any number of steps, in both directions, lead to documents that are read alike. -/
theorem Reads.respells_eqvGen {α : Type} {read : Document → Except ReadError α} {c : Content κ}
    {d d' : Document} (h : Reads schema c read) (steps : Relation.EqvGen (Respells schema c) d d')
    (x : α) : read d = .ok x ↔ read d' = .ok x := by
  induction steps with
  | rel _ _ step => exact h.respells step x
  | refl _ => exact Iff.rfl
  | symm _ _ _ ih => exact ih.symm
  | trans _ _ _ _ _ ih₁ ih₂ => exact ih₁.trans ih₂

end TxReceipt.Json
