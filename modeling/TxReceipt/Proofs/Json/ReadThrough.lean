import TxReceipt.Proofs.Json.Items
import TxReceipt.Proofs.Json.Record

/-!
# Readers that make something else of what they read

Two readers may accept the same documents and differ in what they make of them. `ReadsThrough` says
that one makes the image of what the other one makes. It passes from the readers of items and
members to the readers of lists and records.
-/

namespace TxReceipt.Json

variable {α : Type} {f : α → α} {read read' : Document → Except ReadError α}

/-- The second reader accepts what the first one accepts, and makes its image under `f`. -/
def ReadsThrough (f : α → α) (read read' : Document → Except ReadError α) : Prop :=
  ∀ d y, read' d = .ok y ↔ ∃ x, read d = .ok x ∧ f x = y

theorem ReadsThrough.refl (read : Document → Except ReadError α) : ReadsThrough id read read := by
  intro d y
  simp

/-- What is made of the values read may differ too, if the images fit. -/
theorem ReadsThrough.map {β : Type} {g : β → β} {make make' : α → β}
    (h : ReadsThrough f read read') (fits : ∀ x, make' (f x) = g (make x)) :
    ReadsThrough g (fun d => (read d).map make) fun d => (read' d).map make' := by
  intro d z
  simp only [map_eq_ok_iff]
  constructor
  · rintro ⟨y, hy, rfl⟩
    obtain ⟨x, hx, rfl⟩ := (h d y).mp hy
    exact ⟨make x, ⟨x, hx, rfl⟩, (fits x).symm⟩
  · rintro ⟨_, ⟨x, hx, rfl⟩, rfl⟩
    exact ⟨f x, (h d _).mpr ⟨x, hx, rfl⟩, fits x⟩

theorem ReadsThrough.readAll (h : ReadsThrough f read read') (ds : List Document) (ys : List α) :
    Document.readAll read' ds = .ok ys ↔
      ∃ xs, Document.readAll read ds = .ok xs ∧ xs.map f = ys := by
  induction ds generalizing ys with
  | nil => simp [Document.readAll, eq_comm]
  | cons d ds ih =>
    simp only [Document.readAll_cons_eq_ok_iff, ih, h d]
    constructor
    · rintro ⟨_, _, ⟨x, hx, rfl⟩, ⟨xs, hxs, rfl⟩, rfl⟩
      exact ⟨x :: xs, ⟨x, xs, hx, hxs, rfl⟩, rfl⟩
    · rintro ⟨_, ⟨x, xs, hx, hxs, rfl⟩, rfl⟩
      exact ⟨f x, xs.map f, ⟨x, hx, rfl⟩, ⟨xs, hxs, rfl⟩, rfl⟩

theorem ReadsThrough.list (h : ReadsThrough f read read') :
    ReadsThrough (List.map f) (Document.readList read) (Document.readList read') := by
  intro d ys
  cases d with
  | array ds closed =>
    cases closed with
    | true =>
      rw [Document.readList_array, Document.readList_array]
      exact h.readAll ds ys
    | false =>
      refine iff_of_false (Document.readList_unclosed ds ys) ?_
      rintro ⟨xs, hxs, -⟩
      exact Document.readList_unclosed ds xs hxs
  | _ => simp [Document.readList]

theorem ReadsThrough.option (h : ReadsThrough f read read') :
    ReadsThrough (Option.map f) (Document.readOption read) (Document.readOption read') := by
  have hsome : ReadsThrough (Option.map f) (fun d => (read d).map some)
      fun d => (read' d).map some := h.map fun _ => rfl
  intro d y
  cases d with
  | null => simp [Document.readOption, eq_comm]
  | _ => exact hsome _ y

namespace Member

/-- The members have the same names. What the second one is read as, or counts as when it is absent,
is the image of what the first one is or counts as. -/
structure Through (f : α → α) (m m' : Member α) : Prop where
  names : m'.names = m.names
  content : ReadsThrough f m.read m'.read
  default : m'.default? = m.default?.map f

namespace Through

variable {m m' : Member α}

theorem refl (m : Member α) : Through id m m :=
  ⟨rfl, .refl m.read, by simp⟩

theorem optional {names : List String} {x y : α} (content : ReadsThrough f read read')
    (default : f x = y) : Through f (.optional names read x) (.optional names read' y) :=
  ⟨rfl, content, congrArg some default.symm⟩

theorem owns_eq (h : Through f m m') : m'.owns = m.owns := by
  funext field
  rw [owns, owns, h.names]

theorem absent_iff (h : Through f m m') (y : α) :
    m'.absent = .ok y ↔ ∃ x, m.absent = .ok x ∧ f x = y := by
  rw [absent, absent, h.default]
  cases m.default? <;> simp

theorem readFrom_iff (h : Through f m m') (hits : List DocumentField) (y : α) :
    m'.ReadFrom y hits ↔ ∃ x, m.ReadFrom x hits ∧ f x = y := by
  match hits with
  | [] => exact h.absent_iff y
  | [f] => exact h.content f.2 y
  | _ :: _ :: _ => simp [ReadFrom]

end Through

end Member

inductive Members.Through : {ρ : Type} → (ρ → ρ) → Members ρ → Members ρ → Prop
  | nil : Through id .nil .nil
  | cons {α ρ : Type} {m m' : Member α} {f : α → α} {rest rest' : Members ρ} {g : ρ → ρ}
      (member : Member.Through f m m') (others : Through g rest rest') :
      Through (Prod.map f g) (.cons m rest) (.cons m' rest')

namespace Members.Through

/-- A member may be the same in both. -/
theorem same {ρ : Type} {m : Member α} {rest rest' : Members ρ} {g : ρ → ρ}
    (others : Through g rest rest') : Through (Prod.map id g) (.cons m rest) (.cons m rest') :=
  .cons (.refl m) others

variable {ρ : Type} {g : ρ → ρ} {ms ms' : Members ρ}

/-- A pair is an image exactly if its parts are. -/
theorem exists_map_eq_iff {P : α → Prop} {Q : ρ → Prop} {s : α × ρ} :
    (∃ r : α × ρ, (P r.1 ∧ Q r.2) ∧ Prod.map f g r = s) ↔
      (∃ x, P x ∧ f x = s.1) ∧ ∃ xs, Q xs ∧ g xs = s.2 := by
  constructor
  · rintro ⟨r, ⟨hx, hxs⟩, rfl⟩
    exact ⟨⟨r.1, hx, rfl⟩, r.2, hxs, rfl⟩
  · rintro ⟨⟨x, hx, hfx⟩, xs, hxs, hgxs⟩
    exact ⟨(x, xs), ⟨hx, hxs⟩, Prod.ext hfx hgxs⟩

theorem holds_iff (h : Through g ms ms') (fields : List DocumentField) (s : ρ) :
    ms'.Holds fields s ↔ ∃ r, ms.Holds fields r ∧ g r = s := by
  induction h generalizing fields with
  | nil => simp [Holds]
  | cons member others ih =>
    simp only [Holds, member.owns_eq, ih, member.readFrom_iff]
    exact exists_map_eq_iff.symm

theorem readItems_iff (h : Through g ms ms') (items : List Document) (closed : Bool) (s : ρ) :
    ms'.readItems items closed = .ok s ↔ ∃ r, ms.readItems items closed = .ok r ∧ g r = s := by
  induction h generalizing items with
  | nil => exact ⟨fun hs => ⟨s, hs, rfl⟩, fun ⟨_, hr, hs⟩ => hs ▸ hr⟩
  | cons member others ih =>
    cases items with
    | nil =>
      cases closed with
      | false => simp [readItems_nil_eq_ok_iff]
      | true =>
        simp only [readItems_nil_eq_ok_iff, ih, member.absent_iff, true_and]
        exact exists_map_eq_iff.symm
    | cons d items =>
      simp only [readItems_cons_eq_ok_iff, ih, member.content d]
      exact exists_map_eq_iff.symm

theorem reads (h : Through g ms ms') : ReadsThrough g ms.read ms'.read := by
  intro d s
  cases d with
  | object fields closed =>
    cases closed with
    | true =>
      simp only [read_object_eq_ok_iff]
      exact h.holds_iff fields s
    | false => simp [read_object_unclosed]
  | array items closed => exact h.readItems_iff items closed s
  | _ => simp [read]

end Members.Through

end TxReceipt.Json
