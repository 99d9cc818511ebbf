import TxReceipt.Json.Document
import TxReceipt.Proofs.Except

/-!
# Reading items

Items are read one by one: a list is read of items if each item is read as the member at its place.
-/

namespace TxReceipt.Json.Document

variable {α : Type} {read : Document → Except ReadError α}

theorem readAll_cons_eq_ok_iff {d : Document} {ds : List Document} {xs : List α} :
    readAll read (d :: ds) = .ok xs ↔
      ∃ y ys, read d = .ok y ∧ readAll read ds = .ok ys ∧ y :: ys = xs := by
  rw [readAll, bind_eq_ok_iff]
  constructor
  · rintro ⟨y, hy, h⟩
    obtain ⟨ys, hys, hxs⟩ := bind_eq_ok_iff.mp h
    exact ⟨y, ys, hy, hys, Except.ok.inj hxs⟩
  · rintro ⟨y, ys, hy, hys, rfl⟩
    exact ⟨y, hy, bind_eq_ok_iff.mpr ⟨ys, hys, rfl⟩⟩

/-- Each member is read of an item. -/
theorem exists_of_mem_readAll {ds : List Document} {xs : List α} {x : α}
    (h : readAll read ds = .ok xs) (hx : x ∈ xs) : ∃ d ∈ ds, read d = .ok x := by
  induction ds generalizing xs with
  | nil =>
    cases h
    cases hx
  | cons d ds ih =>
    obtain ⟨y, ys, hy, hys, rfl⟩ := readAll_cons_eq_ok_iff.mp h
    rcases List.mem_cons.mp hx with rfl | hx
    · exact ⟨d, .head _, hy⟩
    · obtain ⟨d', hd', hread⟩ := ih hys hx
      exact ⟨d', .tail _ hd', hread⟩

/-- Each item is read as a member. -/
theorem exists_read_of_mem {ds : List Document} {d : Document} {xs : List α}
    (h : readAll read ds = .ok xs) (hd : d ∈ ds) : ∃ x ∈ xs, read d = .ok x := by
  induction ds generalizing xs with
  | nil => cases hd
  | cons e ds ih =>
    obtain ⟨y, ys, hy, hys, rfl⟩ := readAll_cons_eq_ok_iff.mp h
    rcases List.mem_cons.mp hd with rfl | hd
    · exact ⟨y, .head _, hy⟩
    · obtain ⟨x, hx, hread⟩ := ih hys hd
      exact ⟨x, .tail _ hx, hread⟩

theorem readAll_map {β : Type} {read : Document → Except ReadError β} {ds : β → Document}
    {xs : List β} (h : ∀ x ∈ xs, read (ds x) = .ok x) : readAll read (xs.map ds) = .ok xs := by
  induction xs with
  | nil => rfl
  | cons x xs ih =>
    obtain ⟨hx, hxs⟩ := List.forall_mem_cons.mp h
    exact readAll_cons_eq_ok_iff.mpr ⟨x, xs, hx, ih hxs, rfl⟩

theorem readAll_concat_eq_ok_iff {ds : List Document} {d : Document} {xs : List α} :
    readAll read (ds ++ [d]) = .ok xs ↔
      ∃ ys y, readAll read ds = .ok ys ∧ read d = .ok y ∧ ys ++ [y] = xs := by
  induction ds generalizing xs with
  | nil =>
    rw [List.nil_append, readAll_cons_eq_ok_iff]
    constructor
    · rintro ⟨y, _, hy, ⟨⟩, rfl⟩
      exact ⟨[], y, rfl, hy, rfl⟩
    · rintro ⟨_, y, ⟨⟩, hy, rfl⟩
      exact ⟨y, [], hy, rfl, rfl⟩
  | cons e ds ih =>
    simp only [List.cons_append, readAll_cons_eq_ok_iff, ih]
    constructor
    · rintro ⟨z, _, hz, ⟨ys, y, hys, hy, rfl⟩, rfl⟩
      exact ⟨z :: ys, y, ⟨z, ys, hz, hys, rfl⟩, hy, rfl⟩
    · rintro ⟨_, y, ⟨z, ys, hz, hys, rfl⟩, hy, rfl⟩
      exact ⟨z, ys ++ [y], hz, ⟨ys, y, hys, hy, rfl⟩, rfl⟩

/-- Items that the reader takes alike may stand for each other. -/
theorem readAll_exchange {d d' : Document} (alike : ∀ x, read d = .ok x ↔ read d' = .ok x)
    (front back : List Document) (xs : List α) :
    readAll read (front ++ d :: back) = .ok xs ↔ readAll read (front ++ d' :: back) = .ok xs := by
  induction front generalizing xs with
  | nil => simp only [List.nil_append, readAll_cons_eq_ok_iff, alike]
  | cons e front ih => simp only [List.cons_append, readAll_cons_eq_ok_iff, ih]

theorem readList_array (ds : List Document) :
    readList read (.array ds true) = readAll read ds := by
  rw [readList]
  cases readAll read ds <;> rfl

theorem readList_unclosed (ds : List Document) (xs : List α) :
    readList read (.array ds false) ≠ .ok xs := by
  rw [readList]
  cases readAll read ds <;> exact nofun

end TxReceipt.Json.Document
