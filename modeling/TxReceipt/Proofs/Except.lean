/-!
# Results of steps that may fail

A step after a step succeeds if both do. Steps over a list succeed together, and otherwise end in
the error of the first that fails.
-/

namespace TxReceipt

variable {ε α β : Type}

theorem bind_eq_ok_iff {x : Except ε α} {f : α → Except ε β} {y : β} :
    (x >>= f) = .ok y ↔ ∃ a, x = .ok a ∧ f a = .ok y := by
  cases x with
  | error e => simp [bind, Except.bind]
  | ok a => simp [bind, Except.bind]

theorem bind_pair_eq_ok_iff {x : Except ε α} {y : Except ε β} {r : α × β} :
    (do let a ← x; let b ← y; return (a, b)) = .ok r ↔ x = .ok r.1 ∧ y = .ok r.2 := by
  rw [bind_eq_ok_iff]
  constructor
  · rintro ⟨a, ha, h⟩
    obtain ⟨b, hb, hr⟩ := bind_eq_ok_iff.mp h
    cases hr
    exact ⟨ha, hb⟩
  · rintro ⟨ha, hb⟩
    exact ⟨r.1, ha, bind_eq_ok_iff.mpr ⟨r.2, hb, rfl⟩⟩

theorem map_eq_ok_iff {x : Except ε α} {f : α → β} {y : β} :
    x.map f = .ok y ↔ ∃ a, x = .ok a ∧ f a = y := by
  cases x with
  | error e => simp [Except.map]
  | ok a => simp [Except.map]

theorem mapError_eq_ok_iff {δ : Type} {x : Except ε α} {f : ε → δ} {a : α} :
    x.mapError f = .ok a ↔ x = .ok a := by
  constructor
  · intro h
    cases x with
    | error e => cases h
    | ok b =>
      cases h
      rfl
  · rintro rfl
    rfl

theorem map_eq_error_iff {x : Except ε α} {f : α → β} {e : ε} :
    x.map f = .error e ↔ x = .error e := by
  cases x with
  | error e' => simp [Except.map]
  | ok a => simp [Except.map]

section Lists
variable {f : α → Except ε β}

theorem mapM_cons_eq_ok_iff {a : α} {l : List α} {ys : List β} :
    (a :: l).mapM f = .ok ys ↔ ∃ y rest, f a = .ok y ∧ l.mapM f = .ok rest ∧ ys = y :: rest := by
  rw [List.mapM_cons, bind_eq_ok_iff]
  constructor
  · rintro ⟨y, hy, h⟩
    obtain ⟨rest, hrest, h⟩ := bind_eq_ok_iff.mp h
    exact ⟨y, rest, hy, hrest, (Except.ok.inj h).symm⟩
  · rintro ⟨y, rest, hy, hrest, rfl⟩
    exact ⟨y, hy, bind_eq_ok_iff.mpr ⟨rest, hrest, rfl⟩⟩

theorem exists_mapM_iff {l : List α} :
    (∃ ys, l.mapM f = .ok ys) ↔ ∀ a ∈ l, ∃ y, f a = .ok y := by
  induction l with
  | nil => exact ⟨fun _ a ha => absurd ha List.not_mem_nil, fun _ => ⟨[], rfl⟩⟩
  | cons a l ih =>
    rw [List.forall_mem_cons, ← ih]
    constructor
    · rintro ⟨ys, h⟩
      obtain ⟨y, rest, hy, hrest, -⟩ := mapM_cons_eq_ok_iff.mp h
      exact ⟨⟨y, hy⟩, rest, hrest⟩
    · rintro ⟨⟨y, hy⟩, rest, hrest⟩
      exact ⟨y :: rest, mapM_cons_eq_ok_iff.mpr ⟨y, rest, hy, hrest, rfl⟩⟩

theorem mem_of_mapM {l : List α} {ys : List β} (h : l.mapM f = .ok ys) {y : β} :
    y ∈ ys ↔ ∃ a ∈ l, f a = .ok y := by
  induction l generalizing ys with
  | nil =>
    cases h
    simp
  | cons a l ih =>
    obtain ⟨z, rest, hz, hrest, rfl⟩ := mapM_cons_eq_ok_iff.mp h
    simp [ih hrest, hz, eq_comm]

/-- The first failure decides. -/
theorem mapM_eq_error_iff {l : List α} {e : ε} :
    l.mapM f = .error e ↔ ∃ front a back, l = front ++ a :: back ∧
      (∀ b ∈ front, ∃ y, f b = .ok y) ∧ f a = .error e := by
  constructor
  · intro h
    induction l with
    | nil => cases h
    | cons a l ih =>
      rw [List.mapM_cons] at h
      cases ha : f a with
      | error e' =>
        rw [ha] at h
        cases h
        exact ⟨[], a, l, rfl, fun b hb => absurd hb List.not_mem_nil, ha⟩
      | ok y =>
        cases hl : l.mapM f with
        | error e' =>
          rw [ha, hl] at h
          cases h
          obtain ⟨front, b, back, rfl, hfront, hb⟩ := ih hl
          exact ⟨a :: front, b, back, rfl, List.forall_mem_cons.mpr ⟨⟨y, ha⟩, hfront⟩, hb⟩
        | ok rest =>
          rw [ha, hl] at h
          cases h
  · rintro ⟨front, a, back, rfl, hfront, ha⟩
    induction front with
    | nil =>
      rw [List.nil_append, List.mapM_cons, ha]
      rfl
    | cons b front ih =>
      obtain ⟨⟨y, hy⟩, hrest⟩ := List.forall_mem_cons.mp hfront
      rw [List.cons_append, List.mapM_cons, hy, ih hrest]
      rfl

end Lists

end TxReceipt
