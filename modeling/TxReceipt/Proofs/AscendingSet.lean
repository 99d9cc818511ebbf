import TxReceipt.AscendingSet

/-!
# Sets from their own members

A set is the set of its members, so that a list written in ascending order is read back as the set
it was written from. Sets of the same members are equal.
-/

namespace TxReceipt.AscendingSet

variable {α : Type} [Ord α]

/-- What is less than every member goes in front. -/
theorem insertInto_of_lt {x : α} {ys : List α} (h : ∀ y ∈ ys, compare x y = .lt) :
    insertInto x ys = x :: ys := by
  cases ys with
  | nil => rfl
  | cons y ys =>
    have hlt : compare x y = .lt := h y (.head _)
    rw [insertInto, hlt]

theorem toList_ofList [Std.TransOrd α] [Std.LawfulEqOrd α] {xs : List α}
    (h : xs.Pairwise fun a b => compare a b = .lt) : (ofList xs).toList = xs := by
  induction xs with
  | nil => rfl
  | cons x xs ih =>
    rw [List.pairwise_cons] at h
    have hxs : (ofList xs).toList = xs := ih h.2
    rw [ofList, insert]
    simp only [hxs]
    exact insertInto_of_lt h.1

theorem ofList_toList [Std.TransOrd α] [Std.LawfulEqOrd α] (s : AscendingSet α) :
    ofList s.toList = s := by
  obtain ⟨xs, hxs⟩ := s
  have hlist := toList_ofList hxs
  cases hset : ofList xs with
  | mk ys hys =>
    rw [hset] at hlist
    cases hlist
    rfl

theorem nodup_toList [Std.TransOrd α] [Std.LawfulEqOrd α] (s : AscendingSet α) :
    s.toList.Nodup := by
  apply s.ascending.imp
  rintro a b hlt rfl
  rw [Std.LawfulEqOrd.compare_eq_iff_eq.mpr rfl] at hlt
  cases hlt

theorem eq_of_mem_iff [Std.TransOrd α] [Std.LawfulEqOrd α] {s t : AscendingSet α}
    (h : ∀ x, x ∈ s.toList ↔ x ∈ t.toList) : s = t := by
  have perm : s.toList.Perm t.toList :=
    (List.perm_ext_iff_of_nodup s.nodup_toList t.nodup_toList).mpr h
  have same : s.toList = t.toList := by
    refine perm.eq_of_pairwise ?_ s.ascending t.ascending
    intro a b _ _ hab hba
    exact absurd hba (Std.OrientedCmp.not_lt_of_lt hab)
  rw [← ofList_toList s, same, ofList_toList]

end TxReceipt.AscendingSet
