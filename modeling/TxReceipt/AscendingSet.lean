/-!
# Ascending sets

A finite set of ordered things is the list of its members in ascending order, each once, so that
equal sets are equal lists. `mem_ofList` says that a list and its set have the same members.
-/

namespace TxReceipt

/-- A finite set, as its members in ascending order. -/
structure AscendingSet (α : Type) [Ord α] where
  toList : List α
  ascending : toList.Pairwise fun a b => compare a b = .lt

namespace AscendingSet

variable {α : Type} [Ord α]

def empty : AscendingSet α :=
  ⟨[], .nil⟩

/-- Puts a member in its place among ascending ones, unless it is there. -/
def insertInto (x : α) : List α → List α
  | [] => [x]
  | y :: ys =>
    match compare x y with
    | .lt => x :: y :: ys
    | .eq => y :: ys
    | .gt => y :: insertInto x ys

theorem mem_insertInto [Std.LawfulEqOrd α] {x z : α} {ys : List α} :
    z ∈ insertInto x ys ↔ z = x ∨ z ∈ ys := by
  induction ys with
  | nil => simp [insertInto]
  | cons y ys ih =>
    simp only [insertInto]
    split
    · simp
    · rename_i h
      rw [Std.LawfulEqOrd.compare_eq_iff_eq.mp h]
      simp
    · simp only [List.mem_cons, ih]
      exact or_left_comm

theorem ascending_insertInto [Std.TransOrd α] [Std.LawfulEqOrd α] {x : α} {ys : List α}
    (h : ys.Pairwise fun a b => compare a b = .lt) :
    (insertInto x ys).Pairwise fun a b => compare a b = .lt := by
  induction ys with
  | nil => simp [insertInto]
  | cons y ys ih =>
    rw [List.pairwise_cons] at h
    simp only [insertInto]
    split
    · rename_i hxy
      refine List.pairwise_cons.mpr ⟨fun z hz => ?_, List.pairwise_cons.mpr h⟩
      rcases List.mem_cons.mp hz with rfl | hz
      · exact hxy
      · exact Std.TransCmp.lt_trans hxy (h.1 z hz)
    · exact List.pairwise_cons.mpr h
    · rename_i hxy
      refine List.pairwise_cons.mpr ⟨fun z hz => ?_, ih h.2⟩
      rcases mem_insertInto.mp hz with rfl | hz
      · exact Std.OrientedCmp.lt_of_gt hxy
      · exact h.1 z hz

def insert [Std.TransOrd α] [Std.LawfulEqOrd α] (x : α) (s : AscendingSet α) : AscendingSet α :=
  ⟨insertInto x s.toList, ascending_insertInto s.ascending⟩

def ofList [Std.TransOrd α] [Std.LawfulEqOrd α] : List α → AscendingSet α
  | [] => empty
  | x :: xs => (ofList xs).insert x

theorem mem_ofList [Std.TransOrd α] [Std.LawfulEqOrd α] {x : α} {xs : List α} :
    x ∈ (ofList xs).toList ↔ x ∈ xs := by
  induction xs with
  | nil => simp [ofList, empty]
  | cons y ys ih => simp [ofList, insert, mem_insertInto, ih]

instance [DecidableEq α] : DecidableEq (AscendingSet α) := fun s t =>
  if h : s.toList = t.toList then
    isTrue (by cases s; cases t; cases h; rfl)
  else isFalse fun e => h (congrArg toList e)

end AscendingSet

end TxReceipt
