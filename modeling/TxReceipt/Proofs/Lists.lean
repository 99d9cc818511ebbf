import Mathlib.Data.List.Basic
import Mathlib.Data.List.Induction

/-!
# First occurrences, stable order and cuts

Facts about lists on which the order of events rests. Keeping first occurrences commutes with every
selection, and sorting by a key leaves the members with one key as they stood. A list in the order
of a key is known by its members with each key. Texts are cut where a property of their characters
ends. A selection and what it leaves over merge to the whole.
-/

namespace TxReceipt.Lists

section FirstOccurrences
variable {α : Type} [BEq α] [LawfulBEq α]

theorem nodup_eraseDups (l : List α) : l.eraseDups.Nodup := by
  match l with
  | [] => simp
  | a :: l =>
    rw [List.eraseDups_cons, List.nodup_cons]
    constructor
    · intro h
      have ha := (List.mem_filter.mp (List.mem_eraseDups.mp h)).2
      simp at ha
    · exact nodup_eraseDups (l.filter fun b => !b == a)
termination_by l.length
decreasing_by exact Nat.lt_succ_of_le (List.length_filter_le _ _)

/-- Where nothing stands twice, nothing is taken out. -/
theorem eraseDups_of_nodup {l : List α} (h : l.Nodup) : l.eraseDups = l := by
  induction l with
  | nil => rfl
  | cons a l ih =>
    rw [List.nodup_cons] at h
    have others : l.filter (fun b => !b == a) = l := by
      apply List.filter_eq_self.mpr
      intro b hb
      have hne : b ≠ a := by rintro rfl; exact h.1 hb
      simpa using hne
    rw [List.eraseDups_cons, others, ih h.2]

omit [LawfulBEq α] in
theorem eraseDups_sublist (l : List α) : l.eraseDups.Sublist l := by
  match l with
  | [] => simp
  | a :: l =>
    rw [List.eraseDups_cons]
    apply List.Sublist.cons_cons
    exact (eraseDups_sublist (l.filter fun b => !b == a)).trans List.filter_sublist
termination_by l.length
decreasing_by exact Nat.lt_succ_of_le (List.length_filter_le _ _)

/-- A selection of first occurrences is the same whether it is made before or after. -/
theorem filter_eraseDups (p : α → Bool) (l : List α) :
    l.eraseDups.filter p = (l.filter p).eraseDups := by
  match l with
  | [] => simp
  | a :: l =>
    have ih := filter_eraseDups p (l.filter fun b => !b == a)
    have swap : (l.filter fun b => !b == a).filter p = (l.filter p).filter fun b => !b == a := by
      simp only [List.filter_filter, Bool.and_comm]
    rw [List.eraseDups_cons]
    by_cases hp : p a = true
    · rw [List.filter_cons_of_pos hp, List.filter_cons_of_pos hp, List.eraseDups_cons, ih, swap]
    · rw [List.filter_cons_of_neg hp, List.filter_cons_of_neg hp, ih, swap]
      -- `a` is not selected, so that taking out its copies changes nothing.
      have others : (l.filter p).filter (fun b => !b == a) = l.filter p := by
        apply List.filter_eq_self.mpr
        intro b hb
        have hpb := (List.mem_filter.mp hb).2
        have hne : b ≠ a := by rintro rfl; exact hp hpb
        simpa using hne
      rw [others]
termination_by l.length
decreasing_by exact Nat.lt_succ_of_le (List.length_filter_le _ _)

/-- A search finds the same whether copies are taken out before or not. -/
theorem find?_eraseDups (p : α → Bool) (l : List α) : l.eraseDups.find? p = l.find? p := by
  rw [← List.head?_filter, ← List.head?_filter, filter_eraseDups]
  cases l.filter p with
  | nil => rfl
  | cons a found => rw [List.eraseDups_cons, List.head?_cons, List.head?_cons]

/-- One more member at the end counts if it is new. -/
theorem eraseDups_concat [DecidableEq α] (l : List α) (a : α) :
    (l ++ [a]).eraseDups = if a ∈ l then l.eraseDups else l.eraseDups ++ [a] := by
  rw [List.eraseDups_append]
  by_cases h : a ∈ l
  · have hold : [a].removeAll l = [] := by simp [List.removeAll, h]
    rw [if_pos h, hold, List.eraseDups_nil, List.append_nil]
  · have hnew : [a].removeAll l = [a] := by simp [List.removeAll, h]
    rw [if_neg h, hnew, List.eraseDups_cons, List.filter_nil, List.eraseDups_nil]

/-- A value has a place among the members that give it exactly if some member does. -/
theorem findIdx_lt_length_iff {β : Type} {f : β → Option α} {l : List β} {a : α} :
    l.findIdx (fun b => f b == some a) < l.length ↔ a ∈ l.filterMap f := by
  rw [List.findIdx_lt_length, List.mem_filterMap]
  simp only [beq_iff_eq]

/-- What the members of a list give, each once, stands in the order in which members first give
it. -/
theorem pairwise_findIdx_eraseDups {β : Type} [DecidableEq α] (f : β → Option α) (l : List β) :
    (l.filterMap f).eraseDups.Pairwise fun a a' =>
      l.findIdx (fun b => f b == some a) < l.findIdx (fun b => f b == some a') := by
  induction l using List.reverseRecOn with
  | nil => simp
  | append_singleton l b ih =>
    have hplace {a : α} (ha : a ∈ l.filterMap f) :
        (l ++ [b]).findIdx (fun b => f b == some a) = l.findIdx fun b => f b == some a := by
      rw [List.findIdx_append, if_pos (findIdx_lt_length_iff.mpr ha)]
    have hkept : (l.filterMap f).eraseDups.Pairwise fun a a' =>
        (l ++ [b]).findIdx (fun b => f b == some a) <
          (l ++ [b]).findIdx (fun b => f b == some a') := by
      apply ih.imp_of_mem
      intro a a' ha ha' hlt
      rwa [hplace (List.mem_eraseDups.mp ha), hplace (List.mem_eraseDups.mp ha')]
    rw [List.filterMap_append]
    cases hb : f b with
    | none => simpa [hb] using hkept
    | some c =>
      have hlast : [b].filterMap f = [c] := by simp [hb]
      rw [hlast, eraseDups_concat]
      by_cases hc : c ∈ l.filterMap f
      · rwa [if_pos hc]
      · rw [if_neg hc, List.pairwise_append]
        refine ⟨hkept, List.pairwise_singleton _ _, fun a ha a' ha' => ?_⟩
        have hmem : a ∈ l.filterMap f := List.mem_eraseDups.mp ha
        have hlt := findIdx_lt_length_iff.mpr hmem
        rw [List.mem_singleton.mp ha', hplace hmem, List.findIdx_append,
          if_neg (mt findIdx_lt_length_iff.mp hc)]
        omega

/-- What is kept stands in the order of first occurrence. -/
theorem pairwise_idxOf_eraseDups [DecidableEq α] (l : List α) :
    l.eraseDups.Pairwise fun a b => l.idxOf a < l.idxOf b := by
  have h := pairwise_findIdx_eraseDups some l
  rwa [List.filterMap_some] at h

/-- First occurrences keep their places under a map that keeps things apart. -/
theorem eraseDups_map {β : Type} [BEq β] [LawfulBEq β] {f : α → β}
    (injective : ∀ a b, f a = f b → a = b) (l : List α) :
    (l.map f).eraseDups = l.eraseDups.map f := by
  match l with
  | [] => simp
  | a :: l =>
    have ih := eraseDups_map injective (l.filter fun b => !b == a)
    have hrest : (l.map f).filter (fun b => !b == f a) = (l.filter fun b => !b == a).map f := by
      rw [List.filter_map]
      congr 2
      funext b
      have hsame : (f b == f a) = (b == a) := by
        rw [Bool.eq_iff_iff, beq_iff_eq, beq_iff_eq]
        exact ⟨injective b a, congrArg f⟩
      rw [Function.comp_apply, hsame]
    rw [List.map_cons, List.eraseDups_cons, List.eraseDups_cons, List.map_cons, hrest, ih]
termination_by l.length
decreasing_by exact Nat.lt_succ_of_le (List.length_filter_le _ _)

end FirstOccurrences

section StableOrder
variable {α : Type} (key : α → UInt64)

theorem keyOrder_trans (a b c : α) (hab : decide (key a ≤ key b) = true)
    (hbc : decide (key b ≤ key c) = true) : decide (key a ≤ key c) = true := by
  have hab := of_decide_eq_true hab
  have hbc := of_decide_eq_true hbc
  exact decide_eq_true (UInt64.le_trans hab hbc)

theorem keyOrder_total (a b : α) :
    (decide (key a ≤ key b) || decide (key b ≤ key a)) = true := by
  simpa using UInt64.le_total (key a) (key b)

theorem pairwise_mergeSort_key (l : List α) :
    (l.mergeSort fun a b => key a ≤ key b).Pairwise fun a b => key a ≤ key b := by
  have h := List.pairwise_mergeSort (keyOrder_trans key) (keyOrder_total key) l
  exact h.imp of_decide_eq_true

/-- The members with one key keep their places among each other. -/
theorem filter_mergeSort_key (l : List α) (k : UInt64) :
    (l.mergeSort fun a b => key a ≤ key b).filter (fun a => key a == k) =
      l.filter fun a => key a == k := by
  have ordered : (l.filter fun a => key a == k).Pairwise fun a b => decide (key a ≤ key b) := by
    apply List.pairwise_of_forall_mem_list
    intro a ha b hb
    have hak : key a = k := by simpa using (List.mem_filter.mp ha).2
    have hbk : key b = k := by simpa using (List.mem_filter.mp hb).2
    simp [hak, hbk]
  have kept := List.sublist_mergeSort (keyOrder_trans key) (keyOrder_total key) ordered
    List.filter_sublist
  have selected := kept.filter fun a => key a == k
  rw [List.filter_filter] at selected
  simp only [Bool.and_self] at selected
  apply Eq.symm
  apply selected.eq_of_length
  exact ((List.mergeSort_perm l _).filter _).length_eq.symm

end StableOrder

section KeyedParts
variable {α : Type} {key : α → UInt64}

theorem mem_of_filter_key_sublist {l l' : List α} {a : α}
    (part : (l.filter fun b => key b == key a).Sublist (l'.filter fun b => key b == key a))
    (h : a ∈ l) : a ∈ l' := by
  have hpart : a ∈ l.filter fun b => key b == key a := List.mem_filter.mpr ⟨h, by simp⟩
  exact (List.mem_filter.mp (part.subset hpart)).1

/-- Of two lists in the order of a key, one is contained in the other if this is so for each key
alone. -/
theorem sublist_of_filter_key {l l' : List α} (ordered : l.Pairwise fun a b => key a ≤ key b)
    (ordered' : l'.Pairwise fun a b => key a ≤ key b)
    (parts : ∀ k, (l.filter fun a => key a == k).Sublist (l'.filter fun a => key a == k)) :
    l.Sublist l' := by
  induction l' generalizing l with
  | nil =>
    have hnil : l = [] := by
      apply List.eq_nil_iff_forall_not_mem.mpr
      intro a ha
      have hmem := mem_of_filter_key_sublist (parts (key a)) ha
      cases hmem
    exact hnil ▸ List.nil_sublist _
  | cons b l' ih =>
    rw [List.pairwise_cons] at ordered'
    -- The members with other keys are all in the rest.
    have others : ∀ k, key b ≠ k →
        (l.filter fun a => key a == k).Sublist (l'.filter fun a => key a == k) := by
      intro k hk
      have hpart := parts k
      rwa [List.filter_cons_of_neg (by simpa using hk)] at hpart
    have part := parts (key b)
    rw [List.filter_cons_of_pos (by simp)] at part
    rcases List.sublist_cons_iff.mp part with skipped | ⟨rest, hfirst, hrest⟩
    · refine (ih ordered ordered'.2 ?_).cons b
      intro k
      by_cases hk : key b = k
      · exact hk ▸ skipped
      · exact others k hk
    · -- The first member with the key of `b` is `b`, and no other key comes before it.
      cases l with
      | nil => cases hfirst
      | cons a l =>
        rw [List.pairwise_cons] at ordered
        have hb : b ∈ (a :: l).filter fun c => key c == key b := by
          rw [hfirst]
          exact .head _
        have hle : key a ≤ key b := by
          rcases List.mem_cons.mp (List.mem_filter.mp hb).1 with rfl | hmem
          · exact UInt64.le_refl _
          · exact ordered.1 b hmem
        have hge : key b ≤ key a := by
          rcases List.mem_cons.mp (mem_of_filter_key_sublist (parts (key a)) (.head _)) with
            rfl | hmem
          · exact UInt64.le_refl _
          · exact ordered'.1 a hmem
        have hkey : key a = key b := UInt64.le_antisymm hle hge
        rw [List.filter_cons_of_pos (by simpa using hkey)] at hfirst
        obtain ⟨rfl, rfl⟩ := List.cons.inj hfirst
        refine (ih ordered.2 ordered'.2 ?_).cons_cons a
        intro k
        by_cases hk : key a = k
        · exact hk ▸ hrest
        · have hother := others k hk
          rwa [List.filter_cons_of_neg (by simpa using hk)] at hother

/-- Lists in the order of a key are equal if they are so for each key alone. -/
theorem eq_of_filter_key {l l' : List α} (ordered : l.Pairwise fun a b => key a ≤ key b)
    (ordered' : l'.Pairwise fun a b => key a ≤ key b)
    (parts : ∀ k, (l.filter fun a => key a == k) = l'.filter fun a => key a == k) : l = l' := by
  have hle : l.Sublist l' := by
    apply sublist_of_filter_key ordered ordered'
    intro k
    exact parts k ▸ List.Sublist.refl _
  have hge : l'.Sublist l := by
    apply sublist_of_filter_key ordered' ordered
    intro k
    exact parts k ▸ List.Sublist.refl _
  exact hle.eq_of_length_le hge.length_le

end KeyedParts

section Cuts
variable {α : Type} {p : α → Bool}

/-- A list is cut in front of the first member without the property. -/
theorem takeWhile_dropWhile_append {front rest : List α} (hfront : ∀ a ∈ front, p a = true)
    (hrest : ∀ a ∈ rest.head?, p a = false) :
    (front ++ rest).takeWhile p = front ∧ (front ++ rest).dropWhile p = rest := by
  rw [List.takeWhile_append_of_pos hfront, List.dropWhile_append_of_pos hfront]
  cases rest with
  | nil => simp
  | cons a rest =>
    have ha := hrest a rfl
    simp [ha]

/-- What is left after a cut starts with a member without the property. -/
theorem head?_dropWhile {l : List α} {a : α} (h : a ∈ (l.dropWhile p).head?) : p a = false := by
  have hnot := List.head?_dropWhile_not p l
  rw [h] at hnot
  exact hnot

theorem of_mem_takeWhile {l : List α} {a : α} (h : a ∈ l.takeWhile p) : p a = true :=
  List.all_eq_true.mp List.all_takeWhile a h

/-- The front of a cut is the longest prefix with the property. -/
theorem prefix_of_cut {front rest l : List α} (hrest : ∀ a ∈ rest.head?, p a = false)
    (hl : l <+: front ++ rest) (hall : ∀ a ∈ l, p a = true) : l <+: front := by
  rcases List.prefix_or_prefix_of_prefix hl (List.prefix_append front rest) with hshort | hlong
  · exact hshort
  · obtain ⟨more, rfl⟩ := hlong
    rw [List.prefix_append_right_inj] at hl
    cases more with
    | nil => simp only [List.append_nil, List.prefix_rfl]
    | cons a more =>
      obtain ⟨tail, rfl⟩ := hl
      have hlast : p a = true := hall a (by simp)
      have hfirst : p a = false := hrest a rfl
      exact absurd hlast (by simp [hfirst])

end Cuts

section Searches
variable {α β : Type} {f g : α → Option β}

theorem findSome?_congr {l : List α} (h : ∀ a ∈ l, f a = g a) : l.findSome? f = l.findSome? g := by
  induction l with
  | nil => rfl
  | cons a l ih =>
    obtain ⟨ha, hl⟩ := List.forall_mem_cons.mp h
    rw [List.findSome?_cons, List.findSome?_cons, ha, ih hl]

end Searches

section Merges
variable {α : Type}

/-- Two lists, each in its order, make up the third one. -/
inductive Merges : List α → List α → List α → Prop
  | nil : Merges [] [] []
  | left (a : α) {front back whole : List α} (rest : Merges front back whole) :
      Merges (a :: front) back (a :: whole)
  | right (a : α) {front back whole : List α} (rest : Merges front back whole) :
      Merges front (a :: back) (a :: whole)

/-- What is left over and what is selected make up the list. -/
theorem merges_filter (p : α → Bool) (l : List α) :
    Merges (l.filter fun a => !p a) (l.filter p) l := by
  induction l with
  | nil => exact .nil
  | cons a l ih =>
    by_cases hp : p a = true
    · rw [List.filter_cons_of_pos hp, List.filter_cons_of_neg (by simp [hp])]
      exact .right a ih
    · rw [List.filter_cons_of_neg hp, List.filter_cons_of_pos (by simpa using hp)]
      exact .left a ih

end Merges

end TxReceipt.Lists
