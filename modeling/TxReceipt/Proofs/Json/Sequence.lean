import TxReceipt.Proofs.Json.Reader

/-!
# Sequences of values in one text

A text may hold any number of values, one after the other, with blanks around them.
`readSequenceWith_lines` says that indented values are found again in a text that has them one below
the other, whatever texts they hold.
-/

namespace TxReceipt.Json

variable {α : Type} {levels : Nat} {read : Document → Except ReadError α}

/-- Reads values off a text until only blanks are left. The fuel bounds their number. -/
def readSequence (levels : Nat) (read : Document → Except ReadError α) :
    Nat → List Char → Except ReadError (List α)
  | 0, _ => .error .malformed
  | fuel + 1, cs =>
    if (skipSpace cs).isEmpty then .ok []
    else do
      let (d, rest?) := Document.take levels cs
      let x ← read d
      match rest? with
      | none => .error .malformed
      | some rest => do
        let xs ← readSequence levels read fuel rest
        return x :: xs

/-- Reads a text that holds values one after the other; each has a character at least. -/
def readSequenceWith (levels : Nat) (read : Document → Except ReadError α) (text : String) :
    Except ReadError (List α) :=
  readSequence levels read (text.toList.length + 1) text.toList

theorem readSequence_blank {gap : List Char} (h : Blank gap) (fuel : Nat) :
    readSequence levels read (fuel + 1) gap = .ok [] := by
  have hskip := skipSpace_append h []
  rw [List.append_nil] at hskip
  rw [readSequence, hskip]
  rfl

/-- The first value of a sequence, and then the values of the rest. -/
theorem readSequence_spelling {v : Value} {x : α} {gap cs rest : List Char} (hgap : Blank gap)
    (h : v.Spelling cs) (hdepth : v.depth ≤ levels) (hrest : EndsNumeral rest)
    (hread : read v.toDocument = .ok x) (fuel : Nat) :
    readSequence levels read (fuel + 1) (gap ++ (cs ++ rest)) =
      (readSequence levels read fuel rest).map (x :: ·) := by
  have htake : Document.take levels (gap ++ (cs ++ rest)) = (v.toDocument, some rest) := by
    rw [Document.take, Document.scan_append hgap]
    apply Document.scan_of_spelling v h hdepth _ hrest
    simp only [List.length_append]
    omega
  have hmore : (skipSpace (gap ++ (cs ++ rest))).isEmpty = false := by
    obtain ⟨c, ds, rfl, hc, -⟩ := h.exists_head
    rw [skipSpace_append hgap, List.cons_append, skipSpace_cons hc]
    rfl
  rw [readSequence, hmore, htake]
  simp only [Bool.false_eq_true, if_false, hread]
  cases readSequence levels read fuel rest with
  | error e => rfl
  | ok xs => rfl

def lines (write : α → Value) (xs : List α) : List Char :=
  xs.flatMap fun x => (write x).indentedChars 0 ++ ['\n']

theorem length_le_length_lines (write : α → Value) (xs : List α) :
    xs.length ≤ (lines write xs).length := by
  induction xs with
  | nil => exact Nat.le_refl _
  | cons x xs ih =>
    rw [lines, List.flatMap_cons, ← lines, List.length_append, List.length_append,
      List.length_cons, List.length_singleton]
    omega

/-- Every value of the lines is read, in their order. -/
theorem readSequence_lines {write : α → Value} {xs : List α}
    (h : ∀ x ∈ xs, (write x).Plain levels ∧ read (write x).toDocument = .ok x)
    {gap : List Char} (hgap : Blank gap) {fuel : Nat} (hfuel : xs.length < fuel) :
    readSequence levels read fuel (gap ++ lines write xs) = .ok xs := by
  induction xs generalizing gap fuel with
  | nil =>
    obtain ⟨fuel, rfl⟩ : ∃ n, fuel = n + 1 := ⟨fuel - 1, by omega⟩
    rw [lines, List.flatMap_nil, List.append_nil]
    exact readSequence_blank hgap fuel
  | cons x xs ih =>
    obtain ⟨fuel, rfl⟩ : ∃ n, fuel = n + 1 := ⟨fuel - 1, by omega⟩
    obtain ⟨⟨hplain, hread⟩, hrest⟩ := List.forall_mem_cons.mp h
    have hline : lines write (x :: xs) =
        (write x).indentedChars 0 ++ '\n' :: lines write xs := by
      simp [lines]
    have hspelling := (write x).spelling_indentedChars hplain.1 0
    rw [hline, readSequence_spelling hgap hspelling hplain.2 (endsNumeral_cons (by decide)) hread]
    -- The line end in front of the next value is a blank.
    have hnext := ih hrest (blank_newLine 0) (by simpa using hfuel)
    rw [newLine, List.replicate_zero, List.singleton_append] at hnext
    rw [hnext]
    rfl

theorem toList_join_lines (write : α → Value) (xs : List α) :
    (String.join (xs.map fun x => (write x).indented ++ "\n")).toList = lines write xs := by
  simp [lines, Value.indented, List.flatMap_map]

/-- Indented values that stand one below the other are read back, each as it was written. -/
theorem readSequenceWith_lines {write : α → Value} {xs : List α}
    (h : ∀ x ∈ xs, (write x).Plain levels ∧ read (write x).toDocument = .ok x) :
    readSequenceWith levels read (String.join (xs.map fun x => (write x).indented ++ "\n")) =
      .ok xs := by
  have hfuel := length_le_length_lines write xs
  rw [readSequenceWith, toList_join_lines]
  exact readSequence_lines h blank_nil (by omega)

end TxReceipt.Json
