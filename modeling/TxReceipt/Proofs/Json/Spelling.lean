import TxReceipt.Json.Reader
import TxReceipt.Proofs.Json.Value
import TxReceipt.Proofs.Text.Numeral

/-!
# Spellings of JSON values

Both layouts of a value are spellings: texts that differ in their blanks only. A spelling may have
blanks in front of every item and every key, behind every colon and in front of a closing bracket.
Doubles have none here.
-/

namespace TxReceipt.Json

def Blank (gap : List Char) : Prop :=
  ∀ c ∈ gap, isSpace c = true

theorem blank_nil : Blank [] := by
  intro c hc
  cases hc

theorem blank_space : Blank [' '] := by
  intro c hc
  obtain rfl := List.mem_singleton.mp hc
  rfl

theorem blank_newLine (level : Nat) : Blank (newLine level) := by
  intro c hc
  rcases List.mem_cons.mp hc with rfl | hc
  · rfl
  · obtain rfl := List.eq_of_mem_replicate hc
    rfl

namespace Value

mutual

inductive Spelling : Value → List Char → Prop where
  | null : Spelling .null ['n', 'u', 'l', 'l']
  | bool (b : Bool) : Spelling (.bool b) (boolChars b)
  | int (n : Int) (fits : -9223372036854775808 ≤ n ∧ n < 18446744073709551616) :
      Spelling (.number (.int n fits)) (Text.intChars n)
  | text (s : String) : Spelling (.text s) (quoted s)
  | array {items : List Value} {parts : List (List Char)} {gap : List Char}
      (hitems : ItemSpellings items parts) (hgap : Blank gap) :
      Spelling (.array items) ('[' :: commaSeparated parts ++ gap ++ [']'])
  | object {fields : List (String × Value)} {parts : List (List Char)} {gap : List Char}
      (hfields : FieldSpellings fields parts) (hgap : Blank gap) :
      Spelling (.object fields) ('{' :: commaSeparated parts ++ gap ++ ['}'])

inductive ItemSpellings : List Value → List (List Char) → Prop where
  | nil : ItemSpellings [] []
  | cons {v : Value} {vs : List Value} {gap cs : List Char} {parts : List (List Char)}
      (hgap : Blank gap) (hv : Spelling v cs) (hvs : ItemSpellings vs parts) :
      ItemSpellings (v :: vs) ((gap ++ cs) :: parts)

inductive FieldSpellings : List (String × Value) → List (List Char) → Prop where
  | nil : FieldSpellings [] []
  | cons {k : String} {v : Value} {fs : List (String × Value)} {gap gap' cs : List Char}
      {parts : List (List Char)} (hgap : Blank gap) (hgap' : Blank gap') (hv : Spelling v cs)
      (hfs : FieldSpellings fs parts) :
      FieldSpellings ((k, v) :: fs) ((gap ++ quoted k ++ ':' :: (gap' ++ cs)) :: parts)

end

theorem ItemSpellings.ne_nil {vs : List Value} {parts : List (List Char)}
    (h : ItemSpellings vs parts) (hne : vs ≠ []) : parts ≠ [] := by
  cases h with
  | nil => exact absurd rfl hne
  | cons => exact List.cons_ne_nil _ _

theorem FieldSpellings.ne_nil {fs : List (String × Value)} {parts : List (List Char)}
    (h : FieldSpellings fs parts) (hne : fs ≠ []) : parts ≠ [] := by
  cases h with
  | nil => exact absurd rfl hne
  | cons => exact List.cons_ne_nil _ _

mutual

theorem spelling_compactChars : (v : Value) → v.FloatFree → Spelling v v.compactChars
  | .null, _ => .null
  | .bool b, _ => .bool b
  | .number (.int n fits), _ => .int n fits
  | .text s, _ => .text s
  | .array items, h => by
    have hspelling := Spelling.array (itemSpellings_compactItems items h) blank_nil
    rw [List.append_nil] at hspelling
    exact hspelling
  | .object fields, h => by
    have hspelling := Spelling.object (fieldSpellings_compactFields fields h) blank_nil
    rw [List.append_nil] at hspelling
    exact hspelling

theorem itemSpellings_compactItems :
    (vs : List Value) → FloatFreeItems vs → ItemSpellings vs (compactItems vs)
  | [], _ => .nil
  | v :: vs, h =>
    .cons blank_nil (spelling_compactChars v h.1) (itemSpellings_compactItems vs h.2)

theorem fieldSpellings_compactFields :
    (fs : List (String × Value)) → FloatFreeFields fs → FieldSpellings fs (compactFields fs)
  | [], _ => .nil
  | (_, v) :: fs, h =>
    .cons blank_nil blank_nil (spelling_compactChars v h.1) (fieldSpellings_compactFields fs h.2)

end

mutual

theorem spelling_indentedChars :
    (v : Value) → v.FloatFree → (level : Nat) → Spelling v (v.indentedChars level)
  | .null, _, _ => .null
  | .bool b, _, _ => .bool b
  | .number (.int n fits), _, _ => .int n fits
  | .text s, _, _ => .text s
  | .array [], _, _ => .array .nil blank_nil
  | .array (v :: vs), h, level =>
    .array (itemSpellings_indentedItems (v :: vs) h (level + 1)) (blank_newLine level)
  | .object [], _, _ => .object .nil blank_nil
  | .object (f :: fs), h, level =>
    .object (fieldSpellings_indentedFields (f :: fs) h (level + 1)) (blank_newLine level)

theorem itemSpellings_indentedItems : (vs : List Value) → FloatFreeItems vs → (level : Nat) →
    ItemSpellings vs (indentedItems vs level)
  | [], _, _ => .nil
  | v :: vs, h, level =>
    .cons (blank_newLine level) (spelling_indentedChars v h.1 level)
      (itemSpellings_indentedItems vs h.2 level)

theorem fieldSpellings_indentedFields : (fs : List (String × Value)) → FloatFreeFields fs →
    (level : Nat) → FieldSpellings fs (indentedFields fs level)
  | [], _, _ => .nil
  | (_, v) :: fs, h, level =>
    .cons (blank_newLine level) blank_space (spelling_indentedChars v h.1 level)
      (fieldSpellings_indentedFields fs h.2 level)

end

theorem isSpace_of_isDigit {c : Char} (h : Text.isDigit c = true) : isSpace c = false := by
  rw [Bool.eq_false_iff]
  intro hspace
  simp only [isSpace, Bool.or_eq_true, beq_iff_eq] at hspace
  rcases hspace with ((rfl | rfl) | rfl) | rfl <;> exact absurd h (by decide)

/-- A spelling starts neither with a blank nor with a closing bracket. -/
theorem Spelling.exists_head {v : Value} {cs : List Char} (h : Spelling v cs) :
    ∃ c ds, cs = c :: ds ∧ isSpace c = false ∧ c ≠ ']' := by
  cases h with
  | null => exact ⟨'n', _, rfl, rfl, by decide⟩
  | bool b =>
    cases b with
    | false => exact ⟨'f', _, rfl, rfl, by decide⟩
    | true => exact ⟨'t', _, rfl, rfl, by decide⟩
  | int n fits =>
    obtain ⟨c, ds, hcs, hdigit | rfl⟩ := Text.exists_head_intChars n
    · refine ⟨c, ds, hcs, isSpace_of_isDigit hdigit, ?_⟩
      rintro rfl
      exact absurd hdigit (by decide)
    · exact ⟨'-', ds, hcs, rfl, by decide⟩
  | text s => exact ⟨'"', _, rfl, rfl, by decide⟩
  | array hitems hgap => exact ⟨'[', _, rfl, rfl, by decide⟩
  | object hfields hgap => exact ⟨'{', _, rfl, rfl, by decide⟩

end Value

end TxReceipt.Json
