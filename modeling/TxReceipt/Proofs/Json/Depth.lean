import TxReceipt.Proofs.Json.Items
import TxReceipt.Proofs.Json.Reader
import TxReceipt.Proofs.Json.Record
import TxReceipt.Proofs.Json.Value

/-!
# Depth of what is read

What a text holds within some levels stays within them: a value that is read of a document is nested
no deeper, and a member of a record or an item of a list is read of a document with one level less.
-/

namespace TxReceipt.Json

namespace Document

mutual

/-- Containers are nested at most `n` deep, where a value can hold them. -/
def Within : Nat → Document → Prop
  | n, .array items _ => 0 < n ∧ WithinItems (n - 1) items
  | n, .object fields _ => 0 < n ∧ WithinFields (n - 1) fields
  | _, _ => True
termination_by structural _ d => d

def WithinItems : Nat → List Document → Prop
  | _, [] => True
  | n, d :: ds => d.Within n ∧ WithinItems n ds
termination_by structural _ ds => ds

def WithinFields : Nat → List (Option String × Document) → Prop
  | _, [] => True
  | n, (_, d) :: fs => d.Within n ∧ WithinFields n fs
termination_by structural _ fs => fs

end

theorem withinItems_iff {n : Nat} {ds : List Document} :
    WithinItems n ds ↔ ∀ d ∈ ds, d.Within n := by
  induction ds with
  | nil => simp [WithinItems]
  | cons d ds ih => simp only [WithinItems, ih, List.forall_mem_cons]

theorem withinFields_iff {n : Nat} {fs : List DocumentField} :
    WithinFields n fs ↔ ∀ f ∈ fs, f.2.Within n := by
  induction fs with
  | nil => simp [WithinFields]
  | cons f fs ih =>
    obtain ⟨k, d⟩ := f
    simp only [WithinFields, ih, List.forall_mem_cons]

mutual

theorem within_mono : (d : Document) → {m n : Nat} → m ≤ n → d.Within m → d.Within n
  | .null, _, _, _, _ | .bool _, _, _, _, _ | .number _, _, _, _, _ | .text _, _, _, _, _
  | .unholdable _, _, _, _, _ | .broken, _, _, _, _ => trivial
  | .array items _, _, _, hle, h =>
    ⟨Nat.lt_of_lt_of_le h.1 hle, withinItems_mono items (Nat.sub_le_sub_right hle 1) h.2⟩
  | .object fields _, _, _, hle, h =>
    ⟨Nat.lt_of_lt_of_le h.1 hle, withinFields_mono fields (Nat.sub_le_sub_right hle 1) h.2⟩

theorem withinItems_mono : (ds : List Document) → {m n : Nat} → m ≤ n → WithinItems m ds →
    WithinItems n ds
  | [], _, _, _, _ => trivial
  | d :: ds, _, _, hle, h => ⟨within_mono d hle h.1, withinItems_mono ds hle h.2⟩

theorem withinFields_mono : (fields : List DocumentField) → {m n : Nat} → m ≤ n →
    WithinFields m fields → WithinFields n fields
  | [], _, _, _, _ => trivial
  | (_, d) :: fields, _, _, hle, h => ⟨within_mono d hle h.1, withinFields_mono fields hle h.2⟩

end

mutual

/-- Every document is within some number of levels. -/
theorem exists_within : (d : Document) → ∃ n, d.Within n
  | .null | .bool _ | .number _ | .text _ | .unholdable _ | .broken => ⟨0, trivial⟩
  | .array items _ => by
    obtain ⟨n, hn⟩ := exists_withinItems items
    exact ⟨n + 1, Nat.succ_pos n, hn⟩
  | .object fields _ => by
    obtain ⟨n, hn⟩ := exists_withinFields fields
    exact ⟨n + 1, Nat.succ_pos n, hn⟩

theorem exists_withinItems : (ds : List Document) → ∃ n, WithinItems n ds
  | [] => ⟨0, trivial⟩
  | d :: ds => by
    obtain ⟨m, hm⟩ := exists_within d
    obtain ⟨n, hn⟩ := exists_withinItems ds
    exact ⟨max m n, within_mono d (Nat.le_max_left m n) hm,
      withinItems_mono ds (Nat.le_max_right m n) hn⟩

theorem exists_withinFields : (fields : List DocumentField) → ∃ n, WithinFields n fields
  | [] => ⟨0, trivial⟩
  | (_, d) :: fields => by
    obtain ⟨m, hm⟩ := exists_within d
    obtain ⟨n, hn⟩ := exists_withinFields fields
    exact ⟨max m n, within_mono d (Nat.le_max_left m n) hm,
      withinFields_mono fields (Nat.le_max_right m n) hn⟩

end

theorem within_nested {levels : Nat} {d : Document} (h : 0 < levels → d.Within levels) :
    (nested levels d).Within levels := by
  unfold nested
  split
  · trivial
  · exact h (by omega)

theorem within_ofPieces (n : Nat) (ps : List Piece) : (ofPieces ps).Within n := by
  unfold ofPieces
  split <;> trivial

theorem within_ofNumeral (n : Nat) (x : Numeral) : (ofNumeral x).Within n := by
  unfold ofNumeral
  split <;> trivial

mutual

/-- What is taken off a text stays within the levels that were left. -/
theorem within_scan : (fuel levels : Nat) → (cs : List Char) →
    (scan fuel levels cs).1.Within levels
  | 0, _, _ => trivial
  | fuel + 1, levels, cs => by
    rw [scan]
    split
    · trivial
    · trivial
    · trivial
    · split
      · exact within_ofPieces _ _
      · trivial
    · split
      · exact within_nested fun h => ⟨h, trivial⟩
      · exact within_nested fun h => ⟨h, within_scanItems fuel (levels - 1) _⟩
    · split
      · exact within_nested fun h => ⟨h, trivial⟩
      · exact within_nested fun h => ⟨h, within_scanFields fuel (levels - 1) _⟩
    · split
      · exact within_ofNumeral _ _
      · trivial

theorem within_scanItems : (fuel levels : Nat) → (cs : List Char) →
    WithinItems levels (scanItems fuel levels cs).1
  | 0, _, _ => trivial
  | fuel + 1, levels, cs => by
    have hd := within_scan fuel levels cs
    rw [scanItems]
    split
    · rename_i d hscan
      rw [hscan] at hd
      exact ⟨hd, trivial⟩
    · rename_i d rest hscan
      rw [hscan] at hd
      split
      · exact ⟨hd, within_scanItems fuel levels _⟩
      · exact ⟨hd, trivial⟩
      · exact ⟨hd, trivial⟩

theorem within_scanFields : (fuel levels : Nat) → (cs : List Char) →
    WithinFields levels (scanFields fuel levels cs).1
  | 0, _, _ => trivial
  | fuel + 1, levels, cs => by
    rw [scanFields]
    split
    · split
      · trivial
      · rename_i ps tail hpieces
        simp only
        split
        · rename_i rest hcolon
          have hd := within_scan fuel levels rest
          split
          · rename_i d hscan
            rw [hscan] at hd
            exact ⟨hd, trivial⟩
          · rename_i d rest hscan
            rw [hscan] at hd
            split
            · exact ⟨hd, within_scanFields fuel levels _⟩
            · exact ⟨hd, trivial⟩
            · exact ⟨hd, trivial⟩
        · exact ⟨trivial, trivial⟩
    · trivial

end

mutual

/-- A value is nested no deeper than its document. -/
theorem depth_of_within : (d : Document) → {n : Nat} → d.Within n → {v : Value} →
    d.toValue? = some v → v.depth ≤ n
  | .null, _, _, _, h | .bool _, _, _, _, h | .number _, _, _, _, h | .text _, _, _, _, h => by
    cases h
    exact Nat.zero_le _
  | .array items closed, n, hd, v, h => by
    obtain ⟨hn, hitems⟩ := hd
    cases hvs : toValues? items with
    | none => simp [toValue?, hvs] at h
    | some vs =>
      have hdepth := depthItems_of_within items hitems hvs
      simp only [toValue?, hvs, Option.bind_eq_bind, Option.bind_some,
        Option.ite_none_right_eq_some, Option.some.injEq] at h
      rw [← h.2, Value.depth]
      omega
  | .object fields closed, n, hd, v, h => by
    obtain ⟨hn, hfields⟩ := hd
    cases hfs : toFields? fields with
    | none => simp [toValue?, hfs] at h
    | some fs =>
      have hdepth := depthFields_of_within fields hfields hfs
      simp only [toValue?, hfs, Option.bind_eq_bind, Option.bind_some,
        Option.ite_none_right_eq_some, Option.some.injEq] at h
      rw [← h.2, Value.depth]
      omega
  | .unholdable _, _, _, _, h | .broken, _, _, _, h => by
    cases h

theorem depthItems_of_within : (ds : List Document) → {n : Nat} → WithinItems n ds →
    {vs : List Value} → toValues? ds = some vs → Value.depthItems vs ≤ n
  | [], n, _, vs, h => by
    cases h
    exact Nat.zero_le n
  | d :: ds, n, hds, vs, h => by
    cases hv : d.toValue? with
    | none => simp [toValues?, hv] at h
    | some v =>
      cases hvs : toValues? ds with
      | none => simp [toValues?, hv, hvs] at h
      | some vs' =>
        have hdepth := depth_of_within d hds.1 hv
        have hrest := depthItems_of_within ds hds.2 hvs
        simp only [toValues?, hv, hvs, Option.bind_eq_bind, Option.bind_some, Option.pure_def,
          Option.some.injEq] at h
        rw [← h, Value.depthItems]
        omega

theorem depthFields_of_within : (fields : List DocumentField) → {n : Nat} →
    WithinFields n fields → {fs : List (String × Value)} → toFields? fields = some fs →
    Value.depthFields fs ≤ n
  | [], n, _, fs, h => by
    cases h
    exact Nat.zero_le n
  | (none, _) :: _, _, _, _, h => by
    cases h
  | (some k, d) :: fields, n, hfields, fs, h => by
    cases hv : d.toValue? with
    | none => simp [toFields?, hv] at h
    | some v =>
      cases hfs : toFields? fields with
      | none => simp [toFields?, hv, hfs] at h
      | some fs' =>
        have hdepth := depth_of_within d hfields.1 hv
        have hrest := depthFields_of_within fields hfields.2 hfs
        simp only [toFields?, hv, hfs, Option.bind_eq_bind, Option.bind_some, Option.pure_def,
          Option.some.injEq] at h
        rw [← h, Value.depthFields]
        omega

end

theorem toValue?_of_readValue {d : Document} {v : Value} (h : d.readValue = .ok v) :
    d.toValue? = some v := by
  unfold readValue at h
  split at h
  · cases h
    assumption
  · cases h

theorem depth_of_readPayload {d : Document} {n : Nat} {p : Payload} (hd : d.Within n)
    (h : d.readPayload = .ok p) : p.value.depth ≤ n := by
  obtain ⟨v, hv, rfl⟩ := map_eq_ok_iff.mp h
  have hdepth := depth_of_within d hd (toValue?_of_readValue hv)
  exact Nat.le_trans v.depth_sorted_le hdepth

/-- Every item of a list is read of a document with one level less. -/
theorem exists_of_mem_readList {α : Type} {read : Document → Except ReadError α} {d : Document}
    {n : Nat} {xs : List α} {x : α} (hd : d.Within n) (h : readList read d = .ok xs)
    (hx : x ∈ xs) : ∃ d', d'.Within (n - 1) ∧ read d' = .ok x := by
  cases d with
  | array items closed =>
    cases closed with
    | false => exact absurd h (readList_unclosed items xs)
    | true =>
      rw [readList_array] at h
      obtain ⟨d', hd', hread⟩ := exists_of_mem_readAll h hx
      exact ⟨d', withinItems_iff.mp hd.2 d' hd', hread⟩
  | _ => cases h

end Document

namespace Members

/-- Every member counts as its default or is read of a document with one level less. -/
def ReadWithin (n : Nat) : {ρ : Type} → Members ρ → ρ → Prop
  | _, .nil, _ => True
  | _, .cons m rest, r =>
    (m.absent = .ok r.1 ∨ ∃ d, d.Within (n - 1) ∧ m.read d = .ok r.1) ∧ rest.ReadWithin n r.2

theorem readWithin_of_holds {ρ : Type} {ms : Members ρ} {n : Nat} {fields : List DocumentField}
    {r : ρ} (hfields : ∀ f ∈ fields, f.2.Within (n - 1)) (h : ms.Holds fields r) :
    ms.ReadWithin n r := by
  induction ms generalizing fields with
  | nil => trivial
  | cons m rest ih =>
    refine ⟨?_, ih (fun f hf => hfields f (List.mem_filter.mp hf).1) h.2⟩
    have hhits := h.1
    match hfilter : fields.filter m.owns, hhits with
    | [], hhits => exact Or.inl hhits
    | [f], hhits =>
      have hf : f ∈ fields.filter m.owns := by rw [hfilter]; exact .head _
      exact Or.inr ⟨f.2, hfields f (List.mem_filter.mp hf).1, hhits⟩

theorem readWithin_of_readItems {ρ : Type} {ms : Members ρ} {n : Nat} {items : List Document}
    {closed : Bool} {r : ρ} (hitems : ∀ d ∈ items, d.Within (n - 1))
    (h : ms.readItems items closed = .ok r) : ms.ReadWithin n r := by
  induction ms generalizing items with
  | nil => trivial
  | cons m rest ih =>
    cases items with
    | nil =>
      obtain ⟨-, habsent, hrest⟩ := readItems_nil_eq_ok_iff.mp h
      exact ⟨Or.inl habsent, ih (List.forall_mem_nil _) hrest⟩
    | cons d items =>
      rw [List.forall_mem_cons] at hitems
      obtain ⟨hm, hrest⟩ := readItems_cons_eq_ok_iff.mp h
      exact ⟨Or.inr ⟨d, hitems.1, hm⟩, ih hitems.2 hrest⟩

/-- Where the members of a record are read of. -/
theorem readWithin {ρ : Type} {ms : Members ρ} {n : Nat} {d : Document} {r : ρ} (hd : d.Within n)
    (h : ms.read d = .ok r) : ms.ReadWithin n r := by
  cases d with
  | object fields closed =>
    cases closed with
    | false => exact absurd h (read_object_unclosed ms fields r)
    | true =>
      exact readWithin_of_holds (Document.withinFields_iff.mp hd.2)
        ((read_object_eq_ok_iff ms fields r).mp h)
  | array items closed => exact readWithin_of_readItems (Document.withinItems_iff.mp hd.2) h
  | _ => cases h

end Members

/-- A text that is read with some levels is read of a document within them. -/
theorem exists_of_readTextWith {α : Type} {levels : Nat} {read : Document → Except ReadError α}
    {text : String} {x : α} (h : readTextWith levels read text = .ok x) :
    ∃ d, d.Within levels ∧ read d = .ok x := by
  obtain ⟨d, htext, hread⟩ := readTextWith_eq_ok_iff.mp h
  have hwithin := Document.within_scan (2 * text.toList.length + 2) levels text.toList
  rw [Document.ofText?, Document.take] at htext
  generalize Document.scan (2 * text.toList.length + 2) levels text.toList = taken at htext hwithin
  obtain ⟨d', _ | rest⟩ := taken
  · cases htext
  · obtain ⟨-, hd⟩ := Option.ite_none_right_eq_some.mp htext
    cases hd
    exact ⟨d, hwithin, hread⟩

end TxReceipt.Json
