import TxReceipt.Proofs.Except
import TxReceipt.Proofs.Json.Numeral
import TxReceipt.Proofs.Json.Quoted
import TxReceipt.Proofs.Json.Spelling

/-!
# Reading spellings

A spelling is taken off the front of a text as the document of its value, where the value is nested
no deeper than the levels that are left and the text goes on with nothing that could belong to a
numeral. So a reader of whole texts does with a layout of a value what it does with the value.
-/

namespace TxReceipt.Json

theorem skipSpace_append {gap : List Char} (h : Blank gap) (cs : List Char) :
    skipSpace (gap ++ cs) = skipSpace cs :=
  List.dropWhile_append_of_pos h

theorem skipSpace_cons {c : Char} (h : isSpace c = false) (cs : List Char) :
    skipSpace (c :: cs) = c :: cs :=
  List.dropWhile_cons_of_neg (by simp [h])

theorem skipSpace_skipSpace (cs : List Char) : skipSpace (skipSpace cs) = skipSpace cs := by
  induction cs with
  | nil => rfl
  | cons c cs ih =>
    cases hc : isSpace c with
    | false => rw [skipSpace_cons hc, skipSpace_cons hc]
    | true =>
      have hskip : skipSpace (c :: cs) = skipSpace cs := List.dropWhile_cons_of_pos hc
      rw [hskip, ih]

theorem skipSpace_quoted {gap : List Char} (h : Blank gap) (s : String) (cs : List Char) :
    skipSpace (gap ++ quoted s ++ cs) = '"' :: (s.toList.flatMap escapeChar ++ '"' :: cs) := by
  simp [quoted, skipSpace_append h, skipSpace_cons (c := '"') rfl]

theorem commaSeparated_singleton (part : List Char) : commaSeparated [part] = part := by
  simp [commaSeparated, List.intercalate, List.intersperse]

theorem commaSeparated_cons (part : List Char) {parts : List (List Char)} (h : parts ≠ []) :
    commaSeparated (part :: parts) = part ++ ',' :: commaSeparated parts := by
  cases parts with
  | nil => exact absurd rfl h
  | cons _ _ => simp [commaSeparated, List.intercalate, List.intersperse]

/-- Written parts start as the first part does. -/
theorem exists_commaSeparated_cons (part : List Char) (parts : List (List Char)) :
    ∃ tail, commaSeparated (part :: parts) = part ++ tail := by
  by_cases h : parts = []
  · subst h
    exact ⟨[], by rw [commaSeparated_singleton, List.append_nil]⟩
  · exact ⟨_, commaSeparated_cons part h⟩

theorem endsNumeral_blank_append {gap : List Char} (hgap : Blank gap) {c : Char} {cs : List Char}
    (h : EndsNumeral (c :: cs)) : EndsNumeral (gap ++ c :: cs) := by
  cases gap with
  | nil => exact h
  | cons d gap =>
    apply endsNumeral_cons
    have hd := hgap d (.head _)
    simp only [isSpace, Bool.or_eq_true, beq_iff_eq] at hd
    rcases hd with ((rfl | rfl) | rfl) | rfl <;> decide

namespace Document

variable {fuel levels : Nat}

theorem scan_skipSpace (cs : List Char) :
    scan fuel levels (skipSpace cs) = scan fuel levels cs := by
  cases fuel with
  | zero => rfl
  | succ fuel => simp only [scan, skipSpace_skipSpace]

theorem scan_append {gap : List Char} (h : Blank gap) (cs : List Char) :
    scan fuel levels (gap ++ cs) = scan fuel levels cs := by
  rw [← scan_skipSpace, skipSpace_append h, scan_skipSpace]

theorem scanItems_skipSpace (cs : List Char) :
    scanItems fuel levels (skipSpace cs) = scanItems fuel levels cs := by
  cases fuel with
  | zero => rfl
  | succ fuel => simp only [scanItems, scan_skipSpace]

theorem scanFields_skipSpace (cs : List Char) :
    scanFields fuel levels (skipSpace cs) = scanFields fuel levels cs := by
  cases fuel with
  | zero => rfl
  | succ fuel => simp only [scanFields, skipSpace_skipSpace]

theorem scan_quoted (s : String) (rest : List Char) :
    scan (fuel + 1) levels (quoted s ++ rest) = (.text s, some rest) := by
  have hpieces := scanPieces?_quoted s.toList rest
  have hskip := skipSpace_quoted blank_nil s rest
  rw [List.nil_append] at hskip
  simp only [scan, hskip, hpieces, ofPieces, textOfPieces?_pieceOf]

theorem scan_intChars (n : Int) (fits : -9223372036854775808 ≤ n ∧ n < 18446744073709551616)
    {rest : List Char} (hrest : EndsNumeral rest) :
    scan (fuel + 1) levels (Text.intChars n ++ rest) = (.number (.int n fits), some rest) := by
  have hscan := Numeral.scan?_intChars n hrest
  obtain ⟨c, cs, hcs, hc⟩ := Text.exists_head_intChars n
  have hspace : isSpace c = false := by
    rcases hc with hc | rfl
    · exact Value.isSpace_of_isDigit hc
    · rfl
  have hne : ∀ d, Text.isDigit d = false → d ≠ '-' → c ≠ d := by
    rintro d hd hminus rfl
    rcases hc with hc | hc
    · exact absurd hc (by simp [hd])
    · exact hminus hc
  rw [hcs, List.cons_append] at hscan ⊢
  rw [scan, skipSpace_cons hspace]
  split
  · rename_i h
    exact absurd (List.cons.inj h).1 (hne 'n' rfl (by decide))
  · rename_i h
    exact absurd (List.cons.inj h).1 (hne 't' rfl (by decide))
  · rename_i h
    exact absurd (List.cons.inj h).1 (hne 'f' rfl (by decide))
  · rename_i h
    exact absurd (List.cons.inj h).1 (hne '"' rfl (by decide))
  · rename_i h
    exact absurd (List.cons.inj h).1 (hne '[' rfl (by decide))
  · rename_i h
    exact absurd (List.cons.inj h).1 (hne '{' rfl (by decide))
  · rw [hscan]
    simp only [ofNumeral, Numeral.toNumber?_ofInt n fits]

theorem scan_array_nil {gap : List Char} (hgap : Blank gap) (hlevels : 0 < levels)
    (rest : List Char) :
    scan (fuel + 1) levels ('[' :: (gap ++ ']' :: rest)) = (.array [] true, some rest) := by
  have hnested : nested levels (.array [] true) = .array [] true := if_neg (by omega)
  rw [scan, skipSpace_cons rfl]
  simp only [skipSpace_append hgap, skipSpace_cons (c := ']') rfl, hnested]

theorem scan_object_nil {gap : List Char} (hgap : Blank gap) (hlevels : 0 < levels)
    (rest : List Char) :
    scan (fuel + 1) levels ('{' :: (gap ++ '}' :: rest)) = (.object [] true, some rest) := by
  have hnested : nested levels (.object [] true) = .object [] true := if_neg (by omega)
  rw [scan, skipSpace_cons rfl]
  simp only [skipSpace_append hgap, skipSpace_cons (c := '}') rfl, hnested]

theorem scan_array {cs rest : List Char} {items : List Document} (hlevels : 0 < levels)
    (hopen : ∀ ds, skipSpace cs ≠ ']' :: ds)
    (h : scanItems fuel (levels - 1) cs = (items, some rest)) :
    scan (fuel + 1) levels ('[' :: cs) = (.array items true, some rest) := by
  have hnested : nested levels (.array items true) = .array items true :=
    if_neg (by omega)
  rw [scan, skipSpace_cons rfl]
  -- the first case of the match, an empty container, is excluded by `hopen`
  simp only [scanItems_skipSpace, h, Option.isSome_some, hnested]

theorem scan_object {cs rest : List Char} {fields : List (Option String × Document)}
    (hlevels : 0 < levels) (hopen : ∀ ds, skipSpace cs ≠ '}' :: ds)
    (h : scanFields fuel (levels - 1) cs = (fields, some rest)) :
    scan (fuel + 1) levels ('{' :: cs) = (.object fields true, some rest) := by
  have hnested : nested levels (.object fields true) = .object fields true :=
    if_neg (by omega)
  rw [scan, skipSpace_cons rfl]
  -- the first case of the match, an empty container, is excluded by `hopen`
  simp only [scanFields_skipSpace, h, Option.isSome_some, hnested]

theorem scanItems_last {cs gap rest : List Char} {d : Document} (hgap : Blank gap)
    (h : scan fuel levels cs = (d, some (gap ++ ']' :: rest))) :
    scanItems (fuel + 1) levels cs = ([d], some rest) := by
  simp only [scanItems, h, skipSpace_append hgap, skipSpace_cons (c := ']') rfl]

theorem scanItems_more {cs tail rest : List Char} {d : Document} {ds : List Document}
    (h : scan fuel levels cs = (d, some (',' :: tail)))
    (htail : scanItems fuel levels tail = (ds, some rest)) :
    scanItems (fuel + 1) levels cs = (d :: ds, some rest) := by
  simp only [scanItems, h, skipSpace_cons (c := ',') rfl, htail]

theorem scanFields_last {k : String} {gap gap' cs rest : List Char} {d : Document}
    (hgap : Blank gap) (hgap' : Blank gap')
    (h : scan fuel levels cs = (d, some (gap' ++ '}' :: rest))) :
    scanFields (fuel + 1) levels (gap ++ quoted k ++ ':' :: cs) = ([(some k, d)], some rest) := by
  have hpieces := scanPieces?_quoted k.toList (':' :: cs)
  have hskip := skipSpace_quoted hgap k (':' :: cs)
  simp only [scanFields, hskip, hpieces, textOfPieces?_pieceOf, skipSpace_cons (c := ':') rfl, h,
    skipSpace_append hgap', skipSpace_cons (c := '}') rfl]

theorem scanFields_more {k : String} {gap cs tail rest : List Char} {d : Document}
    {fs : List (Option String × Document)} (hgap : Blank gap)
    (h : scan fuel levels cs = (d, some (',' :: tail)))
    (htail : scanFields fuel levels tail = (fs, some rest)) :
    scanFields (fuel + 1) levels (gap ++ quoted k ++ ':' :: cs) =
      ((some k, d) :: fs, some rest) := by
  have hpieces := scanPieces?_quoted k.toList (':' :: cs)
  have hskip := skipSpace_quoted hgap k (':' :: cs)
  simp only [scanFields, hskip, hpieces, textOfPieces?_pieceOf, skipSpace_cons (c := ':') rfl, h,
    skipSpace_cons (c := ',') rfl, htail]

open Value

theorem skipSpace_items_ne {items : List Value} {parts : List (List Char)}
    (h : ItemSpellings items parts) (hne : items ≠ []) (rest ds : List Char) :
    skipSpace (commaSeparated parts ++ rest) ≠ ']' :: ds := by
  cases h with
  | nil => exact absurd rfl hne
  | @cons _ _ gap cs parts hgap hv hvs =>
    obtain ⟨c, cs, rfl, hspace, hbracket⟩ := hv.exists_head
    obtain ⟨tail, htail⟩ := exists_commaSeparated_cons (gap ++ c :: cs) parts
    rw [htail, List.append_assoc, List.append_assoc, skipSpace_append hgap, List.cons_append,
      skipSpace_cons hspace]
    intro h
    exact hbracket (List.cons.inj h).1

theorem skipSpace_fields_ne {fields : List (String × Value)} {parts : List (List Char)}
    (h : FieldSpellings fields parts) (hne : fields ≠ []) (rest ds : List Char) :
    skipSpace (commaSeparated parts ++ rest) ≠ '}' :: ds := by
  cases h with
  | nil => exact absurd rfl hne
  | @cons k _ _ gap gap' cs parts hgap _ hv hfs =>
    obtain ⟨tail, htail⟩ :=
      exists_commaSeparated_cons (gap ++ quoted k ++ ':' :: (gap' ++ cs)) parts
    rw [htail, List.append_assoc, List.append_assoc (gap ++ quoted k), skipSpace_quoted hgap]
    intro h
    exact absurd (List.cons.inj h).1 (by decide)

mutual

/-- A spelling is taken off the front of a text as the document of its value. Each character costs
at most two calls. -/
theorem scan_of_spelling (v : Value) {cs : List Char} (h : Spelling v cs) {fuel levels : Nat}
    {rest : List Char} (hdepth : v.depth ≤ levels) (hfuel : 2 * cs.length ≤ fuel)
    (hrest : EndsNumeral rest) : scan fuel levels (cs ++ rest) = (v.toDocument, some rest) := by
  obtain ⟨fuel, rfl⟩ : ∃ n, fuel = n + 1 := by
    obtain ⟨c, ds, rfl, -⟩ := h.exists_head
    rw [List.length_cons] at hfuel
    exact ⟨fuel - 1, by omega⟩
  cases v with
  | null => cases h; rfl
  | bool b => cases h; cases b <;> rfl
  | number n => cases h with
    | int n fits => exact scan_intChars n fits hrest
  | text s => cases h; exact scan_quoted s rest
  | array items => cases h with
    | @array _ parts gap hitems hgap =>
      simp only [depth] at hdepth
      simp only [List.length_append, List.length_cons, List.cons_append] at hfuel
      have happend : '[' :: commaSeparated parts ++ gap ++ [']'] ++ rest =
          '[' :: (commaSeparated parts ++ (gap ++ ']' :: rest)) := by simp
      rw [happend]
      by_cases hne : items = []
      · subst hne
        cases hitems
        exact scan_array_nil hgap (by omega) rest
      · refine scan_array (by omega) (skipSpace_items_ne hitems hne _) ?_
        exact scanItems_of_spellings items hitems hne (by omega) (by omega) hgap
  | object fields => cases h with
    | @object _ parts gap hfields hgap =>
      simp only [depth] at hdepth
      simp only [List.length_append, List.length_cons, List.cons_append] at hfuel
      have happend : '{' :: commaSeparated parts ++ gap ++ ['}'] ++ rest =
          '{' :: (commaSeparated parts ++ (gap ++ '}' :: rest)) := by simp
      rw [happend]
      by_cases hne : fields = []
      · subst hne
        cases hfields
        exact scan_object_nil hgap (by omega) rest
      · refine scan_object (by omega) (skipSpace_fields_ne hfields hne _) ?_
        exact scanFields_of_spellings fields hfields hne (by omega) (by omega) hgap
termination_by structural v

theorem scanItems_of_spellings (items : List Value) {parts : List (List Char)}
    (h : ItemSpellings items parts) (hne : items ≠ []) {fuel levels : Nat} {gap rest : List Char}
    (hdepth : depthItems items ≤ levels) (hfuel : 2 * (commaSeparated parts).length + 1 ≤ fuel)
    (hgap : Blank gap) :
    scanItems fuel levels (commaSeparated parts ++ (gap ++ ']' :: rest)) =
      (documentItems items, some rest) := by
  obtain ⟨fuel, rfl⟩ : ∃ n, fuel = n + 1 := ⟨fuel - 1, by omega⟩
  cases items with
  | nil => exact absurd rfl hne
  | cons v vs => cases h with
    | @cons _ _ gap' cs parts hgap' hv hvs =>
      simp only [depthItems] at hdepth
      by_cases hnil : vs = []
      · subst hnil
        cases hvs
        rw [commaSeparated_singleton, List.length_append] at hfuel
        rw [commaSeparated_singleton]
        -- the last item: blanks and the bracket follow it, which end a numeral
        apply scanItems_last hgap
        rw [List.append_assoc, scan_append hgap']
        exact scan_of_spelling v hv (by omega) (by omega)
          (endsNumeral_blank_append hgap (endsNumeral_cons (by decide)))
      · have hparts := commaSeparated_cons (gap' ++ cs) (hvs.ne_nil hnil)
        rw [hparts, List.length_append, List.length_append, List.length_cons] at hfuel
        rw [hparts]
        refine scanItems_more ?_ (scanItems_of_spellings vs hvs hnil (by omega) (by omega) hgap)
        rw [List.append_assoc, List.append_assoc, scan_append hgap', List.cons_append]
        exact scan_of_spelling v hv (by omega) (by omega) (endsNumeral_cons (by decide))
termination_by structural items

theorem scanFields_of_spellings (fields : List (String × Value)) {parts : List (List Char)}
    (h : FieldSpellings fields parts) (hne : fields ≠ []) {fuel levels : Nat}
    {gap rest : List Char} (hdepth : depthFields fields ≤ levels)
    (hfuel : 2 * (commaSeparated parts).length + 1 ≤ fuel) (hgap : Blank gap) :
    scanFields fuel levels (commaSeparated parts ++ (gap ++ '}' :: rest)) =
      (documentFields fields, some rest) := by
  obtain ⟨fuel, rfl⟩ : ∃ n, fuel = n + 1 := ⟨fuel - 1, by omega⟩
  cases fields with
  | nil => exact absurd rfl hne
  | cons f fs => cases f with | mk k v => cases h with
    | @cons _ _ _ gap' gap'' cs parts hgap' hgap'' hv hfs =>
      simp only [depthFields] at hdepth
      by_cases hnil : fs = []
      · subst hnil
        cases hfs
        rw [commaSeparated_singleton] at hfuel ⊢
        simp only [List.length_append, List.length_cons] at hfuel
        rw [List.append_assoc (gap' ++ quoted k), List.cons_append]
        apply scanFields_last hgap' hgap
        rw [List.append_assoc, scan_append hgap'']
        exact scan_of_spelling v hv (by omega) (by omega)
          (endsNumeral_blank_append hgap (endsNumeral_cons (by decide)))
      · have hparts := commaSeparated_cons (gap' ++ quoted k ++ ':' :: (gap'' ++ cs))
          (hfs.ne_nil hnil)
        rw [hparts] at hfuel ⊢
        simp only [List.length_append, List.length_cons] at hfuel
        rw [List.append_assoc, List.append_assoc (gap' ++ quoted k), List.cons_append]
        refine scanFields_more hgap' ?_
          (scanFields_of_spellings fs hfs hnil (by omega) (by omega) hgap)
        rw [List.append_assoc, scan_append hgap'', List.cons_append]
        exact scan_of_spelling v hv (by omega) (by omega) (endsNumeral_cons (by decide))
termination_by structural fields

end

theorem take_of_spelling {v : Value} {cs rest : List Char} {levels : Nat} (h : Spelling v cs)
    (hdepth : v.depth ≤ levels) (hrest : EndsNumeral rest) :
    take levels (cs ++ rest) = (v.toDocument, some rest) := by
  apply scan_of_spelling v h hdepth _ hrest
  rw [List.length_append]
  omega

/-- The document of a whole text, after which there is only space. -/
def ofText? (levels : Nat) (text : String) : Option Document :=
  match take levels text.toList with
  | (d, some rest) => if (skipSpace rest).isEmpty then some d else none
  | (_, none) => none

end Document

/-- A text is read if it is a document that is read. -/
theorem readTextWith_eq_ok_iff {α : Type} {levels : Nat} {read : Document → Except ReadError α}
    {text : String} {x : α} :
    readTextWith levels read text = .ok x ↔
      ∃ d, Document.ofText? levels text = some d ∧ read d = .ok x := by
  rw [readTextWith, Document.ofText?]
  obtain ⟨d, rest?⟩ := Document.take levels text.toList
  simp only [bind_eq_ok_iff]
  cases rest? with
  | none => simp
  | some rest =>
    cases hend : (skipSpace rest).isEmpty with
    | false => simp [hend]
    | true => simp [hend]

/-- The document of a spelling of a value is the document of the value. -/
theorem Document.ofText?_of_spelling {v : Value} {cs : List Char} {levels : Nat}
    (h : Value.Spelling v cs) (hdepth : v.depth ≤ levels) :
    ofText? levels (String.ofList cs) = some v.toDocument := by
  have htake := take_of_spelling h hdepth endsNumeral_nil
  rw [List.append_nil] at htake
  rw [ofText?, String.toList_ofList, htake]
  rfl

/-- Reading a spelling of a value is reading the value. -/
theorem readTextWith_of_spelling {α : Type} (read : Document → Except ReadError α) {v : Value}
    {cs : List Char} {levels : Nat} (h : Value.Spelling v cs) (hdepth : v.depth ≤ levels) :
    readTextWith levels read (String.ofList cs) = read v.toDocument := by
  have htake := Document.take_of_spelling h hdepth endsNumeral_nil
  rw [List.append_nil] at htake
  rw [readTextWith, String.toList_ofList, htake]
  cases hread : read v.toDocument with
  | error e => simp [hread, bind, Except.bind]
  | ok x => simp [hread, bind, Except.bind, skipSpace]

theorem readTextWith_compact {α : Type} (read : Document → Except ReadError α) {v : Value}
    {levels : Nat} (hfloat : v.FloatFree) (hdepth : v.depth ≤ levels) :
    readTextWith levels read v.compact = read v.toDocument :=
  readTextWith_of_spelling read (v.spelling_compactChars hfloat) hdepth

theorem readTextWith_indented {α : Type} (read : Document → Except ReadError α) {v : Value}
    {levels : Nat} (hfloat : v.FloatFree) (hdepth : v.depth ≤ levels) :
    readTextWith levels read v.indented = read v.toDocument :=
  readTextWith_of_spelling read (v.spelling_indentedChars hfloat 0) hdepth

end TxReceipt.Json
