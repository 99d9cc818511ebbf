import TxReceipt.Proofs.Lists
import TxReceipt.Settings.Yaml.Quoted

/-!
# Texts between double quotes

Any text can stand between double quotes on one line: `quoted` escapes the quote, the backslash, the
ends of lines and NUL, and leaves all else as it is, blanks included. `takeQuoted?_quoted` says that
what is read of it is the text.
-/

namespace TxReceipt.Settings.Yaml

namespace Cursor

/-- The second place stands further on in the line of the first one, before some characters. -/
structure Ahead (p q : Cursor) (cs : List Char) : Prop where
  rest : q.rest = cs
  line : q.line = p.line
  column : p.column ≤ q.column

variable {p q r : Cursor} {cs cs' : List Char} {c : Char}

theorem Ahead.trans (h : Ahead p q cs) (h' : Ahead q r cs') : Ahead p r cs' :=
  ⟨h'.rest, h'.line.trans h.line, Nat.le_trans h.column h'.column⟩

theorem next_eq (hrest : p.rest = c :: cs) (hc : isBreak c = false) :
    p.next = ⟨cs, p.line, p.column + 1, p.offset + 1, p.isFresh && isGap c⟩ := by
  have hreturn : c ≠ '\r' := by
    rintro rfl
    cases hc
  rw [next, hrest]
  split
  · rename_i h
    cases h
  · rename_i h
    exact absurd (List.cons.inj h).1 hreturn
  · rename_i h
    obtain ⟨rfl, rfl⟩ := List.cons.inj h
    rw [hc]
    rfl

theorem ahead_next (hrest : p.rest = c :: cs) (hc : isBreak c = false) : Ahead p p.next cs := by
  rw [next_eq hrest hc]
  exact ⟨rfl, rfl, Nat.le_succ _⟩

theorem ahead_advance {front : List Char} (hrest : p.rest = front ++ cs)
    (hfront : ∀ c ∈ front, isBreak c = false) : Ahead p (advance front.length p) cs := by
  induction front generalizing p with
  | nil => exact ⟨hrest, rfl, Nat.le_refl _⟩
  | cons c front ih =>
    obtain ⟨hc, hfront⟩ := List.forall_mem_cons.mp hfront
    have hnext := ahead_next hrest hc
    exact hnext.trans (ih hnext.rest hfront)

theorem span_append {holds : Char → Bool} {front : List Char} (hrest : p.rest = front ++ cs)
    (hfront : ∀ c ∈ front, holds c = true ∧ isBreak c = false)
    (hhead : ∀ c ∈ cs.head?, holds c = false) :
    ∃ q, p.span holds = (front, q) ∧ Ahead p q cs := by
  have htake := (Lists.takeWhile_dropWhile_append (fun c hc => (hfront c hc).1) hhead).1
  refine ⟨advance front.length p, ?_, ahead_advance hrest fun c hc => (hfront c hc).2⟩
  rw [span, hrest, htake]

end Cursor

open Cursor (Ahead ahead_next span_append)

variable {p : Cursor} {c e : Char} {cs rest : List Char}

/-- The letter that stands behind a backslash for a character that cannot stand for itself. -/
def escapeLetter? : Char → Option Char
  | '"' => some '"'
  | '\\' => some '\\'
  | '\n' => some 'n'
  | '\r' => some 'r'
  | '\x00' => some '0'
  | _ => none

def quotedChar (c : Char) : List Char :=
  match escapeLetter? c with
  | some e => ['\\', e]
  | none => [c]

def quoted (cs : List Char) : List Char :=
  cs.flatMap quotedChar

theorem takeEscape?_of_escapeLetter? (he : escapeLetter? c = some e) (hrest : p.rest = e :: cs) :
    ∃ q, takeEscape? p = some (c, q) ∧ Ahead p q cs := by
  have hbreak : isBreak e = false ∧ takeEscape? p = some (c, p.next) := by
    rw [takeEscape?, hrest]
    rw [escapeLetter?.eq_def] at he
    split at he <;> cases he <;> exact ⟨rfl, rfl⟩
  exact ⟨p.next, hbreak.2, ahead_next hrest hbreak.1⟩

theorem not_isBreak_of_escapeLetter? (he : escapeLetter? c = some e) : isBreak e = false := by
  rw [escapeLetter?.eq_def] at he
  split at he <;> cases he <;> rfl

/-- A character without an escape stands for itself. -/
theorem stands_of_escapeLetter? (hc : escapeLetter? c = none) :
    c ≠ '"' ∧ c ≠ '\\' ∧ isBreak c = false ∧ c ≠ '\x00' := by
  refine ⟨?_, ?_, ?_, ?_⟩
  · rintro rfl
    cases hc
  · rintro rfl
    cases hc
  · rw [isBreak, Bool.or_eq_false_iff, beq_eq_false_iff_ne, beq_eq_false_iff_ne]
    constructor <;> rintro rfl <;> cases hc
  · rintro rfl
    cases hc

theorem not_mem_quoted (cs : List Char) : '\x00' ∉ quoted cs := by
  intro h
  obtain ⟨c, -, hc⟩ := List.mem_flatMap.mp h
  rw [quotedChar] at hc
  cases he : escapeLetter? c with
  | none =>
    rw [he, List.mem_singleton] at hc
    exact (stands_of_escapeLetter? he).2.2.2 hc.symm
  | some e =>
    rw [he] at hc
    rw [escapeLetter?.eq_def] at he
    split at he <;> cases he <;> revert hc <;> decide

/-- A word of a quoted text ends at a blank or at the closing quote. -/
def EndsQuotedWord (cs : List Char) : Prop :=
  ∃ c cs', cs = c :: cs' ∧ (isGap c = true ∨ c = '"')

theorem takeQuotedWord?_of_ends {fuel : Nat} (hends : EndsQuotedWord p.rest) :
    takeQuotedWord? '"' (fuel + 1) p = some ([], false, p) := by
  obtain ⟨c, cs, hrest, hc⟩ := hends
  simp only [takeQuotedWord?, hrest]
  rcases hc with hgap | rfl
  · rw [hgap]
    rfl
  · rfl

/-- One character of a word is read as it is, or off its escape. -/
theorem takeQuotedWord?_quotedChar {fuel : Nat} (hrest : p.rest = quotedChar c ++ cs)
    (hc : isGap c = false) : ∃ q, Ahead p q cs ∧ takeQuotedWord? '"' (fuel + 1) p =
      (takeQuotedWord? '"' fuel q).map fun r => (c :: r.1, r.2) := by
  rw [quotedChar] at hrest
  cases he : escapeLetter? c with
  | none =>
    rw [he, List.singleton_append] at hrest
    obtain ⟨hquote, hbackslash, hbreak, -⟩ := stands_of_escapeLetter? he
    refine ⟨p.next, ahead_next hrest hbreak, ?_⟩
    simp only [takeQuotedWord?, hrest, hc, hbreak, beq_eq_false_iff_ne.mpr hquote,
      beq_eq_false_iff_ne.mpr hbackslash, Bool.or_self, Bool.and_false, Bool.false_eq_true,
      if_false]
  | some e =>
    have hrest : p.rest = '\\' :: e :: cs := by
      rw [hrest, he]
      rfl
    have hbackslash := ahead_next hrest rfl
    obtain ⟨q, htake, hq⟩ := takeEscape?_of_escapeLetter? he hbackslash.rest
    have hletter : (e :: cs).head?.any isBreak = false := not_isBreak_of_escapeLetter? he
    have hstep : takeQuotedWord? '"' (fuel + 1) p = (takeEscape? p.next).bind fun e =>
        (takeQuotedWord? '"' fuel e.2).bind fun r => some (e.1 :: r.1, r.2) := by
      simp only [takeQuotedWord?, hrest, hletter]
      rfl
    refine ⟨q, hbackslash.trans hq, ?_⟩
    rw [hstep, htake]
    rw [Option.map_eq_bind]
    rfl

theorem takeQuotedWord?_quoted {word : List Char} {fuel : Nat}
    (hrest : p.rest = quoted word ++ rest) (hword : ∀ c ∈ word, isGap c = false)
    (hends : EndsQuotedWord rest) (hfuel : word.length < fuel) :
    ∃ q, takeQuotedWord? '"' fuel p = some (word, false, q) ∧ Ahead p q rest := by
  induction word generalizing p fuel with
  | nil =>
    obtain ⟨fuel, rfl⟩ := Nat.exists_eq_succ_of_ne_zero (Nat.ne_of_gt hfuel)
    have hrest' : p.rest = rest := hrest
    exact ⟨p, takeQuotedWord?_of_ends (hrest' ▸ hends), hrest', rfl, Nat.le_refl _⟩
  | cons c word ih =>
    obtain ⟨fuel, rfl⟩ := Nat.exists_eq_succ_of_ne_zero (Nat.ne_zero_of_lt hfuel)
    obtain ⟨hc, hword⟩ := List.forall_mem_cons.mp hword
    rw [quoted, List.flatMap_cons, List.append_assoc] at hrest
    obtain ⟨q, hq, htake⟩ := takeQuotedWord?_quotedChar hrest hc
    obtain ⟨r, hrun, hr⟩ := ih hq.rest hword (Nat.lt_of_succ_lt_succ hfuel)
    refine ⟨r, ?_, hq.trans hr⟩
    rw [htake, hrun]
    rfl

theorem length_le_length_quoted (cs : List Char) : cs.length ≤ (quoted cs).length := by
  induction cs with
  | nil => exact Nat.le_refl _
  | cons c cs ih =>
    have hchar : 1 ≤ (quotedChar c).length := by
      rw [quotedChar]
      split <;> exact Nat.le_add_left 1 _
    rw [quoted, List.flatMap_cons, List.length_append, List.length_cons, Nat.add_comm]
    exact Nat.add_le_add hchar ih

theorem quotedChar_of_isGap (hc : isGap c = true) : quotedChar c = [c] := by
  rw [isGap, Bool.or_eq_true, beq_iff_eq, beq_iff_eq] at hc
  rcases hc with rfl | rfl <;> rfl

theorem not_isBreak_of_isGap (hc : isGap c = true) : isBreak c = false := by
  rw [isGap, Bool.or_eq_true, beq_iff_eq, beq_iff_eq] at hc
  rcases hc with rfl | rfl <;> rfl

theorem quoted_of_isGap {gap : List Char} (hgap : ∀ c ∈ gap, isGap c = true) :
    quoted gap = gap := by
  induction gap with
  | nil => rfl
  | cons c gap ih =>
    obtain ⟨hc, hgap⟩ := List.forall_mem_cons.mp hgap
    rw [quoted, List.flatMap_cons, quotedChar_of_isGap hc]
    exact congrArg (c :: ·) (ih hgap)

theorem quoted_append (cs cs' : List Char) : quoted (cs ++ cs') = quoted cs ++ quoted cs' :=
  List.flatMap_append

/-- Behind the blanks between two words neither a blank nor a line's end follows. -/
theorem head_quoted {tail : List Char} (htail : ∀ c ∈ tail.head?, isGap c = false) :
    ∃ c cs, quoted tail ++ '"' :: rest = c :: cs ∧ isGap c = false ∧ isBreak c = false := by
  cases tail with
  | nil => exact ⟨'"', rest, rfl, rfl, rfl⟩
  | cons c tail =>
    have hc : isGap c = false := htail c rfl
    rw [quoted, List.flatMap_cons, quotedChar]
    cases he : escapeLetter? c with
    | none => exact ⟨c, _, rfl, hc, (stands_of_escapeLetter? he).2.2.1⟩
    | some e => exact ⟨'\\', _, rfl, rfl, rfl⟩

theorem skipFold?_of_head {least : Int} {onTab : Cursor → Option Cursor} (hrest : p.rest = c :: cs)
    (hgap : isGap c = false) (hbreak : isBreak c = false) :
    p.skipFold? least onTab p.fuel = some (0, p) := by
  have htab : (c == '\t') = false := by
    rw [isGap, Bool.or_eq_false_iff] at hgap
    exact hgap.2
  rw [Cursor.fuel, Cursor.skipFold?, hrest]
  simp only [htab, hgap, hbreak, Bool.false_and, Bool.false_eq_true, if_false]

/-- A text is a word, the blanks behind it and a rest that goes on with another word. -/
theorem exists_cut (cs : List Char) : ∃ word gap tail, cs = word ++ (gap ++ tail) ∧
    (∀ c ∈ word, isGap c = false) ∧ (∀ c ∈ gap, isGap c = true) ∧
    (∀ c ∈ tail.head?, isGap c = false) ∧ (gap = [] → tail = []) := by
  let left := cs.dropWhile fun c => !isGap c
  refine ⟨cs.takeWhile fun c => !isGap c, left.takeWhile isGap, left.dropWhile isGap, ?_, ?_, ?_,
    ?_, ?_⟩
  · rw [List.takeWhile_append_dropWhile, List.takeWhile_append_dropWhile]
  · intro c hc
    have hnot := Lists.of_mem_takeWhile hc
    rwa [Bool.not_eq_true'] at hnot
  · exact fun c => Lists.of_mem_takeWhile
  · exact fun c => Lists.head?_dropWhile
  · intro hnone
    cases hleft : left with
    | nil => rfl
    | cons c left' =>
      have hhead : (!isGap c) = false := Lists.head?_dropWhile (l := cs) (by
        show c ∈ left.head?
        rw [hleft]
        rfl)
      rw [hleft, List.takeWhile_cons_of_pos (by simpa using hhead)] at hnone
      cases hnone

theorem takeQuotedText?_quoted {indent : Int} {fuel : Nat}
    (hrest : p.rest = quoted cs ++ '"' :: rest) (hcolumn : 0 < p.column)
    (hindent : indent ≤ p.column) (hfuel : cs.length < fuel) :
    ∃ q, takeQuotedText? '"' indent fuel p = some (cs, q) ∧ Ahead p q rest := by
  induction fuel generalizing p cs with
  | zero => exact absurd hfuel (Nat.not_lt_zero _)
  | succ fuel ih =>
    obtain ⟨word, gap, tail, rfl, hword, hgap, htail, hlast⟩ := exists_cut cs
    have hmark : p.atMark = false := by
      have hcolumn' : (p.column == 0) = false := beq_eq_false_iff_ne.mpr (Nat.ne_of_gt hcolumn)
      simp only [Cursor.atMark, Cursor.atMarkOf, hcolumn', Bool.false_and, Bool.or_self]
    have hopen : (p.atMark || p.rest.isEmpty || decide ((p.column : Int) < indent)) = false := by
      have hnotEmpty : p.rest.isEmpty = false := by
        rw [hrest]
        simp
      rw [hmark, hnotEmpty, decide_eq_false (Int.not_lt.mpr hindent)]
      rfl
    have hlength : word.length < p.fuel := by
      have hle := length_le_length_quoted (word ++ (gap ++ tail))
      rw [Cursor.fuel, hrest]
      simp only [List.length_append] at hle ⊢
      omega
    rw [quoted_append, quoted_append, quoted_of_isGap hgap, List.append_assoc, List.append_assoc]
      at hrest
    cases gap with
    | nil =>
      obtain rfl := hlast rfl
      obtain ⟨q, htake, hq⟩ :=
        takeQuotedWord?_quoted hrest hword ⟨'"', rest, rfl, .inr rfl⟩ hlength
      refine ⟨q.next, ?_, hq.trans (ahead_next hq.rest rfl)⟩
      have hquote : q.rest.head? = some '"' := by
        rw [hq.rest]
        rfl
      rw [takeQuotedText?, hopen, htake]
      simp [hquote]
    | cons c gap =>
      have hc : isGap c = true := hgap c (.head _)
      obtain ⟨q, htake, hq⟩ := takeQuotedWord?_quoted hrest hword ⟨c, _, rfl, .inl hc⟩ hlength
      obtain ⟨d, ds, hds, hdgap, hdbreak⟩ := @head_quoted rest tail htail
      have hhead : ∀ c ∈ (quoted tail ++ '"' :: rest).head?, isGap c = false := by
        rw [hds]
        rintro _ ⟨⟩
        exact hdgap
      obtain ⟨r, hspan, hr⟩ := span_append hq.rest
        (fun c hc => ⟨hgap c hc, not_isBreak_of_isGap (hgap c hc)⟩) hhead
      have hskip : r.skipFold? indent (fun _ => none) r.fuel = some (0, r) :=
        skipFold?_of_head (hr.rest.trans hds) hdgap hdbreak
      have hahead := hq.trans hr
      have hcolumn' := hahead.column
      obtain ⟨t, hrun, ht⟩ := ih hr.rest (by omega) (by omega) (by
        simp only [List.length_append, List.length_cons] at hfuel
        omega)
      refine ⟨t, ?_, hahead.trans ht⟩
      have hquote : q.rest.head? = some c := by
        rw [hq.rest]
        rfl
      have hne : c ≠ '"' := by
        rintro rfl
        cases hc
      rw [takeQuotedText?, hopen, htake]
      simp [hquote, hne, hspan, hskip, hrun, joint]

/-- A quoted text that ends its line is read as the text, whatever the text is. -/
theorem takeQuoted?_quoted {inFlow : Bool} {indent : Int}
    (hrest : p.rest = '"' :: (quoted cs ++ '"' :: '\n' :: rest)) (hindent : indent ≤ p.column) :
    ∃ q, takeQuoted? inFlow indent p = some (String.ofList cs, q) ∧ Ahead p q ('\n' :: rest) := by
  have hnext := ahead_next hrest rfl
  have hcolumn : p.next.column = p.column + 1 := by rw [Cursor.next_eq hrest rfl]
  have hlength : cs.length < p.fuel := by
    have hle := length_le_length_quoted cs
    rw [Cursor.fuel, hrest]
    simp only [List.length_append, List.length_cons]
    omega
  have hindent' : indent ≤ p.next.column := by omega
  obtain ⟨q, htake, hq⟩ := takeQuotedText?_quoted hnext.rest (by omega) hindent' hlength
  have hgap : q.skipGap? = some q := by
    have hspan : q.span isGap = ([], q) := by
      rw [Cursor.span, hq.rest]
      rfl
    rw [Cursor.skipGap?, hspan]
    simp only [hq.rest]
    rfl
  have hfollows : mayFollowQuoted inFlow p.line q = true := by
    rw [mayFollowQuoted, hq.rest]
    rfl
  refine ⟨q, ?_, hnext.trans hq⟩
  simp [takeQuoted?, hrest, htake, hgap, hfollows]

end TxReceipt.Settings.Yaml
