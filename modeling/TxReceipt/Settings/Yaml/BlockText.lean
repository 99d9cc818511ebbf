import TxReceipt.Settings.Yaml.Cursor
import TxReceipt.Text.Numeral

/-!
# Block texts

A block text follows a header line and takes the lines that are indented further. In a literal one
lines' ends stay, in a folded one they fold between lines that do not start with a blank. The header
may give the indentation, and says what happens to the lines' ends behind the last line.
-/

namespace TxReceipt.Settings.Yaml

/-- What is kept of the lines' ends behind the last line: none, one or all. -/
inductive Chomping where
  | strip
  | clip
  | keep
  deriving DecidableEq

def takeChomping (p : Cursor) : Chomping × Cursor :=
  match p.rest with
  | '-' :: _ => (.strip, p.next)
  | '+' :: _ => (.keep, p.next)
  | _ => (.clip, p)

/-- Takes the indentation of a header, which is 0 if it is not given. -/
def takeIncrement? (p : Cursor) : Option (Nat × Cursor) :=
  match p.rest with
  | '0' :: _ => none
  | c :: _ => some (if Text.isDigit c then (Text.digitValue c, p.next) else (0, p))
  | [] => some (0, p)

/-- Takes a header: a sign and an indentation in either order, each of which may be missing. -/
def takeHeader? (p : Cursor) : Option (Chomping × Nat × Cursor) := do
  match takeChomping p with
  | (.clip, _) =>
    let (increment, q) ← takeIncrement? p
    let (chomping, r) := takeChomping q
    return (chomping, increment, r)
  | (chomping, q) =>
    let (increment, r) ← takeIncrement? q
    return (chomping, increment, r)

def skipSpaces (column : Nat) (p : Cursor) : Cursor :=
  p.advance ((p.rest.take (column - p.column)).takeWhile (· == ' ')).length

/-- Goes on to the first line with something behind the column and counts the lines before it. -/
def skipEmptyLines (column : Nat) : Nat → Cursor → Nat × Cursor
  | 0, p => (0, p)
  | fuel + 1, p =>
    let q := skipSpaces column p
    if q.rest.head?.any isBreak then
      let (lines, r) := skipEmptyLines column fuel q.next
      (lines + 1, r)
    else (0, q)

/-- Goes on to the first line that holds something, and says also how far spaces go in the lines up
to it. -/
def skipSpaceLines : Nat → Cursor → Nat × Nat × Cursor
  | 0, p => (0, 0, p)
  | fuel + 1, p =>
    let q := (p.span (· == ' ')).2
    if q.rest.head?.any isBreak then
      let (widest, lines, r) := skipSpaceLines fuel q.next
      (max q.column widest, lines + 1, r)
    else (q.column, 0, q)

/-- A line of text that ended, and the empty lines behind it, if it did not end with the text. -/
structure LineEnd where
  isBroken : Bool
  emptyLines : Nat

namespace LineEnd

def literal (e : LineEnd) : List Char :=
  (if e.isBroken then ['\n'] else []) ++ List.replicate e.emptyLines '\n'

def folded (e : LineEnd) : List Char :=
  if e.isBroken then foldedBreaks (e.emptyLines + 1) else e.literal

end LineEnd

/-- Takes the lines from a column on, behind a line's end. `isIndented` says that the line before
starts with a blank. The lines' end behind the last line is left. -/
def takeBlockLines (isLiteral : Bool) (column : Nat) :
    Nat → LineEnd → Bool → Cursor → List Char × LineEnd × Cursor
  | 0, e, _, p => ([], e, p)
  | fuel + 1, e, isIndented, p =>
    if p.column ≠ column ∨ p.rest.isEmpty then ([], e, p)
    else
      let startsBlank := p.rest.head?.any isGap
      let between := if isLiteral || isIndented || startsBlank then e.literal else e.folded
      let (line, q) := p.span fun c => !isBreak c
      if q.rest.isEmpty then (between ++ line, ⟨false, 0⟩, q)
      else
        let (lines, r) := skipEmptyLines column q.fuel q.next
        let (text, last, s) := takeBlockLines isLiteral column fuel ⟨true, lines⟩ startsBlank r
        (between ++ line ++ text, last, s)

/-- What remains of the lines' ends behind the last line of a text that starts at a column. A last
line without an end gets one. -/
def Chomping.tail (chomping : Chomping) (column : Nat) (e : LineEnd) (p : Cursor) : List Char :=
  let ending :=
    (if e.isBroken then ['\n'] else []) ++
      (if p.rest.isEmpty && max column 1 ≤ p.column then ['\n'] else [])
  match chomping with
  | .strip => []
  | .clip => ending
  | .keep => ending ++ List.replicate e.emptyLines '\n'

/-- What remains of a text without lines, behind a header that may have a line's end. -/
def Chomping.empty (chomping : Chomping) (isBroken : Bool) (emptyLines : Nat) : List Char :=
  match chomping with
  | .strip => []
  | .clip => if isBroken then ['\n'] else []
  | .keep =>
    if emptyLines = 0 then (if isBroken then ['\n'] else []) else List.replicate emptyLines '\n'

/-- The column where the lines of a block text start, the number of empty lines in front, and the
place of the first line. Without an increment the widest of the lines up to the first decides. -/
def findLines (indent : Int) (increment : Nat) (p : Cursor) : Nat × Nat × Cursor :=
  if increment = 0 then
    let (widest, lines, q) := skipSpaceLines p.fuel p
    (max widest (indent + 1).toNat, lines, q)
  else
    let column := (max indent 0).toNat + increment
    let (lines, q) := skipEmptyLines column p.fuel p
    (column, lines, q)

/-- Takes a block text behind its mark, where the block around it has the column `indent`. -/
def takeBlockText? (isLiteral : Bool) (indent : Int) (p : Cursor) :
    Option (String × Cursor) := do
  let (chomping, increment, q) ← takeHeader? p
  let q ← q.skipVoidLine?
  let isBroken := !q.rest.isEmpty
  let q := q.next
  if q.rest.head? == some '\t' then none
  else
    let (column, lines, q) := findLines indent increment q
    if q.rest.isEmpty then return (String.ofList (chomping.empty isBroken lines), q)
    else if q.column < column ∧ indent < (q.column : Int) then none
    else
      let (text, last, r) := takeBlockLines isLiteral column q.fuel ⟨false, lines⟩ false q
      return (String.ofList (text ++ chomping.tail column last r), r)

end TxReceipt.Settings.Yaml
