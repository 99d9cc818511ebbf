import TxReceipt.Settings.Yaml.Cursor
import TxReceipt.Text.Numeral

/-!
# Quoted texts

A text between quotes may run over several lines, whose ends fold. Between single quotes a quote is
written twice; between double quotes a backslash escapes, and before a line's end it joins the
lines.
-/

namespace TxReceipt.Settings.Yaml

def escape? : Char → Option Char
  | '0' => some '\x00'
  | 'a' => some '\x07'
  | 'b' => some '\x08'
  | 't' | '\t' => some '\t'
  | 'n' => some '\n'
  | 'v' => some '\x0b'
  | 'f' => some '\x0c'
  | 'r' => some '\r'
  | 'e' => some '\x1b'
  | ' ' => some ' '
  | '"' => some '"'
  | '/' => some '/'
  | '\\' => some '\\'
  | 'N' => some '\u0085'
  | '_' => some '\u00a0'
  | 'L' => some '\u2028'
  | 'P' => some '\u2029'
  | _ => none

def charOfCode? (n : Nat) : Option Char :=
  if n.isValidChar then some (Char.ofNat n) else none

def hexNumber? : Nat → List Char → Option Nat
  | n, [] => some n
  | n, c :: cs => do hexNumber? (n * 16 + (← Text.hexValue? c)) cs

/-- Takes the character whose code point is written in some hexadecimal digits. -/
def takeCode? (width : Nat) (p : Cursor) : Option (Char × Cursor) := do
  let digits := p.rest.take width
  if digits.length < width then none
  else return (← charOfCode? (← hexNumber? 0 digits), p.advance width)

/-- Takes the character of an escape, behind its backslash. -/
def takeEscape? (p : Cursor) : Option (Char × Cursor) :=
  match p.rest with
  | [] => none
  | 'x' :: _ => takeCode? 2 p.next
  | 'u' :: _ => takeCode? 4 p.next
  | 'U' :: _ => takeCode? 8 p.next
  | e :: _ => (escape? e).map fun c => (c, p.next)

/-- Takes the characters up to a blank, a line's end or the closing quote. The truth value says that
an escaped line's end closes them. -/
def takeQuotedWord? (quote : Char) : Nat → Cursor → Option (List Char × Bool × Cursor)
  | 0, _ => none
  | fuel + 1, p =>
    match p.rest with
    | [] => some ([], false, p)
    | c :: cs =>
      if isGap c || isBreak c then some ([], false, p)
      else if c == quote then
        if quote == '\'' && cs.head? == some quote then
          (takeQuotedWord? quote fuel (p.advance 2)).map fun r => (quote :: r.1, r.2)
        else some ([], false, p)
      else if quote == '"' && c == '\\' then
        if cs.head?.any isBreak then some ([], true, p.advance 2)
        else do
          let (e, q) ← takeEscape? p.next
          let (word, r) ← takeQuotedWord? quote fuel q
          return (e :: word, r)
      else (takeQuotedWord? quote fuel p.next).map fun r => (c :: r.1, r.2)

/-- Takes a text up to its closing quote. No line of it may start before the column `indent`, with a
tab there, or with a mark of a document. -/
def takeQuotedText? (quote : Char) (indent : Int) : Nat → Cursor → Option (List Char × Cursor)
  | 0, _ => none
  | fuel + 1, p =>
    if p.atMark || p.rest.isEmpty || (p.column : Int) < indent then none
    else do
      let (word, isJoined, q) ← takeQuotedWord? quote p.fuel p
      if q.rest.head? == some quote then return (word, q.next)
      else
        let (gap, q) := if isJoined then ([], q) else q.span isGap
        let (breaks, q) ← q.skipFold? indent (fun _ => none) q.fuel
        let between := if isJoined then List.replicate breaks '\n' else joint gap breaks
        let (text, r) ← takeQuotedText? quote indent fuel q
        return (word ++ between ++ text, r)

/-- What may follow a quoted text: the end of the line, inside a flow collection one of its marks,
and a colon, outside of one on the line where the text starts. -/
def mayFollowQuoted (inFlow : Bool) (line : Nat) (p : Cursor) : Bool :=
  match p.rest with
  | [] => true
  | c :: _ =>
    isBreak c || (inFlow && (c == ',' || c == ']' || c == '}')) ||
      (c == ':' && (inFlow || p.line == line))

/-- Takes a quoted text, its quotes and the blanks behind it. -/
def takeQuoted? (inFlow : Bool) (indent : Int) (p : Cursor) : Option (String × Cursor) := do
  let quote ← p.rest.head?
  let (text, q) ← takeQuotedText? quote indent p.fuel p.next
  let q ← q.skipGap?
  if mayFollowQuoted inFlow p.line q then return (String.ofList text, q) else none

end TxReceipt.Settings.Yaml
