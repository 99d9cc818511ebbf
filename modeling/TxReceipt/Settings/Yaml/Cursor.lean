/-!
# Places in a text

A YAML text is cut at places that know their line and column, for indentation decides what belongs
together. A text ends at its first NUL. A line ends with a line feed, a carriage return or both.
-/

namespace TxReceipt.Settings.Yaml

def isGap (c : Char) : Bool :=
  c == ' ' || c == '\t'

def isBreak (c : Char) : Bool :=
  c == '\n' || c == '\r'

/-- A mark of flow collections, which also separates their items. -/
def isFlowMark (c : Char) : Bool :=
  c == ',' || c == '[' || c == ']' || c == '{' || c == '}'

def isNameChar (c : Char) : Bool :=
  c.isAlphanum || c == '_' || c == '-'

/-- No word goes on here: a blank, a line's end or the end of the text follows. -/
def endsWord (cs : List Char) : Bool :=
  cs.head?.all fun c => isGap c || isBreak c

/-- A place in a text: what follows it, and where it is. `isFresh` is true while only blanks stand
before it on its line. -/
structure Cursor where
  rest : List Char
  line : Nat
  column : Nat
  offset : Nat
  isFresh : Bool

namespace Cursor

def ofChars (cs : List Char) : Cursor :=
  ⟨cs.takeWhile (· != '\x00'), 0, 0, 0, true⟩

/-- Fuel for a loop that goes on by at least one character a turn. -/
def fuel (p : Cursor) : Nat :=
  p.rest.length + 1

/-- The place behind the next character, or behind the whole end of a line. -/
def next (p : Cursor) : Cursor :=
  match p.rest with
  | [] => p
  | '\r' :: '\n' :: cs => ⟨cs, p.line + 1, 0, p.offset + 2, true⟩
  | c :: cs =>
    if isBreak c then ⟨cs, p.line + 1, 0, p.offset + 1, true⟩
    else ⟨cs, p.line, p.column + 1, p.offset + 1, p.isFresh && isGap c⟩

def advance : Nat → Cursor → Cursor
  | 0, p => p
  | n + 1, p => advance n p.next

/-- The characters in front that satisfy a predicate, which holds for no line's end, and the place
behind them. -/
def span (holds : Char → Bool) (p : Cursor) : List Char × Cursor :=
  let cs := p.rest.takeWhile holds
  (cs, p.advance cs.length)

def skipLine (p : Cursor) : Cursor :=
  (p.span fun c => !isBreak c).2

def atLineEnd (p : Cursor) : Bool :=
  p.rest.head?.all isBreak

/-- A mark of a document stands here: three times the same character at the start of a line. -/
def atMarkOf (c : Char) (p : Cursor) : Bool :=
  p.column == 0 && p.rest.take 3 == [c, c, c] && endsWord (p.rest.drop 3)

def atMark (p : Cursor) : Bool :=
  p.atMarkOf '-' || p.atMarkOf '.'

/-- Skips blanks, and a comment behind them; a comment needs a blank before it. -/
def skipGap? (p : Cursor) : Option Cursor :=
  let (gap, q) := p.span isGap
  if q.rest.head? == some '#' then
    if gap.isEmpty then none else some q.skipLine
  else some q

def skipVoidLine? (p : Cursor) : Option Cursor := do
  let q ← p.skipGap?
  if q.atLineEnd then some q else none

def skipLines : Nat → Cursor → Cursor
  | 0, p => p
  | fuel + 1, p =>
    match p.rest with
    | [] => p
    | c :: _ =>
      if c == ' ' || isBreak c then skipLines fuel p.next
      else if c == '#' then skipLines fuel p.skipLine
      else p

/-- Skips blanks, lines' ends and comments. A tab before the column `indent` is no indentation, so
nothing may follow it on its line. -/
def skipVoid? (indent : Int) : Nat → Cursor → Option Cursor
  | 0, p => some p
  | fuel + 1, p =>
    match p.rest with
    | [] => some p
    | c :: _ =>
      if c == '\t' && p.isFresh && (p.column : Int) < indent then do
        skipVoid? indent fuel (← p.skipVoidLine?)
      else if isGap c || isBreak c then skipVoid? indent fuel p.next
      else if c == '#' then skipVoid? indent fuel p.skipLine
      else some p

/-- Goes on to the next character that is no blank and counts the lines' ends before it. Where it
goes on from a tab before the column `least`, is for `onTab` to say. -/
def skipFold? (least : Int) (onTab : Cursor → Option Cursor) :
    Nat → Cursor → Option (Nat × Cursor)
  | 0, p => some (0, p)
  | fuel + 1, p =>
    match p.rest with
    | [] => some (0, p)
    | c :: _ =>
      if c == '\t' && (p.column : Int) < least then do
        skipFold? least onTab fuel (← onTab p)
      else if isGap c then skipFold? least onTab fuel p.next
      else if isBreak c then
        (skipFold? least onTab fuel p.next).map fun r => (r.1 + 1, r.2)
      else some (0, p)

end Cursor

/-- What some lines' ends in a flowing text stand for: a single one is a space, and of several the
first does not count. -/
def foldedBreaks : Nat → List Char
  | 0 => []
  | 1 => [' ']
  | n + 2 => List.replicate (n + 1) '\n'

/-- What stands between two words of a flowing text: blanks, or the lines' ends behind them. -/
def joint (gap : List Char) (breaks : Nat) : List Char :=
  if breaks = 0 then gap else foldedBreaks breaks

end TxReceipt.Settings.Yaml
