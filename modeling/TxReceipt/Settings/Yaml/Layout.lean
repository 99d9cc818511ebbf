import TxReceipt.Settings.Yaml.Token

/-!
# Layout

How far a text has been cut into tokens: the tokens so far, the columns of the open blocks, the flow
collections around the place, and where a key may have begun. A key shows itself only by the colon
behind it, so its token is put in front of tokens that are there already.
-/

namespace TxReceipt.Settings.Yaml

/-- A column that what follows is indented by: that of a block, or one for the contents of a block
that has not shown where they start. -/
structure Indent where
  column : Nat
  isBlock : Bool

/-- A place where a key may have begun, and the number of tokens before it. At the column of a block
it has to be a key. -/
structure KeyStart where
  position : Nat
  line : Nat
  column : Nat
  offset : Nat
  isRequired : Bool

/-- The state of cutting a text into tokens. `indents` starts with the innermost one. `keyStart`
belongs to the innermost collection, `outerKeyStarts` has one place for each flow collection around
it. `pairs` says of each flow sequence whether a pair without braces is open in it, and of how many
flow collections around. -/
structure Layout where
  cursor : Cursor
  tokens : List Token
  indents : List Indent
  keyStart : Option KeyStart
  outerKeyStarts : List (Option KeyStart)
  isKeyAllowed : Bool
  valueOffset : Nat
  hasFlowMapping : Bool
  pairs : List (Option Nat)
  endsInMargin : Bool

namespace Layout

def ofChars (cs : List Char) : Layout :=
  ⟨.ofChars cs, [], [], none, [], true, 0, false, [], false⟩

def depth (s : Layout) : Nat :=
  s.outerKeyStarts.length

def inFlow (s : Layout) : Bool :=
  !s.outerKeyStarts.isEmpty

/-- The column of the innermost indent, -1 if there is none. -/
def indent (s : Layout) : Int :=
  match s.indents with
  | [] => -1
  | i :: _ => i.column

/-- The next token begins a block's line: it is at the column of the innermost block. -/
def atBlockColumn (s : Layout) : Bool :=
  match s.indents with
  | [] => false
  | i :: _ => i.isBlock && s.cursor.column == i.column

def push (t : Token) (s : Layout) : Layout :=
  { s with tokens := s.tokens ++ [t], endsInMargin := false }

/-- Adds a token that belongs to the value behind it, and began at a column. -/
def pushProperty (t : Token) (column : Nat) (s : Layout) : Layout :=
  { s with tokens := s.tokens ++ [t], endsInMargin := column == 0 }

def insert (position : Nat) (t : Token) (s : Layout) : Layout :=
  { s with tokens := s.tokens.insertIdx position t }

def goTo (p : Cursor) (s : Layout) : Layout :=
  { s with cursor := p }

def allowKey (isAllowed : Bool) (s : Layout) : Layout :=
  { s with isKeyAllowed := isAllowed }

/-- Closes the blocks behind a column, all of them for -1. In a flow collection none ends. -/
def closeBlocks (column : Int) (s : Layout) : Layout :=
  if s.inFlow then s
  else
    let isInner (i : Indent) : Bool := column < (i.column : Int)
    let closed := (s.indents.takeWhile isInner).filter (·.isBlock)
    if closed.isEmpty then { s with indents := s.indents.dropWhile isInner }
    else
      { s with
        indents := s.indents.dropWhile isInner
        tokens := s.tokens ++ closed.map fun _ => .blockEnd
        endsInMargin := false }

def dropContentIndent (s : Layout) : Layout :=
  match s.indents with
  | ⟨_, false⟩ :: is => { s with indents := is }
  | _ => s

def dropContentIndents (s : Layout) : Layout :=
  { s with indents := s.indents.dropWhile fun i => !i.isBlock }

/-- Opens a block at a column, unless it is open there already; its token goes to a position. -/
def openBlock (column position : Nat) (t : Token) (s : Layout) : Layout :=
  if s.inFlow then s
  else
    let s := if s.indent ≤ column then s.dropContentIndent else s
    if s.indent < column then { s.insert position t with indents := ⟨column, true⟩ :: s.indents }
    else s

/-- Asks the contents of the innermost block to be indented further than the block. -/
def openContent (s : Layout) : Layout :=
  match s.indents with
  | ⟨column, true⟩ :: _ =>
    if s.inFlow then s else { s with indents := ⟨column + 1, false⟩ :: s.indents }
  | _ => s

def saveKey (s : Layout) : Layout :=
  if s.isKeyAllowed then
    { s with
      keyStart := some
        { position := s.tokens.length
          line := s.cursor.line
          column := s.cursor.column
          offset := s.cursor.offset
          isRequired := !s.inFlow && s.atBlockColumn } }
  else s

/-- Forgets where a key may have begun, which must not be a place that needs one. -/
def forgetKey? (s : Layout) : Option Layout :=
  if s.keyStart.any (·.isRequired) then none else some { s with keyStart := none }

/-- A key outside of flow collections stands on one line and is not longer than this. -/
def longestKey : Nat :=
  1024

/-- Forgets where a key may have begun, if it could not reach to this place. -/
def forgetStaleKey? (s : Layout) : Option Layout :=
  let isStale (k : KeyStart) : Bool :=
    decide (k.line < s.cursor.line) || decide (k.offset + longestKey < s.cursor.offset)
  if !s.inFlow && s.keyStart.any isStale then s.forgetKey? else some s

/-- Skips what is no token. Behind a line's end outside of flow collections a key may begin. -/
def skipVoid? (s : Layout) : Option Layout := do
  let p ← s.cursor.skipVoid? s.indent s.cursor.fuel
  return (s.goTo p).allowKey (s.isKeyAllowed || (decide (s.cursor.line < p.line) && !s.inFlow))

/-- Closes a pair without braces, if one is open at this depth. -/
def closePair (s : Layout) : Layout :=
  match s.pairs with
  | some depth :: ps =>
    if depth = s.depth then
      { s.push .flowMappingEnd with hasFlowMapping := false, pairs := none :: ps }
    else s
  | _ => s

end Layout

end TxReceipt.Settings.Yaml
