import TxReceipt.Settings.Yaml.BlockText
import TxReceipt.Settings.Yaml.Layout
import TxReceipt.Settings.Yaml.Plain

/-!
# Cutting a text into tokens

Each step takes what stands at the place: a mark, a property, a scalar, a directive or the mark of a
document. `Token.ofChars?` takes a whole text.
-/

namespace TxReceipt.Settings.Yaml

namespace Layout

/-- No more than this many flow collections stand in each other. -/
def deepestFlow : Nat :=
  255

def openFlow? (isMapping : Bool) (s : Layout) : Option Layout := do
  let s := s.saveKey.openContent
  if s.depth = deepestFlow then none
  else
    let p ← s.cursor.next.skipGap?
    let s := { s with
      cursor := p
      keyStart := none
      outerKeyStarts := s.keyStart :: s.outerKeyStarts
      isKeyAllowed := true }
    if isMapping then return { s with hasFlowMapping := true }.push .flowMappingStart
    else return { s with pairs := none :: s.pairs }.push .flowSequenceStart

def leaveFlow (s : Layout) : Layout :=
  match s.outerKeyStarts with
  | [] => s
  | k :: ks => { s with keyStart := k, outerKeyStarts := ks }

/-- Takes the mark behind a flow collection. In an outer one a value may follow it closely. -/
def closeFlow? (isMapping : Bool) (s : Layout) : Option Layout := do
  let s ← s.forgetKey?
  let s := if isMapping then s else { s.closePair with pairs := s.closePair.pairs.tail }
  let p ← s.cursor.next.skipGap?
  let s := (s.leaveFlow.goTo p).allowKey false
  let s := if s.inFlow then { s with valueOffset := p.offset } else s
  return s.push (if isMapping then .flowMappingEnd else .flowSequenceEnd)

def comma? (s : Layout) : Option Layout := do
  let s ← s.forgetKey?
  let p ← s.cursor.next.skipGap?
  return ((s.closePair.goTo p).allowKey true).push .comma

/-- Takes the dash of an item of a block sequence. Behind a tab no further dash may follow. -/
def item? (s : Layout) : Option Layout := do
  let start := s.cursor
  if s.inFlow || !s.isKeyAllowed ||
      (s.endsInMargin && start.column == 0 && !s.indents.isEmpty) then none
  else
    let hasTab := (start.next.span isGap).1.contains '\t'
    let p ← start.next.skipGap?
    if hasTab && p.rest.head? == some '-' && endsWord p.rest.tail then none
    else
      let s := (s.openBlock start.column s.tokens.length .blockSequenceStart).goTo p
      let s := if p.rest.head?.any fun c => isBreak c || isFlowMark c then s.openContent else s
      return ((← s.forgetKey?).allowKey true).push .item

def keyMark? (s : Layout) : Option Layout := do
  let start := s.cursor
  if !s.inFlow && !s.isKeyAllowed then none
  else
    let s :=
      if s.inFlow then { s with hasFlowMapping := true }
      else s.openBlock start.column s.tokens.length .blockMappingStart
    let s := (← s.forgetKey?).allowKey !s.inFlow
    let p := start.next.skipLines start.fuel
    if start.next.rest.head?.all (· == '\t') || p.rest.head? == some '\t' then none
    else return (s.goTo p).push .key

/-- The place behind a colon and a tab behind it. Such a tab alone is no indentation, so no name and
no dash may follow it directly. -/
def behindColon? (p : Cursor) : Option Cursor :=
  if p.rest.head? == some '\t' then do
    let q ← p.skipGap?
    if !(p.span isGap).1.contains ' ' && q.rest.head?.any isNameChar then none else return q
  else some p

/-- Takes the colon of a value. The key before it gets its tokens, where one may have begun. In a
flow sequence the colon may be that of a pair without braces. -/
def valueMark? (s : Layout) : Option Layout := do
  let start := s.cursor
  let isPair := !s.pairs.isEmpty && !s.hasFlowMapping
  let s := if isPair then { s with pairs := some s.depth :: s.pairs.tail } else s
  let s := s.goTo (← behindColon? start.next)
  match s.keyStart with
  | some k =>
    if isPair && decide (k.line < start.line) then none
    else
      let s := s.insert k.position .key
      let s := if isPair then s.insert k.position .flowMappingStart else s
      let s := (s.openBlock k.column k.position .blockMappingStart).openContent
      return ({ s with keyStart := none }.allowKey false).push .value
  | none =>
    if !s.inFlow && !s.isKeyAllowed then none
    else
      let s := if isPair then s.push .flowMappingStart else s
      let s := (s.openBlock start.column s.tokens.length .blockMappingStart).openContent
      return (s.allowKey !s.inFlow).push .value

def isAnchorChar (c : Char) : Bool :=
  !isGap c && !isBreak c && !isFlowMark c && c != '\ufeff'

/-- Takes an anchor or a reference to one. -/
def anchor? (isReference : Bool) (s : Layout) : Option Layout :=
  let (name, p) := s.cursor.next.span isAnchorChar
  let column := s.cursor.column
  let s := (s.saveKey.allowKey false).goTo p
  if name.isEmpty then none
  else if isReference then some (s.push (.reference (String.ofList name)))
  else some (s.pushProperty (.anchor (String.ofList name)) column)

def tag? (s : Layout) : Option Layout := do
  let (t, p) ← Tag.take? s.inFlow s.cursor
  return ((s.saveKey.allowKey false).goTo p).pushProperty (.tag t) s.cursor.column

def blockText? (isLiteral : Bool) (s : Layout) : Option Layout := do
  let s := (s.saveKey.allowKey true).dropContentIndents
  let (text, p) ← takeBlockText? isLiteral s.indent s.cursor.next
  return (s.goTo p).push (.quoted text)

/-- Takes a quoted text. Inside a flow collection a value may follow it closely. -/
def quoted? (s : Layout) : Option Layout := do
  let (text, p) ← takeQuoted? s.inFlow s.indent s.cursor
  let s ← ((s.saveKey.allowKey false).goTo p).skipVoid?
  return { s with valueOffset := s.cursor.offset }.push (.quoted text)

/-- Takes a plain text. Where it ends with a line, a key may begin. -/
def plain? (s : Layout) : Option Layout := do
  let s := (s.saveKey.allowKey false).dropContentIndents
  let least := s.indent + 1
  if s.inFlow && (s.cursor.column : Int) < least then none
  else
    let (text, p) ← takePlain? s.inFlow least s.cursor.fuel s.cursor
    return ((s.goTo p).allowKey p.isFresh).push (.plain text)

def takeVersionNumber? (p : Cursor) : Option Cursor :=
  let (digits, q) := p.span Text.isDigit
  if digits.isEmpty || decide (9 < digits.length) then none else some q

def takeVersion? (p : Cursor) : Option Cursor := do
  let q ← takeVersionNumber? (p.span isGap).2
  if q.rest.head? == some '.' then takeVersionNumber? q.next else none

/-- Takes a directive behind its name. One that is not known says nothing. -/
def takeDirective? (name : String) (p : Cursor) : Option (Token × Cursor) :=
  match name with
  | "YAML" => (takeVersion? p).map fun q => (.version, q)
  | "TAG" => (Tag.takeMeaning? p).map fun r => (.meaning r.1, r.2)
  | _ => some (.meaning ⟨"", ""⟩, p.skipLine)

def directive? (s : Layout) : Option Layout := do
  let s ← (s.closeBlocks (-1)).forgetKey?
  let (name, p) := s.cursor.next.span isNameChar
  if name.isEmpty || !endsWord p.rest then none
  else
    let (t, q) ← takeDirective? (String.ofList name) p
    let q ← q.skipVoidLine?
    return ((s.goTo q.next).allowKey false).push t

def documentMark? (t : Token) (s : Layout) : Option Layout := do
  let s ← (s.closeBlocks (-1)).forgetKey?
  return ((s.goTo (s.cursor.advance 3)).allowKey false).push t

/-- Takes the mark of a document's end, behind which the line is void. -/
def documentEnd? (s : Layout) : Option Layout := do
  let s ← s.documentMark? .documentEnd
  return s.goTo (← s.cursor.skipVoidLine?)

def content? (c : Char) (cs : List Char) (s : Layout) : Option Layout :=
  match c with
  | '[' => s.openFlow? false
  | '{' => s.openFlow? true
  | ']' => s.closeFlow? false
  | '}' => s.closeFlow? true
  | ',' => s.comma?
  | '*' => s.anchor? true
  | '&' => s.anchor? false
  | '!' => s.tag?
  | '"' | '\'' => s.quoted?
  | '%' | '@' | '\x60' => none
  | '-' => if endsWord cs then s.item? else s.plain?
  | '?' => if endsWord cs then s.keyMark? else s.plain?
  | ':' =>
    if endsWord cs ||
        (s.inFlow && (cs.head?.any isFlowMark || s.cursor.offset == s.valueOffset)) then
      s.valueMark?
    else s.plain?
  | '|' => if s.inFlow then s.plain? else s.blockText? true
  | '>' => if s.inFlow then s.plain? else s.blockText? false
  | _ => s.plain?

def cut? (s : Layout) : Option Layout :=
  match s.cursor.rest with
  | [] => some s
  | c :: cs =>
    if s.cursor.column == 0 && c == '%' then s.directive?
    else if s.cursor.atMarkOf '-' then s.documentMark? .documentStart
    else if s.cursor.atMarkOf '.' then s.documentEnd?
    else if (s.cursor.column : Int) < s.indent then none
    else s.content? c cs

/-- Takes all tokens up to the end of the text, where no flow collection may be open. -/
def tokens? : Nat → Layout → Option (List Token)
  | 0, _ => none
  | fuel + 1, s => do
    let s ← (← s.skipVoid?).forgetStaleKey?
    let s := s.closeBlocks s.cursor.column
    if !s.cursor.rest.isEmpty then tokens? fuel (← s.cut?)
    else if s.inFlow then none
    else return ((← s.forgetKey?).closeBlocks (-1)).tokens

end Layout

def Token.ofChars? (cs : List Char) : Option (List Token) :=
  (Layout.ofChars cs).tokens? (cs.length + 2)

end TxReceipt.Settings.Yaml
