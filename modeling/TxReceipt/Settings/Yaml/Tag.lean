import TxReceipt.Settings.Yaml.Quoted

/-!
# Tags

A tag says what kind of value follows. It is written in full between `!<` and `>`, or as a handle
and a suffix. A directive in front of a document may say what a handle stands for; the handle `!!`
stands for the kinds that every document knows.
-/

namespace TxReceipt.Settings.Yaml

structure Tag where
  handle : String
  suffix : String
  deriving DecidableEq

namespace Tag

/-- What `!!` stands for unless a directive says otherwise. -/
def commonHandle : String :=
  "tag:yaml.org,2002:"

/-- A character of the text of a tag, or the percent sign of an escape. -/
def isUriChar (c : Char) : Bool :=
  c.isAlphanum || "-#;/?:@&=+$,_.!~*'()[]%".toList.contains c

def isSuffixChar (c : Char) : Bool :=
  isUriChar c && !isFlowMark c && c != '!'

def takeEscapedByte? (p : Cursor) : Option (Nat × Cursor) :=
  match p.rest with
  | '%' :: a :: b :: _ => do return (← hexNumber? 0 [a, b], p.advance 3)
  | _ => none

/-- Takes the character of an escape, or of two in a row; longer rows are no characters. -/
def takeEscaped? (p : Cursor) : Option (Char × Cursor) := do
  let (first, q) ← takeEscapedByte? p
  if first < 128 then return (Char.ofNat first, q)
  else if 192 ≤ first ∧ first < 224 then do
    let (second, r) ← takeEscapedByte? q
    if 128 ≤ second ∧ second < 192 then return (← charOfCode? (first * 256 + second), r)
    else none
  else none

def takeChars? (holds : Char → Bool) : Nat → Cursor → Option (List Char × Cursor)
  | 0, _ => none
  | fuel + 1, p =>
    match p.rest with
    | [] => some ([], p)
    | c :: _ =>
      if !holds c then some ([], p)
      else do
        let (d, q) ← if c == '%' then takeEscaped? p else some (c, p.next)
        let (cs, r) ← takeChars? holds fuel q
        return (d :: cs, r)

/-- Takes a handle: an exclamation mark, a name, and perhaps another mark. -/
def takeHandle? (p : Cursor) : Option (List Char × Cursor) :=
  if p.rest.head? == some '!' then
    let (name, q) := p.next.span isNameChar
    if q.rest.head? == some '!' then some ('!' :: name ++ ['!'], q.next) else some ('!' :: name, q)
  else none

/-- The handle is closed by a second mark. -/
def isClosed (handle : List Char) : Bool :=
  decide (2 ≤ handle.length) && handle.getLast? == some '!'

def takeVerbatim? (p : Cursor) : Option (Tag × Cursor) := do
  let (cs, q) ← takeChars? isUriChar p.fuel (p.advance 2)
  if q.rest.head? == some '>' then return (⟨"", String.ofList cs⟩, q.next) else none

/-- Takes a tag of a handle and a suffix. Without a second mark the name belongs to the suffix; a
mark alone is the suffix of no handle. -/
def takeShorthand? (p : Cursor) : Option (Tag × Cursor) := do
  let (handle, q) ← takeHandle? p
  let (cs, r) ← takeChars? isSuffixChar q.fuel q
  if isClosed handle then
    if cs.isEmpty then none else return (⟨String.ofList handle, String.ofList cs⟩, r)
  else
    match handle.tail ++ cs with
    | [] => return (⟨"", "!"⟩, r)
    | suffix => return (⟨"!", String.ofList suffix⟩, r)

/-- Takes a tag, behind which a word has to end. -/
def take? (inFlow : Bool) (p : Cursor) : Option (Tag × Cursor) := do
  let (tag, q) ← if (p.rest.drop 1).head? == some '<' then takeVerbatim? p else takeShorthand? p
  if endsWord q.rest || (inFlow && q.rest.head?.any isFlowMark) then return (tag, q) else none

/-- What a directive lets a handle stand for. -/
structure Meaning where
  handle : String
  text : String

def takeMeaning? (p : Cursor) : Option (Meaning × Cursor) := do
  let (handle, q) ← takeHandle? (p.span isGap).2
  if !isClosed handle && handle != ['!'] then none
  else
    let q := (q.span isGap).2
    if q.rest.head?.any fun c => c == '!' || isSuffixChar c then
      let (cs, r) ← takeChars? isUriChar q.fuel q
      if endsWord r.rest then return (⟨String.ofList handle, String.ofList cs⟩, r) else none
    else none

/-- The tag with what its handle stands for; a closed handle has to stand for something. -/
def resolve? (meaning : Option Meaning) (tag : Tag) : Option Tag :=
  match meaning.filter fun m => m.handle == tag.handle with
  | some m => some ⟨m.text, tag.suffix⟩
  | none =>
    if tag.handle == "!!" then some ⟨commonHandle, tag.suffix⟩
    else if isClosed tag.handle.toList then none
    else some tag

end Tag

end TxReceipt.Settings.Yaml
