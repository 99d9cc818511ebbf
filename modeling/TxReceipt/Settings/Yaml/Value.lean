import TxReceipt.Settings.Yaml.Scalar
import TxReceipt.Settings.Yaml.Token

/-!
# Values of documents

`Value.take?` reads the value that tokens denote. An anchor names the value behind it, and a
reference to the name stands for that value, but is invalid inside of it.
-/

namespace TxReceipt.Settings.Yaml

/-- A value. A scalar may be a key, where its kind counts, so it is no node yet. -/
inductive Value where
  | scalar (s : Scalar)
  | node (n : Node)

namespace Value

/-- What stands for a value that is missing. -/
def null : Value :=
  .scalar .null

def toNode? : Value → Option Node
  | .scalar s => s.toNode?
  | .node n => some n

def ofItems? (items : List Value) : Option Value :=
  (items.mapM toNode?).map fun nodes => .node (.list nodes)

/-- The fields of a mapping, whose keys and values stand in turn. An invalid key is forgotten, so
that what follows it is the key; a last key without a value is forgotten, too. No key may be there
twice, but of different keys with one text the last counts. -/
def fieldsOf? : List Scalar → List Value → Option (List (String × Node))
  | _, [] | _, [_] => some []
  | seen, .scalar .invalid :: rest => fieldsOf? seen rest
  | _, .node _ :: _ => none
  | seen, .scalar key :: value :: rest =>
    if seen.contains key then none
    else do
      let text ← key.keyText?
      let node ← value.toNode?
      let fields ← fieldsOf? (key :: seen) rest
      return if fields.any fun f => f.1 == text then fields else (text, node) :: fields

def ofFields? (values : List Value) : Option Value :=
  (fieldsOf? [] values).map fun fields => .node (.table fields)

end Value

/-- The named values so far, the latest first; one that is not complete has no value yet. -/
abbrev Anchors := List (String × Option Value)

namespace Anchors

def announce (name : String) (a : Anchors) : Anchors :=
  (name, none) :: a

/-- Gives its value to the name that was added to some number of names. -/
def complete (before : Nat) (value : Value) (a : Anchors) : Anchors :=
  a.modify (a.length - (before + 1)) fun entry => (entry.1, some value)

/-- What a reference to a name stands for. -/
def value? (name : String) (a : Anchors) : Option Value :=
  (a.find? fun entry => entry.1 == name).map fun entry => entry.2.getD (.scalar .invalid)

end Anchors

/-- What stands in front of a value: the name of an anchor and a tag, each of which may be
missing. -/
structure Properties where
  anchor : Option String
  tag : Option Tag

namespace Properties

def take? (meaning : Option Tag.Meaning) : List Token → Option (Properties × List Token)
  | .anchor name :: .tag t :: ts | .tag t :: .anchor name :: ts =>
    (t.resolve? meaning).map fun tag => (⟨name, tag⟩, ts)
  | .anchor name :: ts => some (⟨name, none⟩, ts)
  | .tag t :: ts => (t.resolve? meaning).map fun tag => (⟨none, tag⟩, ts)
  | ts => some (⟨none, none⟩, ts)

def isEmpty (ps : Properties) : Bool :=
  ps.anchor.isNone && ps.tag.isNone

def scalar (ps : Properties) (text : List Char) : Scalar :=
  match ps.tag with
  | some tag => .ofTagged tag text
  | none => .ofPlain text

def announce (ps : Properties) (a : Anchors) : Anchors :=
  match ps.anchor with
  | some name => a.announce name
  | none => a

def complete (ps : Properties) (before : Nat) (value : Value) (a : Anchors) : Anchors :=
  if ps.anchor.isSome then a.complete before value else a

end Properties

namespace Token

/-- A key, a value or an item of a block is missing before this. -/
def endsBlockPart : Token → Bool
  | .item | .key | .value | .blockEnd => true
  | _ => false

def endsFieldPart : Token → Bool
  | .key | .value | .blockEnd => true
  | _ => false

def endsFlowValue : Token → Bool
  | .comma | .flowSequenceEnd | .flowMappingEnd => true
  | _ => false

def endsFlowKey : Token → Bool
  | .value => true
  | t => t.endsFlowValue

end Token

/-- What is read of tokens, with the anchors behind it and the tokens that are left. -/
abbrev Reading (α : Type) :=
  α × Anchors × List Token

/-- Takes the comma between two parts of a flow collection; there is none before the first. -/
def takeComma? (isFirst : Bool) : List Token → Option (List Token)
  | .comma :: ts => if isFirst then none else some ts
  | ts => if isFirst then some ts else none

namespace Value

mutual

/-- Takes a value. The items of a block sequence may stand without a start of their own where
`allowsItems` says so. -/
def take? (meaning : Option Tag.Meaning) (allowsItems : Bool) :
    Nat → Anchors → List Token → Option (Reading Value)
  | 0, _, _ => none
  | _ + 1, a, .reference name :: ts => (a.value? name).map fun value => (value, a, ts)
  | fuel + 1, a, ts => do
    let (ps, ts) ← Properties.take? meaning ts
    let (value, b, ts) ← takeContent? meaning allowsItems ps fuel (ps.announce a) ts
    return (value, ps.complete a.length value b, ts)
termination_by structural fuel => fuel

/-- Takes a value behind its properties, which may stand alone. -/
def takeContent? (meaning : Option Tag.Meaning) (allowsItems : Bool) (ps : Properties) :
    Nat → Anchors → List Token → Option (Reading Value)
  | 0, _, _ => none
  | _ + 1, a, .plain text :: ts => some (.scalar (ps.scalar text), a, ts)
  | _ + 1, a, .quoted text :: ts => some (.scalar (.text text), a, ts)
  | fuel + 1, a, .flowSequenceStart :: ts => do
    let (items, a, ts) ← takeFlowItems? meaning true fuel a ts
    return (← ofItems? items, a, ts)
  | fuel + 1, a, .flowMappingStart :: ts => do
    let (values, a, ts) ← takeFlowFields? meaning true fuel a ts
    return (← ofFields? values, a, ts)
  | fuel + 1, a, .blockSequenceStart :: ts => do
    let (items, a, ts) ← takeItems? meaning true fuel a ts
    return (← ofItems? items, a, ts)
  | fuel + 1, a, .blockMappingStart :: ts => do
    let (values, a, ts) ← takeFields? meaning fuel a ts
    return (← ofFields? values, a, ts)
  | fuel + 1, a, .item :: ts =>
    if allowsItems then do
      let (items, a, ts) ← takeItems? meaning false fuel a (.item :: ts)
      return (← ofItems? items, a, ts)
    else if ps.isEmpty then none
    else some (.scalar (ps.scalar []), a, .item :: ts)
  | _ + 1, a, ts => if ps.isEmpty then none else some (.scalar (ps.scalar []), a, ts)
termination_by structural fuel => fuel

/-- Takes a value, unless a token follows that shows that it is missing. -/
def takeUnless? (meaning : Option Tag.Meaning) (isEnd : Token → Bool) (allowsItems : Bool) :
    Nat → Anchors → List Token → Option (Reading Value)
  | 0, _, _ => none
  | fuel + 1, a, ts =>
    if ts.head?.any isEnd then some (null, a, ts) else take? meaning allowsItems fuel a ts
termination_by structural fuel => fuel

def takeFieldValue? (meaning : Option Tag.Meaning) (isEnd : Token → Bool) (allowsItems : Bool) :
    Nat → Anchors → List Token → Option (Reading Value)
  | 0, _, _ => none
  | fuel + 1, a, .value :: ts => takeUnless? meaning isEnd allowsItems fuel a ts
  | _ + 1, a, ts => some (null, a, ts)
termination_by structural fuel => fuel

/-- Takes the items of a block sequence, and its end if it has one. -/
def takeItems? (meaning : Option Tag.Meaning) (hasEnd : Bool) :
    Nat → Anchors → List Token → Option (Reading (List Value))
  | 0, _, _ => none
  | fuel + 1, a, .item :: ts => do
    let (item, a, ts) ← takeUnless? meaning Token.endsBlockPart false fuel a ts
    let (items, a, ts) ← takeItems? meaning hasEnd fuel a ts
    return (item :: items, a, ts)
  | _ + 1, a, .blockEnd :: ts => some ([], a, if hasEnd then ts else .blockEnd :: ts)
  | _ + 1, a, ts => if hasEnd then none else some ([], a, ts)
termination_by structural fuel => fuel

def takeFields? (meaning : Option Tag.Meaning) :
    Nat → Anchors → List Token → Option (Reading (List Value))
  | 0, _, _ => none
  | fuel + 1, a, .key :: ts => do
    let (key, a, ts) ← takeUnless? meaning Token.endsFieldPart true fuel a ts
    let (value, a, ts) ← takeFieldValue? meaning Token.endsFieldPart true fuel a ts
    let (values, a, ts) ← takeFields? meaning fuel a ts
    return (key :: value :: values, a, ts)
  | fuel + 1, a, .value :: ts => do
    let (value, a, ts) ← takeUnless? meaning Token.endsFieldPart true fuel a ts
    let (values, a, ts) ← takeFields? meaning fuel a ts
    return (null :: value :: values, a, ts)
  | _ + 1, a, .blockEnd :: ts => some ([], a, ts)
  | _ + 1, _, _ => none
termination_by structural fuel => fuel

/-- Takes the pair of a key in a flow sequence as a mapping of its own. Where the key is missing, so
is the token behind it. -/
def takePair? (meaning : Option Tag.Meaning) : Nat → Anchors → List Token → Option (Reading Value)
  | 0, _, _ => none
  | fuel + 1, a, ts => do
    let (key, a, ts) ←
      if ts.head?.any Token.endsFlowKey then some (null, a, ts.tail)
      else take? meaning false fuel a ts
    let (value, a, ts) ← takeFieldValue? meaning Token.endsFlowValue false fuel a ts
    return (← ofFields? [key, value], a, ts)
termination_by structural fuel => fuel

def takeFlowItems? (meaning : Option Tag.Meaning) (isFirst : Bool) :
    Nat → Anchors → List Token → Option (Reading (List Value))
  | 0, _, _ => none
  | _ + 1, a, .flowSequenceEnd :: ts => some ([], a, ts)
  | fuel + 1, a, ts => do
    match ← takeComma? isFirst ts with
    | .flowSequenceEnd :: ts => return ([], a, ts)
    | .key :: ts =>
      let (item, a, ts) ← takePair? meaning fuel a ts
      let (items, a, ts) ← takeFlowItems? meaning false fuel a ts
      return (item :: items, a, ts)
    | ts =>
      let (item, a, ts) ← take? meaning false fuel a ts
      let (items, a, ts) ← takeFlowItems? meaning false fuel a ts
      return (item :: items, a, ts)
termination_by structural fuel => fuel

def takeFlowFields? (meaning : Option Tag.Meaning) (isFirst : Bool) :
    Nat → Anchors → List Token → Option (Reading (List Value))
  | 0, _, _ => none
  | _ + 1, a, .flowMappingEnd :: ts => some ([], a, ts)
  | fuel + 1, a, ts => do
    match ← takeComma? isFirst ts with
    | .flowMappingEnd :: ts => return ([], a, ts)
    | .key :: ts =>
      let (key, a, ts) ← takeUnless? meaning Token.endsFlowKey false fuel a ts
      let (value, a, ts) ← takeFieldValue? meaning Token.endsFlowValue false fuel a ts
      let (values, a, ts) ← takeFlowFields? meaning false fuel a ts
      return (key :: value :: values, a, ts)
    | .value :: ts =>
      let (value, a, ts) ← takeUnless? meaning Token.endsFlowValue false fuel a ts
      let (values, a, ts) ← takeFlowFields? meaning false fuel a ts
      return (null :: value :: values, a, ts)
    | ts =>
      let (key, a, ts) ← take? meaning false fuel a ts
      let (values, a, ts) ← takeFlowFields? meaning false fuel a ts
      return (key :: null :: values, a, ts)
termination_by structural fuel => fuel

end

/-- Takes a value; the tokens bound the steps that it takes. -/
def ofTokens? (meaning : Option Tag.Meaning) (ts : List Token) : Option (Reading Value) :=
  take? meaning false (4 * ts.length + 4) [] ts

end Value

end TxReceipt.Settings.Yaml
