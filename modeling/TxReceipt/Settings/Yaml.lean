import TxReceipt.Settings.Yaml.Layout.Cut
import TxReceipt.Settings.Yaml.Value

/-!
# Settings from YAML text

A text of settings is cut into tokens, which denote the value of its only document. `ofText?` gives
the tree of a text that has this form.
-/

namespace TxReceipt.Settings.Yaml

/-- The value of a document, perhaps between marks of documents. There may be no document. -/
inductive Contents where
  | empty
  | document (value : Value)

namespace Contents

def isDocumentEnd : Token → Bool
  | .documentEnd => true
  | _ => false

/-- A document is empty before this. -/
def endsDocument : Token → Bool
  | .version | .meaning _ | .documentStart | .documentEnd => true
  | _ => false

/-- Takes the directives in front of a document. There may be one version; of the meanings of
handles only one in the last directive counts. -/
def takeDirectives? (hasVersion : Bool) (meaning : Option Tag.Meaning) :
    List Token → Option (Option Tag.Meaning × List Token)
  | .version :: ts => if hasVersion then none else takeDirectives? true none ts
  | .meaning m :: ts => takeDirectives? hasVersion (some m) ts
  | ts => some (meaning, ts)

/-- Takes the value of a document, with the directives and the mark of its start if there are
any. -/
def takeDocument? (ts : List Token) : Option (Value × List Token) := do
  if ts.head?.any endsDocument then
    match ← takeDirectives? false none ts with
    | (meaning, .documentStart :: ts) =>
      if ts.head?.all endsDocument then return (.null, ts)
      else (Value.ofTokens? meaning ts).map fun r => (r.1, r.2.2)
    | _ => none
  else (Value.ofTokens? none ts).map fun r => (r.1, r.2.2)

def ofTokens? (ts : List Token) : Option Contents :=
  match ts.dropWhile isDocumentEnd with
  | [] => some .empty
  | ts => do
    let (value, rest) ← takeDocument? ts
    if rest.all isDocumentEnd then return .document value else none

/-- The tree of the contents, which is an empty table without a document. -/
def toNode? : Contents → Option Node
  | .empty => some (.table [])
  | .document value => value.toNode?

end Contents

/-- The characters of a text; a mark of its byte order may stand before them. -/
def unmarked (text : String) : List Char :=
  match text.toList with
  | '\ufeff' :: cs => cs
  | cs => cs

def ofText? (text : String) : Option Node := do
  (← Contents.ofTokens? (← Token.ofChars? (unmarked text))).toNode?

end TxReceipt.Settings.Yaml
