import TxReceipt.Settings.Yaml.Cursor

/-!
# Plain texts

A text without quotes ends before a colon that stands by itself or a comment, inside a flow
collection also before one of its marks, and outside where the indentation ends. It may run over
several lines, whose ends fold.
-/

namespace TxReceipt.Settings.Yaml

/-- A plain text ends before this. -/
def endsPlain (inFlow : Bool) : List Char → Bool
  | [] => true
  | ':' :: cs => endsWord cs || (inFlow && cs.head?.any isFlowMark)
  | c :: _ => isGap c || isBreak c || (inFlow && isFlowMark c)

def plainWordLength (inFlow : Bool) : List Char → Nat
  | [] => 0
  | c :: cs => if endsPlain inFlow (c :: cs) then 0 else plainWordLength inFlow cs + 1

/-- A dash before a mark of a flow collection, which is no text there. -/
def isLoneDash : List Char → Bool
  | '-' :: c :: _ => isFlowMark c
  | _ => false

/-- Takes a plain text, and the blanks and lines' ends behind it. Outside of flow collections its
lines start at the column `least` or behind it. -/
def takePlain? (inFlow : Bool) (least : Int) : Nat → Cursor → Option (List Char × Cursor)
  | 0, _ => none
  | fuel + 1, p =>
    if p.atMark || p.rest.head? == some '#' then some ([], p)
    else if inFlow && isLoneDash p.rest then none
    else
      let length := plainWordLength inFlow p.rest
      let word := p.rest.take length
      let q := p.advance length
      if q.rest.head?.any fun c => isGap c || isBreak c then do
        let (gap, q) := q.span isGap
        let (breaks, q) ← q.skipFold? least Cursor.skipVoidLine? q.fuel
        if !inFlow && (q.column : Int) < least then return (word, q)
        else
          let (text, r) ← takePlain? inFlow least fuel q
          if text.isEmpty then return (word, r)
          else return (word ++ joint gap breaks ++ text, r)
      else some (word, q)

end TxReceipt.Settings.Yaml
