import TxReceipt.Json.Document

/-!
# Reading JSON text

The text is read into a document, whatever it holds; what its faults amount to is decided by whoever
reads the document. Containers nested deeper than `maxDepth` become parts that no value can hold.
`readTextWith` reads a whole text with a reader of documents; what follows the value is looked at
last.
-/

namespace TxReceipt.Json

open Text (hexValue?)

def isSpace (c : Char) : Bool :=
  c == ' ' || c == '\t' || c == '\n' || c == '\r'

def skipSpace (cs : List Char) : List Char :=
  cs.dropWhile isSpace

def hexValues? (a b c d : Char) : Option Nat := do
  return (((← hexValue? a) * 16 + (← hexValue? b)) * 16 + (← hexValue? c)) * 16 + (← hexValue? d)

/-- What stands between quotes: characters, and code units given by number. -/
inductive Piece where
  | char (c : Char)
  | unit (n : Nat)

def shortEscape? : Char → Option Char
  | '"' => some '"'
  | '\\' => some '\\'
  | '/' => some '/'
  | 'b' => some '\x08'
  | 'f' => some '\x0c'
  | 'n' => some '\n'
  | 'r' => some '\r'
  | 't' => some '\t'
  | _ => none

/-- Takes the pieces up to the closing quote; `none` where the text cannot go on so. -/
def scanPieces? : List Char → Option (List Piece × List Char)
  | [] => none
  | '"' :: cs => some ([], cs)
  | '\\' :: 'u' :: a :: b :: c :: d :: cs => do
    let n ← hexValues? a b c d
    let (ps, rest) ← scanPieces? cs
    return (.unit n :: ps, rest)
  | '\\' :: e :: cs => do
    let c ← shortEscape? e
    let (ps, rest) ← scanPieces? cs
    return (.char c :: ps, rest)
  | c :: cs =>
    if c.toNat < 0x20 ∨ c = '\\' then none
    else do
      let (ps, rest) ← scanPieces? cs
      return (.char c :: ps, rest)

/-- First half of a surrogate pair. -/
def isLead (n : Nat) : Bool :=
  0xD800 ≤ n && n < 0xDC00

def isTrail (n : Nat) : Bool :=
  0xDC00 ≤ n && n < 0xE000

/-- The text of the pieces; `none` if half of a surrogate pair stands alone. -/
def joinPieces? : List Piece → Option (List Char)
  | [] => some []
  | .char c :: ps => (joinPieces? ps).map (c :: ·)
  | .unit n :: ps =>
    if isLead n then
      match ps with
      | .unit m :: ps' =>
        if isTrail m then
          (joinPieces? ps').map
            (Char.ofNat (0x10000 + (n - 0xD800) * 0x400 + (m - 0xDC00)) :: ·)
        else none
      | _ => none
    else if isTrail n then none
    else (joinPieces? ps).map (Char.ofNat n :: ·)

def textOfPieces? (ps : List Piece) : Option String :=
  (joinPieces? ps).map String.ofList

/-- How deep containers may be nested in the parts of a text that are read. -/
def maxDepth : Nat := 127

namespace Document

def ofPieces (ps : List Piece) : Document :=
  match textOfPieces? ps with
  | some s => .text s
  | none => .unholdable .null

def ofNumeral (n : Numeral) : Document :=
  match n.toNumber? with
  | some x => .number x
  | none => .unholdable .null

/-- A container, of which `levels` more may be open at its place. -/
def nested (levels : Nat) (d : Document) : Document :=
  if levels = 0 then .unholdable d else d

mutual

/-- Takes a value off the front of a text. No rest means that the text ends in a broken place. The
fuel bounds the nesting of calls, of which each character causes at most two. -/
def scan : Nat → Nat → List Char → Document × Option (List Char)
  | 0, _, _ => (.broken, none)
  | fuel + 1, levels, cs =>
    match skipSpace cs with
    | 'n' :: 'u' :: 'l' :: 'l' :: rest => (.null, some rest)
    | 't' :: 'r' :: 'u' :: 'e' :: rest => (.bool true, some rest)
    | 'f' :: 'a' :: 'l' :: 's' :: 'e' :: rest => (.bool false, some rest)
    | '"' :: rest =>
      match scanPieces? rest with
      | some (ps, rest) => (ofPieces ps, some rest)
      | none => (.broken, none)
    | '[' :: rest =>
      match skipSpace rest with
      | ']' :: rest => (nested levels (.array [] true), some rest)
      | rest =>
        let (items, rest) := scanItems fuel (levels - 1) rest
        (nested levels (.array items rest.isSome), rest)
    | '{' :: rest =>
      match skipSpace rest with
      | '}' :: rest => (nested levels (.object [] true), some rest)
      | rest =>
        let (fields, rest) := scanFields fuel (levels - 1) rest
        (nested levels (.object fields rest.isSome), rest)
    | rest =>
      match Numeral.scan? rest with
      | some (n, rest) => (ofNumeral n, some rest)
      | none => (.broken, none)
termination_by structural fuel => fuel

def scanItems : Nat → Nat → List Char → List Document × Option (List Char)
  | 0, _, _ => ([], none)
  | fuel + 1, levels, cs =>
    match scan fuel levels cs with
    | (d, none) => ([d], none)
    | (d, some rest) =>
      match skipSpace rest with
      | ',' :: rest =>
        let (ds, rest) := scanItems fuel levels rest
        (d :: ds, rest)
      | ']' :: rest => ([d], some rest)
      | _ => ([d], none)
termination_by structural fuel => fuel

def scanFields : Nat → Nat → List Char → List (Option String × Document) × Option (List Char)
  | 0, _, _ => ([], none)
  | fuel + 1, levels, cs =>
    match skipSpace cs with
    | '"' :: rest =>
      match scanPieces? rest with
      | none => ([], none)
      | some (ps, rest) =>
        let key := textOfPieces? ps
        match skipSpace rest with
        | ':' :: rest =>
          match scan fuel levels rest with
          | (d, none) => ([(key, d)], none)
          | (d, some rest) =>
            match skipSpace rest with
            | ',' :: rest =>
              let (fields, rest) := scanFields fuel levels rest
              ((key, d) :: fields, rest)
            | '}' :: rest => ([(key, d)], some rest)
            | _ => ([(key, d)], none)
        | _ => ([(key, .broken)], none)
    | _ => ([], none)
termination_by structural fuel => fuel

end

/-- Takes a value off the front of a text, with containers nested at most `levels` deep. -/
def take (levels : Nat) (cs : List Char) : Document × Option (List Char) :=
  scan (2 * cs.length + 2) levels cs

end Document

/-- Reads a whole text with a reader of documents, containers nested at most `levels` deep. -/
def readTextWith {α : Type} (levels : Nat) (read : Document → Except ReadError α) (text : String) :
    Except ReadError α := do
  let (d, rest) := Document.take levels text.toList
  let x ← read d
  if rest.any fun cs => (skipSpace cs).isEmpty then .ok x else .error .malformed

end TxReceipt.Json
