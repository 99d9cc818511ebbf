import TxReceipt.Json.Value

/-!
# Writing JSON

Two layouts of one value: compact, without any blank, and indented by two spaces a level, with empty
containers closed at once. Fields are written in the order of the value. Texts escape the quote, the
backslash and the characters below U+0020, and nothing else.
-/

namespace TxReceipt.Json

def hexChar (n : Nat) : Char :=
  Nat.digitChar n

/-- A character as it stands between quotes. -/
def escapeChar (c : Char) : List Char :=
  match c with
  | '"' => ['\\', '"']
  | '\\' => ['\\', '\\']
  | '\x08' => ['\\', 'b']
  | '\t' => ['\\', 't']
  | '\n' => ['\\', 'n']
  | '\x0c' => ['\\', 'f']
  | '\r' => ['\\', 'r']
  | c =>
    if c.toNat < 0x20 then ['\\', 'u', '0', '0', hexChar (c.toNat / 16), hexChar (c.toNat % 16)]
    else [c]

def quoted (s : String) : List Char :=
  '"' :: s.toList.flatMap escapeChar ++ ['"']

def commaSeparated (parts : List (List Char)) : List Char :=
  [','].intercalate parts

/-- A line end and the indentation of a level. -/
def newLine (level : Nat) : List Char :=
  '\n' :: List.replicate (2 * level) ' '

namespace Value

def boolChars (b : Bool) : List Char :=
  if b then ['t', 'r', 'u', 'e'] else ['f', 'a', 'l', 's', 'e']

mutual

/-- The value without blanks. -/
def compactChars : Value → List Char
  | .null => ['n', 'u', 'l', 'l']
  | .bool b => boolChars b
  | .number n => n.chars
  | .text s => quoted s
  | .array items => '[' :: commaSeparated (compactItems items) ++ [']']
  | .object fields => '{' :: commaSeparated (compactFields fields) ++ ['}']
termination_by structural v => v

def compactItems : List Value → List (List Char)
  | [] => []
  | v :: vs => v.compactChars :: compactItems vs
termination_by structural vs => vs

def compactFields : List (String × Value) → List (List Char)
  | [] => []
  | (k, v) :: fs => (quoted k ++ ':' :: v.compactChars) :: compactFields fs
termination_by structural fs => fs

end

mutual

/-- The value indented, where its first line starts at some level. -/
def indentedChars : Value → Nat → List Char
  | .null, _ => ['n', 'u', 'l', 'l']
  | .bool b, _ => boolChars b
  | .number n, _ => n.chars
  | .text s, _ => quoted s
  | .array [], _ => ['[', ']']
  | .array (v :: vs), level =>
    '[' :: commaSeparated (indentedItems (v :: vs) (level + 1)) ++ newLine level ++ [']']
  | .object [], _ => ['{', '}']
  | .object (f :: fs), level =>
    '{' :: commaSeparated (indentedFields (f :: fs) (level + 1)) ++ newLine level ++ ['}']
termination_by structural v => v

def indentedItems : List Value → Nat → List (List Char)
  | [], _ => []
  | v :: vs, level => (newLine level ++ v.indentedChars level) :: indentedItems vs level
termination_by structural vs => vs

def indentedFields : List (String × Value) → Nat → List (List Char)
  | [], _ => []
  | (k, v) :: fs, level =>
    (newLine level ++ quoted k ++ ':' :: ' ' :: v.indentedChars level) :: indentedFields fs level
termination_by structural fs => fs

end

def compact (v : Value) : String :=
  String.ofList v.compactChars

def indented (v : Value) : String :=
  String.ofList (v.indentedChars 0)

end Value

end TxReceipt.Json
