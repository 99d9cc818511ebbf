/-!
# Base64 text

Bytes in the standard alphabet of 64 characters, with padding to whole quads, read from the bytes of
a text. Padding has to be there, and the bits that it leaves unused have to be zero.
-/

namespace TxReceipt.Account.Base64

inductive Error where
  | invalidSymbol (byte : UInt8) (offset : Nat)
  | invalidLastSymbol (byte : UInt8) (offset : Nat)
  | invalidLength (length : Nat)
  | invalidPadding
  deriving DecidableEq

def Error.message : Error → String
  | .invalidSymbol byte offset =>
    "Invalid symbol " ++ toString byte.toNat ++ ", offset " ++ toString offset ++ "."
  | .invalidLastSymbol byte offset =>
    "Invalid last symbol " ++ toString byte.toNat ++ ", offset " ++ toString offset ++ "."
  | .invalidLength length => "Invalid input length: " ++ toString length
  | .invalidPadding => "Invalid padding"

def pad : UInt8 := 61

def sextet? (b : UInt8) : Option Nat :=
  let n := b.toNat
  if 65 ≤ n ∧ n ≤ 90 then some (n - 65)
  else if 97 ≤ n ∧ n ≤ 122 then some (n - 71)
  else if 48 ≤ n ∧ n ≤ 57 then some (n + 4)
  else if n = 43 then some 62
  else if n = 47 then some 63
  else none

def sextetAt (b : UInt8) (offset : Nat) : Except Error Nat :=
  match sextet? b with
  | some n => .ok n
  | none => .error (.invalidSymbol b offset)

/-- The three bytes of four times six bits. -/
def quadBytes (a b c d : Nat) : List UInt8 :=
  let n := ((a * 64 + b) * 64 + c) * 64 + d
  [UInt8.ofNat (n / 65536), UInt8.ofNat (n / 256), UInt8.ofNat n]

/-- What the last quad holds: its six-bit groups, its last character of the alphabet, and how many
paddings follow them. -/
structure LastQuad where
  sextets : List Nat
  lastSymbol : UInt8
  padding : Nat

/-- Reads the characters of the last quad, from some place in it. Paddings stand in the last two
places only, and nothing stands after them. -/
def readLast (offset : Nat) : LastQuad → Nat → List UInt8 → Except Error LastQuad
  | q, _, [] => .ok q
  | q, place, b :: bytes =>
    if b = pad then
      if place < 2 then .error (.invalidSymbol b (offset + place))
      else readLast offset { q with padding := q.padding + 1 } (place + 1) bytes
    else if 0 < q.padding then .error (.invalidSymbol pad (offset + q.sextets.length))
    else do
      let n ← sextetAt b (offset + place)
      readLast offset ⟨q.sextets ++ [n], b, 0⟩ (place + 1) bytes

def lastBytes (offset : Nat) (bytes : List UInt8) : Except Error (List UInt8) := do
  let q ← readLast offset ⟨[], 0, 0⟩ 0 bytes
  let count := q.sextets.length
  let lastOffset := offset + count - 1
  if (0 < offset ∨ bytes ≠ []) ∧ count < 2 then .error (.invalidLength (offset + count))
  else if (count + q.padding) % 4 ≠ 0 then .error .invalidPadding
  else
    match q.sextets with
    | [a, b] =>
      if b % 16 = 0 then return (quadBytes a b 0 0).take 1
      else .error (.invalidLastSymbol q.lastSymbol lastOffset)
    | [a, b, c] =>
      if c % 4 = 0 then return (quadBytes a b c 0).take 2
      else .error (.invalidLastSymbol q.lastSymbol lastOffset)
    | [a, b, c, d] => return quadBytes a b c d
    | _ => return []

/-- The bytes of a list of quads, of which the last may be incomplete. -/
def readQuads (offset : Nat) : List UInt8 → Except Error (List UInt8)
  | a :: b :: c :: d :: rest =>
    if rest.isEmpty then lastBytes offset [a, b, c, d]
    else do
      let w ← sextetAt a offset
      let x ← sextetAt b (offset + 1)
      let y ← sextetAt c (offset + 2)
      let z ← sextetAt d (offset + 3)
      let bytes ← readQuads (offset + 4) rest
      return quadBytes w x y z ++ bytes
  | bytes => lastBytes offset bytes

/-- A single character after the last whole quad that belongs nowhere. -/
def strayLast? (bytes : List UInt8) : Option UInt8 :=
  if bytes.length % 4 = 1 then
    bytes.getLast?.filter fun b => b != pad && (sextet? b).isNone
  else none

def decode (text : String) : Except Error (List UInt8) :=
  let bytes := text.toUTF8.toList
  match strayLast? bytes with
  | some b => .error (.invalidSymbol b (bytes.length - 1))
  | none => readQuads 0 bytes

end TxReceipt.Account.Base64
