/-!
# Bech32 text

A bech32 text is a human-readable part, the separator `1`, symbols of five bits, and six symbols of
a checksum over both parts. Letters are all of one case; the checksum is taken over lower case.
There is no limit on the whole length.
-/

namespace TxReceipt.Account.Bech32

inductive Error where
  | missingSeparator
  | invalidLength
  | invalidCharacter (c : Char)
  | mixedCase
  | invalidChecksum
  | invalidData (value : UInt8)
  deriving DecidableEq

def Error.message : Error → String
  | .missingSeparator => "missing human-readable separator, \"1\""
  | .invalidLength => "invalid length"
  | .invalidCharacter c => "invalid character (code=" ++ String.singleton c ++ ")"
  | .mixedCase => "mixed-case strings not allowed"
  | .invalidChecksum => "invalid checksum"
  | .invalidData value => "invalid data point (" ++ toString value.toNat ++ ")"

/-- Five bits. -/
abbrev Symbol : Type := Fin 32

def alphabet : List Char :=
  ['q', 'p', 'z', 'r', 'y', '9', 'x', '8', 'g', 'f', '2', 't', 'v', 'd', 'w', '0',
   's', '3', 'j', 'n', '5', '4', 'k', 'h', 'c', 'e', '6', 'm', 'u', 'a', '7', 'l']

def symbolChar (s : Symbol) : Char :=
  alphabet.getD s.val 'q'

/-- The symbol of a character of either case. -/
def symbolOfChar? (c : Char) : Option Symbol :=
  (List.finRange 32).find? fun s => symbolChar s == c.toLower

def symbolOfByte (value : UInt8) : Except Error Symbol :=
  if h : value.toNat < 32 then .ok ⟨value.toNat, h⟩ else .error (.invalidData value)

inductive LetterCase where
  | lower
  | upper
  deriving DecidableEq

/-- The case seen after one more character. -/
def seeCase (seen : Option LetterCase) (c : Char) : Except Error (Option LetterCase) :=
  if c.isLower then if seen = some .upper then .error .mixedCase else .ok (some .lower)
  else if c.isUpper then if seen = some .lower then .error .mixedCase else .ok (some .upper)
  else .ok seen

/-- Checks the bytes of a human-readable part: visible ASCII, all letters of one case. -/
def checkPartBytes : Option LetterCase → List UInt8 → Except Error (Option LetterCase)
  | seen, [] => .ok seen
  | seen, b :: bytes =>
    let c := Char.ofNat b.toNat
    if 33 ≤ b ∧ b ≤ 126 then do
      let seen ← seeCase seen c
      checkPartBytes seen bytes
    else .error (.invalidCharacter c)

def utf8Bytes (cs : List Char) : List UInt8 :=
  cs.flatMap String.utf8EncodeChar

def maxPartLength : Nat := 83

/-- Checks a human-readable part and says which case its letters have. -/
def checkPart (part : List Char) : Except Error (Option LetterCase) :=
  let bytes := utf8Bytes part
  if bytes.isEmpty || maxPartLength < bytes.length then .error .invalidLength
  else checkPartBytes none bytes

def lowerPart (part : List Char) : List Char :=
  part.map Char.toLower

/-- The generator's contribution for the five bits that leave the register. -/
def generator (top : UInt32) : UInt32 :=
  (if top &&& 1 ≠ 0 then 0x3b6a57b2 else 0) ^^^
  (if top &&& 2 ≠ 0 then 0x26508e6d else 0) ^^^
  (if top &&& 4 ≠ 0 then 0x1ea119fa else 0) ^^^
  (if top &&& 8 ≠ 0 then 0x3d4233dd else 0) ^^^
  (if top &&& 16 ≠ 0 then 0x2a1462b3 else 0)

/-- Moves five bits into the register of the checksum. -/
def polymodStep (register value : UInt32) : UInt32 :=
  (((register &&& 0x1ffffff) <<< 5) ^^^ value) ^^^ generator (register >>> 25)

def polymod (values : List UInt32) : UInt32 :=
  values.foldl polymodStep 1

/-- The human-readable part as values: the high bits of its bytes, a zero, and the low bits. -/
def expandPart (part : List Char) : List UInt32 :=
  let bytes := (utf8Bytes part).map UInt8.toUInt32
  bytes.map (fun b => b >>> (5 : UInt32)) ++ 0 :: bytes.map (fun b => b &&& (31 : UInt32))

def symbolValues (symbols : List Symbol) : List UInt32 :=
  symbols.map fun s => UInt32.ofNat s.val

inductive Variant where
  | bech32
  | bech32m
  deriving DecidableEq

namespace Variant

/-- What the register of a correct text holds. -/
def residue : Variant → UInt32
  | .bech32 => 1
  | .bech32m => 0x2bc830a3

def ofResidue? (register : UInt32) : Option Variant :=
  if register = residue .bech32 then some .bech32
  else if register = residue .bech32m then some .bech32m
  else none

def name : Variant → String
  | .bech32 => "Bech32"
  | .bech32m => "Bech32m"

end Variant

def checksumLength : Nat := 6

/-- Five bits of a register, some bits above its lowest. -/
def symbolAt (register : UInt32) (shift : UInt32) : Symbol :=
  Fin.ofNat 32 ((register >>> shift) &&& 31).toNat

def checksum (part : List Char) (symbols : List Symbol) : List Symbol :=
  let values := expandPart part ++ symbolValues symbols ++ List.replicate checksumLength 0
  let register := polymod values ^^^ Variant.residue .bech32
  [symbolAt register 25, symbolAt register 20, symbolAt register 15, symbolAt register 10,
    symbolAt register 5, symbolAt register 0]

/-- Writes symbols under a human-readable part, all in lower case. -/
def encode (part : String) (symbols : List Symbol) : Except Error String := do
  let _ ← checkPart part.toList
  let lower := lowerPart part.toList
  return String.ofList (lower ++ '1' :: (symbols ++ checksum lower symbols).map symbolChar)

/-- Cuts at the last separator. -/
def splitLast? (cs : List Char) : Option (List Char × List Char) :=
  let back := cs.reverse
  match back.dropWhile (· != '1') with
  | [] => none
  | _ :: part => some (part.reverse, (back.takeWhile (· != '1')).reverse)

def readSymbols : Option LetterCase → List Char → Except Error (List Symbol)
  | _, [] => .ok []
  | seen, c :: cs =>
    if 128 ≤ c.toNat then .error (.invalidCharacter c)
    else do
      let seen ← seeCase seen c
      match symbolOfChar? c with
      | none => .error (.invalidCharacter c)
      | some s =>
        let symbols ← readSymbols seen cs
        return s :: symbols

/-- Reads a text: the human-readable part in lower case, the symbols, and which checksum they
have. -/
def decode (text : String) : Except Error (String × List Symbol × Variant) := do
  match splitLast? text.toList with
  | none => .error .missingSeparator
  | some (part, data) =>
    let seen ← checkPart part
    let symbols ← readSymbols seen data
    if symbols.length < checksumLength then .error .invalidLength
    else
      let lower := lowerPart part
      match Variant.ofResidue? (polymod (expandPart lower ++ symbolValues symbols)) with
      | none => .error .invalidChecksum
      | some variant =>
        return (String.ofList lower, symbols.take (symbols.length - checksumLength), variant)

end TxReceipt.Account.Bech32
