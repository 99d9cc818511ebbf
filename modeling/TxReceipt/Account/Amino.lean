import TxReceipt.Account.Error
import TxReceipt.Account.Sha256

/-!
# Amino registration

Amino marks encoded values by four bytes taken from the digest of their type's name, and writes the
length of the body after them as an unsigned integer of variable length. `registration` depends on
the body by its length only.
-/

namespace TxReceipt.Account.Amino

/-- The registered name of the only supported type of public keys. -/
def secp256k1 : String := "tendermint/PubKeySecp256k1"

def maxBodyLength : Nat := 33

/-- The place of the first byte from `start` on that is not zero. -/
def firstNonZero? (bytes : List UInt8) (start : Nat) : Option Nat :=
  ((bytes.drop start).findIdx? (· ≠ 0)).map (start + ·)

/-- The four marking bytes of a digest. Zeros are passed over, three bytes are left to tell names
of one mark apart, and zeros are passed over again. -/
def mark? (digest : List UInt8) : Option (List UInt8) := do
  let disambiguation ← firstNonZero? digest 0
  let start ← firstNonZero? digest (disambiguation + 3)
  if start + 4 ≤ digest.length then return (digest.drop start).take 4 else none

/-- An unsigned integer in groups of seven bits, the lowest first; all but the last are marked by
the eighth bit. -/
def uvarint (v : UInt64) : List UInt8 :=
  if _h : 0x80 ≤ v then ((v.toUInt8 &&& 0x7f) ||| 0x80) :: uvarint (v >>> 7)
  else [v.toUInt8]
termination_by v.toNat
decreasing_by
  have : (0x80 : UInt64).toNat ≤ v.toNat := UInt64.le_iff_toNat_le.mp _h
  simp [Nat.shiftRight_eq_div_pow] at this ⊢
  omega

def putUvarint (output : List UInt8) (v : UInt64) : List UInt8 :=
  output ++ uvarint v

/-- The marking bytes of a digest of the type's name, and the length of the body. -/
def registrationOfDigest (digest : List UInt8) (name : String) (body : List UInt8) :
    Except Error (List UInt8) :=
  if maxBodyLength < body.length then .error (.aminoBodyTooLarge body.length maxBodyLength)
  else
    match mark? digest with
    | none => .error (.aminoPrefixNotFound name)
    | some mark => .ok (putUvarint mark (UInt64.ofNat body.length))

/-- What stands before the body of a value of the named type. -/
def registration (name : String) (body : List UInt8) : Except Error (List UInt8) :=
  registrationOfDigest (Sha256.digest name.toUTF8.toList) name body

end TxReceipt.Account.Amino
