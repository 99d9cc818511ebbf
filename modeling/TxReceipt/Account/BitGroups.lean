/-!
# Regrouping bits

A list of groups of some width is read as one stream of bits, most significant bit first, and cut
again into groups of another width. A last partial group is filled with zeros, or, where filling is
not wanted, has to be such a filling itself: shorter than an input group, and all zeros. The work is
done in a 32-bit register, masked to the bits that can still be wanted.
-/

namespace TxReceipt.Account

inductive BitGroupError where
  | invalidWidth (fromBits toBits : UInt32)
  | valueOutOfRange (value : UInt8) (fromBits : UInt32)
  | invalidPadding (leftover : Nat)
  deriving DecidableEq

def hexByte (b : UInt8) : List Char :=
  [Nat.digitChar (b.toNat / 16), Nat.digitChar (b.toNat % 16)]

def BitGroupError.message : BitGroupError → String
  | .invalidWidth fromBits toBits =>
    "Invalid bit group width: from " ++ toString fromBits.toNat ++ " to " ++
      toString toBits.toNat ++ " (each must be 1..=8)"
  | .valueOutOfRange value fromBits =>
    "Input value 0x" ++ String.ofList (hexByte value) ++ " does not fit in " ++
      toString fromBits.toNat ++ " bits"
  | .invalidPadding leftover =>
    "Invalid padding: " ++ toString leftover ++
      " leftover bits are not a zero-filled partial group"

namespace BitGroups

/-- A register and how many of its low bits have not been given out. -/
structure Register where
  acc : UInt32
  bits : Nat
  deriving DecidableEq

def Register.empty : Register := ⟨0, 0⟩

/-- The low bits that a register keeps, for widths `f` and `t`. -/
def registerMask (f t : UInt32) : UInt32 :=
  (1 <<< (f + t - 1)) - 1

def groupMask (t : UInt32) : UInt32 :=
  (1 <<< t) - 1

def Register.push (f t : UInt32) (r : Register) (value : UInt8) : Register :=
  ⟨((r.acc <<< f) ||| value.toUInt32) &&& registerMask f t, r.bits + f.toNat⟩

/-- Gives out whole groups, the earliest bits first, and says how many bits are left. -/
def emit (t acc : UInt32) (bits : Nat) : List UInt8 × Nat :=
  if _h : 0 < t.toNat ∧ t.toNat ≤ bits then
    let left := bits - t.toNat
    let group := ((acc >>> UInt32.ofNat left) &&& groupMask t).toUInt8
    let (groups, rest) := emit t acc left
    (group :: groups, rest)
  else ([], bits)
termination_by bits
decreasing_by omega

/-- Regroups whole groups, and leaves the register with what is left over. -/
def run (f t : UInt32) : Register → List UInt8 → Except BitGroupError (List UInt8 × Register)
  | r, [] => .ok ([], r)
  | r, value :: values =>
    if value.toUInt32 >>> f ≠ 0 then .error (.valueOutOfRange value f)
    else do
      let pushed := r.push f t value
      let (groups, bits) := emit t pushed.acc pushed.bits
      let (rest, last) ← run f t ⟨pushed.acc, bits⟩ values
      return (groups ++ rest, last)

/-- The left-over bits of a register, filled with zeros to a group. -/
def filled (t : UInt32) (r : Register) : UInt32 :=
  (r.acc <<< (t - UInt32.ofNat r.bits)) &&& groupMask t

def isWidth (w : UInt32) : Bool :=
  1 ≤ w && w ≤ 8

end BitGroups

open BitGroups in
/-- Regroups groups of `f` bits into groups of `t` bits. With `pad` a last partial group is filled
with zeros; without it what is left over must be such a filling. -/
def regroup (input : List UInt8) (f t : UInt32) (pad : Bool) :
    Except BitGroupError (List UInt8) :=
  if isWidth f && isWidth t then do
    let (groups, last) ← run f t .empty input
    if pad then
      return if 0 < last.bits then groups ++ [(filled t last).toUInt8] else groups
    else if f.toNat ≤ last.bits ∨ filled t last ≠ 0 then .error (.invalidPadding last.bits)
    else return groups
  else .error (.invalidWidth f t)

end TxReceipt.Account
