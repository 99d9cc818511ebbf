import Mathlib.Algebra.Group.Nat.Defs
import TxReceipt.Account.Amino

/-!
# The code of unsigned integers

`Puts` is the loop that writes a value turn by turn, and `Codes` says without a loop which bytes
stand for a number. Every number has one code, and none is the start of another one, so that a value
can be read off the front of what follows it. `putUvarint_canonical` says that the loop ends, with
the code of the value behind what has been written before.
-/

namespace TxReceipt.Account.Amino

/-- The bytes stand for the number: in groups of seven bits, the lowest first, each of them marked
while more is left. -/
inductive Codes : List UInt8 → Nat → Prop
  | last {b : UInt8} {n : Nat} (value : b.toNat = n) (small : n < 128) : Codes [b] n
  | more {b : UInt8} {bytes : List UInt8} {n : Nat} (value : b.toNat = 128 + n % 128)
    (large : 128 ≤ n) (rest : Codes bytes (n / 128)) : Codes (b :: bytes) n

/-- The groups of seven bits of some bytes, the lowest first, as one number. -/
def groupsValue : List UInt8 → Nat
  | [] => 0
  | b :: bytes => b.toNat % 128 + 128 * groupsValue bytes

variable {bytes bytes' : List UInt8} {n n' : Nat}

theorem Codes.groupsValue_eq (h : Codes bytes n) : groupsValue bytes = n := by
  induction h with
  | last value small =>
    simp only [groupsValue, value]
    omega
  | more value large rest ih =>
    simp only [groupsValue, value, ih]
    omega

theorem Codes.eq_of_start (h : Codes bytes n) (h' : Codes bytes' n') (hstart : bytes <+: bytes') :
    n = n' := by
  induction h generalizing bytes' n' with
  | last value small =>
    cases h' with
    | last value' =>
      obtain ⟨rfl, -⟩ := List.cons_prefix_cons.mp hstart
      exact value.symm.trans value'
    | more value' =>
      obtain ⟨rfl, -⟩ := List.cons_prefix_cons.mp hstart
      omega
  | more value large rest ih =>
    cases h' with
    | last value' small' =>
      obtain ⟨rfl, -⟩ := List.cons_prefix_cons.mp hstart
      omega
    | more value' large' rest' =>
      obtain ⟨rfl, hrest⟩ := List.cons_prefix_cons.mp hstart
      have hquotient := ih rest' hrest
      omega

theorem Codes.unique (h : Codes bytes n) (h' : Codes bytes' n) : bytes = bytes' := by
  induction h generalizing bytes' with
  | last value small =>
    cases h' with
    | last value' => rw [UInt8.toNat_inj.mp (value.trans value'.symm)]
    | more value' large' => omega
  | more value large rest ih =>
    cases h' with
    | last value' small' => omega
    | more value' large' rest' => rw [UInt8.toNat_inj.mp (value.trans value'.symm), ih rest']

/-- All bytes but the last are marked, and the last is zero for zero alone. -/
theorem Codes.exists_last (h : Codes bytes n) : ∃ marked last, bytes = marked ++ [last] ∧
    (∀ b ∈ marked, 0x80 ≤ b) ∧ last < 0x80 ∧ (last = 0 → n = 0) := by
  induction h with
  | @last b n value small =>
    refine ⟨[], b, rfl, by simp, ?_, ?_⟩
    · rw [UInt8.lt_iff_toNat_lt, value]
      exact small
    · rintro rfl
      exact value.symm
  | @more b bytes n value large rest ih =>
    obtain ⟨marked, last, rfl, hmarked, hlast, hzero⟩ := ih
    refine ⟨b :: marked, last, rfl, ?_, hlast, fun h => ?_⟩
    · rw [List.forall_mem_cons]
      refine ⟨?_, hmarked⟩
      rw [UInt8.le_iff_toNat_le, value]
      exact Nat.le_add_right 128 _
    · have hquotient := hzero h
      omega

/-- A number of `k` groups or less has a code of as many bytes, at least one. -/
theorem Codes.length_le (h : Codes bytes n) {k : Nat} (hn : n < 128 ^ (k + 1)) :
    bytes.length ≤ k + 1 := by
  induction h generalizing k with
  | last => exact Nat.le_add_left 1 k
  | @more b bytes n value large rest ih =>
    cases k with
    | zero => omega
    | succ k =>
      have hquotient : n / 128 < 128 ^ (k + 1) := by
        rw [Nat.div_lt_iff_lt_mul (by decide), ← Nat.pow_succ]
        exact hn
      exact Nat.succ_le_succ (ih hquotient)

/-- The loop that writes a value behind what has been written: as long as the value is not below
128, its lowest seven bits are written with a mark and taken off. -/
inductive Puts : List UInt8 → UInt64 → List UInt8 → Prop
  | last {output : List UInt8} {v : UInt64} (small : v < 0x80) :
    Puts output v (output ++ [v.toUInt8])
  | more {output written : List UInt8} {v : UInt64} (large : 0x80 ≤ v)
    (rest : Puts (output ++ [(v.toUInt8 &&& 0x7f) ||| 0x80]) (v >>> 7) written) :
    Puts output v written

theorem puts_putUvarint (output : List UInt8) (v : UInt64) :
    Puts output v (putUvarint output v) := by
  rw [putUvarint]
  induction v using uvarint.induct generalizing output with
  | case1 v large ih =>
    rw [uvarint, dif_pos large, List.append_cons]
    exact .more large (ih _)
  | case2 v small =>
    rw [uvarint, dif_neg small]
    exact .last (UInt64.not_le.mp small)

theorem puts_iff {output written : List UInt8} {v : UInt64} :
    Puts output v written ↔ putUvarint output v = written := by
  constructor
  · intro h
    induction h with
    | last small => rw [putUvarint, uvarint, dif_neg (UInt64.not_le.mpr small)]
    | more large rest ih =>
      rw [← ih, putUvarint, putUvarint, uvarint, dif_pos large, List.append_cons]
  · rintro rfl
    exact puts_putUvarint output v

theorem toNat_shiftRight_seven (v : UInt64) : (v >>> 7).toNat = v.toNat / 128 := by
  rw [UInt64.toNat_shiftRight, Nat.shiftRight_eq_div_pow]
  rfl

theorem toNat_marked (v : UInt64) :
    ((v.toUInt8 &&& 0x7f) ||| 0x80).toNat = 128 + v.toNat % 128 := by
  have hlow : (v.toUInt8 &&& 0x7f).toNat = v.toNat % 128 := by
    have hmask : (0x7f : UInt8).toNat = 2 ^ 7 - 1 := rfl
    rw [UInt8.toNat_and, UInt64.toNat_toUInt8, hmask, Nat.and_two_pow_sub_one_eq_mod]
    omega
  have hmark : (0x80 : UInt8).toNat = 2 ^ 7 * 1 := rfl
  rw [UInt8.toNat_or, hlow, hmark, Nat.or_comm, ← Nat.two_pow_add_eq_or_of_lt (by omega)]

theorem codes_uvarint (v : UInt64) : Codes (uvarint v) v.toNat := by
  have hbound : (0x80 : UInt64).toNat = 128 := rfl
  induction v using uvarint.induct with
  | case1 v large ih =>
    rw [toNat_shiftRight_seven] at ih
    rw [uvarint, dif_pos large]
    rw [UInt64.le_iff_toNat_le, hbound] at large
    exact .more (toNat_marked v) large ih
  | case2 v small =>
    rw [uvarint, dif_neg small]
    rw [UInt64.le_iff_toNat_le, hbound] at small
    refine .last ?_ (by omega)
    rw [UInt64.toNat_toUInt8]
    omega

theorem putUvarint_eq_append_iff {output : List UInt8} {v : UInt64} :
    putUvarint output v = output ++ bytes ↔ Codes bytes v.toNat := by
  rw [putUvarint, List.append_cancel_left_eq]
  constructor
  · rintro rfl
    exact codes_uvarint v
  · exact (codes_uvarint v).unique

/-- The loop ends, with the one code of the value behind what has been written, and no code is the
start of another one. -/
theorem putUvarint_canonical :
    (∀ output v written, Puts output v written ↔ putUvarint output v = written) ∧
    (∀ output v, ∃ marked last, putUvarint output v = output ++ (marked ++ [last]) ∧
      marked.length < 10 ∧ (∀ b ∈ marked, 0x80 ≤ b) ∧ last < 0x80 ∧ (last = 0 → v = 0) ∧
      groupsValue (marked ++ [last]) = v.toNat) ∧
    (∀ output v bytes, putUvarint output v = output ++ bytes ↔ Codes bytes v.toNat) ∧
    ∀ output v w, putUvarint output v <+: putUvarint output w ↔ v = w := by
  refine ⟨fun output v written => puts_iff, fun output v => ?_,
    fun output v bytes => putUvarint_eq_append_iff, fun output v w => ?_⟩
  · have hcodes := codes_uvarint v
    have hlength : (uvarint v).length ≤ 10 := hcodes.length_le (by have := v.toNat_lt; omega)
    obtain ⟨marked, last, heq, hmarked, hlast, hzero⟩ := hcodes.exists_last
    rw [heq] at hlength hcodes
    rw [List.length_append, List.length_singleton] at hlength
    refine ⟨marked, last, ?_, by omega, hmarked, hlast, fun h => ?_, hcodes.groupsValue_eq⟩
    · rw [putUvarint, heq]
    · exact UInt64.toNat_inj.mp (hzero h)
  · constructor
    · intro hstart
      rw [putUvarint, putUvarint, List.prefix_append_right_inj] at hstart
      exact UInt64.toNat_inj.mp ((codes_uvarint v).eq_of_start (codes_uvarint w) hstart)
    · rintro rfl
      exact List.prefix_rfl

end TxReceipt.Account.Amino
