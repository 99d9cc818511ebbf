import Mathlib.Algebra.Group.Nat.Defs
import TxReceipt.Account.BitGroups

/-!
# Groups as a stream of bits

Groups of some width are read as one stream of bits, the highest bit of the first group in front. A
stream tells the groups of a width apart, so that regrouping can be stated without a register.
-/

namespace TxReceipt.Account.BitGroups

/-- The low bits of a number, the highest of them first. -/
def bitsOf : Nat → Nat → List Bool
  | 0, _ => []
  | w + 1, n => n.testBit w :: bitsOf w n

def stream (w : Nat) (groups : List UInt8) : List Bool :=
  groups.flatMap fun g => bitsOf w g.toNat

def Fits (w : Nat) (groups : List UInt8) : Prop :=
  ∀ g ∈ groups, g.toNat < 2 ^ w

@[simp]
theorem length_bitsOf (w n : Nat) : (bitsOf w n).length = w := by
  induction w with
  | zero => rfl
  | succ w ih => simp [bitsOf, ih]

theorem bitsOf_congr {w m n : Nat} (h : ∀ i < w, m.testBit i = n.testBit i) :
    bitsOf w m = bitsOf w n := by
  induction w with
  | zero => rfl
  | succ w ih =>
    have hhigh : m.testBit w = n.testBit w := h w (by omega)
    have hlow : bitsOf w m = bitsOf w n := ih fun i hi => h i (by omega)
    rw [bitsOf, bitsOf, hhigh, hlow]

theorem testBit_eq_of_bitsOf_eq {w m n : Nat} (h : bitsOf w m = bitsOf w n) :
    ∀ i < w, m.testBit i = n.testBit i := by
  induction w with
  | zero => omega
  | succ w ih =>
    obtain ⟨hhigh, hlow⟩ := List.cons.inj h
    intro i hi
    by_cases heq : i = w
    · exact heq ▸ hhigh
    · exact ih hlow i (by omega)

/-- A number is known by its bits. -/
theorem eq_of_bitsOf_eq {w m n : Nat} (hm : m < 2 ^ w) (hn : n < 2 ^ w)
    (h : bitsOf w m = bitsOf w n) : m = n := by
  apply Nat.eq_of_testBit_eq
  intro i
  by_cases hi : i < w
  · exact testBit_eq_of_bitsOf_eq h i hi
  · have hpow : 2 ^ w ≤ 2 ^ i := Nat.pow_le_pow_right (by omega) (by omega)
    rw [Nat.testBit_lt_two_pow (by omega), Nat.testBit_lt_two_pow (by omega)]

/-- The upper bits come before the lower ones. -/
theorem bitsOf_add (v w n : Nat) : bitsOf (v + w) n = bitsOf v (n >>> w) ++ bitsOf w n := by
  induction v with
  | zero => simp [bitsOf]
  | succ v ih =>
    have hsucc : v + 1 + w = v + w + 1 := by omega
    rw [hsucc, bitsOf, ih, bitsOf, Nat.testBit_shiftRight, Nat.add_comm w v, List.cons_append]

theorem bitsOf_zero (w : Nat) : bitsOf w 0 = List.replicate w false := by
  induction w with
  | zero => rfl
  | succ w ih => rw [bitsOf, ih, Nat.zero_testBit, List.replicate_succ]

@[simp]
theorem stream_nil (w : Nat) : stream w [] = [] :=
  rfl

theorem stream_cons (w : Nat) (g : UInt8) (groups : List UInt8) :
    stream w (g :: groups) = bitsOf w g.toNat ++ stream w groups :=
  List.flatMap_cons

theorem stream_append (w : Nat) (groups groups' : List UInt8) :
    stream w (groups ++ groups') = stream w groups ++ stream w groups' :=
  List.flatMap_append

theorem length_stream (w : Nat) (groups : List UInt8) :
    (stream w groups).length = w * groups.length := by
  induction groups with
  | nil => rfl
  | cons g groups ih =>
    rw [stream_cons, List.length_append, length_bitsOf, ih, List.length_cons, Nat.mul_succ]
    omega

/-- A length says how many groups there are and how many bits are left over. -/
theorem eq_of_mul_add_eq {w a b k l : Nat} (hk : k < w) (hl : l < w)
    (h : w * a + k = w * b + l) : a = b ∧ k = l := by
  have hw : 0 < w := by omega
  obtain ⟨hdiv, hmod⟩ := (Nat.div_mod_unique (d := a) (c := k) hw).mpr ⟨Nat.add_comm _ _, hk⟩
  obtain ⟨hdiv', hmod'⟩ := (Nat.div_mod_unique (d := b) (c := l) hw).mpr ⟨Nat.add_comm _ _, hl⟩
  rw [h] at hdiv hmod
  exact ⟨hdiv.symm.trans hdiv', hmod.symm.trans hmod'⟩

/-- Groups are known by their stream. -/
theorem eq_of_stream_eq {w : Nat} {xs ys : List UInt8} (hw : 0 < w) (hxs : Fits w xs)
    (hys : Fits w ys) (h : stream w xs = stream w ys) : xs = ys := by
  have hlength : xs.length = ys.length := by
    have hmul := congrArg List.length h
    rw [length_stream, length_stream] at hmul
    exact Nat.eq_of_mul_eq_mul_left hw hmul
  induction xs generalizing ys with
  | nil => exact (List.length_eq_zero_iff.mp hlength.symm).symm
  | cons x xs ih =>
    cases ys with
    | nil => cases hlength
    | cons y ys =>
      rw [stream_cons, stream_cons] at h
      obtain ⟨hhead, htail⟩ := List.append_inj h (by simp)
      have hxy : x.toNat = y.toNat := eq_of_bitsOf_eq (hxs x (.head _)) (hys y (.head _)) hhead
      have hrest : xs = ys := ih (fun g hg => hxs g (.tail _ hg)) (fun g hg => hys g (.tail _ hg))
        htail (Nat.succ.inj hlength)
      rw [UInt8.toNat_inj.mp hxy, hrest]

end TxReceipt.Account.BitGroups
