import Mathlib.Algebra.Group.Nat.Defs
import TxReceipt.Account.Bech32

/-!
# The checksum of bech32

The register is linear in exclusive or, and six symbols move through it without reaching the bits
that feed back. So the symbols that follow a text add their own bits to the register and nothing
else, and `polymod_eq_residue_iff` says that exactly one choice of six of them leaves the register
that a text has to leave.
-/

namespace TxReceipt.Account.Bech32

/-- Symbols as one number, the first of them in the highest place. -/
def number (symbols : List Symbol) : Nat :=
  symbols.foldl (fun n s => 32 * n + s.val) 0

theorem low_eq_of_lt {x : UInt32} (h : x.toNat < 2 ^ 25) : x &&& 0x1ffffff = x := by
  apply UInt32.toNat_inj.mp
  have hmask : (0x1ffffff : UInt32).toNat = 2 ^ 25 - 1 := rfl
  rw [UInt32.toNat_and, hmask, Nat.and_two_pow_sub_one_eq_mod, Nat.mod_eq_of_lt h]

theorem top_eq_zero_of_lt {x : UInt32} (h : x.toNat < 2 ^ 25) : x >>> 25 = 0 := by
  apply UInt32.toNat_inj.mp
  have hshift : (25 : UInt32).toNat % 32 = 25 := rfl
  rw [UInt32.toNat_shiftRight, hshift, Nat.shiftRight_eq_div_pow, Nat.div_eq_of_lt h,
    UInt32.toNat_zero]

theorem low_xor (r x : UInt32) :
    (r ^^^ x) &&& 0x1ffffff = (r &&& 0x1ffffff) ^^^ (x &&& 0x1ffffff) := by
  apply UInt32.toNat_inj.mp
  simp only [UInt32.toNat_and, UInt32.toNat_xor, Nat.and_xor_distrib_right]

/-- What is too small to feed back moves up by one symbol. -/
theorem polymodStep_xor (r v : UInt32) {x : UInt32} (hx : x.toNat < 2 ^ 25) :
    polymodStep (r ^^^ x) v = polymodStep r 0 ^^^ ((x <<< 5) ^^^ v) := by
  have htop : (r ^^^ x) >>> 25 = r >>> 25 := by
    rw [UInt32.shiftRight_xor, top_eq_zero_of_lt hx, UInt32.xor_zero]
  have hlow : (r ^^^ x) &&& 0x1ffffff = (r &&& 0x1ffffff) ^^^ x := by
    rw [low_xor, low_eq_of_lt hx]
  rw [polymodStep, polymodStep, htop, hlow, UInt32.shiftLeft_xor, UInt32.xor_zero]
  ac_rfl

theorem shiftLeft_xor_symbol {n : Nat} (hn : n < 2 ^ 25) (s : Symbol) :
    (UInt32.ofNat n <<< 5) ^^^ UInt32.ofNat s.val = UInt32.ofNat (32 * n + s.val) := by
  have hs : s.val < 2 ^ 5 := s.isLt
  have hword (m : Nat) (hm : m < 2 ^ 30) : (UInt32.ofNat m).toNat = m := by
    rw [UInt32.toNat_ofNat', Nat.mod_eq_of_lt (by omega)]
  have hshift : (UInt32.ofNat n <<< 5).toNat = 2 ^ 5 * n := by
    have hfive : (5 : UInt32).toNat % 32 = 5 := rfl
    rw [UInt32.toNat_shiftLeft, hfive, hword n (by omega), Nat.shiftLeft_eq, Nat.mul_comm,
      Nat.mod_eq_of_lt (by omega)]
  apply UInt32.toNat_inj.mp
  rw [UInt32.toNat_xor, hshift, hword s.val (by omega), hword _ (by omega)]
  apply Nat.eq_of_testBit_eq
  intro i
  refine Eq.trans ?_ (Nat.testBit_two_pow_mul_add n hs i).symm
  rw [Nat.testBit_xor, Nat.testBit_two_pow_mul]
  by_cases hi : i < 5
  · have hlow : ¬ 5 ≤ i := by omega
    simp [hi, hlow]
  · have hhigh : s.val.testBit i = false :=
      Nat.testBit_lt_two_pow (Nat.lt_of_lt_of_le hs (Nat.pow_le_pow_right (by omega) (by omega)))
    have hle : 5 ≤ i := by omega
    simp [hi, hle, hhigh]

/-- As long as they fit into the register, symbols add their number to what zeros would leave. -/
theorem foldl_polymodStep_symbols (symbols : List Symbol) (r : UInt32) {n : Nat}
    (h : (n + 1) * 32 ^ symbols.length ≤ 2 ^ 30) :
    (symbolValues symbols).foldl polymodStep (r ^^^ UInt32.ofNat n) =
      (List.replicate symbols.length 0).foldl polymodStep r ^^^
        UInt32.ofNat (symbols.foldl (fun n s => 32 * n + s.val) n) := by
  induction symbols generalizing r n with
  | nil => rfl
  | cons s symbols ih =>
    rw [List.length_cons, Nat.pow_succ] at h
    have hpos : 0 < 32 ^ symbols.length := Nat.pow_pos (by omega)
    have hn : n < 2 ^ 25 := by
      have hle : (n + 1) * 32 ≤ (n + 1) * (32 ^ symbols.length * 32) :=
        Nat.mul_le_mul_left _ (Nat.le_mul_of_pos_left _ hpos)
      omega
    have hnext : (32 * n + s.val + 1) * 32 ^ symbols.length ≤ 2 ^ 30 := by
      have hs := s.isLt
      calc (32 * n + s.val + 1) * 32 ^ symbols.length
        _ ≤ (n + 1) * 32 * 32 ^ symbols.length := Nat.mul_le_mul_right _ (by omega)
        _ = (n + 1) * (32 ^ symbols.length * 32) := by rw [Nat.mul_assoc, Nat.mul_comm 32]
        _ ≤ 2 ^ 30 := h
    have hword : (UInt32.ofNat n).toNat < 2 ^ 25 := by
      rw [UInt32.toNat_ofNat', Nat.mod_eq_of_lt (by omega)]
      exact hn
    have hstep : polymodStep (r ^^^ UInt32.ofNat n) (UInt32.ofNat s.val) =
        polymodStep r 0 ^^^ UInt32.ofNat (32 * n + s.val) := by
      rw [polymodStep_xor r _ hword, shiftLeft_xor_symbol hn]
    have hrest := ih (polymodStep r 0) hnext
    rw [← hstep] at hrest
    exact hrest

theorem polymod_append_symbols (values : List UInt32) {symbols : List Symbol}
    (h : symbols.length = checksumLength) :
    polymod (values ++ symbolValues symbols) =
      polymod (values ++ List.replicate checksumLength 0) ^^^ UInt32.ofNat (number symbols) := by
  have hrun := foldl_polymodStep_symbols symbols (polymod values) (n := 0) (by rw [h]; decide)
  have hzero : polymod values ^^^ UInt32.ofNat 0 = polymod values := UInt32.xor_zero
  rw [h, hzero] at hrun
  simp only [polymod, List.foldl_append] at hrun ⊢
  exact hrun

theorem generator_lt (top : UInt32) : (generator top).toNat < 2 ^ 30 := by
  have hbit (p : Prop) [Decidable p] (c : UInt32) (hc : c.toNat < 2 ^ 30) :
      (if p then c else 0).toNat < 2 ^ 30 := by
    split
    · exact hc
    · decide
  simp only [generator, UInt32.toNat_xor]
  refine Nat.xor_lt_two_pow (Nat.xor_lt_two_pow (Nat.xor_lt_two_pow (Nat.xor_lt_two_pow ?_ ?_) ?_)
    ?_) ?_
  all_goals exact hbit _ _ (by decide)

/-- The register has thirty bits. -/
theorem polymodStep_lt (r : UInt32) {v : UInt32} (hv : v.toNat < 2 ^ 30) :
    (polymodStep r v).toNat < 2 ^ 30 := by
  have hlow : ((r &&& 0x1ffffff) <<< 5).toNat < 2 ^ 30 := by
    have hmask : (0x1ffffff : UInt32).toNat = 2 ^ 25 - 1 := rfl
    have hshift : (5 : UInt32).toNat % 32 = 5 := rfl
    rw [UInt32.toNat_shiftLeft, hshift, UInt32.toNat_and, hmask, Nat.and_two_pow_sub_one_eq_mod,
      Nat.shiftLeft_eq]
    omega
  rw [polymodStep, UInt32.toNat_xor, UInt32.toNat_xor]
  exact Nat.xor_lt_two_pow (Nat.xor_lt_two_pow hlow hv) (generator_lt _)

theorem polymod_zeros_lt (values : List UInt32) :
    (polymod (values ++ List.replicate checksumLength 0)).toNat < 2 ^ 30 := by
  rw [polymod, List.foldl_append, checksumLength, List.replicate_succ', List.foldl_append]
  exact polymodStep_lt _ (by decide)

theorem val_symbolAt (register shift : UInt32) :
    (symbolAt register shift).val = (register.toNat >>> (shift.toNat % 32)) % 32 := by
  have hmask : (31 : UInt32).toNat = 2 ^ 5 - 1 := rfl
  have hgroup : ((register >>> shift) &&& 31).toNat =
      (register.toNat >>> (shift.toNat % 32)) % 32 := by
    rw [UInt32.toNat_and, hmask, Nat.and_two_pow_sub_one_eq_mod, UInt32.toNat_shiftRight]
  simp only [symbolAt, Fin.ofNat, hgroup, Nat.mod_mod]

/-- The last symbol is the lowest digit. -/
theorem number_concat_eq_iff (symbols : List Symbol) (s : Symbol) (n : Nat) :
    number (symbols ++ [s]) = n ↔ number symbols = n / 32 ∧ s.val = n % 32 := by
  have hs := s.isLt
  rw [number, List.foldl_append, List.foldl_cons, List.foldl_nil, ← number]
  omega

theorem foldl_number_lt (symbols : List Symbol) (n : Nat) :
    symbols.foldl (fun n s => 32 * n + s.val) n < (n + 1) * 32 ^ symbols.length := by
  induction symbols generalizing n with
  | nil => simp
  | cons s symbols ih =>
    have hs := s.isLt
    calc symbols.foldl (fun n s => 32 * n + s.val) (32 * n + s.val)
      _ < (32 * n + s.val + 1) * 32 ^ symbols.length := ih _
      _ ≤ (n + 1) * 32 * 32 ^ symbols.length := Nat.mul_le_mul_right _ (by omega)
      _ = (n + 1) * 32 ^ (symbols.length + 1) := by
        rw [Nat.pow_succ, Nat.mul_assoc, Nat.mul_comm 32]

/-- Six symbols are known by their number. -/
theorem number_eq_iff {symbols : List Symbol} (h : symbols.length = checksumLength)
    {register : UInt32} (hregister : register.toNat < 2 ^ 30) :
    UInt32.ofNat (number symbols) = register ↔
      symbols = [symbolAt register 25, symbolAt register 20, symbolAt register 15,
        symbolAt register 10, symbolAt register 5, symbolAt register 0] := by
  have hlt : number symbols < 2 ^ 30 := by
    have hfold := foldl_number_lt symbols 0
    rw [h] at hfold
    exact hfold
  have hword : UInt32.ofNat (number symbols) = register ↔ number symbols = register.toNat := by
    rw [← UInt32.toNat_inj, UInt32.toNat_ofNat', Nat.mod_eq_of_lt (by omega)]
  have hhigh : number [] = register.toNat / 1073741824 := (Nat.div_eq_of_lt hregister).symm
  rw [hword]
  match symbols, h with
  | [a, b, c, d, e, f], _ =>
    -- The digits are taken off from the last one on.
    change number ([] ++ [a] ++ [b] ++ [c] ++ [d] ++ [e] ++ [f]) = _ ↔ _
    simp only [number_concat_eq_iff, Nat.div_div_eq_div_mul, Nat.reduceMul, List.cons.injEq,
      Fin.ext_iff, val_symbolAt, UInt32.reduceToNat, Nat.reduceMod, Nat.shiftRight_eq_div_pow,
      Nat.reducePow, Nat.div_one, hhigh, true_and, and_true, and_assoc]

/-- Exactly one choice of six symbols is the checksum of a part and its symbols. -/
theorem polymod_eq_residue_iff (part : List Char) (symbols : List Symbol) {last : List Symbol}
    (h : last.length = checksumLength) :
    polymod (expandPart part ++ symbolValues (symbols ++ last)) = Variant.residue .bech32 ↔
      last = checksum part symbols := by
  have hvalues : expandPart part ++ symbolValues (symbols ++ last) =
      (expandPart part ++ symbolValues symbols) ++ symbolValues last := by
    rw [symbolValues, List.map_append, List.append_assoc]
    rfl
  have hlt : (polymod (expandPart part ++ symbolValues symbols ++
      List.replicate checksumLength 0) ^^^ Variant.residue .bech32).toNat < 2 ^ 30 := by
    rw [UInt32.toNat_xor]
    exact Nat.xor_lt_two_pow (polymod_zeros_lt _) (by decide)
  rw [hvalues, polymod_append_symbols _ h, checksum, ← number_eq_iff h hlt]
  constructor
  · intro heq
    rw [← heq, ← UInt32.xor_assoc, UInt32.xor_self, UInt32.zero_xor]
  · intro heq
    rw [heq, ← UInt32.xor_assoc, UInt32.xor_self, UInt32.zero_xor]

theorem length_checksum (part : List Char) (symbols : List Symbol) :
    (checksum part symbols).length = checksumLength :=
  rfl

end TxReceipt.Account.Bech32
