import TxReceipt.Proofs.Account.BitStream
import TxReceipt.Proofs.Except

/-!
# Regrouping as streams of bits

`run_spec` is the invariant of the register: what has been given out, and then what is left in the
register, is the stream that has been put in. `regroup_padded` and `regroup_strict_iff` say the same
of whole regroupings, and from them follows that the two modes undo each other.
-/

namespace TxReceipt.Account.BitGroups

theorem isWidth_iff {w : UInt32} : isWidth w = true ↔ 0 < w.toNat ∧ w.toNat ≤ 8 := by
  simp [isWidth, UInt32.le_iff_toNat_le]
  omega

theorem toNat_ofNat_of_lt_32 {n : Nat} (h : n < 32) : (UInt32.ofNat n).toNat = n := by
  rw [UInt32.toNat_ofNat', Nat.mod_eq_of_lt (by omega)]

theorem toNat_mask {w : UInt32} (h : w.toNat < 32) :
    ((1 <<< w) - 1 : UInt32).toNat = 2 ^ w.toNat - 1 := by
  have hpow : 2 ^ w.toNat < 2 ^ 32 := Nat.pow_lt_pow_right (by omega) h
  have hshift : (1 <<< w : UInt32).toNat = 2 ^ w.toNat := by
    rw [UInt32.toNat_shiftLeft, Nat.mod_eq_of_lt h, UInt32.toNat_one, Nat.one_shiftLeft,
      Nat.mod_eq_of_lt hpow]
  have hle : (1 : UInt32) ≤ 1 <<< w := by
    rw [UInt32.le_iff_toNat_le, hshift]
    exact Nat.one_le_two_pow
  rw [UInt32.toNat_sub_of_le _ _ hle, hshift, UInt32.toNat_one]

theorem testBit_groupMask {t : UInt32} (ht : isWidth t = true) (i : Nat) :
    (groupMask t).toNat.testBit i = decide (i < t.toNat) := by
  have hwidth := isWidth_iff.mp ht
  rw [groupMask, toNat_mask (by omega), Nat.testBit_two_pow_sub_one]

theorem testBit_registerMask {f t : UInt32} (hf : isWidth f = true) (ht : isWidth t = true)
    (i : Nat) : (registerMask f t).toNat.testBit i = decide (i < f.toNat + t.toNat - 1) := by
  have hf := isWidth_iff.mp hf
  have ht := isWidth_iff.mp ht
  have hsum : (f + t).toNat = f.toNat + t.toNat := by
    rw [UInt32.toNat_add]
    omega
  have hbits : (f + t - 1).toNat = f.toNat + t.toNat - 1 := by
    have hle : (1 : UInt32) ≤ f + t := by
      rw [UInt32.le_iff_toNat_le, hsum, UInt32.toNat_one]
      omega
    rw [UInt32.toNat_sub_of_le _ _ hle, hsum, UInt32.toNat_one]
  rw [registerMask, toNat_mask (by omega), Nat.testBit_two_pow_sub_one, hbits]

theorem testBit_shiftLeft {x w : UInt32} (hw : w.toNat < 32) (i : Nat) :
    (x <<< w).toNat.testBit i =
      (decide (i < 32) && (decide (w.toNat ≤ i) && x.toNat.testBit (i - w.toNat))) := by
  rw [UInt32.toNat_shiftLeft, Nat.mod_eq_of_lt hw, Nat.testBit_mod_two_pow, Nat.testBit_shiftLeft]

theorem testBit_shiftRight {x w : UInt32} (hw : w.toNat < 32) (i : Nat) :
    (x >>> w).toNat.testBit i = x.toNat.testBit (w.toNat + i) := by
  rw [UInt32.toNat_shiftRight, Nat.mod_eq_of_lt hw, Nat.testBit_shiftRight]

/-- What a mask leaves of a word is a group. -/
theorem masked_lt {t : UInt32} (ht : isWidth t = true) (x : UInt32) :
    (x &&& groupMask t).toNat < 2 ^ t.toNat := by
  have hwidth := isWidth_iff.mp ht
  have hpos := Nat.two_pow_pos t.toNat
  have hle : (x &&& groupMask t).toNat ≤ (groupMask t).toNat := by
    rw [UInt32.toNat_and]
    exact Nat.and_le_right
  rw [groupMask, toNat_mask (by omega)] at hle
  rw [groupMask]
  omega

theorem toNat_toUInt8_of_lt {t : UInt32} (ht : isWidth t = true) {x : UInt32}
    (hx : x.toNat < 2 ^ t.toNat) : x.toUInt8.toNat = x.toNat := by
  have hwidth := isWidth_iff.mp ht
  have hpow : 2 ^ t.toNat ≤ 2 ^ 8 := Nat.pow_le_pow_right (by omega) hwidth.2
  rw [UInt32.toNat_toUInt8, Nat.mod_eq_of_lt (by omega)]

/-- A value passes the check of its width exactly if it has the width. -/
theorem inRange_iff {f : UInt32} (hf : isWidth f = true) (value : UInt8) :
    value.toUInt32 >>> f = 0 ↔ value.toNat < 2 ^ f.toNat := by
  have hwidth := isWidth_iff.mp hf
  rw [← UInt32.toNat_inj, UInt32.toNat_shiftRight, Nat.mod_eq_of_lt (by omega),
    UInt8.toNat_toUInt32, Nat.shiftRight_eq_div_pow, UInt32.toNat_zero, Nat.div_eq_zero_iff]
  have hpos := Nat.two_pow_pos f.toNat
  omega

/-- A stream is cut into groups of a width, and less than a group of it is left. -/
structure Cut (w : Nat) (bits : List Bool) (groups : List UInt8) (rest : List Bool) : Prop where
  fits : Fits w groups
  rest_lt : rest.length < w
  stream_append : stream w groups ++ rest = bits

namespace Cut

variable {w : Nat} {bits more rest rest' : List Bool} {groups groups' : List UInt8}

theorem nil (h : rest.length < w) : Cut w rest [] rest :=
  ⟨List.forall_mem_nil _, h, rfl⟩

theorem cons {g : UInt8} (hg : g.toNat < 2 ^ w) (h : Cut w bits groups rest) :
    Cut w (bitsOf w g.toNat ++ bits) (g :: groups) rest := by
  refine ⟨List.forall_mem_cons.mpr ⟨hg, h.fits⟩, h.rest_lt, ?_⟩
  rw [stream_cons, List.append_assoc, h.stream_append]

/-- More is cut behind what was left. -/
theorem append (h : Cut w bits groups rest) (h' : Cut w (rest ++ more) groups' rest') :
    Cut w (bits ++ more) (groups ++ groups') rest' := by
  refine ⟨List.forall_mem_append.mpr ⟨h.fits, h'.fits⟩, h'.rest_lt, ?_⟩
  rw [BitGroups.stream_append, List.append_assoc, h'.stream_append, ← List.append_assoc,
    h.stream_append]

/-- There is one way to cut a stream. -/
theorem unique (h : Cut w bits groups rest) (h' : Cut w bits groups' rest') :
    groups = groups' ∧ rest = rest' := by
  have hstream : stream w groups ++ rest = stream w groups' ++ rest' :=
    h.stream_append.trans h'.stream_append.symm
  have hlength := congrArg List.length hstream
  rw [List.length_append, List.length_append, length_stream, length_stream] at hlength
  obtain ⟨hcount, -⟩ := eq_of_mul_add_eq h.rest_lt h'.rest_lt hlength
  obtain ⟨hgroups, hrest⟩ := List.append_inj hstream (by rw [length_stream, length_stream, hcount])
  have hw : 0 < w := Nat.lt_of_le_of_lt (Nat.zero_le _) h.rest_lt
  exact ⟨eq_of_stream_eq hw h.fits h'.fits hgroups, hrest⟩

end Cut

section Register
variable {f t : UInt32}

/-- A group that is moved into the register stands behind what was left there. -/
theorem bitsOf_push (hf : isWidth f = true) (ht : isWidth t = true) {r : Register}
    (hr : r.bits < t.toNat) {value : UInt8} (hvalue : value.toNat < 2 ^ f.toNat) :
    bitsOf (r.push f t value).bits (r.push f t value).acc.toNat =
      bitsOf r.bits r.acc.toNat ++ bitsOf f.toNat value.toNat := by
  have hfw := isWidth_iff.mp hf
  have htw := isWidth_iff.mp ht
  -- The mask keeps every bit that has not been given out.
  have hbit (i : Nat) (hi : i < r.bits + f.toNat) : (r.push f t value).acc.toNat.testBit i =
      (decide (f.toNat ≤ i) && r.acc.toNat.testBit (i - f.toNat) || value.toNat.testBit i) := by
    rw [Register.push, UInt32.toNat_and, Nat.testBit_and, testBit_registerMask hf ht,
      UInt32.toNat_or, Nat.testBit_or, testBit_shiftLeft (by omega), UInt8.toNat_toUInt32]
    have hmask : i < f.toNat + t.toNat - 1 := by omega
    have hword : i < 32 := by omega
    simp [hmask, hword]
  have hbits : (r.push f t value).bits = r.bits + f.toNat := rfl
  rw [hbits, bitsOf_add]
  congr 1
  · apply bitsOf_congr
    intro i hi
    have hhigh : value.toNat.testBit (f.toNat + i) = false := by
      apply Nat.testBit_lt_two_pow
      exact Nat.lt_of_lt_of_le hvalue (Nat.pow_le_pow_right (by omega) (by omega))
    rw [Nat.testBit_shiftRight, hbit _ (by omega), hhigh]
    simp
  · apply bitsOf_congr
    intro i hi
    rw [hbit i (by omega)]
    have hlow : ¬ f.toNat ≤ i := by omega
    simp [hlow]

/-- The groups that are given out are the earliest bits. -/
theorem emit_spec (ht : isWidth t = true) (acc : UInt32) {bits : Nat} (hbits : bits < 32) :
    Cut t.toNat (bitsOf bits acc.toNat) (emit t acc bits).1
      (bitsOf (emit t acc bits).2 acc.toNat) := by
  have htw := isWidth_iff.mp ht
  induction bits using Nat.strongRecOn with
  | ind bits ih =>
    rw [emit]
    split
    · rename_i h
      have hcut := ih (bits - t.toNat) (by omega) (by omega)
      have hshift := toNat_ofNat_of_lt_32 (n := bits - t.toNat) (by omega)
      have hmasked := masked_lt ht (acc >>> UInt32.ofNat (bits - t.toNat))
      have hgroup := toNat_toUInt8_of_lt ht hmasked
      have hsplit : bitsOf bits acc.toNat =
          bitsOf t.toNat ((acc >>> UInt32.ofNat (bits - t.toNat)) &&& groupMask t).toNat ++
            bitsOf (bits - t.toNat) acc.toNat := by
        have hsum : bits = t.toNat + (bits - t.toNat) := by omega
        conv => lhs; rw [hsum, bitsOf_add]
        congr 1
        apply bitsOf_congr
        intro i hi
        rw [UInt32.toNat_and, Nat.testBit_and, testBit_groupMask ht, testBit_shiftRight (by omega),
          hshift, Nat.testBit_shiftRight]
        simp [hi]
      rw [hsplit, ← hgroup]
      exact hcut.cons (hgroup ▸ hmasked)
    · rename_i h
      exact .nil (by rw [length_bitsOf]; omega)

/-- What has been given out, and then what is left in the register, is what was in the register and
then what has been put in. -/
theorem run_spec (hf : isWidth f = true) (ht : isWidth t = true) {input : List UInt8}
    (hinput : Fits f.toNat input) {r : Register} (hr : r.bits < t.toNat) :
    ∃ groups last, run f t r input = .ok (groups, last) ∧
      Cut t.toNat (bitsOf r.bits r.acc.toNat ++ stream f.toNat input) groups
        (bitsOf last.bits last.acc.toNat) := by
  have hfw := isWidth_iff.mp hf
  have htw := isWidth_iff.mp ht
  induction input generalizing r with
  | nil =>
    refine ⟨[], r, rfl, ?_⟩
    rw [stream_nil, List.append_nil]
    exact .nil (by rw [length_bitsOf]; exact hr)
  | cons value input ih =>
    have hvalue : value.toNat < 2 ^ f.toNat := hinput value (.head _)
    have hbits : (r.push f t value).bits = r.bits + f.toNat := rfl
    have hroom : (r.push f t value).bits < 32 := by omega
    have hemit := emit_spec ht (r.push f t value).acc hroom
    rw [bitsOf_push hf ht hr hvalue] at hemit
    have hleft : (emit t (r.push f t value).acc (r.push f t value).bits).2 < t.toNat := by
      have h := hemit.rest_lt
      rwa [length_bitsOf] at h
    obtain ⟨rest, last, hrun, hcut⟩ :=
      ih (r := ⟨(r.push f t value).acc, (emit t (r.push f t value).acc (r.push f t value).bits).2⟩)
        (fun g hg => hinput g (.tail _ hg)) hleft
    refine ⟨(emit t (r.push f t value).acc (r.push f t value).bits).1 ++ rest, last, ?_, ?_⟩
    · have hcheck := (inRange_iff hf value).mpr hvalue
      rw [run, if_neg (Decidable.not_not.mpr hcheck)]
      change (run f t ⟨_, _⟩ input >>= _) = _
      rw [hrun]
      rfl
    · rw [stream_cons, ← List.append_assoc]
      exact hemit.append hcut

/-- A whole run starts with nothing in the register. -/
theorem run_empty_spec (hf : isWidth f = true) (ht : isWidth t = true) {input : List UInt8}
    (hinput : Fits f.toNat input) :
    ∃ groups last, run f t .empty input = .ok (groups, last) ∧
      Cut t.toNat (stream f.toNat input) groups (bitsOf last.bits last.acc.toNat) :=
  run_spec hf ht hinput (r := .empty) (isWidth_iff.mp ht).1

/-- Nothing is given out of groups that do not have their width. -/
theorem fits_of_run_eq_ok (hf : isWidth f = true) {input : List UInt8} {r : Register}
    {p : List UInt8 × Register} (h : run f t r input = .ok p) : Fits f.toNat input := by
  induction input generalizing r p with
  | nil => exact List.forall_mem_nil _
  | cons value input ih =>
    rw [run] at h
    split at h
    · cases h
    · rename_i hcheck
      obtain ⟨q, hq, -⟩ := bind_eq_ok_iff.mp h
      intro g hg
      rcases List.mem_cons.mp hg with rfl | hg
      · exact (inRange_iff hf g).mp (Decidable.not_not.mp hcheck)
      · exact ih hq g hg

/-- The last group is what is left in the register and then zeros. -/
theorem bitsOf_filled (ht : isWidth t = true) {r : Register} (hr : r.bits < t.toNat) :
    bitsOf t.toNat (filled t r).toNat =
      bitsOf r.bits r.acc.toNat ++ List.replicate (t.toNat - r.bits) false := by
  have htw := isWidth_iff.mp ht
  have hbits := toNat_ofNat_of_lt_32 (n := r.bits) (by omega)
  have hshift : (t - UInt32.ofNat r.bits).toNat = t.toNat - r.bits := by
    have hle : UInt32.ofNat r.bits ≤ t := by
      rw [UInt32.le_iff_toNat_le, hbits]
      omega
    rw [UInt32.toNat_sub_of_le _ _ hle, hbits]
  have hbit (i : Nat) (hi : i < t.toNat) : (filled t r).toNat.testBit i =
      (decide (t.toNat - r.bits ≤ i) && r.acc.toNat.testBit (i - (t.toNat - r.bits))) := by
    rw [filled, UInt32.toNat_and, Nat.testBit_and, testBit_groupMask ht,
      testBit_shiftLeft (by omega), hshift]
    have hword : i < 32 := by omega
    simp [hi, hword]
  have hsum : t.toNat = r.bits + (t.toNat - r.bits) := by omega
  conv => lhs; rw [hsum, bitsOf_add]
  congr 1
  · apply bitsOf_congr
    intro i hi
    rw [Nat.testBit_shiftRight, hbit _ (by omega)]
    simp
  · rw [← bitsOf_zero]
    apply bitsOf_congr
    intro i hi
    rw [hbit i (by omega), Nat.zero_testBit]
    have hlow : ¬ t.toNat - r.bits ≤ i := by omega
    simp [hlow]

theorem filled_lt (ht : isWidth t = true) (r : Register) : (filled t r).toNat < 2 ^ t.toNat :=
  masked_lt ht _

/-- The last group is zero exactly if all that is left is zeros. -/
theorem filled_eq_zero_iff (ht : isWidth t = true) {r : Register} (hr : r.bits < t.toNat) :
    filled t r = 0 ↔ bitsOf r.bits r.acc.toNat = List.replicate r.bits false := by
  have hfilled := bitsOf_filled ht hr
  have hzeros : List.replicate t.toNat false =
      List.replicate r.bits false ++ List.replicate (t.toNat - r.bits) false := by
    rw [List.replicate_append_replicate]
    congr 1
    omega
  constructor
  · intro h
    rw [h, UInt32.toNat_zero, bitsOf_zero, hzeros] at hfilled
    exact (List.append_cancel_right hfilled).symm
  · intro h
    rw [h, ← hzeros, ← bitsOf_zero] at hfilled
    apply UInt32.toNat_inj.mp
    exact eq_of_bitsOf_eq (filled_lt ht r) (Nat.two_pow_pos _) hfilled

end Register

end TxReceipt.Account.BitGroups

namespace TxReceipt.Account

open BitGroups

variable {f t : UInt32} {input output : List UInt8}

/-- With filling, the stream is kept and ends with less than a group of zeros. -/
theorem regroup_padded (hf : isWidth f = true) (ht : isWidth t = true)
    (hinput : Fits f.toNat input) :
    ∃ output k, regroup input f t true = .ok output ∧ Fits t.toNat output ∧ k < t.toNat ∧
      stream t.toNat output = stream f.toNat input ++ List.replicate k false := by
  have htw := isWidth_iff.mp ht
  obtain ⟨groups, last, hrun, hcut⟩ := run_empty_spec hf ht hinput
  have hlast : last.bits < t.toNat := by simpa using hcut.rest_lt
  have hregroup : regroup input f t true =
      .ok (if 0 < last.bits then groups ++ [(filled t last).toUInt8] else groups) := by
    rw [regroup, if_pos (by rw [hf, ht]; rfl), hrun]
    rfl
  by_cases hleft : 0 < last.bits
  · rw [if_pos hleft] at hregroup
    have hfilled := toNat_toUInt8_of_lt ht (filled_lt ht last)
    refine ⟨_, t.toNat - last.bits, hregroup, ?_, by omega, ?_⟩
    · refine List.forall_mem_append.mpr ⟨hcut.fits, List.forall_mem_singleton.mpr ?_⟩
      rw [hfilled]
      exact filled_lt ht last
    · rw [stream_append, stream_cons, stream_nil, List.append_nil, hfilled, bitsOf_filled ht hlast,
        ← List.append_assoc, hcut.stream_append]
  · rw [if_neg hleft] at hregroup
    have hnone : last.bits = 0 := by omega
    refine ⟨_, 0, hregroup, hcut.fits, htw.1, ?_⟩
    rw [← hcut.stream_append, hnone]
    simp [bitsOf]

/-- Without filling, the stream is kept but for its end: zeros, less than a group of either
width. Nothing else is accepted. -/
theorem regroup_strict_iff (hf : isWidth f = true) (ht : isWidth t = true) :
    regroup input f t false = .ok output ↔ Fits f.toNat input ∧
      ∃ k < f.toNat, Cut t.toNat (stream f.toNat input) output (List.replicate k false) := by
  constructor
  · intro h
    rw [regroup, if_pos (by rw [hf, ht]; rfl)] at h
    obtain ⟨p, hp, hcheck⟩ := bind_eq_ok_iff.mp h
    have hinput := fits_of_run_eq_ok hf hp
    obtain ⟨groups, last, hrun, hcut⟩ := run_empty_spec hf ht hinput
    have hlast : last.bits < t.toNat := by simpa using hcut.rest_lt
    cases hrun.symm.trans hp
    simp only [Bool.false_eq_true, if_false] at hcheck
    split at hcheck
    · cases hcheck
    · rename_i haccept
      cases hcheck
      rw [not_or, Nat.not_le, Decidable.not_not] at haccept
      rw [(filled_eq_zero_iff ht hlast).mp haccept.2] at hcut
      exact ⟨hinput, last.bits, haccept.1, hcut⟩
  · rintro ⟨hinput, k, hk, hcut⟩
    obtain ⟨groups, last, hrun, hgiven⟩ := run_empty_spec hf ht hinput
    have hlast : last.bits < t.toNat := by simpa using hgiven.rest_lt
    obtain ⟨hsame, hzeros⟩ := hcut.unique hgiven
    have hbits : k = last.bits := by simpa using congrArg List.length hzeros
    rw [hbits] at hzeros hk
    have haccept : ¬ (f.toNat ≤ last.bits ∨ filled t last ≠ 0) := by
      rw [not_or, Nat.not_le, Decidable.not_not]
      exact ⟨hk, (filled_eq_zero_iff ht hlast).mpr hzeros.symm⟩
    rw [regroup, if_pos (by rw [hf, ht]; rfl), hrun, hsame]
    exact if_neg haccept

/-- What was filled is read back, where the groups written are not the wider ones. -/
theorem regroup_strict_of_padded (hf : isWidth f = true) (ht : isWidth t = true)
    (hle : t.toNat ≤ f.toNat) (hinput : Fits f.toNat input)
    (h : regroup input f t true = .ok output) : regroup output t f false = .ok input := by
  obtain ⟨groups, k, hgroups, hfits, hk, hstream⟩ := regroup_padded hf ht hinput
  cases hgroups.symm.trans h
  have hlength : (List.replicate k false).length < f.toNat := by
    rw [List.length_replicate]
    omega
  exact (regroup_strict_iff ht hf).mpr ⟨hfits, k, hk, hinput, hlength, hstream.symm⟩

/-- What is accepted without filling is what filling writes. -/
theorem regroup_padded_of_strict (hf : isWidth f = true) (ht : isWidth t = true)
    (h : regroup input f t false = .ok output) : regroup output t f true = .ok input := by
  have hfw := isWidth_iff.mp hf
  obtain ⟨hinput, k, hk, hcut⟩ := (regroup_strict_iff hf ht).mp h
  obtain ⟨groups, k', hgroups, hfits, hk', hfilled⟩ := regroup_padded ht hf hcut.fits
  have hlength : f.toNat * input.length + k' = f.toNat * groups.length + k := by
    have h₁ := congrArg List.length hcut.stream_append
    have h₂ := congrArg List.length hfilled
    simp only [List.length_append, length_stream, List.length_replicate] at h₁ h₂
    omega
  obtain ⟨-, hzeros⟩ := eq_of_mul_add_eq hk' hk hlength
  rw [hzeros, hcut.stream_append] at hfilled
  rw [hgroups, eq_of_stream_eq hfw.1 hfits hinput hfilled]

end TxReceipt.Account
