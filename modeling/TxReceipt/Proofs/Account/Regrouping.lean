import TxReceipt.Proofs.Account.BitGroups

/-!
# What regrouping comes to

`Regroups` says for any widths and groups what regrouping has to give, in terms of the stream of bits
alone; `regroup_exact` says that this is what is given, and that the register loses nothing on the
way. `regroup_undone` is the same for two regroupings, one after the other: filling is undone, but for
groups that are zeros all over, and what is accepted without filling is written by filling.
-/

namespace TxReceipt.Account

namespace BitGroups

/-- How many bits are left over when groups of `f` bits are cut into groups of `t` bits. -/
def leftover (f t : UInt32) (input : List UInt8) : Nat :=
  input.length * f.toNat % t.toNat

/-- How many bits are missing from the last group of `t` bits. -/
def missing (f t : UInt32) (input : List UInt8) : Nat :=
  (t.toNat - leftover f t input) % t.toNat

def leftoverBits (f t : UInt32) (input : List UInt8) : List Bool :=
  (stream f.toNat input).drop ((stream f.toNat input).length - leftover f t input)

def wholeBits (f t : UInt32) (input : List UInt8) : List Bool :=
  (stream f.toNat input).take ((stream f.toNat input).length - leftover f t input)

def Widths (f t : UInt32) : Prop :=
  (1 ≤ f.toNat ∧ f.toNat ≤ 8) ∧ 1 ≤ t.toNat ∧ t.toNat ≤ 8

/-- What regrouping gives, in the order in which faults are noticed. -/
inductive Regroups (input : List UInt8) (f t : UInt32) :
    Bool → Except BitGroupError (List UInt8) → Prop where
  | invalidWidth {pad : Bool} (widths : ¬ Widths f t) :
      Regroups input f t pad (.error (.invalidWidth f t))
  | valueOutOfRange {pad : Bool} {value : UInt8} (widths : Widths f t)
      (first : input.find? (fun v => 2 ^ f.toNat ≤ v.toNat) = some value) :
      Regroups input f t pad (.error (.valueOutOfRange value f))
  | invalidPadding (widths : Widths f t) (fits : Fits f.toNat input)
      (unfilled : f.toNat ≤ leftover f t input ∨ true ∈ leftoverBits f t input) :
      Regroups input f t false (.error (.invalidPadding (leftover f t input)))
  | padded {output : List UInt8} (widths : Widths f t) (fits : Fits f.toNat input)
      (output_fits : Fits t.toNat output)
      (stream_eq : stream t.toNat output =
        stream f.toNat input ++ List.replicate (missing f t input) false) :
      Regroups input f t true (.ok output)
  | stripped {output : List UInt8} (widths : Widths f t) (fits : Fits f.toNat input)
      (filling : leftover f t input < f.toNat ∧ true ∉ leftoverBits f t input)
      (output_fits : Fits t.toNat output)
      (stream_eq : stream t.toNat output = wholeBits f t input) :
      Regroups input f t false (.ok output)

/-- Nothing is lost from a register: what is moved in finds room in the word, the mask keeps what has
not been given out, and the filling at the end finds room too. -/
structure Register.Lossless (f t : UInt32) (r : Register) : Prop where
  bits_lt : r.bits < t.toNat
  room : (r.acc <<< f).toNat = r.acc.toNat * 2 ^ f.toNat
  pushed_bits_lt (value : UInt8) : (r.push f t value).bits < 32
  kept (value : UInt8) (fits : value.toNat < 2 ^ f.toNat) :
    bitsOf (r.push f t value).bits (r.push f t value).acc.toNat =
      bitsOf r.bits r.acc.toNat ++ bitsOf f.toNat value.toNat
  filling_room : (r.acc <<< (t - UInt32.ofNat r.bits)).toNat =
    r.acc.toNat * 2 ^ (t.toNat - r.bits)

variable {f t : UInt32} {input output : List UInt8}

theorem widths_iff : Widths f t ↔ (isWidth f && isWidth t) = true := by
  rw [Bool.and_eq_true, isWidth_iff, isWidth_iff]
  exact Iff.rfl

theorem fits_iff_find? : Fits f.toNat input ↔
    input.find? (fun v => 2 ^ f.toNat ≤ v.toNat) = none := by
  simp [Fits, List.find?_eq_none]

theorem not_fits_of_find? {value : UInt8}
    (first : input.find? (fun v => 2 ^ f.toNat ≤ v.toNat) = some value) :
    ¬ Fits f.toNat input := by
  rw [fits_iff_find?, first]
  exact Option.some_ne_none value

theorem stream_zeros (w n : Nat) :
    stream w (List.replicate n 0) = List.replicate (w * n) false := by
  induction n with
  | zero => rfl
  | succ n ih =>
    rw [List.replicate_succ, stream_cons, ih, UInt8.toNat_zero, bitsOf_zero,
      List.replicate_append_replicate, Nat.mul_succ, Nat.add_comm]

/-- A run stops at the first value that does not have its width. -/
theorem run_eq_error (hf : isWidth f = true) {value : UInt8}
    (first : input.find? (fun v => 2 ^ f.toNat ≤ v.toNat) = some value) (r : Register) :
    run f t r input = .error (.valueOutOfRange value f) := by
  induction input generalizing r with
  | nil => cases first
  | cons v input ih =>
    rw [run]
    by_cases hv : 2 ^ f.toNat ≤ v.toNat
    · rw [List.find?_cons_of_pos (by simpa using hv)] at first
      have hrange : ¬ v.toUInt32 >>> f = 0 := by
        rw [inRange_iff hf]
        omega
      rw [if_pos hrange, Option.some.inj first]
    · rw [List.find?_cons_of_neg (by simpa using hv)] at first
      have hrange : v.toUInt32 >>> f = 0 := (inRange_iff hf v).mpr (by omega)
      rw [if_neg (Decidable.not_not.mpr hrange)]
      change (run f t ⟨_, _⟩ input >>= _) = _
      rw [ih first]
      rfl

/-- A cut leaves the last bits, and gives the ones before them. -/
theorem Cut.leftover_eq {rest : List Bool} (h : Cut t.toNat (stream f.toNat input) output rest) :
    rest.length = leftover f t input ∧ rest = leftoverBits f t input ∧
      stream t.toNat output = wholeBits f t input := by
  have hstream := h.stream_append
  have hlength : t.toNat * output.length + rest.length = input.length * f.toNat := by
    have hsum := congrArg List.length hstream
    rw [List.length_append, length_stream, length_stream] at hsum
    rw [hsum, Nat.mul_comm]
  have hrest : rest.length = leftover f t input := by
    rw [leftover, ← hlength, Nat.mul_add_mod, Nat.mod_eq_of_lt h.rest_lt]
  have hfront : (stream f.toNat input).length - leftover f t input =
      (stream t.toNat output).length := by
    rw [← hstream, List.length_append, hrest]
    omega
  refine ⟨hrest, ?_, ?_⟩
  · rw [leftoverBits, hfront, ← hstream, List.drop_left]
  · rw [wholeBits, hfront, ← hstream, List.take_left]

theorem eq_replicate_iff {bits : List Bool} :
    bits = List.replicate bits.length false ↔ true ∉ bits := by
  rw [List.eq_replicate_iff]
  simp only [true_and]
  constructor
  · intro h htrue
    cases h true htrue
  · intro h b hb
    cases b with
    | false => rfl
    | true => exact absurd hb h

/-- What is left over is a filling exactly if it is not refused as one. -/
theorem not_unfilled_iff : ¬ (f.toNat ≤ leftover f t input ∨ true ∈ leftoverBits f t input) ↔
    leftover f t input < f.toNat ∧ true ∉ leftoverBits f t input := by
  rw [not_or, Nat.not_le]

/-- The register refuses what is left over exactly if it is no filling. -/
theorem refused_iff (ht : isWidth t = true) {last : Register}
    (h : Cut t.toNat (stream f.toNat input) output (bitsOf last.bits last.acc.toNat)) :
    f.toNat ≤ last.bits ∨ filled t last ≠ 0 ↔
      f.toNat ≤ leftover f t input ∨ true ∈ leftoverBits f t input := by
  obtain ⟨hcount, hbits, -⟩ := h.leftover_eq
  have hlast : last.bits < t.toNat := by simpa using h.rest_lt
  have hzero : filled t last = 0 ↔ true ∉ leftoverBits f t input := by
    rw [filled_eq_zero_iff ht hlast, ← hbits, ← eq_replicate_iff, length_bitsOf]
  rw [length_bitsOf] at hcount
  rw [hcount, ne_eq, hzero, Decidable.not_not]

theorem eq_sub_mod {k l n : Nat} (hk : k < n) (hl : l < n) (h : (l + k) % n = 0) :
    k = (n - l) % n := by
  by_cases hsum : l + k < n
  · rw [Nat.mod_eq_of_lt hsum] at h
    have hzero : l = 0 ∧ k = 0 := by omega
    rw [hzero.1, hzero.2, Nat.sub_zero, Nat.mod_self]
  · rw [Nat.mod_eq_sub_mod (by omega), Nat.mod_eq_of_lt (by omega)] at h
    rw [Nat.mod_eq_of_lt (by omega)]
    omega

/-- The zeros that make whole groups, fewer than a group of them, are the bits that are missing. -/
theorem eq_missing {k : Nat} (hk : k < t.toNat)
    (h : stream t.toNat output = stream f.toNat input ++ List.replicate k false) :
    k = missing f t input := by
  have hlength : t.toNat * output.length = input.length * f.toNat + k := by
    have hsum := congrArg List.length h
    rw [List.length_append, length_stream, length_stream, List.length_replicate] at hsum
    rw [hsum, Nat.mul_comm]
  have hwhole : (leftover f t input + k) % t.toNat = 0 := by
    rw [leftover, Nat.mod_add_mod, ← hlength, Nat.mul_mod_right]
  exact eq_sub_mod hk (Nat.mod_lt _ (by omega)) hwhole

namespace Regroups
variable {pad : Bool} {outcome outcome' : Except BitGroupError (List UInt8)}

/-- There is one thing to give. -/
theorem unique (h : Regroups input f t pad outcome) (h' : Regroups input f t pad outcome') :
    outcome = outcome' := by
  have groups_eq {ys ys' : List UInt8} {bits : List Bool} (widths : Widths f t)
      (hys : Fits t.toNat ys) (hys' : Fits t.toNat ys') (hbits : stream t.toNat ys = bits)
      (hbits' : stream t.toNat ys' = bits) :
      Except.ok (ε := BitGroupError) ys = .ok ys' := by
    rw [eq_of_stream_eq widths.2.1 hys hys' (hbits.trans hbits'.symm)]
  cases h with
  | invalidWidth widths =>
    cases h' with
    | invalidWidth _ => rfl
    | _ => contradiction
  | valueOutOfRange widths first =>
    cases h' with
    | invalidWidth _ => contradiction
    | valueOutOfRange _ first' => rw [Option.some.inj (first.symm.trans first')]
    | invalidPadding _ fits _ => exact absurd fits (not_fits_of_find? first)
    | padded _ fits _ _ => exact absurd fits (not_fits_of_find? first)
    | stripped _ fits _ _ _ => exact absurd fits (not_fits_of_find? first)
  | invalidPadding widths fits unfilled =>
    cases h' with
    | invalidWidth _ => contradiction
    | valueOutOfRange _ first' => exact absurd fits (not_fits_of_find? first')
    | invalidPadding _ _ _ => rfl
    | stripped _ _ filling _ _ => exact absurd unfilled (not_unfilled_iff.mpr filling)
  | padded widths fits output_fits stream_eq =>
    cases h' with
    | invalidWidth _ => contradiction
    | valueOutOfRange _ first' => exact absurd fits (not_fits_of_find? first')
    | padded _ _ output_fits' stream_eq' =>
      exact groups_eq widths output_fits output_fits' stream_eq stream_eq'
  | stripped widths fits filling output_fits stream_eq =>
    cases h' with
    | invalidWidth _ => contradiction
    | valueOutOfRange _ first' => exact absurd fits (not_fits_of_find? first')
    | invalidPadding _ _ unfilled => exact absurd unfilled (not_unfilled_iff.mpr filling)
    | stripped _ _ _ output_fits' stream_eq' =>
      exact groups_eq widths output_fits output_fits' stream_eq stream_eq'

end Regroups

/-- What is given is what has to be given. -/
theorem regroups_regroup (input : List UInt8) (f t : UInt32) (pad : Bool) :
    Regroups input f t pad (regroup input f t pad) := by
  by_cases widths : Widths f t
  · obtain ⟨hf, ht⟩ := Bool.and_eq_true_iff.mp (widths_iff.mp widths)
    cases hfirst : input.find? (fun v => 2 ^ f.toNat ≤ v.toNat) with
    | some value =>
      have herror : regroup input f t pad = .error (.valueOutOfRange value f) := by
        rw [regroup, if_pos (widths_iff.mp widths), run_eq_error hf hfirst]
        rfl
      rw [herror]
      exact .valueOutOfRange widths hfirst
    | none =>
      have fits : Fits f.toNat input := fits_iff_find?.mpr hfirst
      cases pad with
      | true =>
        obtain ⟨output, k, hregroup, hfits, hk, hstream⟩ := regroup_padded hf ht fits
        rw [hregroup]
        exact .padded widths fits hfits (eq_missing hk hstream ▸ hstream)
      | false =>
        obtain ⟨groups, last, hrun, hcut⟩ := run_empty_spec hf ht fits
        obtain ⟨hcount, -, hwhole⟩ := hcut.leftover_eq
        rw [length_bitsOf] at hcount
        have hcheck : regroup input f t false =
            if f.toNat ≤ last.bits ∨ filled t last ≠ 0 then .error (.invalidPadding last.bits)
            else .ok groups := by
          rw [regroup, if_pos (widths_iff.mp widths), hrun]
          rfl
        by_cases unfilled : f.toNat ≤ leftover f t input ∨ true ∈ leftoverBits f t input
        · rw [hcheck, if_pos ((refused_iff ht hcut).mpr unfilled), hcount]
          exact .invalidPadding widths fits unfilled
        · rw [hcheck, if_neg (mt (refused_iff ht hcut).mp unfilled)]
          exact .stripped widths fits (not_unfilled_iff.mp unfilled) hcut.fits hwhole
  · rw [regroup, if_neg (mt widths_iff.mpr widths)]
    exact .invalidWidth widths

section Register

theorem toNat_shiftLeft_of_lt {x w : UInt32} (hw : w.toNat < 32)
    (hroom : x.toNat * 2 ^ w.toNat < 2 ^ 32) : (x <<< w).toNat = x.toNat * 2 ^ w.toNat := by
  rw [UInt32.toNat_shiftLeft, Nat.mod_eq_of_lt hw, Nat.shiftLeft_eq, Nat.mod_eq_of_lt hroom]

theorem toNat_groupMask (ht : isWidth t = true) : (groupMask t).toNat = 2 ^ t.toNat - 1 := by
  have htw := isWidth_iff.mp ht
  rw [groupMask, toNat_mask (by omega)]

theorem toNat_registerMask (hf : isWidth f = true) (ht : isWidth t = true) :
    (registerMask f t).toNat = 2 ^ (f.toNat + t.toNat - 1) - 1 := by
  apply Nat.eq_of_testBit_eq
  intro i
  rw [testBit_registerMask hf ht, Nat.testBit_two_pow_sub_one]

theorem acc_push_lt (hf : isWidth f = true) (ht : isWidth t = true) (r : Register)
    (value : UInt8) : (r.push f t value).acc.toNat < 2 ^ 15 := by
  have hfw := isWidth_iff.mp hf
  have htw := isWidth_iff.mp ht
  apply Nat.lt_pow_two_of_testBit
  intro i hi
  have hout : ¬ i < f.toNat + t.toNat - 1 := by omega
  rw [Register.push, UInt32.toNat_and, Nat.testBit_and, testBit_registerMask hf ht,
    decide_eq_false hout, Bool.and_false]

/-- No register of a run holds more than the widest mask lets through. -/
theorem acc_lt_of_run (hf : isWidth f = true) (ht : isWidth t = true) {r last : Register}
    (hr : r.acc.toNat < 2 ^ 15) (h : run f t r input = .ok (output, last)) :
    last.acc.toNat < 2 ^ 15 := by
  induction input generalizing r output with
  | nil =>
    cases h
    exact hr
  | cons value input ih =>
    rw [run] at h
    split at h
    · cases h
    · obtain ⟨p, hp, hlast⟩ := bind_eq_ok_iff.mp h
      cases hlast
      refine ih ?_ hp
      exact acc_push_lt hf ht r value

/-- Nothing is lost from the registers of a run that starts with an empty one. -/
theorem lossless_of_run (hf : isWidth f = true) (ht : isWidth t = true) {r : Register}
    (h : run f t .empty input = .ok (output, r)) : r.Lossless f t := by
  have hfw := isWidth_iff.mp hf
  have htw := isWidth_iff.mp ht
  obtain ⟨groups, last, hrun, hcut⟩ := run_empty_spec hf ht (fits_of_run_eq_ok hf h)
  cases hrun.symm.trans h
  have hbits : r.bits < t.toNat := by simpa using hcut.rest_lt
  have hacc : r.acc.toNat < 2 ^ 15 := acc_lt_of_run hf ht (by decide) h
  have hroom {w : UInt32} (hw : w.toNat ≤ 8) : (r.acc <<< w).toNat = r.acc.toNat * 2 ^ w.toNat := by
    apply toNat_shiftLeft_of_lt (by omega)
    have hpow : 2 ^ w.toNat ≤ 2 ^ 8 := Nat.pow_le_pow_right (by omega) hw
    calc r.acc.toNat * 2 ^ w.toNat
      _ ≤ r.acc.toNat * 2 ^ 8 := Nat.mul_le_mul_left _ hpow
      _ < 2 ^ 32 := by omega
  have hshift : (t - UInt32.ofNat r.bits).toNat = t.toNat - r.bits := by
    have hcount := toNat_ofNat_of_lt_32 (n := r.bits) (by omega)
    rw [UInt32.toNat_sub_of_le, hcount]
    rw [UInt32.le_iff_toNat_le, hcount]
    omega
  refine ⟨hbits, hroom hfw.2, fun value => ?_, fun value => bitsOf_push hf ht hbits, ?_⟩
  · have hpushed : (r.push f t value).bits = r.bits + f.toNat := rfl
    omega
  · rw [hroom (by omega), hshift]

end Register

end BitGroups

open BitGroups

variable {f t : UInt32} {input : List UInt8}

/-- Regrouping gives what the stream of bits asks for, for all widths and groups and in both modes.
The masks are those of their widths, and whatever groups a run has taken in, its register loses
nothing. -/
theorem regroup_exact (input : List UInt8) (f t : UInt32) (pad : Bool) :
    (∀ outcome, regroup input f t pad = outcome ↔ Regroups input f t pad outcome) ∧
    (Widths f t →
      (groupMask t).toNat = 2 ^ t.toNat - 1 ∧
      (registerMask f t).toNat = 2 ^ (f.toNat + t.toNat - 1) - 1 ∧
      ∀ taken given r, run f t .empty taken = .ok (given, r) → r.Lossless f t) := by
  refine ⟨fun outcome => ⟨?_, (regroups_regroup input f t pad).unique⟩, fun widths => ?_⟩
  · rintro rfl
    exact regroups_regroup input f t pad
  · obtain ⟨hf, ht⟩ := Bool.and_eq_true_iff.mp (widths_iff.mp widths)
    exact ⟨toNat_groupMask ht, toNat_registerMask hf ht,
      fun taken given r hrun => lossless_of_run hf ht hrun⟩

/-- A byte in groups of five bits; with a bit of the filling set, the groups are refused. -/
theorem regroup_exact_of_byte :
    regroup [255] 8 5 true = .ok [31, 28] ∧ Regroups [255] 8 5 true (.ok [31, 28]) ∧
    regroup [31, 29] 5 8 false = .error (.invalidPadding 2) ∧
    Regroups [31, 29] 5 8 false (.error (.invalidPadding 2)) ∧
    Widths 8 5 ∧ run 8 5 .empty [255] = .ok ([31], ⟨255, 3⟩) ∧
    Register.Lossless 8 5 ⟨255, 3⟩ := by
  have filled : regroup [255] 8 5 true = .ok [31, 28] := by cbv
  have refused : regroup [31, 29] 5 8 false = .error (.invalidPadding 2) := by cbv
  have widths : Widths 8 5 := by
    simp only [Widths]
    decide
  have taken : run 8 5 .empty [255] = .ok ([31], ⟨255, 3⟩) := by cbv
  have exact₁ := regroup_exact [255] 8 5 true
  have exact₂ := regroup_exact [31, 29] 5 8 false
  exact ⟨filled, (exact₁.1 _).mp filled, refused, (exact₂.1 _).mp refused, widths, taken,
    (exact₁.2 widths).2.2 _ _ _ taken⟩

/-- The bits that are missing, as a remainder. -/
theorem missing_eq_emod (ht : isWidth t = true) :
    (missing f t input : Int) = -(input.length * f.toNat : Int) % t.toNat := by
  have htw := isWidth_iff.mp ht
  have hle : leftover f t input ≤ t.toNat := Nat.le_of_lt (Nat.mod_lt _ htw.1)
  -- Whole groups more or less do not change the remainder.
  have hleft : -(input.length * f.toNat : Int) =
      -(leftover f t input : Int) + t.toNat * -(input.length * f.toNat / t.toNat : Nat) := by
    have hsum := Nat.div_add_mod (input.length * f.toNat) t.toNat
    have hcast := congrArg Int.ofNat hsum
    simp only [Int.ofNat_eq_natCast, Int.natCast_add, Int.natCast_mul] at hcast
    rw [leftover, Int.mul_neg]
    omega
  rw [missing, Int.natCast_emod, Int.natCast_sub hle, hleft, Int.add_mul_emod_self_left,
    Int.sub_eq_add_neg, Int.add_emod_left]

/-- What was filled is read back, and then the groups that were filled with zeros all over. -/
theorem regroup_strict_of_filled (hf : isWidth f = true) (ht : isWidth t = true)
    (fits : Fits f.toNat input) :
    ∃ output, regroup input f t true = .ok output ∧
      regroup output t f false =
        .ok (input ++ List.replicate (missing f t input / f.toNat) 0) := by
  have hfw := isWidth_iff.mp hf
  obtain ⟨output, k, hregroup, hfits, hk, hstream⟩ := regroup_padded hf ht fits
  rw [← eq_missing hk hstream]
  have hrest : k % f.toNat < f.toNat := Nat.mod_lt _ (by omega)
  have hless : k % f.toNat ≤ k := Nat.mod_le _ _
  have hcut : Cut f.toNat (stream t.toNat output)
      (input ++ List.replicate (k / f.toNat) 0) (List.replicate (k % f.toNat) false) := by
    refine ⟨?_, by rwa [List.length_replicate], ?_⟩
    · refine List.forall_mem_append.mpr ⟨fits, fun g hg => ?_⟩
      rw [List.eq_of_mem_replicate hg]
      exact Nat.two_pow_pos _
    · rw [stream_append, stream_zeros, List.append_assoc, List.replicate_append_replicate,
        Nat.div_add_mod, hstream]
  exact ⟨output, hregroup, (regroup_strict_iff ht hf).mpr ⟨hfits, _, by omega, hcut⟩⟩

/-- For any two widths, reading without filling undoes filling, but for the groups that the filling
adds, of which there are none where the groups written are not the wider ones; and filling writes
what reading accepts, so that reading accepts one text of groups only for what it gives. -/
theorem regroup_undone (f t : UInt32) (widths : Widths f t) :
    (∀ input, Fits f.toNat input → ∃ output, regroup input f t true = .ok output ∧
      (∃ k : Nat, (k : Int) = -(input.length * f.toNat : Int) % t.toNat / f.toNat ∧
        regroup output t f false = .ok (input ++ List.replicate k 0)) ∧
      (t.toNat ≤ f.toNat → regroup output t f false = .ok input)) ∧
    (∀ input output, regroup input f t false = .ok output →
      regroup output t f true = .ok input) ∧
    ∀ input input' output, regroup input f t false = .ok output →
      regroup input' f t false = .ok output → input = input' := by
  obtain ⟨hf, ht⟩ := Bool.and_eq_true_iff.mp (widths_iff.mp widths)
  refine ⟨fun input fits => ?_, fun input output => regroup_padded_of_strict hf ht,
    fun input input' output h h' => ?_⟩
  · obtain ⟨output, hfilled, hread⟩ := regroup_strict_of_filled hf ht fits
    refine ⟨output, hfilled, ⟨_, ?_, hread⟩, fun hle => ?_⟩
    · rw [Int.natCast_ediv, missing_eq_emod ht]
    · exact regroup_strict_of_padded hf ht hle fits hfilled
  · have hback := regroup_padded_of_strict hf ht h
    have hback' := regroup_padded_of_strict hf ht h'
    exact Except.ok.inj (hback.symm.trans hback')

/-- One group of two bits is filled to a byte, which is read as four groups; these make the byte
again. -/
theorem regroup_undone_of_narrow :
    Widths 2 8 ∧ Fits (2 : UInt32).toNat [3] ∧
    (∃ output, regroup [3] 2 8 true = .ok output ∧ ∃ k : Nat, (k : Int) = -(1 * 2) % 8 / 2 ∧
      regroup output 8 2 false = .ok ([3] ++ List.replicate k 0)) ∧
    regroup [3, 0, 0, 0] 2 8 false = .ok [192] ∧ regroup [192] 8 2 true = .ok [3, 0, 0, 0] := by
  have widths : Widths 2 8 := by
    simp only [Widths]
    decide
  have fits : Fits (2 : UInt32).toNat [3] := List.forall_mem_singleton.mpr (by decide)
  have read : regroup [3, 0, 0, 0] 2 8 false = .ok [192] := by cbv
  obtain ⟨filled, strict, -⟩ := regroup_undone 2 8 widths
  obtain ⟨output, houtput, hback, -⟩ := filled [3] fits
  exact ⟨widths, fits, ⟨output, houtput, hback⟩, read, strict _ _ read⟩

end TxReceipt.Account
