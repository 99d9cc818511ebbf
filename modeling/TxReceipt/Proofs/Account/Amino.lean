import Mathlib.Order.Bounds.Basic
import TxReceipt.Account.Amino

/-!
# What stands before a marked body

The four marking bytes are found in the digest of a name by two searches, each for a byte other than
zero. `MarkStartsAt` says where they stand without any search, and `Registers` what comes of a body
of some length, faults included. `registration_exact` says that nothing else comes of it: the digest
and the length decide, and the length is seen in what is registered.
-/

namespace TxReceipt.Account.Amino

variable {digest : List UInt8} {name : String}

def NonZeroAt (bytes : List UInt8) (i : Nat) : Prop :=
  ∃ b, bytes[i]? = some b ∧ b ≠ 0

theorem firstNonZero?_eq_some_iff {bytes : List UInt8} {start i : Nat} :
    firstNonZero? bytes start = some i ↔ IsLeast {k | start ≤ k ∧ NonZeroAt bytes k} i := by
  have hnonzero {k : Nat} (hk : k < (bytes.drop start).length) :
      decide ((bytes.drop start)[k] ≠ 0) = true ↔ NonZeroAt bytes (start + k) := by
    have hbyte : bytes[start + k]? = some (bytes.drop start)[k] := by
      rw [← List.getElem?_drop, List.getElem?_eq_getElem hk]
    rw [decide_eq_true_eq, NonZeroAt, hbyte]
    simp only [Option.some.injEq, exists_eq_left']
  rw [firstNonZero?, Option.map_eq_some_iff]
  constructor
  · rintro ⟨n, hfound, rfl⟩
    obtain ⟨hn, hhere, hbefore⟩ := List.findIdx?_eq_some_iff_getElem.mp hfound
    refine ⟨⟨Nat.le_add_right start n, (hnonzero hn).mp hhere⟩, ?_⟩
    rintro k ⟨hk, hnonzeroAt⟩
    obtain ⟨m, rfl⟩ := Nat.exists_eq_add_of_le hk
    apply Nat.add_le_add_left
    apply Nat.le_of_not_lt
    intro hmn
    exact hbefore m hmn ((hnonzero (by omega)).mpr hnonzeroAt)
  · rintro ⟨⟨hstart, hhere⟩, hleast⟩
    obtain ⟨n, rfl⟩ := Nat.exists_eq_add_of_le hstart
    obtain ⟨b, hb, -⟩ := id hhere
    have hn : n < (bytes.drop start).length := by
      have hlt := (List.getElem?_eq_some_iff.mp hb).1
      rw [List.length_drop]
      omega
    refine ⟨n, List.findIdx?_eq_some_iff_getElem.mpr ⟨hn, (hnonzero hn).mpr hhere, ?_⟩, rfl⟩
    intro m hmn hm
    have hle := hleast ⟨Nat.le_add_right start m, (hnonzero (by omega)).mp hm⟩
    omega

/-- The marking bytes start at the first byte other than zero that stands three places or more
behind the first one of all. -/
def MarkStartsAt (digest : List UInt8) (start : Nat) : Prop :=
  ∃ i, IsLeast {k | NonZeroAt digest k} i ∧ IsLeast {k | i + 3 ≤ k ∧ NonZeroAt digest k} start

theorem MarkStartsAt.unique {start start' : Nat} (h : MarkStartsAt digest start)
    (h' : MarkStartsAt digest start') : start = start' := by
  obtain ⟨i, hfirst, hstart⟩ := h
  obtain ⟨i', hfirst', hstart'⟩ := h'
  obtain rfl : i = i' := hfirst.unique hfirst'
  exact hstart.unique hstart'

theorem MarkStartsAt.nonZeroAt {start : Nat} (h : MarkStartsAt digest start) :
    NonZeroAt digest start := by
  obtain ⟨i, -, hstart⟩ := h
  exact hstart.1.2

theorem mark?_eq_some_iff {mark : List UInt8} :
    mark? digest = some mark ↔ ∃ start, MarkStartsAt digest start ∧ start + 4 ≤ digest.length ∧
      (digest.drop start).take 4 = mark := by
  have hall : {k | 0 ≤ k ∧ NonZeroAt digest k} = {k | NonZeroAt digest k} := by
    simp only [Nat.zero_le, true_and]
  rw [mark?]
  constructor
  · intro h
    obtain ⟨i, hi, h⟩ := Option.bind_eq_some_iff.mp h
    obtain ⟨start, hstart, h⟩ := Option.bind_eq_some_iff.mp h
    rw [firstNonZero?_eq_some_iff, hall] at hi
    split at h
    · rename_i hinside
      exact ⟨start, ⟨i, hi, firstNonZero?_eq_some_iff.mp hstart⟩, hinside, Option.some.inj h⟩
    · cases h
  · rintro ⟨start, ⟨i, hi, hstart⟩, hinside, rfl⟩
    rw [← hall, ← firstNonZero?_eq_some_iff] at hi
    rw [← firstNonZero?_eq_some_iff] at hstart
    simp only [hi, hstart, if_pos hinside, bind, Option.bind, pure]

theorem exists_take_four {start : Nat} (h : start + 4 ≤ digest.length) :
    ∃ a b c d, digest[start]? = some a ∧ digest[start + 1]? = some b ∧
      digest[start + 2]? = some c ∧ digest[start + 3]? = some d ∧
      (digest.drop start).take 4 = [a, b, c, d] := by
  refine ⟨digest[start], digest[start + 1], digest[start + 2], digest[start + 3],
    List.getElem?_eq_getElem _, List.getElem?_eq_getElem _, List.getElem?_eq_getElem _,
    List.getElem?_eq_getElem _, ?_⟩
  rw [List.drop_eq_getElem_cons (by omega), List.drop_eq_getElem_cons (by omega),
    List.drop_eq_getElem_cons (by omega), List.drop_eq_getElem_cons (by omega)]
  rfl

/-- What comes of a body of some length under a name with some digest. -/
inductive Registers (digest : List UInt8) (name : String) (length : Nat) :
    Except Error (List UInt8) → Prop
  | tooLarge (long : 33 < length) :
    Registers digest name length (.error (.aminoBodyTooLarge length 33))
  | unmarked (short : length ≤ 33)
    (outside : ∀ start, MarkStartsAt digest start → digest.length < start + 4) :
    Registers digest name length (.error (.aminoPrefixNotFound name))
  | marked {start : Nat} {a b c d last : UInt8} (short : length ≤ 33)
    (starts : MarkStartsAt digest start) (inside : start + 4 ≤ digest.length)
    (first : digest[start]? = some a) (second : digest[start + 1]? = some b)
    (third : digest[start + 2]? = some c) (fourth : digest[start + 3]? = some d)
    (counts : last.toNat = length) : Registers digest name length (.ok [a, b, c, d, last])

theorem Registers.unique {length : Nat} {result result' : Except Error (List UInt8)}
    (h : Registers digest name length result) (h' : Registers digest name length result') :
    result = result' := by
  cases h with
  | tooLarge long =>
    cases h' with
    | tooLarge => rfl
    | unmarked short => omega
    | marked short => omega
  | unmarked short outside =>
    cases h' with
    | tooLarge long => omega
    | unmarked => rfl
    | marked short starts inside =>
      have hlt := outside _ starts
      omega
  | marked short starts inside first second third fourth counts =>
    cases h' with
    | tooLarge long => omega
    | unmarked short' outside =>
      have hlt := outside _ starts
      omega
    | marked short' starts' inside' first' second' third' fourth' counts' =>
      obtain rfl := starts.unique starts'
      rw [first, Option.some.injEq] at first'
      rw [second, Option.some.injEq] at second'
      rw [third, Option.some.injEq] at third'
      rw [fourth, Option.some.injEq] at fourth'
      rw [first', second', third', fourth', UInt8.toNat_inj.mp (counts.trans counts'.symm)]

/-- A length below 128 is one byte. -/
theorem putUvarint_of_lt {output : List UInt8} {n : Nat} (h : n < 0x80) :
    putUvarint output (UInt64.ofNat n) = output ++ [UInt8.ofNat n] := by
  have hsmall : ¬ 0x80 ≤ UInt64.ofNat n := by
    have hbound : (0x80 : UInt64).toNat = 0x80 := rfl
    rw [UInt64.le_iff_toNat_le, UInt64.toNat_ofNat', hbound]
    omega
  rw [putUvarint, uvarint, dif_neg hsmall, UInt64.toUInt8_ofNat']

theorem registers_registrationOfDigest (digest : List UInt8) (name : String) (body : List UInt8) :
    Registers digest name body.length (registrationOfDigest digest name body) := by
  rw [registrationOfDigest]
  by_cases hlong : maxBodyLength < body.length
  · rw [if_pos hlong]
    exact .tooLarge hlong
  · have hshort : body.length ≤ 33 := Nat.le_of_not_lt hlong
    rw [if_neg hlong]
    cases hmark : mark? digest with
    | none =>
      refine .unmarked hshort fun start starts => ?_
      apply Nat.lt_of_not_le
      intro hinside
      rw [mark?_eq_some_iff.mpr ⟨start, starts, hinside, rfl⟩] at hmark
      cases hmark
    | some mark =>
      obtain ⟨start, starts, hinside, rfl⟩ := mark?_eq_some_iff.mp hmark
      obtain ⟨a, b, c, d, ha, hb, hc, hd, htake⟩ := exists_take_four hinside
      have hlast : (UInt8.ofNat body.length).toNat = body.length := by
        rw [UInt8.toNat_ofNat']
        omega
      simp only [htake, putUvarint_of_lt (show body.length < 0x80 by omega)]
      exact .marked hshort starts hinside ha hb hc hd hlast

theorem registrationOfDigest_eq_iff {body : List UInt8} {result : Except Error (List UInt8)} :
    registrationOfDigest digest name body = result ↔ Registers digest name body.length result := by
  constructor
  · rintro rfl
    exact registers_registrationOfDigest digest name body
  · exact (registers_registrationOfDigest digest name body).unique

/-- The length is seen in what is registered, unless the digest has no mark. -/
theorem Registers.length_eq_or {length length' : Nat} {result : Except Error (List UInt8)}
    (h : Registers digest name length result) (h' : Registers digest name length' result) :
    length = length' ∨ result = .error (.aminoPrefixNotFound name) := by
  cases h with
  | tooLarge =>
    cases h'
    exact .inl rfl
  | unmarked => exact .inr rfl
  | marked _ _ _ _ _ _ _ counts =>
    cases h' with
    | marked _ _ _ _ _ _ _ counts' => exact .inl (counts.symm.trans counts')

theorem Registers.exists_head {length : Nat} {output : List UInt8}
    (h : Registers digest name length (.ok output)) : ∃ b rest, output = b :: rest ∧ b ≠ 0 := by
  cases h with
  | @marked start a b c d last _ starts _ first =>
    obtain ⟨b', hb', hne⟩ := starts.nonZeroAt
    rw [first, Option.some.injEq] at hb'
    exact ⟨a, [b, c, d, last], rfl, hb' ▸ hne⟩

/-- A registration follows the digest of the name and the length of the body. Its first byte is not
zero, a body of the same length has the same one, and one of another length another one, if not both
fail for want of a mark. -/
theorem registration_exact (name : String) (digest : List UInt8) :
    (registration name = registrationOfDigest (Sha256.digest name.toUTF8.toList) name ∧
      (Sha256.digest name.toUTF8.toList).length = 32) ∧
    (∀ body result, registrationOfDigest digest name body = result ↔
      Registers digest name body.length result) ∧
    (∀ body output, registrationOfDigest digest name body = .ok output →
      ∃ b rest, output = b :: rest ∧ b ≠ 0) ∧
    (∀ body body' : List UInt8, body.length = body'.length →
      registrationOfDigest digest name body = registrationOfDigest digest name body') ∧
    ∀ body body' : List UInt8, body.length ≠ body'.length →
      registrationOfDigest digest name body = registrationOfDigest digest name body' →
      registrationOfDigest digest name body = .error (.aminoPrefixNotFound name) := by
  refine ⟨⟨rfl, Sha256.length_digest _⟩, fun body result => registrationOfDigest_eq_iff,
    fun body output h => (registrationOfDigest_eq_iff.mp h).exists_head,
    fun body body' hlength => ?_, fun body body' hne hsame => ?_⟩
  · rw [registrationOfDigest_eq_iff, hlength]
    exact registers_registrationOfDigest digest name body'
  · have h := registers_registrationOfDigest digest name body
    have h' := registers_registrationOfDigest digest name body'
    rw [← hsame] at h'
    exact (h.length_eq_or h').resolve_left hne

-- A digest that starts with zeros and has more of them behind the bytes that are left out.
example : mark? ([0, 0, 7, 0, 1, 0, 0, 9, 0, 2, 3] ++ List.replicate 21 0) = some [9, 0, 2, 3] := by
  decide

end TxReceipt.Account.Amino
