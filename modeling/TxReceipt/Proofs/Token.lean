import Mathlib.Tactic.SplitIfs
import TxReceipt.Proofs.Text.Cut
import TxReceipt.Token

/-!
# The parts of a token id

An id has a token type if it starts with eight hexadecimal digits, whatever follows them, and an
index if eight hexadecimal digits follow its first eight bytes, whatever these are. In bytes this is
`PartAt`: the bytes of the part stand in the text from some place on, and that place lies between
two characters.
-/

namespace TxReceipt.Token

/-- Eight hexadecimal digits. -/
def IsPart (part : String) : Prop :=
  part.toList.length = partLength ∧ ∀ c ∈ part.toList, isHexDigit c = true

/-- The type that an id starts with, or what stands in for it. -/
inductive Typed (id default : String) : String → Prop
  | stated {type index : String} (digits : IsPart type) (starts : id = type ++ index) :
      Typed id default type
  | malformed (unstated : ∀ type index : String, IsPart type → id ≠ type ++ index) :
      Typed id default default

theorem exists_typed (id default : String) : ∃ type, Typed id default type := by
  by_cases h : ∃ type index : String, IsPart type ∧ id = type ++ index
  · obtain ⟨type, index, digits, starts⟩ := h
    exact ⟨type, .stated digits starts⟩
  · exact ⟨default, .malformed fun type index digits starts => h ⟨type, index, digits, starts⟩⟩

theorem isHexDigit_iff {c : Char} : isHexDigit c = true ↔
    (48 ≤ c.toNat ∧ c.toNat ≤ 57) ∨ (65 ≤ c.toNat ∧ c.toNat ≤ 70) ∨
      (97 ≤ c.toNat ∧ c.toNat ≤ 102) := by
  have range (a b : Char) : (a ≤ c ∧ c ≤ b) ↔ a.toNat ≤ c.toNat ∧ c.toNat ≤ b.toNat := Iff.rfl
  simp only [isHexDigit, Text.hexValue?, range, Char.reduceToNat,
    apply_ite Option.isSome, Option.isSome_some, Option.isSome_none, Bool.if_true_left,
    Bool.or_eq_true, decide_eq_true_eq, Bool.false_eq_true, or_false]
  omega

theorem utf8Size_of_isHexDigit {c : Char} (h : isHexDigit c = true) : c.utf8Size = 1 := by
  have hrange := isHexDigit_iff.mp h
  have hle : c.toNat ≤ 127 := by omega
  exact Char.utf8Size_eq_one_iff.mpr (UInt32.le_iff_toNat_le.mpr hle)

/-- Hexadecimal digits have one byte each. -/
theorem utf8ByteSize_of_isHexDigit {cs : List Char} (h : ∀ c ∈ cs, isHexDigit c = true) :
    (String.ofList cs).utf8ByteSize = cs.length := by
  induction cs with
  | nil => rfl
  | cons c cs ih =>
    have hc := utf8Size_of_isHexDigit (h c (.head _))
    have hcs := ih fun d hd => h d (.tail _ hd)
    rw [Text.utf8ByteSize_cons, hc, hcs, List.length_cons, Nat.add_comm]

theorem IsPart.utf8ByteSize_eq {part : String} (h : IsPart part) :
    part.utf8ByteSize = partLength := by
  have hsize := utf8ByteSize_of_isHexDigit h.2
  rwa [String.ofList_toList, h.1] at hsize

theorem IsPart.all_isHexDigit {part : String} (h : IsPart part) :
    part.toList.all isHexDigit = true :=
  List.all_eq_true.mpr h.2

/-- A part is in front of a cut after its eight bytes. -/
theorem isPart_of_cut {cs front rest : List Char}
    (hcut : Text.splitBytes? partLength cs = some (front, rest))
    (hall : front.all isHexDigit = true) : IsPart (String.ofList front) := by
  have hdigits := List.all_eq_true.mp hall
  have hsize := Text.utf8ByteSize_of_splitBytes? hcut
  rw [utf8ByteSize_of_isHexDigit hdigits] at hsize
  rw [IsPart, String.toList_ofList]
  exact ⟨hsize, hdigits⟩

theorem type_eq_ok_iff {id part : String} :
    Token.type id = .ok part ↔ IsPart part ∧ ∃ rest, id = part ++ rest := by
  constructor
  · intro h
    rw [Token.type] at h
    split at h
    · rename_i front rest hcut
      split at h
      · rename_i hall
        cases h
        refine ⟨isPart_of_cut hcut hall, String.ofList rest, ?_⟩
        rw [← String.ofList_append, Text.append_of_splitBytes? hcut, String.ofList_toList]
      · cases h
    · cases h
  · rintro ⟨digits, rest, joined⟩
    have hcut := Text.splitBytes?_toList_iff.mpr ⟨joined, digits.utf8ByteSize_eq⟩
    simp only [Token.type, hcut, digits.all_isHexDigit, if_true, String.ofList_toList]

theorem index_eq_ok_iff {id part : String} : Token.index id = .ok part ↔
    IsPart part ∧ ∃ front rest, id = front ++ (part ++ rest) ∧ front.utf8ByteSize = partLength := by
  constructor
  · intro h
    rw [Token.index] at h
    split at h
    · rename_i front tail hfront
      split at h
      · rename_i head rest hcut
        split at h
        · rename_i hall
          cases h
          refine ⟨isPart_of_cut hcut hall, String.ofList front, String.ofList rest, ?_, ?_⟩
          · rw [← String.ofList_append, Text.append_of_splitBytes? hcut, ← String.ofList_append,
              Text.append_of_splitBytes? hfront, String.ofList_toList]
          · exact Text.utf8ByteSize_of_splitBytes? hfront
        · cases h
      · cases h
    · cases h
  · rintro ⟨digits, front, rest, joined, size⟩
    have hfront := Text.splitBytes?_toList_iff.mpr ⟨joined, size⟩
    have hcut := Text.splitBytes?_toList_iff.mpr
      (⟨rfl, digits.utf8ByteSize_eq⟩ : part ++ rest = part ++ rest ∧ _)
    simp only [Token.index, hfront, hcut, digits.all_isHexDigit, if_true, String.ofList_toList]

/-- An id without a type is reported as a whole. -/
theorem type_eq_error {id : String} (h : ∀ part, Token.type id ≠ .ok part) :
    Token.type id = .error (.invalidType id) := by
  rw [Token.type] at h ⊢
  split
  · rename_i front rest hcut
    split
    · rename_i hall
      simp only [hcut, hall, if_true] at h
      exact absurd rfl (h (String.ofList front))
    · rfl
  · rfl

-- A character of two bytes lies across the end of the first eight.
example : Token.type "0000000é1" = .error (.invalidType "0000000é1") := rfl

/-- An id without an index is reported as a whole. -/
theorem index_eq_error {id : String} (h : ∀ part, Token.index id ≠ .ok part) :
    Token.index id = .error (.invalidId id) := by
  rw [Token.index] at h ⊢
  split
  · rename_i front tail hfront
    split
    · rename_i head rest hcut
      split
      · rename_i hall
        simp only [hfront, hcut, hall, if_true] at h
        exact absurd rfl (h (String.ofList head))
      · rfl
    · rfl
  · rfl

theorem typeOr_eq_of_typed {id default type : String} (h : Typed id default type) :
    typeOr id default = type := by
  rw [typeOr]
  cases h with
  | @stated type index digits starts =>
    have htype := type_eq_ok_iff.mpr ⟨digits, index, starts⟩
    rw [htype]
  | malformed unstated =>
    cases htype : Token.type id with
    | error e => rfl
    | ok type =>
      obtain ⟨digits, index, starts⟩ := type_eq_ok_iff.mp htype
      exact absurd starts (unstated type index digits)

def IsHexByte (b : UInt8) : Prop :=
  (0x30 ≤ b ∧ b ≤ 0x39) ∨ (0x41 ≤ b ∧ b ≤ 0x46) ∨ (0x61 ≤ b ∧ b ≤ 0x66)

/-- A text of so many bytes, each that of a hexadecimal digit. -/
structure HexDigits (n : Nat) (text : String) : Prop where
  size : text.utf8ByteSize = n
  digits : ∀ b ∈ text.toByteArray.data.toList, IsHexByte b

/-- From a place between two characters on, eight bytes of the text are hexadecimal digits, and they
are those of the part. -/
structure PartAt (text : String) (start : Nat) (part : String) : Prop where
  between : String.Pos.Raw.IsValid text ⟨start⟩
  bytes : text.toByteArray.extract start (start + 8) = part.toByteArray
  digits : HexDigits 8 part

instance (b : UInt8) : Decidable (IsHexByte b) :=
  inferInstanceAs (Decidable (_ ∨ _ ∨ _))

instance (n : Nat) (text : String) : Decidable (HexDigits n text) :=
  have := List.decidableBAll IsHexByte text.toByteArray.data.toList
  decidable_of_iff (_ ∧ _) ⟨fun h => ⟨h.1, h.2⟩, fun h => ⟨h.size, h.digits⟩⟩

instance (text : String) (start : Nat) (part : String) : Decidable (PartAt text start part) :=
  have := ByteArray.instDecidableEq (text.toByteArray.extract start (start + 8)) part.toByteArray
  decidable_of_iff (_ ∧ _ ∧ _)
    ⟨fun h => ⟨h.1, h.2.1, h.2.2⟩, fun h => ⟨h.between, h.bytes, h.digits⟩⟩

theorem PartAt.unique {text part part' : String} {start : Nat} (h : PartAt text start part)
    (h' : PartAt text start part') : part = part' :=
  String.toByteArray_inj.mp (h.bytes.symm.trans h'.bytes)

theorem isHexByte_iff {b : UInt8} : IsHexByte b ↔
    (48 ≤ b.toNat ∧ b.toNat ≤ 57) ∨ (65 ≤ b.toNat ∧ b.toNat ≤ 70) ∨
      (97 ≤ b.toNat ∧ b.toNat ≤ 102) := by
  simp only [IsHexByte, UInt8.le_iff_toNat_le, UInt8.reduceToNat]

/-- A character is a hexadecimal digit exactly if its bytes are those of one. -/
theorem forall_isHexByte_iff {c : Char} :
    (∀ b ∈ String.utf8EncodeChar c, IsHexByte b) ↔ isHexDigit c = true := by
  have hval : c.val.toNat = c.toNat := rfl
  rw [isHexDigit_iff]
  rw [String.utf8EncodeChar, hval]
  -- One case for each number of bytes: of several, the first is no byte of ASCII.
  split_ifs
  all_goals
    simp only [List.forall_mem_cons, List.not_mem_nil, false_implies, implies_true, and_true,
      isHexByte_iff, UInt8.toNat_ofNat']
    omega

theorem hexDigits_iff {n : Nat} {text : String} : HexDigits n text ↔
    text.toList.length = n ∧ ∀ c ∈ text.toList, isHexDigit c = true := by
  have hbytes : text.toByteArray.data.toList = text.toList.flatMap String.utf8EncodeChar := by
    rw [← String.ofList_toList (s := text), String.toList_ofList, String.toByteArray_ofList,
      List.utf8Encode, List.toList_data_toByteArray]
  have hdigits : (∀ b ∈ text.toByteArray.data.toList, IsHexByte b) ↔
      ∀ c ∈ text.toList, isHexDigit c = true := by
    rw [hbytes, List.forall_mem_flatMap]
    simp only [forall_isHexByte_iff]
  constructor
  · rintro ⟨size, digits⟩
    have hall := hdigits.mp digits
    have hsize := utf8ByteSize_of_isHexDigit hall
    rw [String.ofList_toList, size] at hsize
    exact ⟨hsize.symm, hall⟩
  · rintro ⟨hlength, hall⟩
    have hsize := utf8ByteSize_of_isHexDigit hall
    rw [String.ofList_toList, hlength] at hsize
    exact ⟨hsize, hdigits.mpr hall⟩

theorem partAt_iff {text part : String} {start : Nat} : PartAt text start part ↔
    IsPart part ∧ ∃ front rest, text = front ++ (part ++ rest) ∧ front.utf8ByteSize = start := by
  constructor
  · rintro ⟨between, bytes, digits⟩
    obtain ⟨front, tail, rfl, place⟩ := String.Pos.Raw.isValid_iff_exists_append.mp between
    obtain rfl : start = front.utf8ByteSize := congrArg String.Pos.Raw.byteIdx place
    have htail : tail.toByteArray.extract 0 8 = part.toByteArray := by
      rw [← bytes, String.toByteArray_append, ← String.size_toByteArray]
      exact (ByteArray.extract_append_size_add (i := 0) (j := 8)).symm
    -- The part is a text, so that it ends between two characters as well.
    have hend : String.Pos.Raw.IsValid tail ⟨8⟩ := by
      rw [String.Pos.Raw.isValid_iff_isValidUTF8_extract_zero, htail]
      refine ⟨?_, part.isValidUTF8⟩
      have hsize := congrArg ByteArray.size htail
      rw [ByteArray.size_extract, String.size_toByteArray, String.size_toByteArray,
        digits.size] at hsize
      have hle : 8 ≤ tail.utf8ByteSize := by omega
      exact String.Pos.Raw.le_iff.mpr hle
    obtain ⟨part', rest, rfl, place'⟩ := String.Pos.Raw.isValid_iff_exists_append.mp hend
    have hsize : 8 = part'.toByteArray.size :=
      (congrArg String.Pos.Raw.byteIdx place').trans String.size_toByteArray.symm
    rw [String.toByteArray_append, ByteArray.extract_append_eq_left hsize] at htail
    obtain rfl : part' = part := String.toByteArray_inj.mp htail
    exact ⟨hexDigits_iff.mp digits, front, rest, rfl, rfl⟩
  · rintro ⟨hpart, front, rest, rfl, rfl⟩
    refine ⟨String.Pos.Raw.isValid_iff_exists_append.mpr ⟨front, part ++ rest, rfl, rfl⟩, ?_,
      hexDigits_iff.mpr hpart⟩
    have hsize : 8 = part.toByteArray.size :=
      hpart.utf8ByteSize_eq.symm.trans String.size_toByteArray.symm
    calc
      (front ++ (part ++ rest)).toByteArray.extract front.utf8ByteSize (front.utf8ByteSize + 8)
        = (part ++ rest).toByteArray.extract 0 8 := by
          rw [String.toByteArray_append, ← String.size_toByteArray]
          exact ByteArray.extract_append_size_add (i := 0) (j := 8)
      _ = part.toByteArray := by
          rw [String.toByteArray_append, ByteArray.extract_append_eq_left hsize]

/-- A part is cut off between two characters. -/
theorem PartAt.isValid_end {text part : String} {start : Nat} (h : PartAt text start part) :
    String.Pos.Raw.IsValid text ⟨start + 8⟩ := by
  obtain ⟨hpart, front, rest, rfl, rfl⟩ := partAt_iff.mp h
  have hsize : (front ++ part).utf8ByteSize = front.utf8ByteSize + 8 := by
    rw [String.utf8ByteSize_append, hpart.utf8ByteSize_eq]
    rfl
  rw [← hsize, ← String.append_assoc]
  exact String.Pos.Raw.isValid_iff_exists_append.mpr ⟨front ++ part, rest, rfl, rfl⟩

/-- The first eight bytes are the type exactly if they are there and hexadecimal digits. -/
theorem type_eq_ok_iff_partAt {id part : String} : Token.type id = .ok part ↔ PartAt id 0 part := by
  rw [type_eq_ok_iff, partAt_iff]
  constructor
  · rintro ⟨digits, rest, rfl⟩
    exact ⟨digits, "", rest, String.empty_append.symm, rfl⟩
  · rintro ⟨digits, front, rest, rfl, hsize⟩
    obtain rfl : front = "" := String.utf8ByteSize_eq_zero_iff.mp hsize
    exact ⟨digits, rest, String.empty_append⟩

theorem index_eq_ok_iff_partAt {id part : String} :
    Token.index id = .ok part ↔ PartAt id 8 part := by
  rw [index_eq_ok_iff, partAt_iff]
  exact Iff.rfl

end TxReceipt.Token
