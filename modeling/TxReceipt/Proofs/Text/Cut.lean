import TxReceipt.Text.Cut

/-!
# Where texts are cut

Cutting after some bytes gives the two parts of the text between which that many bytes lie behind.
`splitBytes?_toList_iff` says which parts these are, and `splitBytes?_eq_none_iff` that a text is
cut at the places between its characters and nowhere else.
-/

namespace TxReceipt.Text

theorem utf8ByteSize_cons (c : Char) (cs : List Char) :
    (String.ofList (c :: cs)).utf8ByteSize = c.utf8Size + (String.ofList cs).utf8ByteSize := by
  rw [String.ofList_cons, String.utf8ByteSize_append, String.utf8ByteSize_singleton]

theorem splitBytes?_append (front rest : List Char) :
    splitBytes? (String.ofList front).utf8ByteSize (front ++ rest) = some (front, rest) := by
  induction front with
  | nil => simp [splitBytes?]
  | cons c front ih =>
    have hc := c.utf8Size_pos
    obtain ⟨n, hn⟩ : ∃ n, (String.ofList (c :: front)).utf8ByteSize = n + 1 :=
      Nat.exists_eq_add_of_le' (by rw [utf8ByteSize_cons]; omega)
    have hsize := utf8ByteSize_cons c front
    have hle : c.utf8Size ≤ n + 1 := by omega
    have hleft : n + 1 - c.utf8Size = (String.ofList front).utf8ByteSize := by omega
    rw [hn, List.cons_append, splitBytes?, if_pos hle, hleft, ih]
    rfl

theorem utf8ByteSize_of_splitBytes? {n : Nat} {cs front rest : List Char}
    (h : splitBytes? n cs = some (front, rest)) : (String.ofList front).utf8ByteSize = n := by
  induction cs generalizing n front rest with
  | nil =>
    cases n with
    | zero => cases h; rfl
    | succ n => cases h
  | cons c cs ih =>
    cases n with
    | zero => cases h; rfl
    | succ n =>
      rw [splitBytes?] at h
      split at h
      · rename_i hle
        obtain ⟨⟨front', rest'⟩, hcut, heq⟩ := Option.map_eq_some_iff.mp h
        obtain ⟨rfl, rfl⟩ := Prod.mk.inj heq
        have hfront := ih hcut
        rw [utf8ByteSize_cons, hfront]
        omega
      · cases h

/-- The parts of a cut make up the text, and the front has the bytes that were asked for. -/
theorem splitBytes?_toList_iff {n : Nat} {text front rest : String} :
    splitBytes? n text.toList = some (front.toList, rest.toList) ↔
      text = front ++ rest ∧ front.utf8ByteSize = n := by
  constructor
  · intro h
    have hjoined := append_of_splitBytes? h
    have hsize := utf8ByteSize_of_splitBytes? h
    rw [← String.toList_append, String.toList_inj] at hjoined
    rw [String.ofList_toList] at hsize
    exact ⟨hjoined.symm, hsize⟩
  · rintro ⟨rfl, rfl⟩
    have hcut := splitBytes?_append front.toList rest.toList
    rwa [String.ofList_toList, ← String.toList_append] at hcut

/-- No cut is made inside a character or past the end, and every other one is. -/
theorem splitBytes?_eq_none_iff {n : Nat} {text : String} :
    splitBytes? n text.toList = none ↔ ¬ String.Pos.Raw.IsValid text ⟨n⟩ := by
  rw [String.Pos.Raw.isValid_iff_exists_append]
  constructor
  · rintro hnone ⟨front, rest, joined, place⟩
    have size : front.utf8ByteSize = n := (congrArg String.Pos.Raw.byteIdx place).symm
    have hcut := splitBytes?_toList_iff.mpr ⟨joined, size⟩
    rw [hnone] at hcut
    cases hcut
  · intro inside
    cases hcut : splitBytes? n text.toList with
    | none => rfl
    | some cut =>
      have hparts : splitBytes? n text.toList =
          some ((String.ofList cut.1).toList, (String.ofList cut.2).toList) := by
        rw [hcut, String.toList_ofList, String.toList_ofList]
      obtain ⟨joined, size⟩ := splitBytes?_toList_iff.mp hparts
      exact absurd ⟨_, _, joined, String.Pos.Raw.ext size.symm⟩ inside

end TxReceipt.Text
