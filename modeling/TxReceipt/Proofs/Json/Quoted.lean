import TxReceipt.Json.Reader

/-!
# Texts between quotes

Every text is read back from its quoted form, whatever characters it holds. A control character
without a short escape comes back as a code unit, every other character as itself.
-/

namespace TxReceipt.Json

def shortControls : List Char :=
  ['\x08', '\t', '\n', '\x0c', '\r']

/-- What a reader takes the written form of a character for. -/
def pieceOf (c : Char) : Piece :=
  if c.toNat < 0x20 ∧ c ∉ shortControls then .unit c.toNat else .char c

theorem hexValue?_hexChar : ∀ n < 16, Text.hexValue? (hexChar n) = some n := by
  decide

theorem hexValues?_hexChars {n : Nat} (h : n < 0x20) :
    hexValues? '0' '0' (hexChar (n / 16)) (hexChar (n % 16)) = some n := by
  have hzero : Text.hexValue? '0' = some 0 := by decide
  have hhigh := hexValue?_hexChar (n / 16) (by omega)
  have hlow := hexValue?_hexChar (n % 16) (by omega)
  have hn : n / 16 * 16 + n % 16 = n := by omega
  simp [hexValues?, hzero, hhigh, hlow, hn]

theorem scanPieces?_short {e c : Char} (h : shortEscape? e = some c) (cs : List Char) :
    scanPieces? ('\\' :: e :: cs) =
      (scanPieces? cs).map fun (ps, rest) => (.char c :: ps, rest) := by
  have hu : e ≠ 'u' := by rintro rfl; cases h
  rw [scanPieces?]
  · rw [h]
    cases scanPieces? cs <;> rfl
  · intro _ _ _ _ _ he
    exact absurd he hu

theorem scanPieces?_unit {n : Nat} {a b c d : Char} (h : hexValues? a b c d = some n)
    (cs : List Char) :
    scanPieces? ('\\' :: 'u' :: a :: b :: c :: d :: cs) =
      (scanPieces? cs).map fun (ps, rest) => (.unit n :: ps, rest) := by
  rw [scanPieces?, h]
  cases scanPieces? cs <;> rfl

theorem scanPieces?_plain {c : Char} (hcontrol : ¬ c.toNat < 0x20) (hquote : c ≠ '"')
    (hbackslash : c ≠ '\\') (cs : List Char) :
    scanPieces? (c :: cs) = (scanPieces? cs).map fun (ps, rest) => (.char c :: ps, rest) := by
  rw [scanPieces?.eq_5 c cs hquote (fun _ _ _ _ _ h => absurd h hbackslash)
    (fun _ _ h => absurd h hbackslash), if_neg (by simp [hcontrol, hbackslash])]
  cases scanPieces? cs <;> rfl

/-- A written character is taken off the front of a text as one piece. -/
theorem scanPieces?_escapeChar (c : Char) (cs : List Char) :
    scanPieces? (escapeChar c ++ cs) =
      (scanPieces? cs).map fun (ps, rest) => (pieceOf c :: ps, rest) := by
  rw [escapeChar.eq_def, pieceOf]
  split
  · exact scanPieces?_short rfl cs
  · exact scanPieces?_short rfl cs
  · exact scanPieces?_short rfl cs
  · exact scanPieces?_short rfl cs
  · exact scanPieces?_short rfl cs
  · exact scanPieces?_short rfl cs
  · exact scanPieces?_short rfl cs
  · rename_i hquote hbackslash h₁ h₂ h₃ h₄ h₅
    have hlong : c ∉ shortControls := by
      simp only [shortControls, List.mem_cons, List.not_mem_nil, or_false, not_or]
      exact ⟨h₁, h₂, h₃, h₄, h₅⟩
    split
    · rename_i hcontrol
      rw [if_pos ⟨hcontrol, hlong⟩]
      exact scanPieces?_unit (hexValues?_hexChars hcontrol) cs
    · rename_i hcontrol
      rw [if_neg fun h => hcontrol h.1]
      exact scanPieces?_plain hcontrol hquote hbackslash cs

theorem scanPieces?_quoted (cs rest : List Char) :
    scanPieces? (cs.flatMap escapeChar ++ '"' :: rest) = some (cs.map pieceOf, rest) := by
  induction cs with
  | nil => rfl
  | cons c cs ih =>
    rw [List.flatMap_cons, List.append_assoc, scanPieces?_escapeChar, ih]
    rfl

theorem joinPieces?_unit {n : Nat} (hlead : isLead n = false) (htrail : isTrail n = false)
    (ps : List Piece) : joinPieces? (.unit n :: ps) = (joinPieces? ps).map (Char.ofNat n :: ·) := by
  rw [joinPieces?.eq_def]
  simp [hlead, htrail]

theorem joinPieces?_pieceOf (cs : List Char) : joinPieces? (cs.map pieceOf) = some cs := by
  induction cs with
  | nil => rfl
  | cons c cs ih =>
    rw [List.map_cons, pieceOf]
    split
    · rename_i h
      have hlead : isLead c.toNat = false := by simp [isLead]; omega
      have htrail : isTrail c.toNat = false := by simp [isTrail]; omega
      rw [joinPieces?_unit hlead htrail, ih, Char.ofNat_toNat]
      rfl
    · rw [joinPieces?, ih]
      rfl

theorem textOfPieces?_pieceOf (s : String) : textOfPieces? (s.toList.map pieceOf) = some s := by
  simp [textOfPieces?, joinPieces?_pieceOf]

end TxReceipt.Json
