import TxReceipt.Account.Base64
import TxReceipt.Proofs.Account.Bech32

/-!
# Base64 without padding

A quad of characters of the alphabet says three bytes, and one with paddings fewer. So a number of
bytes that needs no padding is read from exactly the texts of four characters of the alphabet for
every three bytes, as `exists_decode_iff` says.
-/

namespace TxReceipt.Account.Base64

open Bech32 (utf8Bytes Visible)

theorem toList_loop_eq (bytes : ByteArray) (i : Nat) (front : List UInt8) :
    ByteArray.toList.loop bytes i front = front.reverse ++ bytes.data.toList.drop i := by
  fun_induction ByteArray.toList.loop bytes i front with
  | case1 i front h ih =>
    have hi : i < bytes.data.toList.length := by simpa using h
    rw [ih, List.drop_eq_getElem_cons hi]
    simp [ByteArray.get!, h]
  | case2 i front h =>
    rw [List.drop_eq_nil_of_le (by simpa using Nat.le_of_not_lt h), List.append_nil]

theorem toList_toUTF8 (text : String) : text.toUTF8.toList = utf8Bytes text.toList := by
  have hbytes : text.toByteArray = (utf8Bytes text.toList).toByteArray := by
    rw [← String.ofList_toList (s := text), String.toList_ofList]
    rfl
  rw [String.toUTF8_eq_toByteArray, hbytes, ByteArray.toList, toList_loop_eq, List.reverse_nil,
    List.nil_append, List.drop_zero, List.toList_data_toByteArray]

def IsSymbol (c : Char) : Prop :=
  c.isAlphanum = true ∨ c = '+' ∨ c = '/'

instance (c : Char) : Decidable (IsSymbol c) :=
  inferInstanceAs (Decidable (_ ∨ _))

def IsSymbolByte (b : UInt8) : Prop :=
  (sextet? b).isSome = true

theorem isSymbolByte_iff {b : UInt8} : IsSymbolByte b ↔
    (65 ≤ b.toNat ∧ b.toNat ≤ 90) ∨ (97 ≤ b.toNat ∧ b.toNat ≤ 122) ∨
      (48 ≤ b.toNat ∧ b.toNat ≤ 57) ∨ b.toNat = 43 ∨ b.toNat = 47 := by
  rw [IsSymbolByte, sextet?]
  split_ifs <;> simp <;> omega

theorem isSymbol_iff {c : Char} : IsSymbol c ↔
    (65 ≤ c.toNat ∧ c.toNat ≤ 90) ∨ (97 ≤ c.toNat ∧ c.toNat ≤ 122) ∨
      (48 ≤ c.toNat ∧ c.toNat ≤ 57) ∨ c.toNat = 43 ∨ c.toNat = 47 := by
  simp only [IsSymbol, Char.isAlphanum, Char.isAlpha, Char.isUpper, Char.isLower, Char.isDigit,
    ← Char.toNat_inj, Bool.or_eq_true, Bool.and_eq_true, decide_eq_true_eq, ge_iff_le,
    UInt32.le_iff_toNat_le]
  change (((65 ≤ c.toNat ∧ c.toNat ≤ 90) ∨ (97 ≤ c.toNat ∧ c.toNat ≤ 122)) ∨
    (48 ≤ c.toNat ∧ c.toNat ≤ 57)) ∨ c.toNat = 43 ∨ c.toNat = 47 ↔ _
  omega

theorem visible_of_isSymbol {c : Char} (h : IsSymbol c) : Visible c := by
  rw [isSymbol_iff] at h
  rw [Visible]
  omega

/-- The bytes of a character are those of the alphabet exactly if the character is. -/
theorem forall_utf8EncodeChar_iff {c : Char} :
    (∀ b ∈ String.utf8EncodeChar c, IsSymbolByte b) ↔ IsSymbol c := by
  by_cases hc : Visible c
  · obtain ⟨b, hb, hnat⟩ := Bech32.utf8EncodeChar_of_visible hc
    rw [hb, List.forall_mem_singleton, isSymbolByte_iff, isSymbol_iff, hnat]
  · obtain ⟨b, bytes, hb, hrange⟩ := Bech32.utf8EncodeChar_of_not_visible hc
    constructor
    · intro h
      have hsymbol := isSymbolByte_iff.mp (h b (hb ▸ .head _))
      simp only [UInt8.le_iff_toNat_le, UInt8.reduceToNat] at hrange
      omega
    · intro h
      exact absurd (visible_of_isSymbol h) hc

theorem forall_utf8Bytes_iff {cs : List Char} :
    (∀ b ∈ utf8Bytes cs, IsSymbolByte b) ↔ ∀ c ∈ cs, IsSymbol c := by
  simp only [utf8Bytes, List.forall_mem_flatMap, forall_utf8EncodeChar_iff]

theorem sextetAt_eq_ok_iff {b : UInt8} {offset n : Nat} :
    sextetAt b offset = .ok n ↔ sextet? b = some n := by
  rw [sextetAt]
  split
  · next m hm => rw [hm, Except.ok.injEq, Option.some.injEq]
  · next hnone => simp [hnone]

theorem isSymbolByte_of_sextetAt {b : UInt8} {offset n : Nat} (h : sextetAt b offset = .ok n) :
    IsSymbolByte b := by
  rw [IsSymbolByte, sextetAt_eq_ok_iff.mp h]
  rfl

theorem exists_sextetAt {b : UInt8} (h : IsSymbolByte b) (offset : Nat) :
    ∃ n, sextetAt b offset = .ok n := by
  obtain ⟨n, hn⟩ := Option.isSome_iff_exists.mp h
  exact ⟨n, sextetAt_eq_ok_iff.mpr hn⟩

theorem ne_pad_of_isSymbolByte {b : UInt8} (h : IsSymbolByte b) : b ≠ pad := by
  rintro rfl
  simp [IsSymbolByte, sextet?, pad] at h

/-- Each byte of the last quad is a character or a padding, and no character follows a padding. -/
theorem readLast_spec {offset place : Nat} {q q' : LastQuad} {bytes : List UInt8}
    (h : readLast offset q place bytes = .ok q') :
    q'.sextets.length + q'.padding = q.sextets.length + q.padding + bytes.length ∧
      q.padding ≤ q'.padding ∧ (q'.padding = 0 → ∀ b ∈ bytes, IsSymbolByte b) := by
  induction bytes generalizing q place with
  | nil =>
    cases h
    simp
  | cons b bytes ih =>
    rw [readLast] at h
    split at h
    · split at h
      · cases h
      · obtain ⟨hcount, hpadding, -⟩ := ih h
        dsimp only at hcount hpadding
        rw [List.length_cons]
        refine ⟨by omega, by omega, ?_⟩
        intro hzero
        omega
    · split at h
      · cases h
      · obtain ⟨n, hn, h⟩ := bind_eq_ok_iff.mp h
        obtain ⟨hcount, hpadding, hsymbols⟩ := ih h
        dsimp only at hcount hpadding
        rw [List.length_append, List.length_singleton] at hcount
        rw [List.length_cons]
        refine ⟨by omega, by omega, ?_⟩
        intro hzero
        exact List.forall_mem_cons.mpr ⟨isSymbolByte_of_sextetAt hn, hsymbols hzero⟩

/-- Characters of the alphabet are read to the end. -/
theorem exists_readLast (offset place : Nat) {q : LastQuad} {bytes : List UInt8}
    (hpadding : q.padding = 0) (hsymbols : ∀ b ∈ bytes, IsSymbolByte b) :
    ∃ q', readLast offset q place bytes = .ok q' ∧ q'.padding = 0 := by
  induction bytes generalizing q place with
  | nil => exact ⟨q, rfl, hpadding⟩
  | cons b bytes ih =>
    obtain ⟨hb, hrest⟩ := List.forall_mem_cons.mp hsymbols
    obtain ⟨n, hn⟩ := exists_sextetAt hb (offset + place)
    obtain ⟨q', hq', hzero⟩ := ih (place + 1) (q := ⟨q.sextets ++ [n], b, 0⟩) rfl hrest
    refine ⟨q', ?_, hzero⟩
    rw [readLast, if_neg (ne_pad_of_isSymbolByte hb), if_neg (by omega)]
    exact bind_eq_ok_iff.mpr ⟨n, hn, hq'⟩

/-- How many bytes come of how many bytes of text: those of whole quads, up to two less where the
last has paddings. -/
structure Fills (text bytes : List UInt8) : Prop where
  quads : text.length % 4 = 0
  length_le : 4 * bytes.length ≤ 3 * text.length
  le_length : 3 * text.length ≤ 4 * bytes.length + 8
  symbols : 4 * bytes.length = 3 * text.length → ∀ b ∈ text, IsSymbolByte b

theorem length_quadBytes_append (a b c d : Nat) (more : List UInt8) :
    (quadBytes a b c d ++ more).length = more.length + 3 := by
  rw [List.length_append, Nat.add_comm]
  rfl

theorem fills_of_lastBytes {offset : Nat} {text bytes : List UInt8} (hshort : text.length ≤ 4)
    (h : lastBytes offset text = .ok bytes) : Fills text bytes := by
  obtain ⟨q, hq, h⟩ := bind_eq_ok_iff.mp h
  obtain ⟨hcount, -, hsymbols⟩ := readLast_spec hq
  dsimp only at hcount h
  rw [List.length_nil] at hcount
  split at h
  · cases h
  split at h
  · cases h
  next hstray hquads =>
  have hempty : q.sextets.length < 2 → text.length = 0 := by
    intro hfew
    by_cases hne : text = []
    · rw [hne, List.length_nil]
    · exact absurd ⟨Or.inr hne, hfew⟩ hstray
  -- Two, three or four characters say one, two or three bytes.
  split at h
  · next a b hsextets =>
    have htwo : q.sextets.length = 2 := congrArg List.length hsextets
    split at h
    · cases h
      have hone : ((quadBytes a b 0 0).take 1).length = 1 := rfl
      exact ⟨by omega, by omega, by omega, fun hfull => by omega⟩
    · cases h
  · next a b c hsextets =>
    have hthree : q.sextets.length = 3 := congrArg List.length hsextets
    split at h
    · cases h
      have htwo : ((quadBytes a b c 0).take 2).length = 2 := rfl
      exact ⟨by omega, by omega, by omega, fun hfull => by omega⟩
    · cases h
  · next a b c d hsextets =>
    have hfour : q.sextets.length = 4 := congrArg List.length hsextets
    cases h
    have hthree : (quadBytes a b c d).length = 3 := rfl
    exact ⟨by omega, by omega, by omega, fun _ => hsymbols (by omega)⟩
  · next hother₂ hother₃ hother₄ =>
    have hfew : q.sextets.length < 2 := by
      match hsextets : q.sextets with
      | [] | [_] => simp
      | [a, b] => exact absurd hsextets (hother₂ a b)
      | [a, b, c] => exact absurd hsextets (hother₃ a b c)
      | [a, b, c, d] => exact absurd hsextets (hother₄ a b c d)
      | a :: b :: c :: d :: e :: rest =>
        have hlong := congrArg List.length hsextets
        simp only [List.length_cons] at hlong
        omega
    cases h
    have hnil := List.eq_nil_of_length_eq_zero (hempty hfew)
    rw [hnil]
    exact ⟨rfl, Nat.le_refl 0, Nat.zero_le 8, fun _ b hb => absurd hb List.not_mem_nil⟩

theorem exists_lastBytes {offset : Nat} {a b c d : UInt8}
    (hsymbols : ∀ x ∈ [a, b, c, d], IsSymbolByte x) :
    ∃ bytes, lastBytes offset [a, b, c, d] = .ok bytes ∧ bytes.length = 3 := by
  obtain ⟨q, hq, hpadding⟩ :=
    exists_readLast offset 0 (q := ⟨[], 0, 0⟩) rfl hsymbols
  obtain ⟨hcount, -, -⟩ := readLast_spec hq
  have hfour : q.sextets.length = 4 := by
    simp only [List.length_cons, List.length_nil] at hcount
    omega
  obtain ⟨w, x, y, z, hsextets⟩ : ∃ w x y z, q.sextets = [w, x, y, z] := by
    match hlist : q.sextets, hfour with
    | [w, x, y, z], _ => exact ⟨w, x, y, z, rfl⟩
  refine ⟨quadBytes w x y z, bind_eq_ok_iff.mpr ⟨q, hq, ?_⟩, rfl⟩
  simp [hsextets, hpadding, pure, Except.pure]

theorem fills_of_readQuads {offset : Nat} {text bytes : List UInt8}
    (h : readQuads offset text = .ok bytes) : Fills text bytes := by
  fun_induction readQuads offset text generalizing bytes with
  | case1 offset a b c d rest hlast =>
    rw [List.isEmpty_iff.mp hlast]
    exact fills_of_lastBytes (Nat.le_refl 4) h
  | case2 offset a b c d rest hmore ih =>
    obtain ⟨w, hw, h⟩ := bind_eq_ok_iff.mp h
    obtain ⟨x, hx, h⟩ := bind_eq_ok_iff.mp h
    obtain ⟨y, hy, h⟩ := bind_eq_ok_iff.mp h
    obtain ⟨z, hz, h⟩ := bind_eq_ok_iff.mp h
    obtain ⟨more, hrest, h⟩ := bind_eq_ok_iff.mp h
    cases h
    obtain ⟨hquads, hle, hge, hsymbols⟩ := ih hrest
    have htext : (a :: b :: c :: d :: rest).length = rest.length + 4 := rfl
    have hbytes := length_quadBytes_append w x y z more
    refine ⟨by omega, by omega, by omega, fun hfull => ?_⟩
    simp only [List.forall_mem_cons]
    exact ⟨isSymbolByte_of_sextetAt hw, isSymbolByte_of_sextetAt hx, isSymbolByte_of_sextetAt hy,
      isSymbolByte_of_sextetAt hz, hsymbols (by omega)⟩
  | case3 offset text hshort =>
    refine fills_of_lastBytes ?_ h
    match text, hshort with
    | [], _ | [_], _ | [_, _], _ | [_, _, _], _ => simp
    | a :: b :: c :: d :: rest, hshort => exact absurd rfl (hshort a b c d rest)

theorem exists_readQuads {offset : Nat} {text : List UInt8}
    (hquads : text.length % 4 = 0) (hne : text ≠ []) (hsymbols : ∀ b ∈ text, IsSymbolByte b) :
    ∃ bytes, readQuads offset text = .ok bytes ∧ 4 * bytes.length = 3 * text.length := by
  fun_induction readQuads offset text with
  | case1 offset a b c d rest hlast =>
    have hrest := List.isEmpty_iff.mp hlast
    subst hrest
    obtain ⟨bytes, hbytes, hlength⟩ := exists_lastBytes hsymbols
    exact ⟨bytes, hbytes, by rw [hlength]; rfl⟩
  | case2 offset a b c d rest hmore ih =>
    simp only [List.forall_mem_cons] at hsymbols
    obtain ⟨ha, hb, hc, hd, hrest⟩ := hsymbols
    obtain ⟨w, hw⟩ := exists_sextetAt ha offset
    obtain ⟨x, hx⟩ := exists_sextetAt hb (offset + 1)
    obtain ⟨y, hy⟩ := exists_sextetAt hc (offset + 2)
    obtain ⟨z, hz⟩ := exists_sextetAt hd (offset + 3)
    have htext : (a :: b :: c :: d :: rest).length = rest.length + 4 := rfl
    obtain ⟨more, hmore, hlength⟩ := ih (by omega) (by simpa using hmore) hrest
    have hbytes := length_quadBytes_append w x y z more
    refine ⟨quadBytes w x y z ++ more, ?_, by omega⟩
    rw [hw, hx, hy, hz, hmore]
    rfl
  | case3 offset text hshort =>
    match text, hshort with
    | [], _ => exact absurd rfl hne
    | [_], _ | [_, _], _ | [_, _, _], _ => simp at hquads
    | a :: b :: c :: d :: rest, hshort => exact absurd rfl (hshort a b c d rest)

/-- Bytes that need no padding are read from the texts of four characters of the alphabet for every
three bytes, and from no others. -/
theorem exists_decode_iff {text : String} {n : Nat} :
    (∃ bytes, decode text = .ok bytes ∧ bytes.length = 3 * n) ↔
      text.length = 4 * n ∧ ∀ c ∈ text.toList, IsSymbol c := by
  rw [← String.length_toList]
  constructor
  · rintro ⟨bytes, h, hlength⟩
    rw [decode, toList_toUTF8] at h
    split at h
    · cases h
    · obtain ⟨hquads, hle, hge, hsymbols⟩ := fills_of_readQuads h
      have hchars := forall_utf8Bytes_iff.mp (hsymbols (by omega))
      have hcount := Bech32.length_utf8Bytes_of_visible fun c hc => visible_of_isSymbol (hchars c hc)
      exact ⟨by omega, hchars⟩
  · rintro ⟨hlength, hchars⟩
    have hcount := Bech32.length_utf8Bytes_of_visible fun c hc => visible_of_isSymbol (hchars c hc)
    have hquads : (utf8Bytes text.toList).length % 4 = 0 := by omega
    have hstray : strayLast? (utf8Bytes text.toList) = none := by
      rw [strayLast?, if_neg (by omega)]
    have hread : ∃ bytes, readQuads 0 (utf8Bytes text.toList) = .ok bytes ∧
        4 * bytes.length = 3 * (utf8Bytes text.toList).length := by
      by_cases hne : utf8Bytes text.toList = []
      · rw [hne]
        exact ⟨[], rfl, rfl⟩
      · exact exists_readQuads hquads hne (forall_utf8Bytes_iff.mpr hchars)
    obtain ⟨bytes, hbytes, hfull⟩ := hread
    refine ⟨bytes, ?_, by omega⟩
    rw [decode, toList_toUTF8]
    simp only [hstray, hbytes]

end TxReceipt.Account.Base64
