/-!
# Cutting texts

Excerpts are measured in characters. Fields of fixed width are measured in bytes of UTF-8, and a cut
that would fall inside a character is refused.
-/

namespace TxReceipt.Text

/-- At most `max` characters; three points mark that something was left out. -/
def excerpt (s : String) (max : Nat) : String :=
  if s.length ≤ max then s else String.ofList (s.toList.take max ++ ['.', '.', '.'])

/-- Cuts after the first `n` bytes of UTF-8; `none` past the end or inside a character. -/
def splitBytes? : Nat → List Char → Option (List Char × List Char)
  | 0, cs => some ([], cs)
  | _ + 1, [] => none
  | n + 1, c :: cs =>
    if c.utf8Size ≤ n + 1 then
      (splitBytes? (n + 1 - c.utf8Size) cs).map fun cut => (c :: cut.1, cut.2)
    else none

/-- A cut loses nothing. -/
theorem append_of_splitBytes? {n : Nat} {cs a b : List Char}
    (h : splitBytes? n cs = some (a, b)) : a ++ b = cs := by
  induction cs generalizing n a b with
  | nil => cases n <;> simp_all [splitBytes?]
  | cons c cs ih =>
    cases n with
    | zero => simp_all [splitBytes?]
    | succ n =>
      simp only [splitBytes?] at h
      split at h
      · obtain ⟨⟨a', b'⟩, hcut, heq⟩ := Option.map_eq_some_iff.mp h
        simp only [Prod.mk.injEq] at heq
        rw [← heq.1, ← heq.2, List.cons_append, ih hcut]
      · cases h

end TxReceipt.Text
