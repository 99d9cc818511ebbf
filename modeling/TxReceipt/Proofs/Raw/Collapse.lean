import Mathlib.Data.List.Forall2
import TxReceipt.Proofs.Lists
import TxReceipt.Proofs.Raw.Distinct
import TxReceipt.Proofs.Raw.Lookup
import TxReceipt.Proofs.Raw.Respelling

/-!
# Copies that are left out

Copies of attributes and of events are left out of the logs, and nothing else: of all that an input
holds, `collapsed_without_loss` says, first occurrences are kept in their order, and no event and no
attribute is found otherwise.
-/

namespace TxReceipt.Raw

/-- The members of a list, each once, in the order in which they first stand there. -/
structure FirstOccurrences {α : Type} [DecidableEq α] (l kept : List α) : Prop where
  once : kept.Nodup
  mem_iff : ∀ x, x ∈ kept ↔ x ∈ l
  ordered : kept.Pairwise fun x y => l.idxOf x < l.idxOf y

theorem firstOccurrences_iff {α : Type} [DecidableEq α] {l kept : List α} :
    FirstOccurrences l kept ↔ kept = l.eraseDups := by
  have first : FirstOccurrences l l.eraseDups :=
    ⟨Lists.nodup_eraseDups l, fun _ => List.mem_eraseDups, Lists.pairwise_idxOf_eraseDups l⟩
  constructor
  · intro h
    have perm : kept.Perm l.eraseDups := by
      apply (List.perm_ext_iff_of_nodup h.once first.once).mpr
      exact fun x => (h.mem_iff x).trans (first.mem_iff x).symm
    refine perm.eq_of_pairwise ?_ h.ordered first.ordered
    exact fun x y _ _ hxy hyx => absurd hxy (Nat.lt_asymm hyx)
  · rintro rfl
    exact first

namespace Event

variable (e : Event) (a : LogicalAttribute)

theorem find_collapsed : e.collapsed.find a = e.find a := by
  have hlookup : e.collapsed.lookup? a = e.lookup? a := by
    simp only [lookup?, collapsed, Lists.find?_eraseDups]
  rw [find, find, hlookup]

theorem has_collapsed : e.collapsed.has a = e.has a := by
  rw [Bool.eq_iff_iff, has_eq_true_iff, has_eq_true_iff]
  simp only [collapsed, List.mem_eraseDups]

end Event

theorem Log.findEvent?_collapsed (log : Log) (type : String) :
    log.collapsed.findEvent? type = (log.findEvent? type).map Event.collapsed := by
  rw [findEvent?, findEvent?, collapsed, Lists.find?_eraseDups, List.find?_map]
  rfl

/-- A log without copies against the log of which it is made. -/
structure Log.Collapses (whole kept : Log) : Prop where
  msgIndex : kept.msgIndex = whole.msgIndex
  log : kept.log = whole.log
  attributes : ∀ e ∈ whole.events, FirstOccurrences e.attributes e.collapsed.attributes
  events : FirstOccurrences (whole.events.map Event.collapsed) kept.events
  distinct : kept.Distinct
  findEvent : ∀ type, kept.findEvent? type = (whole.findEvent? type).map Event.collapsed
  find : ∀ e ∈ whole.events, ∀ a : LogicalAttribute, e.collapsed.find a = e.find a
  has : ∀ e ∈ whole.events, ∀ a : LogicalAttribute, e.collapsed.has a = e.has a

theorem Log.collapses_collapsed (log : Log) : log.Collapses log.collapsed where
  msgIndex := rfl
  log := rfl
  attributes _ _ := firstOccurrences_iff.mpr rfl
  events := firstOccurrences_iff.mpr rfl
  distinct := log.distinct_collapsed
  findEvent := log.findEvent?_collapsed
  find e _ := e.find_collapsed
  has e _ := e.has_collapsed

-- The second event is a copy of the first one because an attribute stands twice in that one.
example : (⟨0, "", [⟨"transfer", [⟨"to", "a"⟩, ⟨"to", "a"⟩]⟩, ⟨"transfer", [⟨"to", "a"⟩]⟩]⟩ :
    Log).collapsed.events = [⟨"transfer", [⟨"to", "a"⟩]⟩] := by
  decide

/-- A result is read of an input exactly if it is what is left, without copies, of the whole result
that the input holds; and nothing but copies is missing from its logs. -/
theorem Input.collapsed_without_loss (i : Input) (kept : Result) :
    i.read = .ok kept ↔ ∃ d whole, i.document? = some d ∧ Result.readWhole d = .ok whole ∧
      whole.collapsed = kept ∧ List.Forall₂ Log.Collapses whole.logs kept.logs := by
  simp only [read_eq_ok_iff, Result.readsThrough _ kept]
  constructor
  · rintro ⟨d, hd, whole, hwhole, rfl⟩
    refine ⟨d, whole, hd, hwhole, rfl, ?_⟩
    rw [Result.logs_collapsed, List.forall₂_map_right_iff, List.forall₂_same]
    exact fun log _ => log.collapses_collapsed
  · rintro ⟨d, whole, hd, hwhole, hkept, -⟩
    exact ⟨d, hd, whole, hwhole, hkept⟩

end TxReceipt.Raw
