import TxReceipt.Proofs.Json.Depth
import TxReceipt.Proofs.Lists
import TxReceipt.Proofs.Raw.ReadWhole

/-!
# Logs as sets

The events of a log and the attributes of an event are sets on the wire. In every result that is
accepted, from a text or from a value, no log holds an event twice and no event an attribute.
-/

namespace TxReceipt.Raw

open Json (Document Members ReadError)

structure Log.Distinct (log : Log) : Prop where
  events : log.events.Nodup
  attributes : ∀ e ∈ log.events, e.attributes.Nodup

/-- A result of some text or of some value. -/
def Result.Accepted (raw : Result) : Prop :=
  (∃ text, Result.ofText text = .ok raw) ∨ ∃ v, Result.ofValue v = .ok raw

section Lists
variable {α : Type} {read : Document → Except ReadError α} {d : Document}

/-- What stands in an optional list has been read of some document. -/
theorem exists_of_mem_readOption {xs? : Option (List α)} {x : α}
    (h : Document.readOption (Document.readList read) d = .ok xs?) (hx : x ∈ xs?.getD []) :
    ∃ d', read d' = .ok x := by
  unfold Document.readOption at h
  split at h
  · cases h
    cases hx
  · obtain ⟨xs, hxs, rfl⟩ := map_eq_ok_iff.mp h
    obtain ⟨n, hd⟩ := Document.exists_within d
    obtain ⟨d', -, hread⟩ := Document.exists_of_mem_readList hd hxs hx
    exact ⟨d', hread⟩

end Lists

theorem Log.distinct_collapsed (log : Log) : log.collapsed.Distinct := by
  refine ⟨Lists.nodup_eraseDups _, fun e he => ?_⟩
  obtain ⟨e, -, rfl⟩ := List.mem_map.mp (List.mem_eraseDups.mp he)
  exact Lists.nodup_eraseDups e.attributes

theorem Log.distinct_of_read {d : Document} {log : Log} (h : Log.read d = .ok log) :
    log.Distinct := by
  obtain ⟨whole, -, rfl⟩ := (Log.readsThrough d log).mp h
  exact whole.distinct_collapsed

theorem Result.distinct_of_read {d : Document} {raw : Result} (h : Result.read d = .ok raw) :
    ∀ log ∈ raw.logs, log.Distinct := by
  obtain ⟨whole, -, rfl⟩ := (Result.readsThrough d raw).mp h
  rw [Result.logs_collapsed, List.forall_mem_map]
  exact fun log _ => log.distinct_collapsed

/-- In a result that is accepted nothing stands twice in any log. -/
theorem Result.Accepted.distinct {raw : Result} (h : raw.Accepted) :
    ∀ log ∈ raw.logs, log.Distinct := by
  rcases h with ⟨text, h⟩ | ⟨v, h⟩
  · obtain ⟨d, -, hread⟩ := Json.exists_of_readTextWith (mapError_eq_ok_iff.mp h)
    exact distinct_of_read hread
  · exact distinct_of_read (mapError_eq_ok_iff.mp h)

end TxReceipt.Raw
