import TxReceipt.Proofs.Extract.Events

/-!
# Logs as a set

The order of the logs matters only among the logs of one message. The events are in the order of
their indices, so that `Lists.sublist_of_filter_key` reduces a statement on all of them to the logs
of one index, and there the events are the first occurrences in what the logs say one after another.
-/

namespace TxReceipt.Extract

variable {raw : Raw.Result} {logs : List Raw.Log}

/-- The events that logs say one after another, each once. -/
def distinctEvents (raw : Raw.Result) (logs : List Raw.Log) : List Event :=
  (logs.flatMap (logEvents raw)).eraseDups

/-- A copy of a log that is already there says nothing new. -/
theorem distinctEvents_concat_of_mem {log : Raw.Log} (h : log ∈ logs) :
    distinctEvents raw (logs ++ [log]) = distinctEvents raw logs := by
  have known : (logEvents raw log).removeAll (logs.flatMap (logEvents raw)) = [] := by
    apply List.filter_eq_nil_iff.mpr
    intro e he
    have hmem : e ∈ logs.flatMap (logEvents raw) := List.mem_flatMap.mpr ⟨log, h, he⟩
    simpa using hmem
  rw [distinctEvents, List.flatMap_append, List.flatMap_singleton, List.eraseDups_append, known,
    List.eraseDups_nil, List.append_nil, distinctEvents]

/-- What one log more says comes last. -/
theorem distinctEvents_sublist_concat (log : Raw.Log) :
    (distinctEvents raw logs).Sublist (distinctEvents raw (logs ++ [log])) := by
  rw [distinctEvents, distinctEvents, List.flatMap_append, List.eraseDups_append]
  exact List.sublist_append_left _ _

/-- The events with an index, after the logs were exchanged for others. -/
theorem filter_msgIndex_events_withLogs (succeeded : raw.code = 0) (i : UInt64) :
    (events (raw.withLogs logs)).filter (fun e => e.msgIndex == i) =
      distinctEvents raw (logs.filter fun log => log.msgIndex == i) := by
  have succeeded' : (raw.withLogs logs).code = 0 := succeeded
  rw [filter_msgIndex_events succeeded', logEvents_withLogs, Raw.Result.logs_withLogs,
    distinctEvents]

/-- The events are those of other logs if for each index the logs say the same. -/
theorem events_withLogs_eq
    (same : ∀ i, distinctEvents raw (logs.filter fun log => log.msgIndex == i) =
      distinctEvents raw (raw.logs.filter fun log => log.msgIndex == i)) :
    events (raw.withLogs logs) = events raw := by
  by_cases succeeded : raw.code = 0
  · apply Lists.eq_of_filter_key events_ascending events_ascending
    intro i
    rw [filter_msgIndex_events_withLogs succeeded, filter_msgIndex_events succeeded]
    exact same i
  · rw [events_eq_nil_iff.mpr (Or.inl succeeded)]
    exact events_eq_nil_iff.mpr (Or.inl succeeded)

/-- The events are among those of other logs if this is so for each index. -/
theorem events_sublist_withLogs
    (part : ∀ i, (distinctEvents raw (raw.logs.filter fun log => log.msgIndex == i)).Sublist
      (distinctEvents raw (logs.filter fun log => log.msgIndex == i))) :
    (events raw).Sublist (events (raw.withLogs logs)) := by
  by_cases succeeded : raw.code = 0
  · apply Lists.sublist_of_filter_key events_ascending events_ascending
    intro i
    rw [filter_msgIndex_events_withLogs succeeded, filter_msgIndex_events succeeded]
    exact part i
  · rw [events_eq_nil_iff.mpr (Or.inl succeeded)]
    exact List.nil_sublist _

theorem events_withLogs_perm (h : logs.Perm raw.logs) :
    (events (raw.withLogs logs)).Perm (events raw) := by
  apply (List.perm_ext_iff_of_nodup events_nodup events_nodup).mpr
  intro e
  rw [mem_events, mem_events]
  constructor
  · rintro ⟨succeeded, log, hlog, he⟩
    exact ⟨succeeded, log, h.mem_iff.mp hlog, he⟩
  · rintro ⟨succeeded, log, hlog, he⟩
    exact ⟨succeeded, log, h.mem_iff.mpr hlog, he⟩

/-- The logs with an index, of which the last may be one. -/
theorem filter_msgIndex_concat (log : Raw.Log) (i : UInt64) :
    ((logs ++ [log]).filter fun log => log.msgIndex == i) =
      if log.msgIndex = i then (logs.filter fun log => log.msgIndex == i) ++ [log]
      else logs.filter fun log => log.msgIndex == i := by
  by_cases hi : log.msgIndex = i
  · simp [hi]
  · simp [hi]

theorem events_concat_of_mem {log : Raw.Log} (h : log ∈ raw.logs) :
    events (raw.withLogs (raw.logs ++ [log])) = events raw := by
  apply events_withLogs_eq
  intro i
  rw [filter_msgIndex_concat]
  split
  · next hi =>
    exact distinctEvents_concat_of_mem (List.mem_filter.mpr ⟨h, by simpa using hi⟩)
  · rfl

theorem events_sublist_concat (log : Raw.Log) :
    (events raw).Sublist (events (raw.withLogs (raw.logs ++ [log]))) := by
  apply events_sublist_withLogs
  intro i
  rw [filter_msgIndex_concat]
  split
  · exact distinctEvents_sublist_concat log
  · exact List.Sublist.refl _

/-- Logs in another order say the same events, in the same order if the logs of each message keep
theirs. A repeated log changes nothing, and a further log only adds events. -/
theorem events_of_rearranged_logs (raw : Raw.Result) :
    (∀ logs : List Raw.Log, logs.Perm raw.logs →
      (events (raw.withLogs logs)).Perm (events raw) ∧
      ((∀ i, (logs.filter fun log => log.msgIndex == i) =
          raw.logs.filter fun log => log.msgIndex == i) →
        events (raw.withLogs logs) = events raw)) ∧
    (∀ log ∈ raw.logs, events (raw.withLogs (raw.logs ++ [log])) = events raw) ∧
    ∀ log : Raw.Log, (events raw).Sublist (events (raw.withLogs (raw.logs ++ [log]))) := by
  refine ⟨fun logs h => ⟨events_withLogs_perm h, fun same => ?_⟩, fun log => events_concat_of_mem,
    events_sublist_concat⟩
  apply events_withLogs_eq
  intro i
  rw [same i]

/-- The logs of two messages change places, and one of them is repeated. -/
theorem events_of_rearranged_logs_of_two :
    let empty : Raw.Log := ⟨0, "", []⟩
    let sent : Raw.Log := ⟨1, "", [⟨"transfer", [⟨"amount", "5tcony"⟩]⟩]⟩
    let raw := bareResult [⟨"account/MsgEmpty", .null⟩, ⟨"coin/MsgSend", .null⟩] [empty, sent]
    [sent, empty].Perm raw.logs ∧
    (∀ i, ([sent, empty].filter fun log => log.msgIndex == i) =
      raw.logs.filter fun log => log.msgIndex == i) ∧
    events (raw.withLogs [sent, empty]) = events raw ∧
    sent ∈ raw.logs ∧ events (raw.withLogs [empty, sent, sent]) = events raw := by
  intro empty sent raw
  have swapped : [sent, empty].Perm raw.logs := List.Perm.swap empty sent []
  have same : ∀ i, ([sent, empty].filter fun log => log.msgIndex == i) =
      raw.logs.filter fun log => log.msgIndex == i := by
    intro i
    by_cases hi : i = 0
    · rw [hi]
      rfl
    · have hempty : (empty.msgIndex == i) = false := by simpa [empty] using Ne.symm hi
      simp [raw, bareResult, Raw.Result.logs, List.filter_cons, hempty]
  have hsent : sent ∈ raw.logs := .tail _ (.head _)
  have main := events_of_rearranged_logs raw
  exact ⟨swapped, same, (main.1 _ swapped).2 same, hsent, main.2.1 sent hsent⟩

end TxReceipt.Extract
