import TxReceipt.Proofs.Extract.Logs
import TxReceipt.Proofs.Lists

/-!
# The events of a transaction

`mem_events` says which events there are, `filter_msgIndex_events` that those of one message come
from the logs of that message alone. The main statements are `events_cover_logs`, by which no log is
passed over and no event stands for a log that is not there, `exists_event_iff_exists_log`, by which
messages without a log have no event, and `events_isolated`, by which the rest of a result has no
part in the events of a message.
-/

namespace TxReceipt.Extract

variable {raw : Raw.Result}

theorem succeeded_iff : raw.succeeded = true ↔ raw.code = 0 := by
  simp [Raw.Result.succeeded]

/-- The events that the logs say, before repetitions are taken out. -/
theorem mem_flatMap_orderedLogs {e : Event} :
    e ∈ (orderedLogs raw).flatMap (logEvents raw) ↔ ∃ log ∈ raw.logs, e ∈ logEvents raw log := by
  simp only [List.mem_flatMap, orderedLogs, List.mem_mergeSort]

theorem mem_events {e : Event} :
    e ∈ events raw ↔ raw.code = 0 ∧ ∃ log ∈ raw.logs, e ∈ logEvents raw log := by
  rw [events]
  split
  · rename_i h
    rw [List.mem_eraseDups, mem_flatMap_orderedLogs]
    exact ⟨fun he => ⟨succeeded_iff.mp h, he⟩, fun he => he.2⟩
  · rename_i h
    constructor
    · intro he; cases he
    · rintro ⟨hcode, -⟩
      exact absurd (succeeded_iff.mpr hcode) h

theorem events_nodup : (events raw).Nodup := by
  rw [events]
  split
  · exact Lists.nodup_eraseDups _
  · exact .nil

/-- Logs in the order of their indices say events in the order of their indices. -/
theorem flatMap_logEvents_ascending {logs : List Raw.Log}
    (h : logs.Pairwise fun a b => a.msgIndex ≤ b.msgIndex) :
    (logs.flatMap (logEvents raw)).Pairwise fun a b => a.msgIndex ≤ b.msgIndex := by
  apply List.pairwise_flatMap.mpr
  constructor
  · intro log _
    apply List.pairwise_of_forall_mem_list
    intro a ha b hb
    rw [msgIndex_of_mem_logEvents ha, msgIndex_of_mem_logEvents hb]
    exact UInt64.le_refl _
  · apply h.imp
    intro log log' hle a ha b hb
    rw [msgIndex_of_mem_logEvents ha, msgIndex_of_mem_logEvents hb]
    exact hle

theorem events_ascending : (events raw).Pairwise fun a b => a.msgIndex ≤ b.msgIndex := by
  rw [events]
  split
  · have ordered := Lists.pairwise_mergeSort_key Raw.Log.msgIndex raw.logs
    exact (flatMap_logEvents_ascending ordered).sublist (Lists.eraseDups_sublist _)
  · exact .nil

theorem exists_event_of_log (hcode : raw.code = 0) {log : Raw.Log} (hlog : log ∈ raw.logs) :
    ∃ e ∈ events raw, e.msgIndex = log.msgIndex := by
  have hne : logEvents raw log ≠ [] := logEvents_ne_nil
  obtain ⟨e, he⟩ := List.exists_mem_of_ne_nil _ hne
  exact ⟨e, mem_events.mpr ⟨hcode, log, hlog, he⟩, msgIndex_of_mem_logEvents he⟩

theorem exists_log_of_event {e : Event} (he : e ∈ events raw) :
    ∃ log ∈ raw.logs, log.msgIndex = e.msgIndex := by
  obtain ⟨-, log, hlog, hmem⟩ := mem_events.mp he
  exact ⟨log, hlog, (msgIndex_of_mem_logEvents hmem).symm⟩

theorem events_eq_nil_iff : events raw = [] ↔ raw.code ≠ 0 ∨ raw.logs = [] := by
  constructor
  · intro h
    by_cases hcode : raw.code = 0
    · apply Or.inr
      apply List.eq_nil_iff_forall_not_mem.mpr
      intro log hlog
      obtain ⟨e, he, -⟩ := exists_event_of_log hcode hlog
      rw [h] at he
      cases he
    · exact Or.inl hcode
  · intro h
    apply List.eq_nil_iff_forall_not_mem.mpr
    intro e he
    obtain ⟨hcode, log, hlog, -⟩ := mem_events.mp he
    rcases h with hfailed | hnil
    · exact hfailed hcode
    · rw [hnil] at hlog
      cases hlog

/-- The events of a successful transaction are those that its logs say, each once and in the order
of the messages. Every log has an event with its index, and no event has another index. -/
theorem events_cover_logs (raw : Raw.Result) :
    (events raw = [] ↔ raw.code ≠ 0 ∨ raw.logs = []) ∧
    (events raw).Nodup ∧
    ((events raw).Pairwise fun a b => a.msgIndex ≤ b.msgIndex) ∧
    (raw.code = 0 → ∀ e, e ∈ events raw ↔ ∃ log ∈ raw.logs, e ∈ logEvents raw log) ∧
    (raw.code = 0 → ∀ log ∈ raw.logs, ∃ e ∈ events raw, e.msgIndex = log.msgIndex) ∧
    ∀ e ∈ events raw, ∃ log ∈ raw.logs, log.msgIndex = e.msgIndex := by
  refine ⟨events_eq_nil_iff, events_nodup, events_ascending, ?_, ?_, ?_⟩
  · intro hcode e
    rw [mem_events]
    exact ⟨fun h => h.2, fun h => ⟨hcode, h⟩⟩
  · intro hcode log hlog
    exact exists_event_of_log hcode hlog
  · intro e he
    exact exists_log_of_event he

/-- The log of a message that was never declared gives an event too. -/
theorem events_cover_undeclared_log :
    (bareResult [] [⟨7, "", []⟩]).code = 0 ∧ ⟨7, "", []⟩ ∈ (bareResult [] [⟨7, "", []⟩]).logs ∧
    ∃ e ∈ events (bareResult [] [⟨7, "", []⟩]), e.msgIndex = 7 :=
  ⟨rfl, List.mem_singleton.mpr rfl,
    (events_cover_logs (bareResult [] [⟨7, "", []⟩])).2.2.2.2.1 rfl _ (List.mem_singleton.mpr rfl)⟩

/-- The messages of a successful transaction that have events are those that have logs: none with a
log is left out, and none without one gets an event, declared or not. -/
theorem exists_event_iff_exists_log (raw : Raw.Result) (succeeded : raw.code = 0) (i : Nat) :
    (∃ e ∈ events raw, e.msgIndex.toNat = i) ↔ ∃ log ∈ raw.logs, log.msgIndex.toNat = i := by
  constructor
  · rintro ⟨e, he, rfl⟩
    obtain ⟨log, hlog, hindex⟩ := exists_log_of_event he
    exact ⟨log, hlog, congrArg UInt64.toNat hindex⟩
  · rintro ⟨log, hlog, rfl⟩
    obtain ⟨e, he, hindex⟩ := exists_event_of_log succeeded hlog
    exact ⟨e, he, congrArg UInt64.toNat hindex⟩

/-- Two messages, of which only the first has a log. -/
def halfLoggedResult : Raw.Result :=
  bareResult [⟨"account/MsgEmpty", .null⟩, ⟨"account/MsgEmpty", .null⟩] [⟨0, "", []⟩]

theorem exists_event_of_logged_message :
    halfLoggedResult.code = 0 ∧ ∃ e ∈ events halfLoggedResult, e.msgIndex.toNat = 0 :=
  ⟨rfl, (exists_event_iff_exists_log halfLoggedResult rfl 0).mpr ⟨_, .head _, rfl⟩⟩

/-- The second message is declared, but nothing is said of it. -/
theorem not_exists_event_of_unlogged_message :
    halfLoggedResult.code = 0 ∧ halfLoggedResult.logs ≠ [] ∧ 1 < halfLoggedResult.messages.length ∧
    ¬ ∃ e ∈ events halfLoggedResult, e.msgIndex.toNat = 1 := by
  refine ⟨rfl, List.cons_ne_nil _ _, Nat.lt_succ_self 1, ?_⟩
  rintro ⟨e, he, hindex⟩
  obtain ⟨log, hlog, hsame⟩ := exists_log_of_event he
  rw [List.mem_singleton.mp hlog] at hsame
  rw [← hsame] at hindex
  cases hindex

/-- What a log says depends on the result only through the message that the log is about. -/
theorem logEvents_congr {r₁ r₂ : Raw.Result} {log : Raw.Log}
    (h : r₁.message? log.msgIndex = r₂.message? log.msgIndex) :
    logEvents r₁ log = logEvents r₂ log := by
  simp only [logEvents, logEffects, MessageLog.ofLog, h]

theorem filter_msgIndex_logEvents (log : Raw.Log) (i : UInt64) :
    (logEvents raw log).filter (fun e => e.msgIndex == i) =
      if log.msgIndex == i then logEvents raw log else [] := by
  split
  · rename_i h
    apply List.filter_eq_self.mpr
    intro e he
    rw [msgIndex_of_mem_logEvents he]
    exact h
  · rename_i h
    apply List.filter_eq_nil_iff.mpr
    intro e he
    rw [msgIndex_of_mem_logEvents he]
    exact h

/-- The events with an index, among those of several logs, are those of the logs with the index. -/
theorem filter_msgIndex_flatMap (logs : List Raw.Log) (i : UInt64) :
    (logs.flatMap (logEvents raw)).filter (fun e => e.msgIndex == i) =
      (logs.filter fun log => log.msgIndex == i).flatMap (logEvents raw) := by
  rw [List.filter_flatMap]
  induction logs with
  | nil => rfl
  | cons log logs ih =>
    rw [List.flatMap_cons, filter_msgIndex_logEvents, ih]
    by_cases h : (log.msgIndex == i) = true
    · simp only [h, if_true, List.filter_cons, List.flatMap_cons]
    · simp only [h, Bool.false_eq_true, if_false, List.filter_cons, List.nil_append]

/-- The events of one message come from the logs of that message, as they stand in the result. -/
theorem filter_msgIndex_events (hcode : raw.code = 0) (i : UInt64) :
    (events raw).filter (fun e => e.msgIndex == i) =
      ((raw.logs.filter fun log => log.msgIndex == i).flatMap (logEvents raw)).eraseDups := by
  rw [events, if_pos (succeeded_iff.mpr hcode), Lists.filter_eraseDups, filter_msgIndex_flatMap,
    orderedLogs, Lists.filter_mergeSort_key Raw.Log.msgIndex]

/-- The events of a message are determined by that message and its logs: whatever else differs
between two successful results changes, removes or reorders none of them. -/
theorem events_isolated (r₁ r₂ : Raw.Result) (i : UInt64)
    (succeeded₁ : r₁.code = 0) (succeeded₂ : r₂.code = 0)
    (sameMessage : r₁.message? i = r₂.message? i)
    (sameLogs : (r₁.logs.filter fun log => log.msgIndex == i) =
      r₂.logs.filter fun log => log.msgIndex == i) :
    (events r₁).filter (fun e => e.msgIndex == i) =
      (events r₂).filter fun e => e.msgIndex == i := by
  have sameEvents : ∀ log ∈ r₁.logs.filter fun log => log.msgIndex == i,
      logEvents r₁ log = logEvents r₂ log := by
    intro log hlog
    have hindex : log.msgIndex = i := by simpa using (List.mem_filter.mp hlog).2
    apply logEvents_congr
    rw [hindex]
    exact sameMessage
  rw [filter_msgIndex_events succeeded₁, filter_msgIndex_events succeeded₂, ← sameLogs,
    List.flatMap_def, List.flatMap_def, List.map_congr_left sameEvents]

/-- A message of the kind `coin/MsgSend` keeps its events when another one precedes it and the logs
change places. -/
theorem events_isolated_behind_another_message :
    let empty : Raw.Message := ⟨"account/MsgEmpty", .null⟩
    let send : Raw.Message := ⟨"coin/MsgSend", .null⟩
    let sent : Raw.Log := ⟨1, "", [⟨"transfer", [⟨"amount", "5tcony"⟩]⟩]⟩
    let r₁ := bareResult [empty, send] [sent, ⟨0, "", []⟩]
    let r₂ := bareResult [send, send, empty] [⟨2, "", []⟩, ⟨0, "", []⟩, sent]
    r₁.message? 1 = r₂.message? 1 ∧
    ((r₁.logs.filter fun log => log.msgIndex == 1) = r₂.logs.filter fun log => log.msgIndex == 1) ∧
    (events r₁).filter (fun e => e.msgIndex == 1) = (events r₂).filter fun e => e.msgIndex == 1 :=
  ⟨rfl, rfl, events_isolated _ _ 1 rfl rfl rfl rfl⟩

end TxReceipt.Extract
