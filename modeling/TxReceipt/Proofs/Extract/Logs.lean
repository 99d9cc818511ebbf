import TxReceipt.Extract.Events

/-!
# What a log says

`ofLog_eq_ok_iff` lists all that is found for a log that describes its message. From it follow the
two facts that every later statement on events needs: the primary event belongs to the log, and
whatever the kind of the message, at least one effect is stated.
-/

namespace TxReceipt

def Raw.Result.withLogs (raw : Raw.Result) (logs : List Raw.Log) : Raw.Result :=
  { raw with logs? := some logs }

theorem Raw.Result.logs_withLogs (raw : Raw.Result) (logs : List Raw.Log) :
    (raw.withLogs logs).logs = logs :=
  rfl

namespace Extract

open Registry (Entry)

/-- A successful result of some messages with their logs, and of nothing else. -/
def bareResult (messages : List Raw.Message) (logs : List Raw.Log) : Raw.Result where
  height := 0
  index := 0
  code := 0
  codespace := none
  txHash := ""
  timestamp := 0
  data := none
  info := none
  gasWanted := 0
  gasUsed := 0
  logs? := some logs
  tx := ⟨"", ⟨messages, ⟨0, []⟩, "", []⟩⟩

namespace Mint

theorem add_ne_nil (m : Mint) (mints : List Mint) : add m mints ≠ [] := by
  cases mints with
  | nil => simp [add]
  | cons n mints =>
    rw [add]
    split <;> simp

theorem foldl_add_ne_nil (events : List Raw.Event) (mints : List Mint) (h : mints ≠ []) :
    events.foldl (fun mints e => add (ofEvent e) mints) mints ≠ [] := by
  induction events generalizing mints with
  | nil => exact h
  | cons e events ih => exact ih _ (add_ne_nil (ofEvent e) mints)

theorem group_ne_nil {events : List Raw.Event} (h : events ≠ []) : group events ≠ [] := by
  cases events with
  | nil => exact absurd rfl h
  | cons e events => exact foldl_add_ne_nil events _ (add_ne_nil (ofEvent e) [])

end Mint

theorem findEvent?_eq_head? (log : Raw.Log) (type : String) :
    log.findEvent? type = (log.findEvents type).head? := by
  rw [Raw.Log.findEvent?, Raw.Log.findEvents, List.head?_filter]

/-- The primary event is an event of the log, of one of the types that the entry names. -/
theorem primary_spec {entry : Entry} {log : Raw.Log} {primary : Raw.Event}
    (h : entry.findPrimary? log = some primary) :
    primary ∈ log.events ∧ primary.type ∈ entry.eventNames := by
  obtain ⟨name, hname, hfind⟩ := List.exists_of_findSome?_eq_some h
  have htype : primary.type = name := by simpa using List.find?_some hfind
  exact ⟨List.mem_of_find?_eq_some hfind, htype ▸ hname⟩

/-- There is no primary event exactly when no event is of a type that the entry names. -/
theorem findPrimary?_eq_none_iff {entry : Entry} {log : Raw.Log} :
    entry.findPrimary? log = none ↔ ∀ e ∈ log.events, e.type ∉ entry.eventNames := by
  rw [Entry.findPrimary?, List.findSome?_eq_none_iff]
  constructor
  · intro h e he hname
    have hnone := List.find?_eq_none.mp (h e.type hname) e he
    simp at hnone
  · intro h name hname
    apply List.find?_eq_none.mpr
    intro e he heq
    have htype : e.type = name := by simpa using heq
    exact h e he (htype ▸ hname)

namespace MessageLog

variable {raw : Raw.Result} {log : Raw.Log} {c : MessageLog}

/-- All that is found for a log that describes its message. -/
theorem ofLog_eq_ok_iff : ofLog raw log = .ok c ↔
    raw.message? log.msgIndex = some c.message ∧
    Registry.lookup? c.message.type = some c.entry ∧
    c.entry.findPrimary? log = some c.primary ∧
    c.log = log ∧ c.auxiliary = c.entry.findAuxiliary? log := by
  obtain ⟨log', message, entry, primary, auxiliary⟩ := c
  constructor
  · intro h
    rw [ofLog] at h
    cases hmessage : raw.message? log.msgIndex with
    | none => simp [hmessage] at h
    | some m =>
      cases hentry : Registry.lookup? m.type with
      | none => simp [hmessage, hentry] at h
      | some e =>
        cases hprimary : e.findPrimary? log with
        | none => simp [hmessage, hentry, hprimary] at h
        | some p =>
          simp only [hmessage, hentry, hprimary, Except.ok.injEq, MessageLog.mk.injEq] at h
          obtain ⟨rfl, rfl, rfl, rfl, rfl⟩ := h
          exact ⟨rfl, hentry, hprimary, rfl, rfl⟩
  · rintro ⟨hmessage, hentry, hprimary, hlog, hauxiliary⟩
    simp only at hmessage hentry hprimary hlog hauxiliary
    subst hlog hauxiliary
    simp [ofLog, hmessage, hentry, hprimary]

/-- A log that has an event of the one type to look for describes its message. -/
theorem ofLog_of_findEvent? {message : Raw.Message} {entry : Entry} {type : String}
    {p : Raw.Event} (declared : raw.message? log.msgIndex = some message)
    (registered : Registry.lookup? message.type = some entry)
    (named : entry.eventNames = [type]) (found : log.findEvent? type = some p) :
    ofLog raw log = .ok ⟨log, message, entry, p, entry.findAuxiliary? log⟩ := by
  have hprimary : entry.findPrimary? log = some p := by
    rw [Entry.findPrimary?, named, List.findSome?_singleton, found]
  exact ofLog_eq_ok_iff.mpr ⟨declared, registered, hprimary, rfl, rfl⟩

theorem primaries_ne_nil (h : ofLog raw log = .ok c) : c.primaries ≠ [] := by
  obtain ⟨-, -, hprimary, hlog, -⟩ := ofLog_eq_ok_iff.mp h
  obtain ⟨hmem, -⟩ := primary_spec hprimary
  rw [primaries]
  cases c.entry.correlation with
  | single => simp
  | auxiliary name => simp
  | allPrimaries =>
    apply List.ne_nil_of_mem (a := c.primary)
    rw [hlog]
    exact List.mem_filter.mpr ⟨hmem, by simp⟩

theorem nftMinted_ne_nil (h : ofLog raw log = .ok c) : nftMinted c.primaries ≠ [] := by
  have hgroup := Mint.group_ne_nil (primaries_ne_nil h)
  simpa [nftMinted] using hgroup

/-- Whatever a message asks for, a log that describes it states an effect. -/
theorem effects_ne_nil (h : ofLog raw log = .ok c) : c.effects ≠ [] := by
  have hmint := nftMinted_ne_nil h
  rw [effects]
  cases c.entry.kind with
  | collectionMintNft => exact hmint
  | _ => exact List.cons_ne_nil _ _

end MessageLog

variable {raw : Raw.Result} {log : Raw.Log}

theorem logEffects_ne_nil : logEffects raw log ≠ [] := by
  rw [logEffects]
  cases h : MessageLog.ofLog raw log with
  | ok c => exact MessageLog.effects_ne_nil h
  | error u => exact List.cons_ne_nil _ _

theorem logEvents_ne_nil : logEvents raw log ≠ [] := by
  have hne : logEffects raw log ≠ [] := logEffects_ne_nil
  simpa [logEvents] using hne

/-- A log that describes its message says the effects of the message. -/
theorem logEvents_of_ofLog {c : MessageLog} (h : MessageLog.ofLog raw log = .ok c) :
    logEvents raw log = c.effects.map (Event.mk log.msgIndex) := by
  rw [logEvents, logEffects, h]

/-- Every event of a log carries the index of the log. -/
theorem msgIndex_of_mem_logEvents {e : Event} (h : e ∈ logEvents raw log) :
    e.msgIndex = log.msgIndex := by
  obtain ⟨effect, -, rfl⟩ := List.mem_map.mp h
  rfl

/-- What a log says does not depend on the other logs. -/
theorem logEvents_withLogs (logs : List Raw.Log) :
    logEvents (raw.withLogs logs) = logEvents raw :=
  rfl

end Extract

end TxReceipt
