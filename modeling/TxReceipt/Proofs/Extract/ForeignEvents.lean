import TxReceipt.Proofs.Extract.LogOrder

/-!
# Events that no message reads

For a message of some entry only a few types of raw events are looked for, and of these only the
events of one type at a time, in their order. So events of other types may stand anywhere in a log,
and events of different types may change places. `MessageLog.effects_exchange` is the step from one
log to another that reads alike, `events_exchange` the one to all events.
-/

namespace TxReceipt

namespace Registry.Entry

/-- The types of the events that list the tokens concerned. -/
def auxiliaryTypes (entry : Entry) : List String :=
  match entry.correlation with
  | .auxiliary name => [name]
  | .single | .allPrimaries => []

/-- The types of the events that may be read for a message: those of its primary and its auxiliary
event, and of the events that name a sender or a creator. -/
def readTypes (entry : Entry) : List String :=
  entry.eventNames ++ entry.auxiliaryTypes ++ [messageEvent, grantEvent]

end Registry.Entry

def Raw.Log.withEvents (log : Raw.Log) (events : List Raw.Event) : Raw.Log :=
  { log with events }

namespace Extract

open Registry (Entry)

variable {log log' : Raw.Log} {entry : Entry}

/-- Two logs have the same events of each type that is read, in the same order. -/
def ReadAlike (entry : Entry) (log log' : Raw.Log) : Prop :=
  ∀ type ∈ entry.readTypes, log.findEvents type = log'.findEvents type

namespace ReadAlike

/-- Logs read alike if they are the same but for events of types that are not read. -/
theorem of_filter_contains
    (h : (log.events.filter fun e => entry.readTypes.contains e.type) =
      log'.events.filter fun e => entry.readTypes.contains e.type) : ReadAlike entry log log' := by
  intro type htype
  have within : ∀ es : List Raw.Event, (es.filter fun e => e.type == type) =
      (es.filter fun e => entry.readTypes.contains e.type).filter fun e => e.type == type := by
    intro es
    rw [List.filter_filter]
    apply List.filter_congr
    intro e _
    by_cases he : e.type = type
    · simp [he, htype]
    · simp [he]
  rw [Raw.Log.findEvents, Raw.Log.findEvents, within log.events, within log'.events, h]

theorem findEvent?_eq (h : ReadAlike entry log log') {type : String}
    (htype : type ∈ entry.readTypes) : log.findEvent? type = log'.findEvent? type := by
  rw [findEvent?_eq_head?, findEvent?_eq_head?, h type htype]

theorem eventNames_subset : entry.eventNames ⊆ entry.readTypes := by
  intro type htype
  exact List.mem_append_left _ (List.mem_append_left _ htype)

theorem findPrimary?_eq (h : ReadAlike entry log log') :
    entry.findPrimary? log = entry.findPrimary? log' := by
  rw [Entry.findPrimary?, Entry.findPrimary?]
  have found : ∀ names, names ⊆ entry.readTypes →
      names.findSome? log.findEvent? = names.findSome? log'.findEvent? := by
    intro names hnames
    induction names with
    | nil => rfl
    | cons name names ih =>
      rw [List.cons_subset] at hnames
      rw [List.findSome?_cons, List.findSome?_cons, h.findEvent?_eq hnames.1, ih hnames.2]
  exact found entry.eventNames eventNames_subset

theorem findAuxiliary?_eq (h : ReadAlike entry log log') :
    entry.findAuxiliary? log = entry.findAuxiliary? log' := by
  rw [Entry.findAuxiliary?, Entry.findAuxiliary?]
  cases hcorrelation : entry.correlation with
  | single => rfl
  | allPrimaries => rfl
  | auxiliary name =>
    apply h.findEvent?_eq
    simp [Entry.readTypes, Entry.auxiliaryTypes, hcorrelation]

theorem messageEvent_mem : Registry.messageEvent ∈ entry.readTypes := by
  simp [Entry.readTypes]

theorem grantEvent_mem : Registry.grantEvent ∈ entry.readTypes := by
  simp [Entry.readTypes]

end ReadAlike

namespace MessageLog

variable {raw : Raw.Result} {c : MessageLog}

/-- A message did the same by a log that reads alike. -/
theorem effects_exchange (alike : ReadAlike c.entry c.log log')
    (hprimary : c.primary.type ∈ c.entry.eventNames) :
    MessageLog.effects { c with log := log' } = c.effects := by
  have hsender : MessageLog.sender { c with log := log' } = c.sender := by
    rw [sender, sender, alike.findEvent?_eq ReadAlike.messageEvent_mem]
  have hcreator : MessageLog.creator { c with log := log' } = c.creator := by
    rw [creator, creator, hsender, alike.findEvent?_eq ReadAlike.grantEvent_mem]
  have hprimaries : MessageLog.primaries { c with log := log' } = c.primaries := by
    rw [primaries, primaries, alike _ (ReadAlike.eventNames_subset hprimary)]
  have hunknown : orUnknownPermission { c with log := log' } = c.orUnknownPermission := by
    funext effect?
    cases effect? with
    | none => rfl
    | some effect => rfl
  rw [effects, effects, hunknown, hsender, hcreator, hprimaries]
  -- All else is read from the primary and the auxiliary event and the message.
  rfl

end MessageLog

variable {raw : Raw.Result}

theorem logEffects_eq_of_readAlike {message : Raw.Message}
    (declared : raw.message? log.msgIndex = some message)
    (registered : Registry.lookup? message.type = some entry)
    (sameIndex : log'.msgIndex = log.msgIndex) (alike : ReadAlike entry log log') :
    logEffects raw log' = logEffects raw log := by
  cases hprimary : entry.findPrimary? log with
  | none =>
    have hprimary' : entry.findPrimary? log' = none := alike.findPrimary?_eq ▸ hprimary
    simp only [logEffects, MessageLog.ofLog, sameIndex, declared, registered, hprimary, hprimary']
  | some primary =>
    have hprimary' : entry.findPrimary? log' = some primary := alike.findPrimary?_eq ▸ hprimary
    have hauxiliary := alike.findAuxiliary?_eq
    simp only [logEffects, MessageLog.ofLog, sameIndex, declared, registered, hprimary, hprimary',
      ← hauxiliary]
    exact MessageLog.effects_exchange (c := ⟨log, message, entry, primary, _⟩) alike
      (primary_spec hprimary).2

theorem logEffects_eq_of_unregistered
    (unregistered : ∀ message, raw.message? log.msgIndex = some message →
      Registry.lookup? message.type = none)
    (sameIndex : log'.msgIndex = log.msgIndex) : logEffects raw log' = logEffects raw log := by
  cases hmessage : raw.message? log.msgIndex with
  | none => simp only [logEffects, MessageLog.ofLog, sameIndex, hmessage]
  | some message =>
    have hentry := unregistered message hmessage
    simp only [logEffects, MessageLog.ofLog, sameIndex, hmessage, hentry]

/-- A log may stand in another's place if it is about the same message and says the same. -/
theorem events_exchange {front back : List Raw.Log} (h : raw.logs = front ++ log :: back)
    (sameIndex : log'.msgIndex = log.msgIndex) (same : logEffects raw log' = logEffects raw log) :
    events (raw.withLogs (front ++ log' :: back)) = events raw := by
  have sameEvents : logEvents raw log' = logEvents raw log := by
    rw [logEvents, logEvents, same, sameIndex]
  apply events_withLogs_eq
  intro i
  rw [h]
  by_cases hi : log.msgIndex = i
  · simp [distinctEvents, sameIndex, hi, sameEvents]
  · simp [sameIndex, hi]

/-- The events of a log whose types are not read for its message have no part in the result, nor has
the order in which events of different types stand. Where nothing is known of the message, none of
the events has. -/
theorem events_ignore_foreign_events (raw : Raw.Result) (front back : List Raw.Log) (log : Raw.Log)
    (h : raw.logs = front ++ log :: back) :
    (∀ (message : Raw.Message) (entry : Entry), raw.message? log.msgIndex = some message →
      Registry.lookup? message.type = some entry →
      (∀ es : List Raw.Event,
        (∀ type ∈ entry.readTypes, (es.filter fun e => e.type == type) =
          log.events.filter fun e => e.type == type) →
        events (raw.withLogs (front ++ log.withEvents es :: back)) = events raw) ∧
      (∀ es : List Raw.Event,
        (es.filter fun e => entry.readTypes.contains e.type) =
          (log.events.filter fun e => entry.readTypes.contains e.type) →
        events (raw.withLogs (front ++ log.withEvents es :: back)) = events raw)) ∧
    (∀ es : List Raw.Event,
      (∀ type, (es.filter fun e => e.type == type) =
        log.events.filter fun e => e.type == type) →
      events (raw.withLogs (front ++ log.withEvents es :: back)) = events raw) ∧
    ((∀ message, raw.message? log.msgIndex = some message →
        Registry.lookup? message.type = none) →
      ∀ es : List Raw.Event,
        events (raw.withLogs (front ++ log.withEvents es :: back)) = events raw) := by
  have exchange : ∀ {es : List Raw.Event},
      logEffects raw (log.withEvents es) = logEffects raw log →
      events (raw.withLogs (front ++ log.withEvents es :: back)) = events raw :=
    fun same => events_exchange h rfl same
  have unregistered : (∀ message, raw.message? log.msgIndex = some message →
      Registry.lookup? message.type = none) → ∀ es : List Raw.Event,
      events (raw.withLogs (front ++ log.withEvents es :: back)) = events raw :=
    fun hnone _ => exchange (logEffects_eq_of_unregistered hnone rfl)
  refine ⟨fun message entry declared registered => ⟨fun es same => ?_, fun es same => ?_⟩,
    fun es same => ?_, unregistered⟩
  · have alike : ReadAlike entry log (log.withEvents es) := fun type htype => (same type htype).symm
    exact exchange (logEffects_eq_of_readAlike declared registered rfl alike)
  · have alike : ReadAlike entry log (log.withEvents es) :=
      ReadAlike.of_filter_contains same.symm
    exact exchange (logEffects_eq_of_readAlike declared registered rfl alike)
  · by_cases hknown : ∃ message entry, raw.message? log.msgIndex = some message ∧
        Registry.lookup? message.type = some entry
    · obtain ⟨message, entry, declared, registered⟩ := hknown
      have alike : ReadAlike entry log (log.withEvents es) := fun type _ => (same type).symm
      exact exchange (logEffects_eq_of_readAlike declared registered rfl alike)
    · apply unregistered
      intro message declared
      apply Option.eq_none_iff_forall_ne_some.mpr
      intro entry registered
      exact hknown ⟨message, entry, declared, registered⟩

/-- The events of a change of a token change places, a foreign one comes between them, and the log
of a message that is not there loses its event. -/
theorem events_ignore_foreign_events_of_modify :
    let modify : Raw.Message := ⟨"collection/MsgModify", .null⟩
    let entry : Entry := ⟨"collection/MsgModify", .collectionModify, "modify_collection",
      ["modify_token", "modify_token_type"], .single⟩
    let sender : Raw.Event := ⟨"message", [⟨"sender", "s"⟩]⟩
    let modified : Raw.Event := ⟨"modify_token", [⟨"contract_id", "c"⟩, ⟨"name", "n"⟩]⟩
    let foreign : Raw.Event := ⟨"transfer", [⟨"contract_id", "d"⟩]⟩
    let log : Raw.Log := ⟨0, "", [sender, modified]⟩
    let stray : Raw.Log := ⟨7, "", [modified]⟩
    let raw := bareResult [modify] [log, stray]
    raw.message? log.msgIndex = some modify ∧ Registry.lookup? modify.type = some entry ∧
    (∀ type ∈ entry.readTypes, ([modified, foreign, sender].filter fun e => e.type == type) =
      log.events.filter fun e => e.type == type) ∧
    events (raw.withLogs [log.withEvents [modified, foreign, sender], stray]) = events raw ∧
    raw.message? stray.msgIndex = none ∧
    events (raw.withLogs [log, stray.withEvents []]) = events raw := by
  intro modify entry sender modified foreign log stray raw
  have declared : raw.message? log.msgIndex = some modify := rfl
  have registered : Registry.lookup? modify.type = some entry := by decide
  have same : ∀ type ∈ entry.readTypes, ([modified, foreign, sender].filter fun e =>
      e.type == type) = log.events.filter fun e => e.type == type := by decide
  have undeclared : raw.message? stray.msgIndex = none := rfl
  have unknown : ∀ message, raw.message? stray.msgIndex = some message →
      Registry.lookup? message.type = none := by
    intro message h
    rw [undeclared] at h
    cases h
  have first := events_ignore_foreign_events raw [] [stray] log rfl
  have second := events_ignore_foreign_events raw [log] [] stray rfl
  exact ⟨declared, registered, same, (first.1 modify entry declared registered).1 _ same,
    undeclared, second.2.2 unknown []⟩

end Extract

end TxReceipt
