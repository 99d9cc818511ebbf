import TxReceipt.Proofs.Extract.Events
import TxReceipt.Proofs.Extract.Outcomes
import TxReceipt.Proofs.Registry
import TxReceipt.Receipt.Adapt

/-!
# Agreement of events with messages

An event that is not understood stands for a log that leaves its message `Untold`, and for no other
log. Every other event of a receipt belongs to a declared message of a registered type, is one that
messages of this type have, and is about the kind of asset that the module of the type manages.
-/

namespace TxReceipt.Extract

open Registry (Entry)

/-- The types of messages that grant or give up permissions, with the names of these. -/
def permissionTypes : List (String × List String) := [
  ("token/MsgGrantPermission", ["modify", "mint", "burn"]),
  ("token/MsgRevokePermission", ["modify", "mint", "burn"]),
  ("collection/MsgGrantPermission", ["issue", "modify", "mint", "burn"]),
  ("collection/MsgRevokePermission", ["issue", "modify", "mint", "burn"])]

def moduleName (messageType : String) : String :=
  String.ofList (messageType.toList.takeWhile (· != '/'))

/-- The modules of the chain, with the kinds of asset that events of their messages are about. -/
def modules : List (String × List (Option AssetType)) := [
  ("account", [none]),
  ("coin", [none]),
  ("token", [some .serviceToken]),
  ("collection", [some .itemToken, some .itemTokenFungible, some .itemTokenNonFungible])]

theorem permissionNames?_eq_some_iff {entry : Entry} (h : entry ∈ Registry.entries)
    {names : List String} : entry.kind.permissionNames? = some names ↔
      (entry.messageType, names) ∈ permissionTypes := by
  have listed : ∀ entry ∈ Registry.entries, ∀ names ∈ entry.kind.permissionNames?,
      (entry.messageType, names) ∈ permissionTypes := by decide
  have asked : ∀ entry ∈ Registry.entries, ∀ row ∈ permissionTypes,
      row.1 = entry.messageType → entry.kind.permissionNames? = some row.2 := by decide
  exact ⟨fun hnames => listed entry h names hnames, fun hrow => asked entry h _ hrow rfl⟩

/-- A log that leaves open what its message did, with the type and the attributes that are left to
say. -/
inductive Untold (raw : Raw.Result) (log : Raw.Log) : String → List Attribute → Prop
  | undeclared (absent : raw.message? log.msgIndex = none) : Untold raw log "" []
  | unregistered {message : Raw.Message}
      (declared : raw.message? log.msgIndex = some message)
      (absent : message.type ∉ Registry.entries.map Entry.messageType) :
      Untold raw log message.type []
  | undescribed {message : Raw.Message} {entry : Entry}
      (declared : raw.message? log.msgIndex = some message)
      (registered : entry ∈ Registry.entries) (named : entry.messageType = message.type)
      (absent : ∀ e ∈ log.events, e.type ∉ entry.eventNames) :
      Untold raw log message.type []
  | unknownPermission {message : Raw.Message} {entry : Entry} {primary : Raw.Event}
      {names : List String}
      (declared : raw.message? log.msgIndex = some message)
      (registered : entry ∈ Registry.entries) (named : entry.messageType = message.type)
      (described : entry.findPrimary? log = some primary)
      (asked : (message.type, names) ∈ permissionTypes)
      (refused : (Text.trim (primary.find .permission)).toLower ∉ names) :
      Untold raw log message.type primary.attributes

def IsUnknown (e : Event) : Prop :=
  EventName.ofEffect e.effect = .unknown

variable {raw : Raw.Result} {log : Raw.Log}

/-- A log that does not describe its message leaves it untold. -/
theorem untold_of_ofLog_error {u : Unexplained} (h : MessageLog.ofLog raw log = .error u) :
    Untold raw log u.messageType [] := by
  rw [MessageLog.ofLog] at h
  cases hmessage : raw.message? log.msgIndex with
  | none =>
    simp only [hmessage, Except.error.injEq] at h
    subst h
    exact .undeclared hmessage
  | some message =>
    cases hentry : Registry.lookup? message.type with
    | none =>
      simp only [hmessage, hentry, Except.error.injEq] at h
      subst h
      exact .unregistered hmessage (Registry.lookup?_eq_none_iff.mp hentry)
    | some entry =>
      obtain ⟨registered, named⟩ := Registry.lookup?_eq_some_iff.mp hentry
      cases hprimary : entry.findPrimary? log with
      | none =>
        simp only [hmessage, hentry, hprimary, Except.error.injEq] at h
        subst h
        exact .undescribed hmessage registered named (findPrimary?_eq_none_iff.mp hprimary)
      | some primary => simp [hmessage, hentry, hprimary] at h

/-- The one effect of a log that leaves its message untold. -/
theorem logEffects_of_untold {type : String} {attributes : List Attribute}
    (h : Untold raw log type attributes) :
    ∃ note, logEffects raw log = [.unknown type attributes note] := by
  cases h with
  | undeclared absent =>
    exact ⟨_, by simp only [logEffects, MessageLog.ofLog, absent]; rfl⟩
  | unregistered declared absent =>
    have hentry := Registry.lookup?_eq_none_iff.mpr absent
    exact ⟨_, by simp only [logEffects, MessageLog.ofLog, declared, hentry]; rfl⟩
  | undescribed declared registered named absent =>
    have hentry := Registry.lookup?_eq_some_iff.mpr ⟨registered, named⟩
    have hprimary := findPrimary?_eq_none_iff.mpr absent
    exact ⟨_, by simp only [logEffects, MessageLog.ofLog, declared, hentry, hprimary]; rfl⟩
  | @unknownPermission message entry primary names declared registered named described asked
      refused =>
    have hentry := Registry.lookup?_eq_some_iff.mpr ⟨registered, named⟩
    have hc : MessageLog.ofLog raw log =
        .ok ⟨log, message, entry, primary, entry.findAuxiliary? log⟩ :=
      MessageLog.ofLog_eq_ok_iff.mpr ⟨declared, hentry, described, rfl, rfl⟩
    have hnames := (permissionNames?_eq_some_iff registered).mpr (named ▸ asked)
    obtain ⟨effect?, heffects, hnone, -⟩ := MessageLog.effects_of_permission
      (c := ⟨log, message, entry, primary, entry.findAuxiliary? log⟩) hnames
    rw [hnone.mpr refused] at heffects
    exact ⟨_, by simp only [logEffects, hc]; exact heffects⟩

/-- An effect of a log that describes its message is one of the table, unless the message asks for a
permission that is not known; then nothing is understood. -/
theorem outcome_or_untold {c : MessageLog} (h : MessageLog.ofLog raw log = .ok c)
    {effect : Effect} (heffect : effect ∈ c.effects) :
    effect.outcome ∈ c.entry.kind.outcomes ∨ (EventName.ofEffect effect = .unknown ∧
      Untold raw log c.message.type c.primary.attributes) := by
  obtain ⟨declared, hentry, described, -, -⟩ := MessageLog.ofLog_eq_ok_iff.mp h
  obtain ⟨registered, named⟩ := Registry.lookup?_eq_some_iff.mp hentry
  cases hnames : c.entry.kind.permissionNames? with
  | none => exact Or.inl (MessageLog.outcome_of_mem_effects hnames heffect)
  | some names =>
    obtain ⟨effect?, heffects, hnone, hknown⟩ := MessageLog.effects_of_permission hnames
    rw [heffects] at heffect
    rw [List.mem_singleton.mp heffect]
    cases effect? with
    | none =>
      have asked := (permissionNames?_eq_some_iff registered).mp hnames
      exact Or.inr ⟨rfl, .unknownPermission declared registered named described (named ▸ asked)
        (hnone.mp rfl)⟩
    | some known => exact Or.inl (hknown known rfl)

theorem not_isUnknown_of_outcome {e : Event} {kind : Registry.MessageKind}
    (h : e.effect.outcome ∈ kind.outcomes) : ¬ IsUnknown e := by
  intro hunknown
  have hasset : e.effect.assetType? = none := by
    obtain ⟨i, effect⟩ := e
    cases effect <;> first | rfl | cases hunknown
  have houtcome : e.effect.outcome = (.unknown, none) := Prod.ext hunknown hasset
  exact kind.unknown_notMem_outcomes (houtcome ▸ h)

/-- A log gives an event that is not understood exactly if it leaves its message untold. -/
theorem exists_unknown_iff : (∃ e ∈ logEvents raw log, IsUnknown e) ↔
    ∃ type attributes, Untold raw log type attributes := by
  constructor
  · rintro ⟨e, he, hunknown⟩
    obtain ⟨effect, heffect, rfl⟩ := List.mem_map.mp he
    rw [logEffects] at heffect
    cases hc : MessageLog.ofLog raw log with
    | error u => exact ⟨_, _, untold_of_ofLog_error hc⟩
    | ok c =>
      simp only [hc] at heffect
      rcases outcome_or_untold hc heffect with hknown | ⟨-, huntold⟩
      · exact absurd hunknown (not_isUnknown_of_outcome hknown)
      · exact ⟨_, _, huntold⟩
  · rintro ⟨type, attributes, huntold⟩
    obtain ⟨note, heffects⟩ := logEffects_of_untold huntold
    refine ⟨⟨log.msgIndex, .unknown type attributes note⟩, ?_, rfl⟩
    simp [logEvents, heffects]

/-- A declared message of a receipt stands at the place that its index names. -/
theorem messages_getElem? (network : String) {i : UInt64} {message : Raw.Message}
    (h : raw.message? i = some message) :
    (Receipt.ofRaw raw network).messages[i.toNat]? = some ⟨i, message.type, message.value⟩ := by
  have hget : raw.messages[i.toNat]? = some message := h
  simp [Receipt.ofRaw, Message.ofRaw, List.getElem?_mapIdx, hget]

/-- The asset of an event is known exactly if its contract is, and then it is that of the effect. -/
theorem contractIdentifier?_eq (e : Event) :
    e.contractIdentifier?.map (·.assetType) = e.effect.assetType? ∧
      e.contractIdentifier?.map (·.contractId) = e.contractId? := by
  obtain ⟨i, effect⟩ := e
  cases effect <;> exact ⟨rfl, rfl⟩

theorem outcome_asset_mem_modules {entry : Entry} (h : entry ∈ Registry.entries)
    {outcome : EventName × Option AssetType} (houtcome : outcome ∈ entry.kind.outcomes) :
    ∃ assets, (moduleName entry.messageType, assets) ∈ modules ∧ outcome.2 ∈ assets := by
  have table : ∀ entry ∈ Registry.entries, ∃ row ∈ modules, row.1 = moduleName entry.messageType ∧
      ∀ outcome ∈ entry.kind.outcomes, outcome.2 ∈ row.2 := by decide +kernel
  obtain ⟨row, hrow, hmodule, hassets⟩ := table entry h
  exact ⟨row.2, hmodule ▸ hrow, hassets outcome houtcome⟩

/-- An event belongs to a message of some type: it is one that messages of this type have, and its
contract is one of the module of the type. -/
structure BelongsTo (e : Event) (messageType : String) : Prop where
  outcome : ∃ entry, Registry.lookup? messageType = some entry ∧
    (EventName.ofEffect e.effect, e.contractIdentifier?.map (·.assetType)) ∈ entry.kind.outcomes
  asset : ∃ assets, (moduleName messageType, assets) ∈ modules ∧
    e.contractIdentifier?.map (·.assetType) ∈ assets
  contract : e.contractIdentifier?.map (·.contractId) = e.contractId?

theorem belongsTo_of_mem_logEvents {e : Event} (he : e ∈ logEvents raw log)
    (known : ¬ IsUnknown e) :
    ∃ message, raw.message? log.msgIndex = some message ∧ BelongsTo e message.type := by
  obtain ⟨effect, heffect, rfl⟩ := List.mem_map.mp he
  rw [logEffects] at heffect
  cases hc : MessageLog.ofLog raw log with
  | error u =>
    simp only [hc, List.mem_singleton] at heffect
    exact absurd (heffect ▸ rfl) known
  | ok c =>
    simp only [hc] at heffect
    obtain ⟨declared, hentry, -, -, -⟩ := MessageLog.ofLog_eq_ok_iff.mp hc
    obtain ⟨registered, named⟩ := Registry.lookup?_eq_some_iff.mp hentry
    have houtcome : effect.outcome ∈ c.entry.kind.outcomes := by
      rcases outcome_or_untold hc heffect with hknown | ⟨hunknown, -⟩
      · exact hknown
      · exact absurd hunknown known
    obtain ⟨hasset, hcontract⟩ := contractIdentifier?_eq ⟨log.msgIndex, effect⟩
    refine ⟨c.message, declared, ⟨c.entry, hentry, ?_⟩, ?_, hcontract⟩
    · rw [hasset]
      exact houtcome
    · rw [hasset, ← named]
      exact outcome_asset_mem_modules registered houtcome

/-- Events agree with the messages and the registry. A log gives an event that is not understood
exactly if it leaves its message untold, and then it gives no other event. Every other event of a
receipt belongs to the declared message at its index. -/
theorem events_agree (raw : Raw.Result) (network : String) :
    (∀ log, (∃ e ∈ logEvents raw log, IsUnknown e) ↔
      ∃ type attributes, Untold raw log type attributes) ∧
    (∀ log type attributes, Untold raw log type attributes →
      ∃ note, logEvents raw log = [⟨log.msgIndex, .unknown type attributes note⟩]) ∧
    ∀ e ∈ (Receipt.ofRaw raw network).events, ¬ IsUnknown e →
      ∃ message, (Receipt.ofRaw raw network).messages[e.msgIndex.toNat]? = some message ∧
        message.msgIndex = e.msgIndex ∧ BelongsTo e message.requestType := by
  refine ⟨fun log => exists_unknown_iff, ?_, ?_⟩
  · intro log type attributes huntold
    obtain ⟨note, heffects⟩ := logEffects_of_untold huntold
    exact ⟨note, by simp [logEvents, heffects]⟩
  · intro e he known
    obtain ⟨-, log, -, hmem⟩ := mem_events.mp he
    obtain ⟨message, declared, hbelongs⟩ := belongsTo_of_mem_logEvents hmem known
    have hindex := msgIndex_of_mem_logEvents hmem
    rw [← hindex] at declared
    exact ⟨_, messages_getElem? network declared, rfl, hbelongs⟩

/-- A service token knows no permission `issue`, which collections do know. -/
theorem events_agree_on_refused_permission :
    let grant : Raw.Log := ⟨0, "", [⟨"grant_perm", [⟨"perm", " Issue "⟩]⟩]⟩
    let raw := bareResult [⟨"token/MsgGrantPermission", .null⟩] [grant]
    Untold raw grant "token/MsgGrantPermission" [⟨"perm", " Issue "⟩] ∧
    ∃ note, logEvents raw grant =
      [⟨0, .unknown "token/MsgGrantPermission" [⟨"perm", " Issue "⟩] note⟩] := by
  have huntold : Untold
      (bareResult [⟨"token/MsgGrantPermission", .null⟩]
        [⟨0, "", [⟨"grant_perm", [⟨"perm", " Issue "⟩]⟩]⟩])
      ⟨0, "", [⟨"grant_perm", [⟨"perm", " Issue "⟩]⟩]⟩
      "token/MsgGrantPermission" [⟨"perm", " Issue "⟩] :=
    @Untold.unknownPermission _ _ ⟨"token/MsgGrantPermission", .null⟩
      (.single "token/MsgGrantPermission" .tokenGrantPermission "grant_perm")
      ⟨"grant_perm", [⟨"perm", " Issue "⟩]⟩ ["modify", "mint", "burn"]
      rfl (by decide) rfl (by decide) (by decide) (by rw [← permissionName_eq]; decide)
  exact ⟨huntold, (events_agree _ "").2.1 _ _ _ huntold⟩

end TxReceipt.Extract
