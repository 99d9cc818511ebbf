import TxReceipt.Proofs.AscendingSet
import TxReceipt.Proofs.Extract.Logs
import TxReceipt.Proofs.Lists
import TxReceipt.Proofs.Raw.KeySpelling

/-!
# Keys in their other spelling leave the events as they are

Only two parts of an effect hold keys of raw events: the records of a change and the attributes of
what is not known. `MessageLog.effects_withOtherKeys` says that all else an effect says is the same
after every key was put in its other spelling, and `events_withOtherKeys` the same of all events.
-/

namespace TxReceipt

/-- The records with every key in its other spelling. -/
def Changes.withOtherKeys (changes : Changes) : Changes :=
  .ofList (changes.toList.map Attribute.withOtherKey)

def Effect.withOtherKeys : Effect → Effect
  | .tokenModified contractId modifier changes =>
    .tokenModified contractId modifier changes.withOtherKeys
  | .collectionModified contractId modifier changes =>
    .collectionModified contractId modifier changes.withOtherKeys
  | .ftModified contractId tokenType modifier changes =>
    .ftModified contractId tokenType modifier changes.withOtherKeys
  | .nftModified contractId tokenId modifier changes =>
    .nftModified contractId tokenId modifier changes.withOtherKeys
  | .nftTypeModified contractId tokenType modifier changes =>
    .nftTypeModified contractId tokenType modifier changes.withOtherKeys
  | .unknown type attributes note => .unknown type (attributes.map Attribute.withOtherKey) note
  | effect => effect

def Event.withOtherKeys (e : Event) : Event :=
  { e with effect := e.effect.withOtherKeys }

def Raw.Log.withOtherKeys (log : Raw.Log) : Raw.Log :=
  { log with events := log.events.map Raw.Event.withOtherKeys }

/-- No event of the log has a key in both of its spellings. -/
def Raw.Log.OneSpelling (log : Raw.Log) : Prop :=
  ∀ e ∈ log.events, e.OneSpelling

instance (log : Raw.Log) : Decidable log.OneSpelling :=
  inferInstanceAs (Decidable (∀ e ∈ log.events, _))

def Raw.Result.withOtherKeys (raw : Raw.Result) : Raw.Result :=
  { raw with logs? := raw.logs?.map fun logs => logs.map Raw.Log.withOtherKeys }

theorem mem_map_withOtherKey {x : Attribute} {xs : List Attribute} :
    x ∈ xs.map Attribute.withOtherKey ↔ x.withOtherKey ∈ xs := by
  rw [List.mem_map]
  constructor
  · rintro ⟨y, hy, rfl⟩
    rwa [y.withOtherKey_withOtherKey]
  · intro h
    exact ⟨_, h, x.withOtherKey_withOtherKey⟩

theorem map_withOtherKey_withOtherKey (xs : List Attribute) :
    (xs.map Attribute.withOtherKey).map Attribute.withOtherKey = xs := by
  rw [List.map_map]
  exact (List.map_congr_left fun x _ => x.withOtherKey_withOtherKey).trans (List.map_id xs)

theorem Changes.withOtherKeys_withOtherKeys (changes : Changes) :
    changes.withOtherKeys.withOtherKeys = changes := by
  apply AscendingSet.eq_of_mem_iff
  intro x
  rw [withOtherKeys, AscendingSet.mem_ofList, mem_map_withOtherKey, withOtherKeys,
    AscendingSet.mem_ofList, mem_map_withOtherKey, x.withOtherKey_withOtherKey]

theorem Effect.withOtherKeys_withOtherKeys (effect : Effect) :
    effect.withOtherKeys.withOtherKeys = effect := by
  cases effect with
  | unknown type attributes note =>
    rw [withOtherKeys, withOtherKeys, map_withOtherKey_withOtherKey]
  | _ => simp only [withOtherKeys, Changes.withOtherKeys_withOtherKeys]

/-- Different events stay different. -/
theorem Event.eq_of_withOtherKeys_eq (e e' : Event) (h : e.withOtherKeys = e'.withOtherKeys) :
    e = e' := by
  have hback (e : Event) : e.withOtherKeys.withOtherKeys = e := by
    rw [withOtherKeys, withOtherKeys, e.effect.withOtherKeys_withOtherKeys]
  rw [← hback e, h, hback]

namespace Extract

open Raw.Event (find_withOtherKeys findAll_withOtherKeys)

section Effects
variable {e : Raw.Event}

theorem changes_withOtherKeys (e : Raw.Event) (excluded : List Raw.LogicalAttribute) :
    changes e.withOtherKeys excluded = (changes e excluded).withOtherKeys := by
  apply AscendingSet.eq_of_mem_iff
  intro x
  rw [changes, e.excluding_withOtherKeys, AscendingSet.mem_ofList, Changes.withOtherKeys,
    AscendingSet.mem_ofList, mem_map_withOtherKey, mem_map_withOtherKey, changes,
    AscendingSet.mem_ofList]

theorem decimals_withOtherKeys (h : e.OneSpelling) : decimals e.withOtherKeys = decimals e := by
  rw [decimals, decimals, find_withOtherKeys h]

theorem auxiliaryTokenIds_withOtherKeys (auxiliary : Option Raw.Event) (others : List String) :
    auxiliaryTokenIds (auxiliary.map Raw.Event.withOtherKeys) others =
      auxiliaryTokenIds auxiliary others := by
  cases auxiliary with
  | none => rfl
  | some e =>
    rw [Option.map_some, auxiliaryTokenIds, auxiliaryTokenIds]
    simp only [findAll_withOtherKeys]

theorem auxiliaryText_withOtherKeys {auxiliary : Option Raw.Event}
    (h : ∀ e ∈ auxiliary, e.OneSpelling) (a : Raw.LogicalAttribute) :
    auxiliaryText (auxiliary.map Raw.Event.withOtherKeys) a = auxiliaryText auxiliary a := by
  cases auxiliary with
  | none => rfl
  | some e => exact find_withOtherKeys (h e rfl) a

theorem collectionModified_withOtherKeys (h : e.OneSpelling) (modifier : String) :
    collectionModified e.withOtherKeys modifier =
      (collectionModified e modifier).withOtherKeys := by
  have htype : e.withOtherKeys.type = e.type := rfl
  simp only [collectionModified, htype, find_withOtherKeys h, changes_withOtherKeys]
  by_cases hcollection : e.type = "modify_collection"
  · rw [if_pos hcollection, if_pos hcollection, Effect.withOtherKeys]
  · rw [if_neg hcollection, if_neg hcollection]
    by_cases htokenType : e.type = "modify_token_type"
    · rw [if_pos htokenType, if_pos htokenType, Effect.withOtherKeys]
    · rw [if_neg htokenType, if_neg htokenType]
      split
      · rw [Effect.withOtherKeys]
      · rw [Effect.withOtherKeys]

theorem nftMinted_withOtherKeys {events : List Raw.Event} (h : ∀ e ∈ events, e.OneSpelling) :
    nftMinted (events.map Raw.Event.withOtherKeys) = nftMinted events := by
  have hmints : (events.map Raw.Event.withOtherKeys).map Mint.ofEvent =
      events.map Mint.ofEvent := by
    rw [List.map_map]
    apply List.map_congr_left
    intro e he
    simp only [Function.comp_apply, Mint.ofEvent, find_withOtherKeys (h e he),
      findAll_withOtherKeys]
  have hgroup (events : List Raw.Event) : Mint.group events =
      (events.map Mint.ofEvent).foldl (fun mints m => m.add mints) [] := by
    rw [List.foldl_map]
    rfl
  rw [nftMinted, nftMinted, hgroup, hgroup, hmints]

theorem map_withOtherKeys_nftMinted (events : List Raw.Event) :
    (nftMinted events).map Effect.withOtherKeys = nftMinted events := by
  rw [nftMinted, List.map_map]
  rfl

theorem nftRootChanged_withOtherKeys (h : e.OneSpelling) {auxiliary : Option Raw.Event}
    (hauxiliary : ∀ e ∈ auxiliary, e.OneSpelling) (child oldRoot newRoot : String) :
    nftRootChanged e.withOtherKeys (auxiliary.map Raw.Event.withOtherKeys) child oldRoot newRoot =
      nftRootChanged e auxiliary child oldRoot newRoot := by
  simp only [nftRootChanged, find_withOtherKeys h, auxiliaryTokenIds_withOtherKeys,
    auxiliaryText_withOtherKeys hauxiliary]

end Effects

section Logs
variable {log : Raw.Log} {entry : Registry.Entry}

theorem findEvents_withOtherKeys (log : Raw.Log) (type : String) :
    log.withOtherKeys.findEvents type = (log.findEvents type).map Raw.Event.withOtherKeys := by
  rw [Raw.Log.findEvents, Raw.Log.findEvents, Raw.Log.withOtherKeys, List.filter_map]
  rfl

theorem findEvent?_withOtherKeys (log : Raw.Log) (type : String) :
    log.withOtherKeys.findEvent? type = (log.findEvent? type).map Raw.Event.withOtherKeys := by
  rw [findEvent?_eq_head?, findEvent?_eq_head?, findEvents_withOtherKeys, List.head?_map]

theorem findPrimary?_withOtherKeys (entry : Registry.Entry) (log : Raw.Log) :
    entry.findPrimary? log.withOtherKeys =
      (entry.findPrimary? log).map Raw.Event.withOtherKeys := by
  rw [Registry.Entry.findPrimary?, Registry.Entry.findPrimary?, List.map_findSome?]
  congr 1
  funext type
  exact findEvent?_withOtherKeys log type

theorem findAuxiliary?_withOtherKeys (entry : Registry.Entry) (log : Raw.Log) :
    entry.findAuxiliary? log.withOtherKeys =
      (entry.findAuxiliary? log).map Raw.Event.withOtherKeys := by
  rw [Registry.Entry.findAuxiliary?, Registry.Entry.findAuxiliary?]
  cases entry.correlation with
  | single => rfl
  | allPrimaries => rfl
  | auxiliary name => exact findEvent?_withOtherKeys log name

theorem oneSpelling_of_findEvent? (h : log.OneSpelling) {type : String} {e : Raw.Event}
    (he : log.findEvent? type = some e) : e.OneSpelling :=
  h e (List.mem_of_find?_eq_some he)

theorem oneSpelling_of_findAuxiliary? (h : log.OneSpelling) {e : Raw.Event}
    (he : entry.findAuxiliary? log = some e) : e.OneSpelling := by
  rw [Registry.Entry.findAuxiliary?] at he
  cases hcorrelation : entry.correlation with
  | single => simp [hcorrelation] at he
  | allPrimaries => simp [hcorrelation] at he
  | auxiliary name =>
    simp only [hcorrelation] at he
    exact oneSpelling_of_findEvent? h he

end Logs

namespace MessageLog

def withOtherKeys (c : MessageLog) : MessageLog :=
  { c with
    log := c.log.withOtherKeys
    primary := c.primary.withOtherKeys
    auxiliary := c.auxiliary.map Raw.Event.withOtherKeys }

/-- No event that is read has a key in both of its spellings. -/
structure OneSpelling (c : MessageLog) : Prop where
  log : c.log.OneSpelling
  primary : c.primary.OneSpelling
  auxiliary : ∀ e ∈ c.auxiliary, e.OneSpelling

variable {c : MessageLog}

theorem sender_withOtherKeys (h : c.OneSpelling) : c.withOtherKeys.sender = c.sender := by
  have hlog : c.withOtherKeys.log = c.log.withOtherKeys := rfl
  rw [sender, sender, hlog, findEvent?_withOtherKeys]
  cases he : c.log.findEvent? Registry.messageEvent with
  | none => rfl
  | some e => exact find_withOtherKeys (oneSpelling_of_findEvent? h.log he) .sender

theorem creator_withOtherKeys (h : c.OneSpelling) : c.withOtherKeys.creator = c.creator := by
  have hlog : c.withOtherKeys.log = c.log.withOtherKeys := rfl
  rw [creator, creator, sender_withOtherKeys h, hlog, findEvent?_withOtherKeys]
  cases he : c.log.findEvent? Registry.grantEvent with
  | none => rfl
  | some e =>
    rw [Option.map_some]
    simp only [find_withOtherKeys (oneSpelling_of_findEvent? h.log he)]

theorem ftBurned_withOtherKeys (h : c.OneSpelling) :
    c.withOtherKeys.ftBurned = c.ftBurned := by
  have hcounted : countedTokenId c.withOtherKeys.primary = countedTokenId c.primary := by
    rw [countedTokenId, countedTokenId]
    exact congrArg _ (congrArg _ (find_withOtherKeys h.primary .amount))
  have hburned : Extract.ftBurned c.withOtherKeys.primary = Extract.ftBurned c.primary := by
    simp only [Extract.ftBurned, withOtherKeys, find_withOtherKeys h.primary]
  rw [ftBurned, ftBurned, hcounted, hburned]
  rfl

theorem withOtherKeys_ftBurned (c : MessageLog) : c.ftBurned.withOtherKeys = c.ftBurned := by
  rw [ftBurned]
  split
  · cases Raw.PayloadFields.ofValue? c.message.value.value with
    | none => rfl
    | some fields => rfl
  · rfl

theorem nftMinted_primaries_withOtherKeys (h : c.OneSpelling) :
    nftMinted c.withOtherKeys.primaries = nftMinted c.primaries := by
  have hprimaries : c.withOtherKeys.primaries =
      c.primaries.map Raw.Event.withOtherKeys := by
    have hentry : c.withOtherKeys.entry = c.entry := rfl
    rw [primaries, primaries, hentry]
    cases c.entry.correlation with
    | single => rfl
    | auxiliary name => rfl
    | allPrimaries => exact findEvents_withOtherKeys c.log c.primary.type
  have hone : ∀ e ∈ c.primaries, e.OneSpelling := by
    intro e he
    rw [primaries] at he
    cases hcorrelation : c.entry.correlation with
    | allPrimaries =>
      simp only [hcorrelation] at he
      exact h.log e (List.mem_filter.mp he).1
    | single =>
      simp only [hcorrelation, List.mem_singleton] at he
      exact he ▸ h.primary
    | auxiliary name =>
      simp only [hcorrelation, List.mem_singleton] at he
      exact he ▸ h.primary
  rw [hprimaries, nftMinted_withOtherKeys hone]

/-- The effect of a permission holds no key; one that stands in for it holds those of the event. -/
theorem orUnknownPermission_withOtherKeys (h : c.OneSpelling) {α : Type} (permission? : Option α)
    {effect : α → Effect} (plain : ∀ permission, (effect permission).withOtherKeys =
      effect permission) :
    c.withOtherKeys.orUnknownPermission (permission?.map effect) =
      (c.orUnknownPermission (permission?.map effect)).withOtherKeys := by
  cases permission? with
  | some permission => exact (plain permission).symm
  | none =>
    simp only [Option.map_none, orUnknownPermission, Effect.withOtherKeys, withOtherKeys,
      find_withOtherKeys h.primary]
    rfl

/-- What a message did is the same, but for the keys that it holds. -/
theorem effects_withOtherKeys (h : c.OneSpelling) :
    c.withOtherKeys.effects = c.effects.map Effect.withOtherKeys := by
  have find (a : Raw.LogicalAttribute) : c.withOtherKeys.primary.find a = c.primary.find a :=
    find_withOtherKeys h.primary a
  have findAll (a : Raw.LogicalAttribute) :
      c.withOtherKeys.primary.findAll a = c.primary.findAll a :=
    findAll_withOtherKeys c.primary a
  have decimals : decimals c.withOtherKeys.primary = decimals c.primary :=
    decimals_withOtherKeys h.primary
  have auxiliaryTokenIds (others : List String) :
      auxiliaryTokenIds c.withOtherKeys.auxiliary others = auxiliaryTokenIds c.auxiliary others :=
    auxiliaryTokenIds_withOtherKeys c.auxiliary others
  have rootChanged (child oldRoot newRoot : String) :
      nftRootChanged c.withOtherKeys.primary c.withOtherKeys.auxiliary child oldRoot newRoot =
        nftRootChanged c.primary c.auxiliary child oldRoot newRoot :=
    nftRootChanged_withOtherKeys h.primary h.auxiliary child oldRoot newRoot
  have hchanges (excluded : List Raw.LogicalAttribute) :
      changes c.withOtherKeys.primary excluded = (changes c.primary excluded).withOtherKeys :=
    changes_withOtherKeys c.primary excluded
  have hentry : c.withOtherKeys.entry = c.entry := rfl
  rw [effects, effects, hentry]
  cases c.entry.kind with
  | accountCreateAccount => simp only [accountCreated, find, List.map, Effect.withOtherKeys]
  | accountEmpty => simp only [emptyMessageCreated, find, List.map, Effect.withOtherKeys]
  | coinSend => simp only [coinTransferred, find, List.map, Effect.withOtherKeys]
  | tokenIssue => simp only [tokenIssued, find, decimals, List.map, Effect.withOtherKeys]
  | tokenMint => simp only [tokenMinted, find, List.map, Effect.withOtherKeys]
  | tokenBurn | tokenBurnFrom => simp only [tokenBurned, find, List.map, Effect.withOtherKeys]
  | tokenTransfer | tokenTransferFrom =>
    simp only [tokenTransferred, find, List.map, Effect.withOtherKeys]
  | tokenModify =>
    simp only [tokenModified, find, sender_withOtherKeys h, hchanges, List.map,
      Effect.withOtherKeys]
  | tokenApprove => simp only [tokenProxyApproved, find, List.map, Effect.withOtherKeys]
  | tokenDisapprove => simp only [tokenProxyDisapproved, find, List.map, Effect.withOtherKeys]
  | tokenGrantPermission =>
    simp only [tokenPermissionGranted?, find, List.map_singleton]
    rw [orUnknownPermission_withOtherKeys h _ fun _ => rfl]
  | tokenRevokePermission =>
    simp only [tokenPermissionRenounced?, find, List.map_singleton]
    rw [orUnknownPermission_withOtherKeys h _ fun _ => rfl]
  | collectionCreate =>
    simp only [collectionCreated, find, creator_withOtherKeys h, List.map, Effect.withOtherKeys]
  | collectionModify =>
    rw [sender_withOtherKeys h, List.map_singleton]
    exact congrArg (· :: []) (collectionModified_withOtherKeys h.primary c.sender)
  | collectionIssueFt => simp only [ftIssued, find, decimals, List.map, Effect.withOtherKeys]
  | collectionMintFt => simp only [ftMinted, find, List.map, Effect.withOtherKeys]
  | collectionBurnFt | collectionBurnFtFrom =>
    rw [ftBurned_withOtherKeys h, List.map_singleton, withOtherKeys_ftBurned]
  | collectionTransferFt | collectionTransferFtFrom =>
    simp only [ftTransferred, find, List.map, Effect.withOtherKeys]
  | collectionIssueNft => simp only [nftIssued, find, List.map, Effect.withOtherKeys]
  | collectionMintNft => rw [nftMinted_primaries_withOtherKeys h, map_withOtherKeys_nftMinted]
  | collectionBurnNft | collectionBurnNftFrom =>
    simp only [nftBurned, find, findAll, auxiliaryTokenIds, List.map, Effect.withOtherKeys]
  | collectionTransferNft | collectionTransferNftFrom =>
    simp only [nftTransferred, nftHolderChanged, find, findAll, auxiliaryTokenIds, List.map,
      Effect.withOtherKeys]
  | collectionAttach | collectionAttachFrom =>
    simp only [nftAttached, nftRootChangedByAttach, attachedChild, find, rootChanged]
    rfl
  | collectionDetach | collectionDetachFrom =>
    simp only [nftDetached, nftRootChangedByDetach, find, rootChanged]
    rfl
  | collectionApprove => simp only [collectionProxyApproved, find, List.map, Effect.withOtherKeys]
  | collectionDisapprove =>
    simp only [collectionProxyDisapproved, find, List.map, Effect.withOtherKeys]
  | collectionGrantPermission =>
    simp only [collectionPermissionGranted?, find, List.map_singleton]
    rw [orUnknownPermission_withOtherKeys h _ fun _ => rfl]
  | collectionRevokePermission =>
    simp only [collectionPermissionRenounced?, find, List.map_singleton]
    rw [orUnknownPermission_withOtherKeys h _ fun _ => rfl]

end MessageLog

section Result
variable {raw : Raw.Result} {log : Raw.Log}

theorem ofLog_withOtherKeys (raw : Raw.Result) (log : Raw.Log) :
    MessageLog.ofLog raw.withOtherKeys log.withOtherKeys =
      (MessageLog.ofLog raw log).map MessageLog.withOtherKeys := by
  have hmessage : raw.withOtherKeys.message? log.withOtherKeys.msgIndex =
      raw.message? log.msgIndex := rfl
  rw [MessageLog.ofLog, MessageLog.ofLog, hmessage]
  cases raw.message? log.msgIndex with
  | none => rfl
  | some message =>
    cases hentry : Registry.lookup? message.type with
    | none => simp only [hentry, Except.map]
    | some entry =>
      simp only [hentry, findPrimary?_withOtherKeys, findAuxiliary?_withOtherKeys]
      cases entry.findPrimary? log with
      | none => rfl
      | some primary => rfl

theorem oneSpelling_of_ofLog (one : log.OneSpelling) {c : MessageLog}
    (h : MessageLog.ofLog raw log = .ok c) : c.OneSpelling := by
  obtain ⟨-, -, hprimary, rfl, hauxiliary⟩ := MessageLog.ofLog_eq_ok_iff.mp h
  refine ⟨one, one _ (primary_spec hprimary).1, fun e he => ?_⟩
  rw [hauxiliary] at he
  exact oneSpelling_of_findAuxiliary? one he

theorem logEffects_withOtherKeys (raw : Raw.Result) (one : log.OneSpelling) :
    logEffects raw.withOtherKeys log.withOtherKeys =
      (logEffects raw log).map Effect.withOtherKeys := by
  rw [logEffects, logEffects, ofLog_withOtherKeys]
  cases h : MessageLog.ofLog raw log with
  | error u => rfl
  | ok c => exact MessageLog.effects_withOtherKeys (oneSpelling_of_ofLog one h)

theorem logEvents_withOtherKeys (raw : Raw.Result) (one : log.OneSpelling) :
    logEvents raw.withOtherKeys log.withOtherKeys =
      (logEvents raw log).map Event.withOtherKeys := by
  rw [logEvents, logEvents, logEffects_withOtherKeys raw one, List.map_map, List.map_map]
  rfl

theorem logs_withOtherKeys (raw : Raw.Result) :
    raw.withOtherKeys.logs = raw.logs.map Raw.Log.withOtherKeys := by
  rw [Raw.Result.logs, Raw.Result.logs, Raw.Result.withOtherKeys]
  cases raw.logs? with
  | none => rfl
  | some logs => rfl

theorem orderedLogs_withOtherKeys (raw : Raw.Result) :
    orderedLogs raw.withOtherKeys = (orderedLogs raw).map Raw.Log.withOtherKeys := by
  rw [orderedLogs, orderedLogs, logs_withOtherKeys, List.map_mergeSort]
  exact fun _ _ _ _ => rfl

end Result

/-- It does not matter which spelling of its keys a version of the chain writes: the events are the
same and in the same order, and so are the keys that they hold, but for the spelling. -/
theorem events_withOtherKeys (raw : Raw.Result) (one : ∀ log ∈ raw.logs, log.OneSpelling) :
    events raw.withOtherKeys = (events raw).map Event.withOtherKeys := by
  have hlogs : (orderedLogs raw.withOtherKeys).flatMap (logEvents raw.withOtherKeys) =
      ((orderedLogs raw).flatMap (logEvents raw)).map Event.withOtherKeys := by
    have hlog : ∀ log ∈ orderedLogs raw, logEvents raw.withOtherKeys log.withOtherKeys =
        (logEvents raw log).map Event.withOtherKeys := fun log hlog =>
      logEvents_withOtherKeys raw (one log (List.mem_mergeSort.mp hlog))
    rw [orderedLogs_withOtherKeys, List.flatMap_map, List.map_flatMap, List.flatMap_def,
      List.flatMap_def, List.map_congr_left hlog]
  have hsucceeded : raw.withOtherKeys.succeeded = raw.succeeded := rfl
  rw [events, events, hsucceeded, hlogs, Lists.eraseDups_map Event.eq_of_withOtherKeys_eq]
  by_cases h : raw.succeeded = true
  · rw [if_pos h, if_pos h]
  · rw [if_neg h, if_neg h]
    rfl

/-- A token is modified, and a permission of another name is granted. -/
theorem events_withOtherKeys_of_modify :
    let modified : Raw.Event := ⟨"modify_token",
      [⟨"contract_id", "c"⟩, ⟨"tokenId", "1000000100000001"⟩, ⟨"token_type", "10000001"⟩]⟩
    let granted : Raw.Event := ⟨"grant_perm", [⟨"contractId", "c"⟩, ⟨"perm", "other"⟩]⟩
    let raw := bareResult [⟨"collection/MsgModify", .null⟩, ⟨"token/MsgGrantPermission", .null⟩]
      [⟨0, "", [modified]⟩, ⟨1, "", [granted]⟩]
    (∀ log ∈ raw.logs, log.OneSpelling) ∧
    events raw.withOtherKeys = (events raw).map Event.withOtherKeys := by
  intro modified granted raw
  have one : ∀ log ∈ raw.logs, log.OneSpelling := by decide
  exact ⟨one, events_withOtherKeys raw one⟩

end Extract

end TxReceipt
