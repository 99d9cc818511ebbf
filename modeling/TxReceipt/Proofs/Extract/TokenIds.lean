import Mathlib.Data.List.Nodup
import TxReceipt.Proofs.Extract.Events
import TxReceipt.Proofs.Extract.Mint
import TxReceipt.Proofs.Raw.Distinct
import TxReceipt.Raw.Write

/-!
# Repeated token ids

Logs hold no event twice and events no attribute, but nothing compares token ids. They come from one
event, or from all mint events of the same parties. So an id is repeated only where one event states
it under both of its keys, or two mint events of the same parties state it.
-/

namespace TxReceipt

/-- An event states a token id under both keys that token ids may stand under. -/
def Raw.Event.StatesUnderBothKeys (e : Raw.Event) (id : String) : Prop :=
  ⟨"tokenId", id⟩ ∈ e.attributes ∧ ⟨"token_id", id⟩ ∈ e.attributes

theorem Raw.Event.nodup_findAll_tokenId {e : Raw.Event} (hdistinct : e.attributes.Nodup)
    (h : ∀ id, ¬ e.StatesUnderBothKeys id) : (e.findAll .tokenId).Nodup := by
  apply (hdistinct.filter _).map_on
  intro x hx y hy hvalue
  obtain ⟨hx, hxkey⟩ := List.mem_filter.mp hx
  obtain ⟨hy, hykey⟩ := List.mem_filter.mp hy
  obtain ⟨xkey, value⟩ := x
  obtain ⟨ykey, _⟩ := y
  obtain rfl : value = _ := hvalue
  simp only [LogicalAttribute.accepts, LogicalAttribute.keys, List.contains_cons, List.contains_nil,
    Bool.or_false, Bool.or_eq_true, beq_iff_eq] at hxkey hykey
  rcases hxkey with rfl | rfl <;> rcases hykey with rfl | rfl
  · rfl
  · exact absurd ⟨hx, hy⟩ (h value)
  · exact absurd ⟨hy, hx⟩ (h value)
  · rfl

namespace Extract

inductive RepeatsTokenId (log : Raw.Log) : Prop where
  /-- One event states it under both keys. -/
  | underBothKeys (e : Raw.Event) (id : String) (mem : e ∈ log.events)
      (stated : e.StatesUnderBothKeys id)
  /-- Two mint events of the same parties state it. -/
  | inTwoMints (e e' : Raw.Event) (id : String) (mem : e ∈ log.events) (mem' : e' ∈ log.events)
      (differ : e ≠ e') (mint : e.type = "mint_nft") (mint' : e'.type = "mint_nft")
      (sameParties : Mint.partiesOf e = Mint.partiesOf e') (stated : id ∈ e.findAll .tokenId)
      (stated' : id ∈ e'.findAll .tokenId)

inductive TokenIdSource (c : MessageLog) : List String → Prop where
  /-- At most one is named. -/
  | few {ids : List String} (h : ids.length ≤ 1) : TokenIdSource c ids
  /-- One event of the log states them. -/
  | event {e : Raw.Event} (h : e ∈ c.log.events) : TokenIdSource c (e.findAll .tokenId)
  /-- They are those of some parties of a mint. -/
  | mint (h : c.entry.kind = .collectionMintNft) (p : Mint.Parties) :
      TokenIdSource c (Mint.collect c.primaries p).tokenIds

theorem length_tokenIds_collectionModified (e : Raw.Event) (modifier : String) :
    (collectionModified e modifier).tokenIds.length ≤ 1 := by
  simp only [collectionModified]
  split
  · exact Nat.zero_le 1
  · split
    · exact Nat.zero_le 1
    · split
      · exact Nat.zero_le 1
      · exact Nat.le_refl 1

namespace MessageLog

variable {raw : Raw.Result} {log : Raw.Log} {c : MessageLog}

theorem tokenIds_ftBurned (c : MessageLog) : c.ftBurned.tokenIds = [] := by
  rw [ftBurned]
  split
  · split <;> rfl
  · rfl

theorem tokenIds_orUnknownPermission {P : Type} (c : MessageLog) {state : P → Effect}
    (h : ∀ p, (state p).tokenIds = []) (permission? : Option P) :
    (c.orUnknownPermission (permission?.map state)).tokenIds = [] := by
  cases permission? with
  | none => rfl
  | some p => exact h p

theorem mem_of_auxiliary (h : ofLog raw log = .ok c) {e : Raw.Event} (he : c.auxiliary = some e) :
    e ∈ c.log.events := by
  obtain ⟨-, -, -, hlog, hauxiliary⟩ := ofLog_eq_ok_iff.mp h
  rw [hauxiliary, Registry.Entry.findAuxiliary?] at he
  split at he
  · rw [hlog]
    exact List.mem_of_find?_eq_some he
  · cases he
  · cases he

end MessageLog

namespace TokenIdSource

variable {raw : Raw.Result} {log : Raw.Log} {c : MessageLog}

theorem of_eq_nil {ids : List String} (h : ids = []) : TokenIdSource c ids :=
  .few (h ▸ Nat.zero_le 1)

theorem of_auxiliary (h : MessageLog.ofLog raw log = .ok c) {others : List String}
    (hothers : TokenIdSource c others) :
    TokenIdSource c (auxiliaryTokenIds c.auxiliary others) := by
  unfold auxiliaryTokenIds
  split
  · next e he =>
    split
    · exact hothers
    · exact .event (MessageLog.mem_of_auxiliary h he)
  · exact hothers

theorem of_mem_effects (h : MessageLog.ofLog raw log = .ok c) {effect : Effect}
    (heffect : effect ∈ c.effects) : TokenIdSource c effect.tokenIds := by
  obtain ⟨-, -, hprimary, hlog, -⟩ := MessageLog.ofLog_eq_ok_iff.mp h
  have hprimary : TokenIdSource c (c.primary.findAll .tokenId) :=
    .event (hlog ▸ (primary_spec hprimary).1)
  rw [MessageLog.effects] at heffect
  cases hkind : c.entry.kind with
  | collectionMintNft =>
    rw [hkind] at heffect
    obtain ⟨m, hm, rfl⟩ := List.mem_map.mp heffect
    rw [Mint.group_eq] at hm
    obtain ⟨p, -, rfl⟩ := List.mem_map.mp hm
    exact .mint hkind p
  | collectionBurnNft | collectionBurnNftFrom =>
    rw [hkind, List.mem_singleton] at heffect
    rw [heffect]
    exact of_auxiliary h hprimary
  | collectionTransferNft | collectionTransferNftFrom =>
    rw [hkind, List.mem_pair] at heffect
    rcases heffect with rfl | rfl
    · exact hprimary
    · exact of_auxiliary h hprimary
  | collectionAttach | collectionAttachFrom | collectionDetach | collectionDetachFrom =>
    rw [hkind, List.mem_pair] at heffect
    rcases heffect with rfl | rfl
    · exact .few (Nat.le_refl 1)
    · exact of_auxiliary h (.few (Nat.le_refl 1))
  | collectionModify =>
    rw [hkind, List.mem_singleton] at heffect
    rw [heffect]
    exact .few (length_tokenIds_collectionModified _ _)
  | collectionBurnFt | collectionBurnFtFrom =>
    rw [hkind, List.mem_singleton] at heffect
    rw [heffect]
    exact of_eq_nil c.tokenIds_ftBurned
  | tokenGrantPermission | tokenRevokePermission | collectionGrantPermission
  | collectionRevokePermission =>
    rw [hkind, List.mem_singleton] at heffect
    rw [heffect]
    exact of_eq_nil (c.tokenIds_orUnknownPermission (fun _ => rfl) _)
  | _ =>
    rw [hkind, List.mem_singleton] at heffect
    rw [heffect]
    exact of_eq_nil rfl

end TokenIdSource

variable {raw : Raw.Result} {log : Raw.Log} {c : MessageLog}

/-- The ids of one mint entry are those of different events, which share none. -/
theorem nodup_collect (h : MessageLog.ofLog raw log = .ok c) (hdistinct : log.Distinct)
    (hrepeats : ¬ RepeatsTokenId log) (hkind : c.entry.kind = .collectionMintNft)
    (p : Mint.Parties) : (Mint.collect c.primaries p).tokenIds.Nodup := by
  have hprimaries := MessageLog.primaries_of_mint h hkind
  have hnodup : c.primaries.Nodup := hprimaries ▸ hdistinct.events.filter _
  have hevent : ∀ e ∈ c.primaries, e ∈ log.events ∧ e.type = "mint_nft" := by
    intro e he
    rw [hprimaries] at he
    obtain ⟨he, htype⟩ := List.mem_filter.mp he
    exact ⟨he, eq_of_beq htype⟩
  apply List.nodup_flatMap.mpr
  constructor
  · intro e he
    obtain ⟨he, -⟩ := hevent e (List.mem_filter.mp he).1
    exact Raw.Event.nodup_findAll_tokenId (hdistinct.attributes e he)
      fun id hid => hrepeats (.underBothKeys e id he hid)
  · apply (hnodup.filter _).imp_of_mem
    intro e e' he he' hne id hid hid'
    obtain ⟨he, hp⟩ := List.mem_filter.mp he
    obtain ⟨he', hp'⟩ := List.mem_filter.mp he'
    exact hrepeats (.inTwoMints e e' id (hevent e he).1 (hevent e' he').1 hne (hevent e he).2
      (hevent e' he').2 ((eq_of_beq hp).trans (eq_of_beq hp').symm) hid hid')

theorem nodup_of_source (h : MessageLog.ofLog raw log = .ok c) (hdistinct : log.Distinct)
    (hrepeats : ¬ RepeatsTokenId log) {ids : List String} (hids : TokenIdSource c ids) :
    ids.Nodup := by
  obtain ⟨-, -, -, hlog, -⟩ := MessageLog.ofLog_eq_ok_iff.mp h
  cases hids with
  | few hlength =>
    match ids, hlength with
    | [], _ => exact .nil
    | [id], _ => exact List.nodup_singleton id
  | event he =>
    rw [hlog] at he
    exact Raw.Event.nodup_findAll_tokenId (hdistinct.attributes _ he)
      fun id hid => hrepeats (.underBothKeys _ id he hid)
  | mint hkind p => exact nodup_collect h hdistinct hrepeats hkind p

theorem nodup_tokenIds_of_mem_logEffects (hdistinct : log.Distinct)
    (hrepeats : ¬ RepeatsTokenId log) {effect : Effect} (heffect : effect ∈ logEffects raw log) :
    effect.tokenIds.Nodup := by
  rw [logEffects] at heffect
  split at heffect
  · next c h => exact nodup_of_source h hdistinct hrepeats (.of_mem_effects h heffect)
  · rw [List.mem_singleton.mp heffect]
    exact .nil

/-- In what is accepted, an event repeats a token id only if a log of its message does, in one event
under both keys or in two mint events of the same parties. -/
theorem tokenIds_nodup_or_repeated {raw : Raw.Result} (h : raw.Accepted) :
    ∀ e ∈ events raw, e.tokenIds.Nodup ∨
      ∃ log ∈ raw.logs, log.msgIndex = e.msgIndex ∧ RepeatsTokenId log := by
  intro e he
  obtain ⟨-, log, hlog, he⟩ := mem_events.mp he
  obtain ⟨effect, heffect, rfl⟩ := List.mem_map.mp he
  by_cases hrepeats : RepeatsTokenId log
  · exact Or.inr ⟨log, hlog, rfl, hrepeats⟩
  · exact Or.inl (nodup_tokenIds_of_mem_logEffects (h.distinct log hlog) hrepeats heffect)

/-- A transfer of two tokens, under different keys. -/
def transferResult : Raw.Result :=
  bareResult [⟨"collection/MsgTransferNFT", .null⟩]
    [⟨0, "", [⟨"transfer_nft", [⟨"tokenId", "1000000100000001"⟩,
      ⟨"token_id", "1000000100000002"⟩]⟩]⟩]

theorem tokenIds_nodup_or_repeated_of_transfer :
    transferResult.Accepted ∧ ∃ e ∈ events transferResult,
      e.tokenIds = ["1000000100000001", "1000000100000002"] ∧
      (e.tokenIds.Nodup ∨
        ∃ log ∈ transferResult.logs, log.msgIndex = e.msgIndex ∧ RepeatsTokenId log) := by
  have hread : Raw.Result.ofValue transferResult.toValue = .ok transferResult := by rfl
  have haccepted : transferResult.Accepted := Or.inr ⟨_, hread⟩
  have hstated : ∃ log ∈ transferResult.logs, ∃ e ∈ logEvents transferResult log,
      e.tokenIds = ["1000000100000001", "1000000100000002"] := by decide +kernel
  obtain ⟨log, hlog, e, he, hids⟩ := hstated
  have hmem : e ∈ events transferResult := mem_events.mpr ⟨rfl, log, hlog, he⟩
  exact ⟨haccepted, e, hmem, hids, tokenIds_nodup_or_repeated haccepted e hmem⟩

/-- A transfer whose event states its token under both keys, and a mint whose two events state the
same token. -/
def repeatingResult : Raw.Result :=
  bareResult [⟨"collection/MsgTransferNFT", .null⟩, ⟨"collection/MsgMintNFT", .null⟩]
    [⟨0, "", [⟨"transfer_nft", [⟨"tokenId", "1000000100000001"⟩,
        ⟨"token_id", "1000000100000001"⟩]⟩]⟩,
      ⟨1, "", [⟨"mint_nft", [⟨"token_id", "1000000100000001"⟩]⟩,
        ⟨"mint_nft", [⟨"name", "x"⟩, ⟨"token_id", "1000000100000001"⟩]⟩]⟩]

/-- Both ways of repeating an id are met in what is accepted. -/
theorem tokenIds_repeated_in_both_ways :
    Raw.Result.ofValue repeatingResult.toValue = .ok repeatingResult ∧
    ⟨0, .nftTransferred "" ["1000000100000001", "1000000100000001"] "" "" ""⟩ ∈
      events repeatingResult ∧
    ⟨1, .nftMinted "" ["1000000100000001", "1000000100000001"] "" ""⟩ ∈ events repeatingResult ∧
    ¬ ∀ raw : Raw.Result, raw.Accepted → ∀ e ∈ events raw, e.tokenIds.Nodup := by
  have hread : Raw.Result.ofValue repeatingResult.toValue = .ok repeatingResult := by rfl
  have htransferred : ∃ log ∈ repeatingResult.logs,
      ⟨0, .nftTransferred "" ["1000000100000001", "1000000100000001"] "" "" ""⟩ ∈
        logEvents repeatingResult log := by decide +kernel
  have hminted : ∃ log ∈ repeatingResult.logs,
      ⟨1, .nftMinted "" ["1000000100000001", "1000000100000001"] "" ""⟩ ∈
        logEvents repeatingResult log := by decide +kernel
  refine ⟨hread, mem_events.mpr ⟨rfl, htransferred⟩, mem_events.mpr ⟨rfl, hminted⟩, fun h => ?_⟩
  have hnodup := h repeatingResult (Or.inr ⟨_, hread⟩) _ (mem_events.mpr ⟨rfl, htransferred⟩)
  exact absurd hnodup (by decide)

end Extract

end TxReceipt
