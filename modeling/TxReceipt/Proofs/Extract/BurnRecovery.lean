import TxReceipt.Proofs.Extract.Reconstruction
import TxReceipt.Proofs.Registry

/-!
# Burns recovered from the message

The event of a burn of fungible tokens is taken as a whole, or not at all. If its amount names a
token, or if there is no payload to turn to, every field of the burn is the one of the event.
Otherwise every field is the one of the payload, even where the payload leaves it out and the event
does not.
-/

namespace TxReceipt

def Registry.MessageKind.BurnsFt (kind : MessageKind) : Prop :=
  kind = .collectionBurnFt ∨ kind = .collectionBurnFtFrom

instance (kind : Registry.MessageKind) : Decidable kind.BurnsFt :=
  inferInstanceAs (Decidable (_ ∨ _))

/-- The types of messages that burn fungible tokens, with the type of the event that tells it. -/
def burnTypes : List (String × String) := [
  ("collection/MsgBurnFT", "burn_ft"),
  ("collection/MsgBurnFTFrom", "burn_ft_from")]

/-- The table lists the entries of the registry that burn fungible tokens, and no others. -/
theorem burnTypes_eq_rows :
    burnTypes.map (fun row => (row.1, [row.2])) =
      (Registry.entries.filter fun entry => entry.kind.BurnsFt).map fun entry =>
        (entry.messageType, entry.eventNames) := by
  decide

namespace Extract

/-- The entry of a type of message that burns fungible tokens. -/
theorem exists_entry_of_burnType {row : String × String} (hrow : row ∈ burnTypes) :
    ∃ entry, Registry.lookup? row.1 = some entry ∧ entry.eventNames = [row.2] ∧
      entry.kind.BurnsFt := by
  have hlisted := List.mem_map_of_mem (f := fun row : String × String => (row.1, [row.2])) hrow
  rw [burnTypes_eq_rows] at hlisted
  obtain ⟨entry, hentry, hkind, hview⟩ := Registry.exists_lookup?_of_listed hlisted
  obtain ⟨htype, hnames⟩ := Prod.mk.inj hview
  exact ⟨entry, htype ▸ hentry, hnames, of_decide_eq_true hkind⟩

theorem effects_of_burnsFt {c : MessageLog} (h : c.entry.kind.BurnsFt) :
    c.effects = [c.ftBurned] := by
  rw [MessageLog.effects]
  rcases h with hkind | hkind <;> rw [hkind]

/-- The log of a burn of fungible tokens gives one event. Where the amount of the primary event
names a token, or the payload is no object, the contract, the holder, the proxy and the amount are
those of the primary event. Otherwise they are those of the payload, the amount that of the first
entry of its list. -/
theorem logEvents_of_burn {raw : Raw.Result} {log : Raw.Log} {message : Raw.Message}
    {primaryType : String} {p : Raw.Event}
    (declared : raw.message? log.msgIndex = some message)
    (listed : (message.type, primaryType) ∈ burnTypes)
    (found : log.findEvent? primaryType = some p) :
    ∃ tokens contractId tokenId tokenType holder amount proxy,
      CompositeAmount.Counted (p.find .amount) tokens ∧
      logEvents raw log =
        [⟨log.msgIndex, .ftBurned contractId tokenId tokenType holder amount proxy⟩] ∧
      (tokens.tokenId ≠ "" ∨ (∀ fields, message.value.value ≠ .object fields) →
        contractId = p.find .contractId ∧ holder = p.find .source ∧ proxy = p.find .proxy ∧
        amount = tokens.amount) ∧
      (∀ fields : Raw.PayloadFields, tokens.tokenId = "" → message.value.value = .object fields →
        contractId = fields.find .contractId ∧ holder = fields.find .source ∧
        proxy = fields.find .proxy ∧
        amount = ((fields.findList .amount).headD []).find .amount) := by
  obtain ⟨entry, hentry, hnames, hkind⟩ := exists_entry_of_burnType listed
  let c : MessageLog := ⟨log, message, entry, p, entry.findAuxiliary? log⟩
  have hc : MessageLog.ofLog raw log = .ok c :=
    MessageLog.ofLog_of_findEvent? declared hentry hnames found
  have hlog : logEvents raw log = [⟨log.msgIndex, c.ftBurned⟩] := by
    rw [logEvents_of_ofLog hc, effects_of_burnsFt hkind, List.map_singleton]
  obtain ⟨tokens, counted⟩ := CompositeAmount.exists_counted (p.find .amount)
  have htoken : countedTokenId c.primary = tokens.tokenId := countedTokenId_eq_of_counted counted
  by_cases known : tokens.tokenId ≠ "" ∨ ∀ fields, message.value.value ≠ .object fields
  · rw [MessageLog.ftBurned_eq_of_event (htoken ▸ known), Extract.ftBurned] at hlog
    refine ⟨tokens, _, _, _, _, _, _, counted, hlog, fun _ => ⟨rfl, rfl, rfl, ?_⟩, ?_⟩
    · rw [CompositeAmount.parse_eq_of_counted counted]
    · intro fields unnamed declared
      exact known.elim (absurd unnamed) fun noObject => absurd declared (noObject fields)
  · obtain ⟨unnamed, hobject⟩ := not_or.mp known
    obtain ⟨fields, hfields⟩ := not_forall.mp hobject
    have unnamed : tokens.tokenId = "" := not_not.mp unnamed
    have hfields : message.value.value = .object fields := not_not.mp hfields
    rw [MessageLog.ftBurned_eq_of_message (htoken.trans unnamed) hfields, ftBurnedOfMessage] at hlog
    refine ⟨tokens, _, _, _, _, _, _, counted, hlog, fun h => absurd h known, ?_⟩
    intro fields' _ hfields'
    cases hfields.symm.trans hfields'
    exact ⟨rfl, rfl, rfl, rfl⟩

/-- The event of a burn by a proxy. -/
def burnEvent (amount : String) : Raw.Event :=
  ⟨"burn_ft_from", [⟨"contract_id", "9be17165"⟩, ⟨"from", "h"⟩, ⟨"proxy", "x"⟩,
    ⟨"amount", amount⟩]⟩

/-- A burn whose message has an empty object as payload. -/
def burnResult (amount : String) : Raw.Result :=
  bareResult [⟨"collection/MsgBurnFTFrom", .ofValue (.object [])⟩] [⟨0, "", [burnEvent amount]⟩]

/-- The amount names its token, so that the payload has no part in the burn. -/
theorem logEvents_of_burn_of_composite :
    let log : Raw.Log := ⟨0, "", [burnEvent "500:0000000100000000"]⟩
    log.findEvent? "burn_ft_from" = some (burnEvent "500:0000000100000000") ∧
    ∃ tokenId tokenType, logEvents (burnResult "500:0000000100000000") log =
      [⟨0, .ftBurned "9be17165" tokenId tokenType "h" "500" "x"⟩] := by
  intro log
  refine ⟨rfl, ?_⟩
  obtain ⟨tokens, _, tokenId, tokenType, _, _, _, counted, hlog, hevent, -⟩ :=
    @logEvents_of_burn (burnResult "500:0000000100000000") log _ "burn_ft_from" _
      rfl (.tail _ (.head _)) rfl
  have htokens : tokens = ⟨"500", "0000000100000000"⟩ :=
    (CompositeAmount.parse_eq_of_counted counted).symm.trans (by decide)
  have hnamed : tokens.tokenId ≠ "" := by
    rw [htokens]
    decide
  obtain ⟨rfl, rfl, rfl, hamount⟩ := hevent (Or.inl hnamed)
  rw [hamount, htokens] at hlog
  exact ⟨tokenId, tokenType, hlog⟩

/-- The amount names no token. Nothing of what the event states is in the burn, since the payload
states none of it. -/
theorem burn_emptied_by_payload :
    let log : Raw.Log := ⟨0, "", [burnEvent "500"]⟩
    logEvents (burnResult "500") log = [⟨0, .ftBurned "" "" "" "" "" ""⟩] ∧
    ¬ ∀ (raw : Raw.Result) (log : Raw.Log) (message : Raw.Message) (primaryType : String)
        (p : Raw.Event), raw.message? log.msgIndex = some message →
        (message.type, primaryType) ∈ burnTypes → log.findEvent? primaryType = some p →
      ∃ contractId tokenId tokenType holder amount proxy,
        logEvents raw log =
          [⟨log.msgIndex, .ftBurned contractId tokenId tokenType holder amount proxy⟩] ∧
        (p.find .contractId ≠ "" → contractId ≠ "") ∧ (p.find .source ≠ "" → holder ≠ "") ∧
        (p.find .proxy ≠ "" → proxy ≠ "") ∧
        ((CompositeAmount.parse (p.find .amount)).amount ≠ "" → amount ≠ "") := by
  intro log
  have hlost : logEvents (burnResult "500") log = [⟨0, .ftBurned "" "" "" "" "" ""⟩] := by decide
  refine ⟨hlost, fun h => ?_⟩
  obtain ⟨contractId, _, _, _, _, _, hlog, hcontract, -⟩ :=
    h (burnResult "500") log _ "burn_ft_from" (burnEvent "500") rfl (.tail _ (.head _)) rfl
  have hempty : contractId = "" := by
    cases hlost.symm.trans hlog
    rfl
  exact hcontract (by decide) hempty

end Extract

end TxReceipt
