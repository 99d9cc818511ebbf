import TxReceipt.Proofs.Extract.Reconstruction
import TxReceipt.Proofs.Registry

/-!
# Tokens that move with what is attached to them

Where tokens are burned, transferred, attached or detached, an auxiliary event lists all tokens
concerned, those attached to them included, and the roots that change. It may be missing, and it may
leave out any of these; the primary event then stands in. `MovementTold` lists what each movement
is told by, and `logEvents_of_movement` says that the logs of the eight types of messages are told
so. Contract, holder, recipient and proxy are those of the primary event throughout.
-/

namespace TxReceipt

/-- What happens to tokens together with what is attached to them. -/
inductive Movement where
  | burn
  | transfer
  | attach
  | detach
  deriving DecidableEq

def Registry.MessageKind.movement? : MessageKind → Option Movement
  | .collectionBurnNft | .collectionBurnNftFrom => some .burn
  | .collectionTransferNft | .collectionTransferNftFrom => some .transfer
  | .collectionAttach | .collectionAttachFrom => some .attach
  | .collectionDetach | .collectionDetachFrom => some .detach
  | _ => none

/-- A type of message that asks for a movement, with the types of the two events that tell it. -/
structure MovementType where
  messageType : String
  primaryType : String
  auxiliaryType : String
  movement : Movement
  deriving DecidableEq

def movementTypes : List MovementType := [
  ⟨"collection/MsgBurnNFT", "burn_nft", "operation_burn_nft", .burn⟩,
  ⟨"collection/MsgBurnNFTFrom", "burn_nft_from", "operation_burn_nft", .burn⟩,
  ⟨"collection/MsgTransferNFT", "transfer_nft", "operation_transfer_nft", .transfer⟩,
  ⟨"collection/MsgTransferNFTFrom", "transfer_nft_from", "operation_transfer_nft", .transfer⟩,
  ⟨"collection/MsgAttach", "attach", "operation_root_changed", .attach⟩,
  ⟨"collection/MsgAttachFrom", "attach_from", "operation_root_changed", .attach⟩,
  ⟨"collection/MsgDetach", "detach", "operation_root_changed", .detach⟩,
  ⟨"collection/MsgDetachFrom", "detach_from", "operation_root_changed", .detach⟩]

/-- What a row of the table lists of an entry of the registry. -/
def MovementType.view (row : MovementType) :
    String × List String × Registry.Correlation × Option Movement :=
  (row.messageType, [row.primaryType], .auxiliary row.auxiliaryType, some row.movement)

/-- The table lists the entries of the registry that ask for a movement, and no others. -/
theorem movementTypes_eq_rows :
    movementTypes.map MovementType.view =
      (Registry.entries.filter fun entry => entry.kind.movement?.isSome).map fun entry =>
        (entry.messageType, entry.eventNames, entry.correlation, entry.kind.movement?) := by
  decide

namespace Extract

/-- What the auxiliary event says, or another value where there is none or it says nothing. -/
inductive Completes {α : Type} (read : Raw.Event → α) (nothing other : α) :
    Option Raw.Event → α → Prop
  | stated {a : Raw.Event} (something : read a ≠ nothing) :
      Completes read nothing other (some a) (read a)
  | silent {a : Raw.Event} (unsaid : read a = nothing) :
      Completes read nothing other (some a) other
  | absent : Completes read nothing other none other

abbrev idsOf (e : Raw.Event) : List String :=
  e.findAll .tokenId

/-- What the change of a root lists: the tokens and both roots, each as the auxiliary event has it,
or else the token that moved alone and the given roots. -/
structure RootChange (auxiliary : Option Raw.Event) (child formerRoot laterRoot : String)
    (ids : List String) (oldRoot newRoot : String) : Prop where
  ids : Completes idsOf [] [child] auxiliary ids
  oldRoot : Completes (fun a => a.find .oldRootTokenId) "" formerRoot auxiliary oldRoot
  newRoot : Completes (fun a => a.find .newRootTokenId) "" laterRoot auxiliary newRoot

def MovementTold (p : Raw.Event) (auxiliary : Option Raw.Event) (effects : List Effect) :
    Movement → Prop
  | .burn => ∃ ids, Completes idsOf [] (idsOf p) auxiliary ids ∧
    effects = [.nftBurned (p.find .contractId) ids (p.find .source) (p.find .proxy)]
  | .transfer => ∃ ids, Completes idsOf [] (idsOf p) auxiliary ids ∧
    effects = [
      .nftTransferred (p.find .contractId) (idsOf p) (p.find .source) (p.find .destination)
        (p.find .proxy),
      .nftHolderChanged (p.find .contractId) ids (p.find .source) (p.find .destination)]
  | .attach => ∃ child parent ids oldRoot newRoot,
    child = (if p.find .tokenId = "" then p.find .sourceTokenId else p.find .tokenId) ∧
    parent = p.find .parentTokenId ∧
    RootChange auxiliary child child parent ids oldRoot newRoot ∧
    effects = [
      .nftAttached (p.find .contractId) (p.find .source) child parent (p.find .proxy),
      .nftRootChanged (p.find .contractId) ids oldRoot newRoot]
  | .detach => ∃ exChild exParent ids oldRoot newRoot,
    exChild = p.find .tokenId ∧ exParent = p.find .exParentTokenId ∧
    RootChange auxiliary exChild exParent exChild ids oldRoot newRoot ∧
    effects = [
      .nftDetached (p.find .contractId) (p.find .source) exChild exParent (p.find .proxy),
      .nftRootChanged (p.find .contractId) ids oldRoot newRoot]

theorem completes_auxiliaryTokenIds (auxiliary : Option Raw.Event) (others : List String) :
    Completes idsOf [] others auxiliary (auxiliaryTokenIds auxiliary others) := by
  cases auxiliary with
  | none => exact .absent
  | some a =>
    rw [auxiliaryTokenIds]
    by_cases h : idsOf a = []
    · rw [if_pos (List.isEmpty_iff.mpr h)]
      exact .silent h
    · rw [if_neg (mt List.isEmpty_iff.mp h)]
      exact .stated h

theorem completes_auxiliaryText (auxiliary : Option Raw.Event) (a : Raw.LogicalAttribute)
    (other : String) :
    Completes (fun e => e.find a) "" other auxiliary
      (firstNonEmpty [auxiliaryText auxiliary a, other]) := by
  rw [firstNonEmpty_pair]
  cases auxiliary with
  | none => exact .absent
  | some e =>
    rw [auxiliaryText]
    by_cases h : e.find a = ""
    · rw [if_pos h]
      exact .silent h
    · rw [if_neg h]
      exact .stated h

theorem Completes.unique {α : Type} {read : Raw.Event → α} {nothing other : α}
    {auxiliary : Option Raw.Event} {v w : α} (hv : Completes read nothing other auxiliary v)
    (hw : Completes read nothing other auxiliary w) : v = w := by
  cases hv with
  | stated something =>
    cases hw with
    | stated _ => rfl
    | silent unsaid => exact absurd unsaid something
  | silent unsaid =>
    cases hw with
    | stated something => exact absurd unsaid something
    | silent _ => rfl
  | absent =>
    cases hw with
    | absent => rfl

section
variable {auxiliary : Option Raw.Event} {child formerRoot laterRoot oldRoot newRoot : String}
  {ids : List String}

theorem RootChange.unique {oldRoot' newRoot' : String} {ids' : List String}
    (h : RootChange auxiliary child formerRoot laterRoot ids oldRoot newRoot)
    (h' : RootChange auxiliary child formerRoot laterRoot ids' oldRoot' newRoot') :
    ids = ids' ∧ oldRoot = oldRoot' ∧ newRoot = newRoot' :=
  ⟨h.ids.unique h'.ids, h.oldRoot.unique h'.oldRoot, h.newRoot.unique h'.newRoot⟩

/-- There is always a token whose root changed. -/
theorem RootChange.ids_ne_nil
    (h : RootChange auxiliary child formerRoot laterRoot ids oldRoot newRoot) : ids ≠ [] := by
  cases h.ids with
  | stated something => exact something
  | silent _ => exact List.cons_ne_nil _ _
  | absent => exact List.cons_ne_nil _ _

end

theorem exists_rootChange (p : Raw.Event) (auxiliary : Option Raw.Event)
    (child formerRoot laterRoot : String) :
    ∃ ids oldRoot newRoot, RootChange auxiliary child formerRoot laterRoot ids oldRoot newRoot ∧
      nftRootChanged p auxiliary child formerRoot laterRoot =
        .nftRootChanged (p.find .contractId) ids oldRoot newRoot :=
  ⟨_, _, _, ⟨completes_auxiliaryTokenIds _ _, completes_auxiliaryText _ _ _,
    completes_auxiliaryText _ _ _⟩, rfl⟩

/-- The two events tell one list of effects. -/
theorem MovementTold.unique {p : Raw.Event} {auxiliary : Option Raw.Event}
    {effects effects' : List Effect} {m : Movement} (h : MovementTold p auxiliary effects m)
    (h' : MovementTold p auxiliary effects' m) : effects = effects' := by
  cases m with
  | burn =>
    obtain ⟨_, hids, rfl⟩ := h
    obtain ⟨_, hids', rfl⟩ := h'
    rw [hids.unique hids']
  | transfer =>
    obtain ⟨_, hids, rfl⟩ := h
    obtain ⟨_, hids', rfl⟩ := h'
    rw [hids.unique hids']
  | attach =>
    obtain ⟨_, _, _, _, _, rfl, rfl, hchange, rfl⟩ := h
    obtain ⟨_, _, _, _, _, rfl, rfl, hchange', rfl⟩ := h'
    obtain ⟨rfl, rfl, rfl⟩ := hchange.unique hchange'
    rfl
  | detach =>
    obtain ⟨_, _, _, _, _, rfl, rfl, hchange, rfl⟩ := h
    obtain ⟨_, _, _, _, _, rfl, rfl, hchange', rfl⟩ := h'
    obtain ⟨rfl, rfl, rfl⟩ := hchange.unique hchange'
    rfl

theorem MovementTold.rootChanged_ne_nil {p : Raw.Event} {auxiliary : Option Raw.Event}
    {effects : List Effect} {m : Movement} (h : MovementTold p auxiliary effects m)
    {contractId oldRoot newRoot : String} {ids : List String}
    (hmem : .nftRootChanged contractId ids oldRoot newRoot ∈ effects) : ids ≠ [] := by
  cases m with
  | burn =>
    obtain ⟨_, -, rfl⟩ := h
    cases List.mem_singleton.mp hmem
  | transfer =>
    obtain ⟨_, -, rfl⟩ := h
    rcases List.mem_pair.mp hmem with heq | heq <;> cases heq
  | attach =>
    obtain ⟨_, _, _, _, _, -, -, hchange, rfl⟩ := h
    rcases List.mem_pair.mp hmem with heq | heq <;> cases heq
    exact hchange.ids_ne_nil
  | detach =>
    obtain ⟨_, _, _, _, _, -, -, hchange, rfl⟩ := h
    rcases List.mem_pair.mp hmem with heq | heq <;> cases heq
    exact hchange.ids_ne_nil

namespace MessageLog

/-- The effects of a message that asks for a movement tell the movement. -/
theorem movementTold_effects {c : MessageLog} {m : Movement} (h : c.entry.kind.movement? = some m) :
    MovementTold c.primary c.auxiliary c.effects m := by
  rw [effects]
  cases hkind : c.entry.kind with
  | collectionBurnNft | collectionBurnNftFrom =>
    obtain rfl := Option.some.inj (hkind ▸ h)
    exact ⟨_, completes_auxiliaryTokenIds _ _, rfl⟩
  | collectionTransferNft | collectionTransferNftFrom =>
    obtain rfl := Option.some.inj (hkind ▸ h)
    exact ⟨_, completes_auxiliaryTokenIds _ _, rfl⟩
  | collectionAttach | collectionAttachFrom =>
    obtain rfl := Option.some.inj (hkind ▸ h)
    obtain ⟨ids, oldRoot, newRoot, hchange, hroot⟩ := exists_rootChange c.primary c.auxiliary
      (attachedChild c.primary) (attachedChild c.primary) (c.primary.find .parentTokenId)
    refine ⟨attachedChild c.primary, _, ids, oldRoot, newRoot, firstNonEmpty_pair _ _, rfl,
      hchange, ?_⟩
    rw [nftAttached, nftRootChangedByAttach, hroot]
  | collectionDetach | collectionDetachFrom =>
    obtain rfl := Option.some.inj (hkind ▸ h)
    obtain ⟨ids, oldRoot, newRoot, hchange, hroot⟩ := exists_rootChange c.primary c.auxiliary
      (c.primary.find .tokenId) (c.primary.find .exParentTokenId) (c.primary.find .tokenId)
    refine ⟨_, _, ids, oldRoot, newRoot, rfl, rfl, hchange, ?_⟩
    rw [nftDetached, nftRootChangedByDetach, hroot]
  | _ => rw [hkind] at h; cases h

end MessageLog

/-- The entry of a type of message that asks for a movement. -/
theorem exists_entry_of_movementType {row : MovementType} (hrow : row ∈ movementTypes) :
    ∃ entry, Registry.lookup? row.messageType = some entry ∧
      entry.eventNames = [row.primaryType] ∧
      entry.correlation = .auxiliary row.auxiliaryType ∧
      entry.kind.movement? = some row.movement := by
  have hlisted := List.mem_map_of_mem (f := MovementType.view) hrow
  rw [movementTypes_eq_rows] at hlisted
  obtain ⟨entry, hentry, -, hview⟩ := Registry.exists_lookup?_of_listed hlisted
  simp only [MovementType.view, Prod.mk.injEq] at hview
  obtain ⟨htype, hnames, hcorrelation, hmovement⟩ := hview
  exact ⟨entry, htype ▸ hentry, hnames, hcorrelation, hmovement⟩

/-- The log of a message that asks for a movement gives the effects that tell it, and no others: by
the primary event, and as to tokens and roots by the auxiliary event as far as that goes. No change
of a root is without tokens. -/
theorem logEvents_of_movement {raw : Raw.Result} {log : Raw.Log} {message : Raw.Message}
    {row : MovementType} {p : Raw.Event}
    (declared : raw.message? log.msgIndex = some message)
    (listed : row ∈ movementTypes) (typed : message.type = row.messageType)
    (found : log.findEvent? row.primaryType = some p) :
    ∃ effects,
      (∀ told, MovementTold p (log.findEvent? row.auxiliaryType) told row.movement ↔
        told = effects) ∧
      logEvents raw log = effects.map (Event.mk log.msgIndex) ∧
      ∀ contractId ids oldRoot newRoot,
        .nftRootChanged contractId ids oldRoot newRoot ∈ effects → ids ≠ [] := by
  obtain ⟨entry, hentry, hnames, hcorrelation, hmovement⟩ := exists_entry_of_movementType listed
  have hc := MessageLog.ofLog_of_findEvent? declared (typed ▸ hentry) hnames found
  have hauxiliary : entry.findAuxiliary? log = log.findEvent? row.auxiliaryType := by
    rw [Registry.Entry.findAuxiliary?, hcorrelation]
  rw [hauxiliary] at hc
  have htold := MessageLog.movementTold_effects
    (c := ⟨log, message, entry, p, log.findEvent? row.auxiliaryType⟩) hmovement
  refine ⟨_, fun told => ?_, logEvents_of_ofLog hc, fun _ _ _ _ => htold.rootChanged_ne_nil⟩
  constructor
  · exact fun h => h.unique htold
  · rintro rfl
    exact htold

/-- A detachment whose former parent stands under a key of the old root. The auxiliary event has two
tokens and the new root, but no old root, and it names another contract. -/
theorem logEvents_of_movement_of_detach :
    let detached : Raw.Event := ⟨"detach_from", [⟨"proxy", "x"⟩, ⟨"from", "h"⟩,
      ⟨"contractId", "c"⟩, ⟨"oldRootTokenId", "1000000100000001"⟩,
      ⟨"token_id", "1000000100000002"⟩]⟩
    let rootChanged : Raw.Event := ⟨"operation_root_changed", [⟨"contract_id", "d"⟩,
      ⟨"new_root_token_id", "1000000100000003"⟩, ⟨"token_id", "1000000100000004"⟩,
      ⟨"tokenId", "1000000100000002"⟩]⟩
    let log : Raw.Log := ⟨0, "", [rootChanged, detached]⟩
    let raw := bareResult [⟨"collection/MsgDetachFrom", .null⟩] [log]
    log.findEvent? "detach_from" = some detached ∧
    logEvents raw log = [
      ⟨0, .nftDetached "c" "h" "1000000100000002" "1000000100000001" "x"⟩,
      ⟨0, .nftRootChanged "c" ["1000000100000004", "1000000100000002"] "1000000100000001"
        "1000000100000003"⟩] := by
  intro detached rootChanged log raw
  let row : MovementType :=
    ⟨"collection/MsgDetachFrom", "detach_from", "operation_root_changed", .detach⟩
  have found : log.findEvent? row.primaryType = some detached := by decide
  have haided : log.findEvent? row.auxiliaryType = some rootChanged := by decide
  have htold : MovementTold detached (log.findEvent? row.auxiliaryType) [
      .nftDetached "c" "h" "1000000100000002" "1000000100000001" "x",
      .nftRootChanged "c" ["1000000100000004", "1000000100000002"] "1000000100000001"
        "1000000100000003"] row.movement := by
    rw [haided]
    exact ⟨_, _, _, _, _, rfl, rfl, ⟨.stated (by decide), .silent rfl, .stated (by decide)⟩,
      by decide⟩
  obtain ⟨effects, hexact, hlog, -⟩ :=
    @logEvents_of_movement raw log _ row detached rfl (by decide) rfl found
  rw [← (hexact _).mp htold] at hlog
  exact ⟨found, hlog⟩

end Extract

end TxReceipt
