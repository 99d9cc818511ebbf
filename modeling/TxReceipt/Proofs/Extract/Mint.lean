import Mathlib.Data.List.Induction
import TxReceipt.Proofs.Extract.Logs
import TxReceipt.Proofs.Lists
import TxReceipt.Proofs.Registry

/-!
# Mints of several recipients

`group_eq` says what grouping leaves: one entry for each contract, recipient and minter, in the
order in which the events first name them, and in each entry all token ids of the events that name
the three. `perm_tokenIds_group` says that the entries together have the ids of the events, none
more and none less. `logEvents_of_mint` names the events that a log of a mint groups.
-/

namespace TxReceipt.Extract

namespace Mint

/-- A contract, a recipient and a minter. -/
abbrev Parties : Type := String × String × String

def parties (m : Mint) : Parties :=
  (m.contractId, m.recipient, m.minter)

/-- The parties that an event names. -/
def partiesOf (e : Raw.Event) : Parties :=
  (e.find .contractId, e.find .destination, e.find .source)

/-- The entry of some parties: the token ids of all events that name them. -/
def collect (events : List Raw.Event) (p : Parties) : Mint :=
  ⟨p.1, p.2.1, p.2.2,
    (events.filter fun e => partiesOf e == p).flatMap fun e => e.findAll .tokenId⟩

theorem parties_ofEvent (e : Raw.Event) : (ofEvent e).parties = partiesOf e :=
  rfl

theorem sameParties_iff {m n : Mint} : m.sameParties n = true ↔ m.parties = n.parties := by
  simp [sameParties, parties, and_assoc]

theorem add_of_notMem {m : Mint} {mints : List Mint} (h : m.parties ∉ mints.map parties) :
    add m mints = mints ++ [m] := by
  induction mints with
  | nil => rfl
  | cons n mints ih =>
    rw [List.map_cons, List.mem_cons, not_or] at h
    have hne : ¬ n.sameParties m = true := fun hsame => h.1 (sameParties_iff.mp hsame).symm
    rw [add, if_neg hne, ih h.2, List.cons_append]

/-- Where the entries differ in their parties, the one of the same parties takes the tokens. -/
theorem add_of_mem {m : Mint} {mints : List Mint} (hnodup : (mints.map parties).Nodup)
    (h : m.parties ∈ mints.map parties) :
    add m mints = mints.map fun n =>
      if n.parties = m.parties then { n with tokenIds := n.tokenIds ++ m.tokenIds } else n := by
  induction mints with
  | nil => cases h
  | cons n mints ih =>
    rw [List.map_cons, List.nodup_cons] at hnodup
    rw [add, List.map_cons]
    by_cases hsame : n.parties = m.parties
    · have hothers : ∀ n' ∈ mints, n'.parties ≠ m.parties := by
        intro n' hn' heq
        exact hnodup.1 (hsame ▸ heq ▸ List.mem_map_of_mem hn')
      rw [if_pos (sameParties_iff.mpr hsame), if_pos hsame]
      refine congrArg _ (Eq.symm ?_)
      refine (List.map_congr_left fun n' hn' => ?_).trans (List.map_id mints)
      rw [if_neg (hothers n' hn')]
      rfl
    · have hmem : m.parties ∈ mints.map parties := by
        rw [List.map_cons, List.mem_cons] at h
        exact h.resolve_left (Ne.symm hsame)
      rw [if_neg (mt sameParties_iff.mp hsame), if_neg hsame, ih hnodup.2 hmem]

theorem collect_concat (events : List Raw.Event) (e : Raw.Event) (p : Parties) :
    collect (events ++ [e]) p =
      if p = partiesOf e then
        { collect events p with tokenIds := (collect events p).tokenIds ++ e.findAll .tokenId }
      else collect events p := by
  by_cases h : p = partiesOf e
  · have hpick : (partiesOf e == p) = true := by simp [h]
    rw [if_pos h]
    simp [collect, List.filter_append, hpick]
  · have hpass : (partiesOf e == p) = false := by simpa using Ne.symm h
    rw [if_neg h]
    simp [collect, List.filter_append, hpass]

theorem group_concat (events : List Raw.Event) (e : Raw.Event) :
    group (events ++ [e]) = add (ofEvent e) (group events) := by
  rw [group, List.foldl_append]
  rfl

/-- The first event of its parties makes their entry. -/
theorem collect_concat_of_notMem {events : List Raw.Event} {e : Raw.Event}
    (h : partiesOf e ∉ events.map partiesOf) :
    collect (events ++ [e]) (partiesOf e) = ofEvent e := by
  have hnone : events.filter (fun e' => partiesOf e' == partiesOf e) = [] := by
    apply List.filter_eq_nil_iff.mpr
    intro e' he' hsame
    exact h (eq_of_beq hsame ▸ List.mem_map_of_mem he')
  rw [collect_concat, if_pos rfl, collect, hnone]
  rfl

/-- Grouping leaves one entry for each parties, in the order of their first event. -/
theorem group_eq (events : List Raw.Event) :
    group events = (events.map partiesOf).eraseDups.map (collect events) := by
  induction events using List.reverseRecOn with
  | nil => rfl
  | append_singleton events e ih =>
    have hparties : (group events).map parties = (events.map partiesOf).eraseDups := by
      rw [ih, List.map_map]
      exact List.map_id _
    have hnew : (ofEvent e).parties ∈ (group events).map parties ↔
        partiesOf e ∈ events.map partiesOf := by
      rw [hparties, List.mem_eraseDups, parties_ofEvent]
    rw [group_concat, List.map_append, List.map_singleton, Lists.eraseDups_concat]
    -- An event of known parties adds to their entry, any other one makes an entry at the end.
    by_cases h : partiesOf e ∈ events.map partiesOf
    · have hnodup : ((group events).map parties).Nodup := by
        rw [hparties]
        exact Lists.nodup_eraseDups _
      rw [if_pos h, add_of_mem hnodup (hnew.mpr h), ih, List.map_map]
      exact List.map_congr_left fun p _ => (collect_concat events e p).symm
    · rw [if_neg h, add_of_notMem (mt hnew.mp h), ih, List.map_append, List.map_singleton,
        collect_concat_of_notMem h]
      refine congrArg (· ++ [ofEvent e]) (List.map_congr_left fun p hp => ?_)
      have hne : p ≠ partiesOf e := by
        rintro rfl
        exact h (List.mem_eraseDups.mp hp)
      rw [collect_concat, if_neg hne]

theorem perm_tokenIds_add (m : Mint) (mints : List Mint) :
    ((add m mints).flatMap tokenIds).Perm (mints.flatMap tokenIds ++ m.tokenIds) := by
  induction mints with
  | nil => simp [add]
  | cons n mints ih =>
    rw [add, List.flatMap_cons, List.append_assoc]
    by_cases hsame : n.sameParties m = true
    · rw [if_pos hsame, List.flatMap_cons, List.append_assoc]
      exact List.perm_append_comm.append_left n.tokenIds
    · rw [if_neg hsame, List.flatMap_cons]
      exact ih.append_left n.tokenIds

theorem perm_tokenIds_group (events : List Raw.Event) :
    ((group events).flatMap tokenIds).Perm (events.flatMap fun e => e.findAll .tokenId) := by
  induction events using List.reverseRecOn with
  | nil => exact .nil
  | append_singleton events e ih =>
    rw [group_concat, List.flatMap_append, List.flatMap_singleton]
    exact (perm_tokenIds_add (ofEvent e) (group events)).trans (ih.append_right _)

end Mint

open Mint (Parties partiesOf)

theorem nftMinted_eq (events : List Raw.Event) : nftMinted events =
    (events.map partiesOf).eraseDups.map fun p => (Mint.collect events p).effect := by
  rw [nftMinted, Mint.group_eq, List.map_map]
  rfl

theorem flatMap_tokenIds_nftMinted (events : List Raw.Event) :
    (nftMinted events).flatMap Effect.tokenIds = (Mint.group events).flatMap Mint.tokenIds :=
  List.flatMap_map Mint.effect Effect.tokenIds _

/-- Mints are told by one event for each contract, recipient and minter that the raw events name
together, in the order in which they are first named. It has the token ids of the raw events that
name the three, in their order, and all events together have the ids of all raw events. -/
theorem nftMinted_grouped (i : UInt64) (events : List Raw.Event) :
    (∃ groups : List Parties,
      (nftMinted events).map (Event.mk i) = groups.map (fun p =>
        ⟨i, .nftMinted p.1
          ((events.filter fun e => partiesOf e == p).flatMap fun e => e.findAll .tokenId)
          p.2.1 p.2.2⟩) ∧
      groups.Nodup ∧
      (∀ p, p ∈ groups ↔ ∃ e ∈ events, partiesOf e = p) ∧
      groups.Pairwise fun p q =>
        (events.map partiesOf).idxOf p < (events.map partiesOf).idxOf q) ∧
    ((nftMinted events).flatMap Effect.tokenIds).Perm
      (events.flatMap fun e => e.findAll .tokenId) ∧
    (nftMinted events = [] ↔ events = []) := by
  refine ⟨⟨(events.map partiesOf).eraseDups, ?_, Lists.nodup_eraseDups _, fun p => ?_,
    Lists.pairwise_idxOf_eraseDups _⟩, ?_, ?_⟩
  · rw [nftMinted_eq, List.map_map]
    rfl
  · rw [List.mem_eraseDups, List.mem_map]
  · rw [flatMap_tokenIds_nftMinted]
    exact Mint.perm_tokenIds_group events
  · constructor
    · intro h
      by_contra hne
      exact Mint.group_ne_nil hne (List.map_eq_nil_iff.mp h)
    · rintro rfl
      rfl

/-- Recipients that take turns. -/
example : nftMinted [⟨"mint_nft", [⟨"to", "a"⟩, ⟨"token_id", "1"⟩]⟩,
    ⟨"mint_nft", [⟨"to", "b"⟩, ⟨"token_id", "2"⟩]⟩,
    ⟨"mint_nft", [⟨"tokenId", "3"⟩, ⟨"to", "a"⟩, ⟨"token_id", "1"⟩]⟩] =
    [.nftMinted "" ["1", "3", "1"] "a" "", .nftMinted "" ["2"] "b" ""] := by
  decide

namespace MessageLog

variable {raw : Raw.Result} {log : Raw.Log} {c : MessageLog}

theorem primaries_of_mint (h : ofLog raw log = .ok c)
    (hkind : c.entry.kind = .collectionMintNft) : c.primaries = log.findEvents "mint_nft" := by
  obtain ⟨-, hentry, hprimary, hlog, -⟩ := ofLog_eq_ok_iff.mp h
  have hrow : ∀ entry ∈ Registry.entries, entry.kind = .collectionMintNft →
      entry.eventNames = ["mint_nft"] ∧ entry.correlation = .allPrimaries := by decide
  obtain ⟨hnames, hcorrelation⟩ := hrow _ (Registry.spec_of_lookup? hentry).1 hkind
  have htype : c.primary.type ∈ c.entry.eventNames := (primary_spec hprimary).2
  rw [hnames, List.mem_singleton] at htype
  simp only [primaries, hcorrelation, htype, hlog]

end MessageLog

/-- The log of a mint says what its mint events say together. -/
theorem logEvents_of_mint {raw : Raw.Result} {log : Raw.Log} {c : MessageLog}
    (h : MessageLog.ofLog raw log = .ok c) (hkind : c.entry.kind = .collectionMintNft) :
    logEvents raw log = (nftMinted (log.findEvents "mint_nft")).map (Event.mk log.msgIndex) := by
  have heffects : c.effects = nftMinted c.primaries := by rw [MessageLog.effects, hkind]
  rw [logEvents_of_ofLog h, heffects, MessageLog.primaries_of_mint h hkind]

end TxReceipt.Extract
