import TxReceipt.Extract.Effects
import TxReceipt.Proofs.Amount
import TxReceipt.Proofs.Raw.LogicalAttribute
import TxReceipt.Proofs.Token

/-!
# The two accounts of a burn

A burn of fungible tokens is told by the event, as one text with the amount and the token id, or by
the payload of the message, as the fields of an entry in a list. Where both tell of the same burn,
the same effect comes out, whatever keys they use, whatever stands around what they tell and
whatever the token id looks like.
-/

namespace TxReceipt.Extract

open Raw (PayloadFields)

structure Burn where
  contractId : String
  holder : String
  proxy : String
  amount : String
  tokenId : String

/-- An amount is written as a text, or as an integer by its decimal text. -/
inductive WritesAmount (amount : String) : Json.Value → Prop
  | text : WritesAmount amount (.text amount)
  | integer {n : Int} (fits : -9223372036854775808 ≤ n ∧ n < 18446744073709551616)
      (decimal : toString n = amount) : WritesAmount amount (.number (.int n fits))

namespace Burn

def effect (b : Burn) (tokenType : String) : Effect :=
  .ftBurned b.contractId b.tokenId tokenType b.holder b.amount b.proxy

/-- The event states each part of the burn once. -/
structure LoggedBy (b : Burn) (e : Raw.Event) : Prop where
  contractId : e.StatesOnce .contractId b.contractId
  holder : e.StatesOnce .source b.holder
  proxy : e.StatesOnce .proxy b.proxy
  tokens : e.StatesOnce .amount (b.amount ++ ":" ++ b.tokenId)

/-- The entry of a list says how many of which tokens were burned. -/
structure CountedBy (b : Burn) (entry : PayloadFields) : Prop where
  tokenId : entry.States .tokenId (.text b.tokenId)
  amount : ∃ value, entry.States .amount value ∧ WritesAmount b.amount value

/-- The payload states each part of the burn. The tokens are those of the first object in the list
of amounts. -/
structure DeclaredBy (b : Burn) (fields : PayloadFields) : Prop where
  contractId : fields.States .contractId (.text b.contractId)
  holder : fields.States .source (.text b.holder)
  proxy : fields.States .proxy (.text b.proxy)
  tokens : ∃ front entry rest, fields.States .amount (.array (front ++ .object entry :: rest)) ∧
    (∀ value ∈ front, ∀ other, value ≠ .object other) ∧ b.CountedBy entry

variable {b : Burn} {tokenType : String}

theorem CountedBy.find_amount_eq {entry : PayloadFields} (h : b.CountedBy entry) :
    entry.find .amount = b.amount := by
  obtain ⟨value, stated, writes⟩ := h.amount
  cases writes with
  | text => exact stated.find_eq
  | integer fits decimal => rw [stated.find_eq_toString, decimal]

theorem ftBurned_eq_of_loggedBy {e : Raw.Event} (logged : b.LoggedBy e)
    (uncut : ':' ∉ b.amount.toList) (typed : Token.Typed b.tokenId "" tokenType) :
    ftBurned e = b.effect tokenType := by
  have hparse : CompositeAmount.parse (b.amount ++ ":" ++ b.tokenId) = ⟨b.amount, b.tokenId⟩ :=
    CompositeAmount.parse_eq_of_counted (.stated uncut rfl)
  simp only [ftBurned, logged.contractId.find_eq, logged.holder.find_eq, logged.proxy.find_eq,
    logged.tokens.find_eq, hparse, CompositeAmount.tokenType, Token.typeOr_eq_of_typed typed,
    effect]

theorem ftBurnedOfMessage_eq_of_declaredBy {fields : PayloadFields} (declared : b.DeclaredBy fields)
    (typed : Token.Typed b.tokenId "" tokenType) :
    ftBurnedOfMessage fields = b.effect tokenType := by
  obtain ⟨front, entry, rest, stated, skipped, counted⟩ := declared.tokens
  simp only [ftBurnedOfMessage, declared.contractId.find_eq, declared.holder.find_eq,
    declared.proxy.find_eq, stated.findList_eq skipped, List.headD_cons, counted.tokenId.find_eq,
    counted.find_amount_eq, Token.typeOr_eq_of_typed typed, effect]

end Burn

/-- The event and the payload of one burn give the same event of the transaction, with every part of
the burn in it and the type that the token id starts with. -/
theorem burn_paths_agree {b : Burn} {e : Raw.Event} {fields : PayloadFields}
    (uncut : ':' ∉ b.amount.toList) (logged : b.LoggedBy e) (declared : b.DeclaredBy fields)
    (i : UInt64) :
    (⟨i, ftBurned e⟩ : Event) = ⟨i, ftBurnedOfMessage fields⟩ ∧
    ∃ tokenType, Token.Typed b.tokenId "" tokenType ∧ ftBurned e = b.effect tokenType := by
  obtain ⟨tokenType, typed⟩ := Token.exists_typed b.tokenId ""
  have hevent := Burn.ftBurned_eq_of_loggedBy logged uncut typed
  have hmessage := Burn.ftBurnedOfMessage_eq_of_declaredBy declared typed
  exact ⟨by rw [hevent, hmessage], tokenType, typed, hevent⟩

/-- A negative integer, other spellings of keys, a foreign attribute and entries that are no objects
do not keep the two apart, and neither does an id without a type that has a colon in it. -/
theorem burn_paths_agree_on_integer :
    let b : Burn := ⟨"9be17165", "h", "x", "-30", "0000000é:1"⟩
    let e : Raw.Event := ⟨"burn_ft_from", [⟨"proxy", "x"⟩, ⟨"amount", "-30:0000000é:1"⟩,
      ⟨"module", "m"⟩, ⟨"contractId", "9be17165"⟩, ⟨"from", "h"⟩]⟩
    let entry : PayloadFields := [("amount", .number (.int (-30) (by decide))),
      ("token_id", .text "0000000é:1")]
    let fields : PayloadFields := [("amount", .array [.null, .object entry, .object []]),
      ("contract_id", .text "9be17165"), ("from", .text "h"), ("proxy", .text "x"),
      ("to", .null)]
    b.LoggedBy e ∧ b.DeclaredBy fields ∧ ftBurned e = ftBurnedOfMessage fields := by
  intro b e entry fields
  have logged : b.LoggedBy e := by
    constructor <;> decide
  have counted : b.CountedBy entry := by
    refine ⟨⟨⟨"token_id", ?_, ?_⟩, ?_⟩, _, ⟨⟨"amount", ?_, ?_⟩, ?_⟩,
      .integer (n := -30) (by decide) rfl⟩
    all_goals simp [b, entry, Raw.LogicalAttribute.keys, Json.Value.field?]
  have declared : b.DeclaredBy fields := by
    refine ⟨⟨⟨"contract_id", ?_, ?_⟩, ?_⟩, ⟨⟨"from", ?_, ?_⟩, ?_⟩, ⟨⟨"proxy", ?_, ?_⟩, ?_⟩,
      [.null], entry, [.object []], ⟨⟨"amount", ?_, ?_⟩, ?_⟩, ?_, counted⟩
    all_goals simp [b, fields, Raw.LogicalAttribute.keys, Json.Value.field?]
  have main := burn_paths_agree (by decide) logged declared 0
  exact ⟨logged, declared, (Event.mk.inj main.1).2⟩

end TxReceipt.Extract
