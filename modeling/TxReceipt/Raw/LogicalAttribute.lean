import TxReceipt.Json.Printer
import TxReceipt.Raw.Basic

/-!
# Logical attributes

Raw logs are not uniform: one field may stand under a key in snake case, in camel case or of an
older name, depending on the version of the chain. A logical attribute is a field with the keys it
may stand under, in the order in which they are tried. Events and the payloads of messages are
looked up by logical attribute only.
-/

namespace TxReceipt.Raw

/-- A field of an event or of a message's payload. -/
inductive LogicalAttribute where
  | amount
  | approver
  | contractId
  | createAccountTarget
  | decimals
  | exParentTokenId
  | sender
  | recipient
  | source
  | sourceTokenId
  | destination
  | metadata
  | name
  | newRootTokenId
  | oldRootTokenId
  | owner
  | parentTokenId
  | permission
  | proxy
  | symbol
  | tokenId
  | tokenType
  deriving DecidableEq

namespace LogicalAttribute

/-- The keys of a logical attribute, in the order in which they are tried. -/
def keys : LogicalAttribute → List String
  | .amount => ["amount"]
  | .approver => ["approver"]
  | .contractId => ["contract_id", "contractId"]
  | .createAccountTarget => ["create_account_target", "createAccountTarget"]
  | .decimals => ["decimals"]
  | .exParentTokenId => ["from_token_id", "fromTokenId", "old_root_token_id", "oldRootTokenId"]
  | .sender => ["sender"]
  | .recipient => ["recipient"]
  | .source => ["from"]
  | .sourceTokenId => ["from_token_id", "fromTokenId"]
  | .destination => ["to"]
  | .metadata => ["meta"]
  | .name => ["name"]
  | .newRootTokenId => ["new_root_token_id", "newRootTokenId"]
  | .oldRootTokenId => ["old_root_token_id", "oldRootTokenId"]
  | .owner => ["owner"]
  | .parentTokenId => ["to_token_id", "toTokenId"]
  | .permission => ["perm", "permission"]
  | .proxy => ["proxy"]
  | .symbol => ["symbol"]
  | .tokenId => ["tokenId", "token_id"]
  | .tokenType => ["tokenType", "token_type"]

def accepts (a : LogicalAttribute) (key : String) : Bool :=
  a.keys.contains key

end LogicalAttribute

namespace Event

/-- The attribute that is found first when the keys are tried in their order. -/
def lookup? (e : Event) (a : LogicalAttribute) : Option Attribute :=
  a.keys.findSome? fun key => e.attributes.find? fun x => x.key == key

def find (e : Event) (a : LogicalAttribute) : String :=
  match e.lookup? a with
  | some x => x.value
  | none => ""

/-- The values under any key of the attribute, in the order of the event. -/
def findAll (e : Event) (a : LogicalAttribute) : List String :=
  (e.attributes.filter fun x => a.accepts x.key).map Attribute.value

def has (e : Event) (a : LogicalAttribute) : Bool :=
  e.attributes.any fun x => a.accepts x.key

/-- The attributes under keys that no excluded attribute accepts. -/
def excluding (e : Event) (excluded : List LogicalAttribute) : List Attribute :=
  e.attributes.filter fun x => !excluded.any fun a => a.accepts x.key

end Event

abbrev PayloadFields : Type := List (String × Json.Value)

namespace PayloadFields

def ofValue? : Json.Value → Option PayloadFields
  | .object fields => some fields
  | _ => none

def lookup? (fields : PayloadFields) (a : LogicalAttribute) : Option Json.Value :=
  a.keys.findSome? (Json.Value.field? fields)

/-- A scalar as text, empty if it is absent or no scalar. -/
def find (fields : PayloadFields) (a : LogicalAttribute) : String :=
  match fields.lookup? a with
  | some (.text s) => s
  | some (.number n) => String.ofList n.chars
  | some (.bool b) => String.ofList (Json.Value.boolChars b)
  | _ => ""

/-- The entries of a list that are objects. -/
def findList (fields : PayloadFields) (a : LogicalAttribute) : List PayloadFields :=
  match fields.lookup? a with
  | some (.array items) => items.filterMap ofValue?
  | _ => []

end PayloadFields

end TxReceipt.Raw
