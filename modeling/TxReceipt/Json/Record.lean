import TxReceipt.Json.Document

/-!
# Records

A record is an object with known members, or an array of them in their order. A member has one or
more names; an object holds it at most once, under any of them, in any place. A member that is
absent counts as its default, if it has one. Fields that are no members are passed over.
-/

namespace TxReceipt.Json

/-- A member of a record: its names, how its value is read, and what it is when absent. -/
structure Member (α : Type) where
  names : List String
  read : Document → Except ReadError α
  default? : Option α

namespace Member

/-- A member that has to be there, under one of several names. -/
def required {α : Type} (names : List String) (read : Document → Except ReadError α) : Member α :=
  ⟨names, read, none⟩

/-- A member that has a default, under one of several names. -/
def optional {α : Type} (names : List String) (read : Document → Except ReadError α)
    (default : α) : Member α :=
  ⟨names, read, some default⟩

/-- The name that a message would use. -/
def mainName {α : Type} (m : Member α) : String :=
  m.names.headD ""

def absent {α : Type} (m : Member α) : Except ReadError α :=
  match m.default? with
  | some x => .ok x
  | none => .error (.missingField m.mainName)

end Member

/-- The members of a record, in their order, and the types of their values. -/
inductive Members : Type → Type 1 where
  | nil : Members Unit
  | cons {α ρ : Type} (member : Member α) (rest : Members ρ) : Members (α × ρ)

namespace Members

/-- What has been read of a record so far. -/
def Slots : {ρ : Type} → Members ρ → Type
  | _, .nil => Unit
  | _, @cons α _ _ rest => Option α × rest.Slots

def empty : {ρ : Type} → (ms : Members ρ) → ms.Slots
  | _, .nil => ()
  | _, .cons _ rest => (none, rest.empty)

/-- Reads one field into its slot; a field that is no member leaves `none`. -/
def put : {ρ : Type} → (ms : Members ρ) → ms.Slots → String → Document →
    Except ReadError (Option ms.Slots)
  | _, .nil, _, _, _ => .ok none
  | _, .cons m rest, slots, key, d =>
    if m.names.contains key then
      match slots.1 with
      | some _ => .error (.duplicateField key)
      | none => (m.read d).map fun x => some (some x, slots.2)
    else (rest.put slots.2 key d).map fun r => r.map fun others => (slots.1, others)

def putAll {ρ : Type} (ms : Members ρ) : ms.Slots → List (Option String × Document) →
    Except ReadError ms.Slots
  | slots, [] => .ok slots
  | _, (none, _) :: _ => .error .malformed
  | slots, (some key, d) :: fields => do
    match ← ms.put slots key d with
    | some slots => ms.putAll slots fields
    | none =>
      d.skip
      ms.putAll slots fields

/-- The record of the slots, where absent members count as their defaults. -/
def finish : {ρ : Type} → (ms : Members ρ) → ms.Slots → Except ReadError ρ
  | _, .nil, _ => .ok ()
  | _, .cons m rest, slots => do
    let x ← match slots.1 with
      | some x => .ok x
      | none => m.absent
    let xs ← rest.finish slots.2
    return (x, xs)

/-- Reads the members from the items of an array. -/
def readItems : {ρ : Type} → (ms : Members ρ) → List Document → Bool → Except ReadError ρ
  | _, .nil, items, closed =>
    if items.isEmpty && closed then .ok () else .error .malformed
  | _, .cons m rest, items, closed => do
    let x ← match items with
      | d :: _ => m.read d
      | [] => if closed then m.absent else .error .malformed
    let xs ← rest.readItems items.tail closed
    return (x, xs)

def read {ρ : Type} (ms : Members ρ) : Document → Except ReadError ρ
  | .object fields closed => do
    let slots ← ms.putAll ms.empty fields
    if closed then ms.finish slots else .error .malformed
  | .array items closed => ms.readItems items closed
  | d => .error d.mismatch

end Members

def Member.alone {α : Type} (m : Member α) : Members (α × Unit) :=
  .cons m .nil

end TxReceipt.Json
