import TxReceipt.Json.ReadError

/-!
# Documents

A document is what a text holds, faults included: it is read in the order of the text, and the first
fault that is met decides. Two kinds of fault differ in reach. A broken place ends the text and is
always met. A part that is well formed but that no value can hold (a number beyond doubles, half of
a surrogate pair, a container nested too deep) is a fault only where the part is read; parts that
are skipped may hold it. `Value.toDocument` is the document of a value, without faults, and
`toValue?_toDocument` says that the value is read back from it.
-/

namespace TxReceipt.Json

/-- What a text holds, in the order of the text. -/
inductive Document where
  | null
  | bool (b : Bool)
  | number (n : Number)
  | text (s : String)
  /-- Items, and whether the array is closed after them. -/
  | array (items : List Document) (closed : Bool)
  /-- Fields, and whether the object is closed after them. A key that no text can hold is `none`. -/
  | object (fields : List (Option String × Document)) (closed : Bool)
  /-- Well formed, but more than a value can hold. -/
  | unholdable (inner : Document)
  /-- The text does not go on as a value must. -/
  | broken

namespace Document

mutual

/-- No place of the document is broken: it may be skipped. -/
def sound : Document → Bool
  | .null | .bool _ | .number _ | .text _ => true
  | .array items closed => soundItems items && closed
  | .object fields closed => soundFields fields && closed
  | .unholdable inner => inner.sound
  | .broken => false
termination_by structural d => d

def soundItems : List Document → Bool
  | [] => true
  | d :: ds => d.sound && soundItems ds
termination_by structural ds => ds

def soundFields : List (Option String × Document) → Bool
  | [] => true
  | (_, d) :: fs => d.sound && soundFields fs
termination_by structural fs => fs

end

mutual

/-- The value of a document that has no fault of either kind. -/
def toValue? : Document → Option Value
  | .null => some .null
  | .bool b => some (.bool b)
  | .number n => some (.number n)
  | .text s => some (.text s)
  | .array items closed => do
    let vs ← toValues? items
    if closed then some (.array vs) else none
  | .object fields closed => do
    let fs ← toFields? fields
    if closed then some (.object fs) else none
  | .unholdable _ => none
  | .broken => none
termination_by structural d => d

def toValues? : List Document → Option (List Value)
  | [] => some []
  | d :: ds => do
    let v ← d.toValue?
    let vs ← toValues? ds
    return v :: vs
termination_by structural ds => ds

def toFields? : List (Option String × Document) → Option (List (String × Value))
  | [] => some []
  | (key?, d) :: fs => do
    let key ← key?
    let v ← d.toValue?
    let rest ← toFields? fs
    return (key, v) :: rest
termination_by structural fs => fs

end

/-- What to say of a document that is not of the type asked for. -/
def mismatch : Document → ReadError
  | .unholdable _ | .broken => .malformed
  | _ => .wrongType

def readValue (d : Document) : Except ReadError Value :=
  match d.toValue? with
  | some v => .ok v
  | none => .error .malformed

/-- Reads any value as data whose field order means nothing. -/
def readPayload (d : Document) : Except ReadError Payload :=
  d.readValue.map Payload.ofValue

def skip (d : Document) : Except ReadError Unit :=
  if d.sound then .ok () else .error .malformed

def readText : Document → Except ReadError String
  | .text s => .ok s
  | d => .error d.mismatch

def readBool : Document → Except ReadError Bool
  | .bool b => .ok b
  | d => .error d.mismatch

def readOption {α : Type} (read : Document → Except ReadError α) :
    Document → Except ReadError (Option α)
  | .null => .ok none
  | d => (read d).map some

/-- Reads a text, or null as the empty one. -/
def readTextOrNull (d : Document) : Except ReadError String :=
  (readOption readText d).map fun s => s.getD ""

def readAll {α : Type} (read : Document → Except ReadError α) :
    List Document → Except ReadError (List α)
  | [] => .ok []
  | d :: ds => do
    let x ← read d
    let xs ← readAll read ds
    return x :: xs

def readList {α : Type} (read : Document → Except ReadError α) :
    Document → Except ReadError (List α)
  | .array items closed => do
    let xs ← readAll read items
    if closed then .ok xs else .error .malformed
  | d => .error d.mismatch

/-- Reads an integer of a range, written as a JSON integer. -/
def readIntWithin (range : IntegerRange) : Document → Except ReadError Int
  | .number (.int n _) => if range.contains n then .ok n else .error .wrongType
  | d => .error d.mismatch

def readInt64 (d : Document) : Except ReadError Int64 :=
  (d.readIntWithin .int64).map Int64.ofInt

def readInt32 (d : Document) : Except ReadError Int32 :=
  (d.readIntWithin .int32).map Int32.ofInt

def readUInt64 (d : Document) : Except ReadError UInt64 :=
  (d.readIntWithin .uint64).map fun n => UInt64.ofNat n.toNat

end Document

namespace Value

mutual

/-- The document of a value has no fault. -/
def toDocument : Value → Document
  | .null => .null
  | .bool b => .bool b
  | .number n => .number n
  | .text s => .text s
  | .array items => .array (documentItems items) true
  | .object fields => .object (documentFields fields) true
termination_by structural v => v

def documentItems : List Value → List Document
  | [] => []
  | v :: vs => v.toDocument :: documentItems vs
termination_by structural vs => vs

def documentFields : List (String × Value) → List (Option String × Document)
  | [] => []
  | (k, v) :: fs => (some k, v.toDocument) :: documentFields fs
termination_by structural fs => fs

end

mutual

theorem toValue?_toDocument : (v : Value) → v.toDocument.toValue? = some v
  | .null | .bool _ | .number _ | .text _ => rfl
  | .array items => by
    simp [toDocument, Document.toValue?, toValues?_documentItems items]
  | .object fields => by
    simp [toDocument, Document.toValue?, toFields?_documentFields fields]

theorem toValues?_documentItems :
    (vs : List Value) → Document.toValues? (documentItems vs) = some vs
  | [] => rfl
  | v :: vs => by
    simp [documentItems, Document.toValues?, toValue?_toDocument v, toValues?_documentItems vs]

theorem toFields?_documentFields :
    (fs : List (String × Value)) → Document.toFields? (documentFields fs) = some fs
  | [] => rfl
  | (k, v) :: fs => by
    simp [documentFields, Document.toFields?, toValue?_toDocument v, toFields?_documentFields fs]

end

end Value

end TxReceipt.Json
