import TxReceipt.Json.LooseInteger
import TxReceipt.Json.Reader
import TxReceipt.Json.Record
import TxReceipt.Raw.Basic
import TxReceipt.Text.Cut

/-!
# Reading raw results

The members of each record with the names that chain versions gave them. Events of a log and
attributes of an event are sets on the wire: of equal ones the first stays. `Result.ofText` and
`Result.ofValue` read the same documents; a failure shows the start of what was read.
-/

namespace TxReceipt.Raw

open Json (Document Member Members ReadError)
open Json.Document (readInt64 readList readOption readPayload readText readTextOrNull
  readLooseInt64 readLooseInt32 readLooseUInt64)

/-- Reads a list, or null as the empty one, and keeps the first of equal members. -/
def readDistinct {α : Type} [DecidableEq α] (read : Document → Except ReadError α) (d : Document) :
    Except ReadError (List α) :=
  (readOption (readList read) d).map fun xs => (xs.getD []).eraseDups

def attributeMembers : Members (String × String × Unit) :=
  .cons (.required ["key"] readText) <|
  .cons (.optional ["value"] readTextOrNull "") .nil

def readAttribute (d : Document) : Except ReadError Attribute :=
  (attributeMembers.read d).map fun (key, value, _) => ⟨key, value⟩

def Event.members : Members (String × List Attribute × Unit) :=
  .cons (.required ["type"] readText) <|
  .cons (.optional ["attributes"] (readDistinct readAttribute) []) .nil

def Event.read (d : Document) : Except ReadError Event :=
  (Event.members.read d).map fun (type, attributes, _) => ⟨type, attributes⟩

def Log.members : Members (UInt64 × String × List Event × Unit) :=
  .cons (.optional ["msgIndex", "msg_index"] readLooseUInt64 0) <|
  .cons (.optional ["log"] readTextOrNull "") <|
  .cons (.optional ["events"] (readDistinct Event.read) []) .nil

def Log.read (d : Document) : Except ReadError Log :=
  (Log.members.read d).map fun (msgIndex, log, events, _) => ⟨msgIndex, log, events⟩

def Message.members : Members (String × Json.Payload × Unit) :=
  .cons (.required ["type"] readText) <|
  .cons (.optional ["value"] readPayload .null) .nil

def Message.read (d : Document) : Except ReadError Message :=
  (Message.members.read d).map fun (type, value, _) => ⟨type, value⟩

def Coin.members : Members (Option String × Option String × Unit) :=
  .cons (.optional ["denom", "denomination"] (readOption readText) none) <|
  .cons (.optional ["amount"] (readOption readText) none) .nil

def Coin.read (d : Document) : Except ReadError Coin :=
  (Coin.members.read d).map fun (denomination, amount, _) => ⟨denomination, amount⟩

def Fee.members : Members (Int64 × List Coin × Unit) :=
  .cons (.optional ["gas"] readLooseInt64 0) <|
  .cons (.optional ["amount"] (readList Coin.read) []) .nil

def Fee.read (d : Document) : Except ReadError Fee :=
  (Fee.members.read d).map fun (gas, amount, _) => ⟨gas, amount⟩

def PubKey.members : Members (String × String × Unit) :=
  .cons (.required ["type"] readText) <|
  .cons (.required ["value"] readText) .nil

def PubKey.read (d : Document) : Except ReadError PubKey :=
  (PubKey.members.read d).map fun (type, value, _) => ⟨type, value⟩

def Signature.members : Members (Option PubKey × String × Unit) :=
  .cons (.optional ["pubKey", "pub_key"] (readOption PubKey.read) none) <|
  .cons (.optional ["signature"] readTextOrNull "") .nil

def Signature.read (d : Document) : Except ReadError Signature :=
  (Signature.members.read d).map fun (pubKey, signature, _) => ⟨pubKey, signature⟩

def RequestValue.members : Members (List Message × Fee × String × List Signature × Unit) :=
  .cons (.optional ["msg"] (readList Message.read) []) <|
  .cons (.optional ["fee"] Fee.read ⟨0, []⟩) <|
  .cons (.optional ["memo"] readTextOrNull "") <|
  .cons (.optional ["signatures"] (readList Signature.read) []) .nil

def RequestValue.read (d : Document) : Except ReadError RequestValue :=
  (RequestValue.members.read d).map fun (messages, fee, memo, signatures, _) =>
    ⟨messages, fee, memo, signatures⟩

def Request.members : Members (String × RequestValue × Unit) :=
  .cons (.optional ["type"] readText "") <|
  .cons (.required ["value"] RequestValue.read) .nil

def Request.read (d : Document) : Except ReadError Request :=
  (Request.members.read d).map fun (type, value, _) => ⟨type, value⟩

def Result.members : Members (Int64 × Int32 × Int32 × Option String × String × Int64 ×
    Option String × Option String × Int64 × Int64 × Option (List Log) × Request × Unit) :=
  .cons (.required ["height"] readLooseInt64) <|
  .cons (.optional ["index"] readLooseInt32 0) <|
  .cons (.optional ["code"] readLooseInt32 0) <|
  .cons (.optional ["codespace", "codeSpace"] (readOption readText) none) <|
  .cons (.required ["txhash", "txHash"] readText) <|
  .cons (.required ["timestamp"] readLooseInt64) <|
  .cons (.optional ["data"] (readOption readText) none) <|
  .cons (.optional ["info"] (readOption readText) none) <|
  .cons (.optional ["gasWanted", "gas_wanted"] readLooseInt64 0) <|
  .cons (.optional ["gasUsed", "gas_used"] readLooseInt64 0) <|
  .cons (.optional ["logs"] (readOption (readList Log.read)) none) <|
  .cons (.required ["tx"] Request.read) .nil

def Result.read (d : Document) : Except ReadError Result :=
  (Result.members.read d).map fun (height, index, code, codespace, txHash, timestamp, data, info,
    gasWanted, gasUsed, logs, tx, _) =>
    ⟨height, index, code, codespace, txHash, timestamp, data, info, gasWanted, gasUsed, logs, tx⟩

/-- A raw result could not be read: the start of what was read, and why. -/
structure FormatError where
  snippet : String
  reason : ReadError

def FormatError.message (e : FormatError) : String :=
  "Invalid tx result json format: " ++ e.snippet

/-- How many characters of the input a format error shows. -/
def snippetLength : Nat := 200

def Result.ofText (text : String) : Except FormatError Result :=
  (Json.readTextWith Json.maxDepth Result.read text).mapError
    fun reason => ⟨Text.excerpt text snippetLength, reason⟩

/-- The raw result of a JSON value, whose field order means nothing. -/
def Result.ofValue (v : Json.Value) : Except FormatError Result :=
  (Result.read v.sorted.toDocument).mapError
    fun reason => ⟨Text.excerpt v.sorted.compact snippetLength, reason⟩

end TxReceipt.Raw
