import TxReceipt.Event.Read
import TxReceipt.Receipt.Write

/-!
# Reading receipts

Reading is strict: integers are JSON integers in range, and every field has to be there. Fields that
are not known are passed over. Signers may stand in any order and repeatedly.
-/

namespace TxReceipt

open Json (Document Member Members ReadError)
open Json.Document (readInt32 readInt64 readList readPayload readText readUInt64)

def Status.read (d : Document) : Except ReadError Status :=
  (Members.read
    (.cons (.required ["code"] readInt32) <|
    .cons (.required ["codeSpace"] readText) <|
    .cons (.required ["result"] (readNamed Outcome.ofWireName? isNull)) .nil) d).map
    fun (code, codeSpace, outcome, _) => ⟨code, codeSpace, outcome⟩

def readSigner (d : Document) : Except ReadError String :=
  (Members.read (Member.required ["address"] readText).alone d).map (·.1)

def Summary.read (d : Document) : Except ReadError Summary :=
  (Members.read
    (.cons (.required ["height"] readInt64) <|
    .cons (.required ["txIndex"] readInt32) <|
    .cons (.required ["txHash"] readText) <|
    .cons (.required ["timestamp"] readInt64) <|
    .cons (.required ["signers"] (readList readSigner)) <|
    .cons (.required ["result"] Status.read) .nil) d).map
    fun (height, txIndex, txHash, timestamp, signers, status, _) =>
      ⟨height, txIndex, txHash, timestamp, .ofList signers, status⟩

def Message.read (d : Document) : Except ReadError Message :=
  (Members.read
    (.cons (.required ["msgIndex"] readUInt64) <|
    .cons (.required ["requestType"] readText) <|
    .cons (.required ["details"] readPayload) .nil) d).map
    fun (msgIndex, requestType, details, _) => ⟨msgIndex, requestType, details⟩

namespace Receipt

def read (d : Document) : Except ReadError Receipt :=
  (Members.read
    (.cons (.required ["summary"] Summary.read) <|
    .cons (.required ["txMessages"] (readList Message.read)) <|
    .cons (.required ["txEvents"] (readList Event.read)) .nil) d).map
    fun (summary, messages, events, _) => ⟨summary, messages, events⟩

def ofText (text : String) : Except ReadError Receipt :=
  Json.readTextWith Json.maxDepth read text

def ofValue (v : Json.Value) : Except ReadError Receipt :=
  read v.sorted.toDocument

end Receipt

end TxReceipt
