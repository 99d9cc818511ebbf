import TxReceipt.Event.Write
import TxReceipt.Receipt.Basic

/-!
# Writing receipts

The fields stand in their order; signers are written ascending.
-/

namespace TxReceipt

open Json (Value)

def Outcome.wireName : Outcome → String
  | .succeeded => "SUCCEEDED"
  | .failed => "FAILED"

def Outcome.ofWireName? : String → Option Outcome
  | "SUCCEEDED" => some .succeeded
  | "FAILED" => some .failed
  | _ => none

def Status.toValue (s : Status) : Value :=
  .object [
    ("code", .number (.ofInt32 s.code)),
    ("codeSpace", .text s.codeSpace),
    ("result", .text s.outcome.wireName)]

def signerValue (address : String) : Value :=
  .object [("address", .text address)]

def Summary.toValue (s : Summary) : Value :=
  .object [
    ("height", .number (.ofInt64 s.height)),
    ("txIndex", .number (.ofInt32 s.txIndex)),
    ("txHash", .text s.txHash),
    ("timestamp", .number (.ofInt64 s.timestamp)),
    ("signers", .array (s.signers.toList.map signerValue)),
    ("result", s.status.toValue)]

def Message.toValue (m : Message) : Value :=
  .object [
    ("msgIndex", .number (.ofUInt64 m.msgIndex)),
    ("requestType", .text m.requestType),
    ("details", m.details.value)]

def Receipt.toValue (r : Receipt) : Value :=
  .object [
    ("summary", r.summary.toValue),
    ("txMessages", .array (r.messages.map Message.toValue)),
    ("txEvents", .array (r.events.map Event.toValue))]

end TxReceipt
