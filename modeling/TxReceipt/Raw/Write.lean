import TxReceipt.Raw.Basic

/-!
# Writing raw results

All members are written, under their first names and in their order, and absent ones as null.
-/

namespace TxReceipt.Raw

open Json (Value Number)
open Json.Value (optionalText)

def attributeValue (a : Attribute) : Value :=
  .object [("key", .text a.key), ("value", .text a.value)]

def Event.toValue (e : Event) : Value :=
  .object [("type", .text e.type), ("attributes", .array (e.attributes.map attributeValue))]

def Log.toValue (l : Log) : Value :=
  .object [
    ("msgIndex", .number (.ofUInt64 l.msgIndex)),
    ("log", .text l.log),
    ("events", .array (l.events.map Event.toValue))]

def Message.toValue (m : Message) : Value :=
  .object [("type", .text m.type), ("value", m.value.value)]

def Coin.toValue (c : Coin) : Value :=
  .object [("denom", optionalText c.denomination), ("amount", optionalText c.amount)]

def Fee.toValue (f : Fee) : Value :=
  .object [("gas", .number (.ofInt64 f.gas)), ("amount", .array (f.amount.map Coin.toValue))]

def PubKey.toValue (k : PubKey) : Value :=
  .object [("type", .text k.type), ("value", .text k.value)]

def Signature.toValue (s : Signature) : Value :=
  .object [
    ("pubKey", match s.pubKey with
      | none => .null
      | some k => k.toValue),
    ("signature", .text s.signature)]

def RequestValue.toValue (v : RequestValue) : Value :=
  .object [
    ("msg", .array (v.messages.map Message.toValue)),
    ("fee", v.fee.toValue),
    ("memo", .text v.memo),
    ("signatures", .array (v.signatures.map Signature.toValue))]

def Request.toValue (r : Request) : Value :=
  .object [("type", .text r.type), ("value", r.value.toValue)]

def Result.toValue (r : Result) : Value :=
  .object [
    ("height", .number (.ofInt64 r.height)),
    ("index", .number (.ofInt32 r.index)),
    ("code", .number (.ofInt32 r.code)),
    ("codespace", optionalText r.codespace),
    ("txhash", .text r.txHash),
    ("timestamp", .number (.ofInt64 r.timestamp)),
    ("data", optionalText r.data),
    ("info", optionalText r.info),
    ("gasWanted", .number (.ofInt64 r.gasWanted)),
    ("gasUsed", .number (.ofInt64 r.gasUsed)),
    ("logs", match r.logs? with
      | none => .null
      | some logs => .array (logs.map Log.toValue)),
    ("tx", r.tx.toValue)]

end TxReceipt.Raw
