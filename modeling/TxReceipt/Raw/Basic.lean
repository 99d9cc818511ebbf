import TxReceipt.Attribute
import TxReceipt.Json.Value

/-!
# Raw results

A raw result is what a gateway reports of one transaction: a header, the signed request with its
messages and signatures, and for each message a log of raw events.
-/

namespace TxReceipt.Raw

structure Event where
  type : String
  attributes : List Attribute
  deriving DecidableEq

/-- The log of the message with some index. -/
structure Log where
  msgIndex : UInt64
  log : String
  events : List Event
  deriving DecidableEq

/-- A declared message; its index is its place in the request. -/
structure Message where
  type : String
  value : Json.Payload

structure Coin where
  denomination : Option String
  amount : Option String
  deriving DecidableEq

/-- What the request offers for its execution. -/
structure Fee where
  gas : Int64
  amount : List Coin
  deriving DecidableEq

structure PubKey where
  type : String
  value : String
  deriving DecidableEq

/-- A signature, perhaps with the key that made it. -/
structure Signature where
  pubKey : Option PubKey
  signature : String
  deriving DecidableEq

structure RequestValue where
  messages : List Message
  fee : Fee
  memo : String
  signatures : List Signature

structure Request where
  type : String
  value : RequestValue

/-- What a gateway reports of one transaction. -/
structure Result where
  height : Int64
  index : Int32
  code : Int32
  codespace : Option String
  txHash : String
  timestamp : Int64
  data : Option String
  info : Option String
  gasWanted : Int64
  gasUsed : Int64
  logs? : Option (List Log)
  tx : Request

namespace Log

def findEvent? (log : Log) (type : String) : Option Event :=
  log.events.find? fun e => e.type == type

def findEvents (log : Log) (type : String) : List Event :=
  log.events.filter fun e => e.type == type

end Log

namespace Result

def succeeded (r : Result) : Bool :=
  r.code == 0

/-- The logs; no list counts as an empty one. -/
def logs (r : Result) : List Log :=
  r.logs?.getD []

def messages (r : Result) : List Message :=
  r.tx.value.messages

def message? (r : Result) (msgIndex : UInt64) : Option Message :=
  r.messages[msgIndex.toNat]?

end Result

end TxReceipt.Raw
