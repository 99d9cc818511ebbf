import TxReceipt.Event.Basic
import TxReceipt.Json.Value

/-!
# Receipts

A receipt is the chain-neutral account of one transaction: a summary of its header with the
addresses of the signers, the declared messages, and the typed events.
-/

namespace TxReceipt

inductive Outcome where
  | succeeded
  | failed
  deriving DecidableEq

/-- Code zero means success. -/
def Outcome.ofCode (code : Int32) : Outcome :=
  if code = 0 then .succeeded else .failed

structure Status where
  code : Int32
  codeSpace : String
  outcome : Outcome
  deriving DecidableEq

namespace Status

def ofCode (code : Int32) (codeSpace : String) : Status :=
  ⟨code, codeSpace, .ofCode code⟩

/-- The outcome that is stated, whatever the code says. -/
def succeeded (s : Status) : Bool :=
  s.outcome = .succeeded

end Status

/-- The header of a transaction. -/
structure Summary where
  height : Int64
  txIndex : Int32
  txHash : String
  /-- Milliseconds since the epoch. -/
  timestamp : Int64
  /-- The addresses of the signers. -/
  signers : AscendingSet String
  status : Status
  deriving DecidableEq

/-- A point of time in seconds since the epoch and milliseconds of that second. -/
structure BlockTime where
  seconds : Int
  millis : Nat
  deriving DecidableEq

/-- The first and the last millisecond that calendar dates reach. -/
def calendarRange : Int × Int :=
  (-8334601228800000, 8210266876799999)

/-- The time of the block, where calendar dates reach it. Seconds are rounded down. -/
def Summary.blockTime? (s : Summary) : Option BlockTime :=
  let t := s.timestamp.toInt
  if calendarRange.1 ≤ t ∧ t ≤ calendarRange.2 then some ⟨t / 1000, (t % 1000).toNat⟩ else none

structure Message where
  msgIndex : UInt64
  requestType : String
  details : Json.Payload

/-- The account of one transaction. -/
structure Receipt where
  summary : Summary
  messages : List Message
  events : List Event

end TxReceipt
