import TxReceipt.Proofs.Json.ReadThrough
import TxReceipt.Raw.Read

/-!
# Results with every copy

Of equal attributes of an event only the first is read, and then of equal events of a log. Here the
same documents are read with every copy kept. What is read otherwise is what is left of that without
the copies: `Result.readsThrough`.
-/

namespace TxReceipt.Raw

open Json (Document Members ReadError ReadsThrough)
open Json.Document (readList readOption readText readTextOrNull readLooseInt64 readLooseInt32
  readLooseUInt64)

/-- Reads a list, or null as the empty one, and keeps every member. -/
def readEvery {α : Type} (read : Document → Except ReadError α) (d : Document) :
    Except ReadError (List α) :=
  (readOption (readList read) d).map fun xs => xs.getD []

/-- The members of an event, its attributes read in some way. -/
def Event.membersWith (readAttributes : Document → Except ReadError (List Attribute)) :
    Members (String × List Attribute × Unit) :=
  .cons (.required ["type"] readText) <|
  .cons (.optional ["attributes"] readAttributes []) .nil

def Event.readWith (readAttributes : Document → Except ReadError (List Attribute)) (d : Document) :
    Except ReadError Event :=
  ((membersWith readAttributes).read d).map fun (type, attributes, _) => ⟨type, attributes⟩

def Log.membersWith (readEvents : Document → Except ReadError (List Event)) :
    Members (UInt64 × String × List Event × Unit) :=
  .cons (.optional ["msgIndex", "msg_index"] readLooseUInt64 0) <|
  .cons (.optional ["log"] readTextOrNull "") <|
  .cons (.optional ["events"] readEvents []) .nil

def Log.readWith (readEvents : Document → Except ReadError (List Event)) (d : Document) :
    Except ReadError Log :=
  ((membersWith readEvents).read d).map fun (msgIndex, log, events, _) => ⟨msgIndex, log, events⟩

def Result.membersWith (readLog : Document → Except ReadError Log) :
    Members (Int64 × Int32 × Int32 × Option String × String × Int64 × Option String ×
      Option String × Int64 × Int64 × Option (List Log) × Request × Unit) :=
  .cons (.required ["height"] readLooseInt64) <|
  .cons (.optional ["index"] readLooseInt32 0) <|
  .cons (.optional ["code"] readLooseInt32 0) <|
  .cons (.optional ["codespace", "codeSpace"] (readOption readText) none) <|
  .cons (.required ["txhash", "txHash"] readText) <|
  .cons (.required ["timestamp"] readLooseInt64) <|
  .cons (.optional ["data"] (readOption readText) none) <|
  .cons (.optional ["info"] (readOption readText) none) <|
  .cons (.optional ["gasWanted", "gas_wanted"] readLooseInt64 0) <|
  .cons (.optional ["gasUsed", "gas_used"] readLooseInt64 0) <|
  .cons (.optional ["logs"] (readOption (readList readLog)) none) <|
  .cons (.required ["tx"] Request.read) .nil

def Result.readWith (readLog : Document → Except ReadError Log) (d : Document) :
    Except ReadError Result :=
  ((membersWith readLog).read d).map fun (height, index, code, codespace, txHash, timestamp, data,
    info, gasWanted, gasUsed, logs, tx, _) =>
    ⟨height, index, code, codespace, txHash, timestamp, data, info, gasWanted, gasUsed, logs, tx⟩

theorem Event.read_eq_readWith : read = readWith (readDistinct readAttribute) :=
  rfl

theorem Log.read_eq_readWith : read = readWith (readDistinct Event.read) :=
  rfl

theorem Result.read_eq_readWith : read = readWith Log.read :=
  rfl

def Event.readWhole : Document → Except ReadError Event :=
  readWith (readEvery readAttribute)

def Log.readWhole : Document → Except ReadError Log :=
  readWith (readEvery Event.readWhole)

/-- The raw result of a document with all copies of events and attributes. -/
def Result.readWhole : Document → Except ReadError Result :=
  readWith Log.readWhole

def Event.collapsed (e : Event) : Event :=
  { e with attributes := e.attributes.eraseDups }

/-- Events that differ by copies of attributes are copies of each other. -/
def Log.collapsed (log : Log) : Log :=
  { log with events := (log.events.map Event.collapsed).eraseDups }

def Result.collapsed (r : Result) : Result :=
  { r with logs? := r.logs?.map fun logs => logs.map Log.collapsed }

theorem Result.logs_collapsed (r : Result) : r.collapsed.logs = r.logs.map Log.collapsed := by
  rw [logs, logs, collapsed]
  cases r.logs? <;> rfl

theorem distinct_readsThrough {α : Type} [DecidableEq α] {f : α → α}
    {read read' : Document → Except ReadError α} (h : ReadsThrough f read read') :
    ReadsThrough (fun xs => (xs.map f).eraseDups) (readEvery read) (readDistinct read') := by
  refine h.list.option.map fun xs? => ?_
  cases xs? <;> rfl

theorem Event.readsThrough : ReadsThrough collapsed readWhole read := by
  have attributes := distinct_readsThrough (.refl readAttribute)
  rw [List.map_id_fun] at attributes
  have members : Members.Through _ (membersWith (readEvery readAttribute))
      (membersWith (readDistinct readAttribute)) := .same <| .cons (.optional attributes rfl) .nil
  rw [read_eq_readWith]
  exact members.reads.map fun _ => rfl

theorem Log.readsThrough : ReadsThrough collapsed readWhole read := by
  have events := distinct_readsThrough Event.readsThrough
  have members : Members.Through _ (membersWith (readEvery Event.readWhole))
      (membersWith (readDistinct Event.read)) := .same <| .same <| .cons (.optional events rfl) .nil
  rw [read_eq_readWith]
  exact members.reads.map fun _ => rfl

theorem Result.readsThrough : ReadsThrough collapsed readWhole read := by
  have logs := Log.readsThrough.list.option
  have members : Members.Through _ (membersWith Log.readWhole) (membersWith Log.read) :=
    .same <| .same <| .same <| .same <| .same <| .same <| .same <| .same <| .same <| .same <|
      .cons (.optional logs rfl) <| .same .nil
  rw [read_eq_readWith]
  exact members.reads.map fun _ => rfl

end TxReceipt.Raw
