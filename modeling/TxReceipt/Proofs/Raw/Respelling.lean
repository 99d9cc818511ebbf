import TxReceipt.Proofs.Json.Respelling
import TxReceipt.Proofs.Json.Reader
import TxReceipt.Proofs.Lists
import TxReceipt.Raw.Read

/-!
# Spellings of raw results

The records that a raw result is made of, with their fields. However a result is spelled, in a text
or in a value, it is read as the same one; where a field stands twice, none is read.
-/

namespace TxReceipt.Raw

open Json (Document Members ReadError Value Content FieldForm Follows Reads Respells)

inductive RecordKind where
  | result
  | log
  | event
  | attribute
  | request
  | requestValue
  | message
  | fee
  | coin
  | signature
  | pubKey

namespace RecordKind

/-- The fields of a record, in the order that they have in arrays. Null stands for an absent field
only where a default does, and where it is read as the default. -/
def fields : RecordKind → List (FieldForm RecordKind)
  | .result => [
    ⟨["height"], .integer, false⟩,
    ⟨["index"], .integer, true⟩,
    ⟨["code"], .integer, true⟩,
    ⟨["codespace", "codeSpace"], .leaf, true⟩,
    ⟨["txhash", "txHash"], .leaf, false⟩,
    ⟨["timestamp"], .integer, false⟩,
    ⟨["data"], .leaf, true⟩,
    ⟨["info"], .leaf, true⟩,
    ⟨["gasWanted", "gas_wanted"], .integer, true⟩,
    ⟨["gasUsed", "gas_used"], .integer, true⟩,
    ⟨["logs"], .list .log, true⟩,
    ⟨["tx"], .record .request, false⟩]
  | .log => [
    ⟨["msgIndex", "msg_index"], .integer, true⟩,
    ⟨["log"], .leaf, true⟩,
    ⟨["events"], .set .event, true⟩]
  | .event => [⟨["type"], .leaf, false⟩, ⟨["attributes"], .set .attribute, true⟩]
  | .attribute => [⟨["key"], .leaf, false⟩, ⟨["value"], .leaf, true⟩]
  | .request => [⟨["type"], .leaf, false⟩, ⟨["value"], .record .requestValue, false⟩]
  | .requestValue => [
    ⟨["msg"], .list .message, false⟩,
    ⟨["fee"], .record .fee, false⟩,
    ⟨["memo"], .leaf, true⟩,
    ⟨["signatures"], .list .signature, false⟩]
  | .message => [⟨["type"], .leaf, false⟩, ⟨["value"], .leaf, true⟩]
  | .fee => [⟨["gas"], .integer, true⟩, ⟨["amount"], .list .coin, false⟩]
  | .coin => [⟨["denom", "denomination"], .leaf, true⟩, ⟨["amount"], .leaf, true⟩]
  | .signature => [
    ⟨["pubKey", "pub_key"], .record .pubKey, true⟩,
    ⟨["signature"], .leaf, true⟩]
  | .pubKey => [⟨["type"], .leaf, false⟩, ⟨["value"], .leaf, false⟩]

end RecordKind

theorem readDistinct_array {α : Type} [DecidableEq α] (read : Document → Except ReadError α)
    (items : List Document) :
    readDistinct read (.array items true) =
      (Document.readAll read items).map List.eraseDups := by
  have hread : Document.readOption (Document.readList read) (.array items true) =
      (Document.readAll read items).map some := by
    rw [← Document.readList_array]
    rfl
  rw [readDistinct, hread]
  cases Document.readAll read items <;> rfl

/-- A copy of an item is no first occurrence. -/
theorem eraseDups_of_copy {α : Type} [DecidableEq α] {read : Document → Except ReadError α}
    {items : List Document} {d : Document} {xs : List α} {x : α} (mem : d ∈ items)
    (hxs : Document.readAll read items = .ok xs) (hx : read d = .ok x) :
    (xs ++ [x]).eraseDups = xs.eraseDups := by
  obtain ⟨y, hy, hread⟩ := Document.exists_read_of_mem hxs mem
  rw [hx] at hread
  cases hread
  rw [Lists.eraseDups_concat, if_pos hy]

theorem reads_distinct {α : Type} [DecidableEq α] {read : Document → Except ReadError α}
    {k : RecordKind} (h : Reads RecordKind.fields (.record k) read) :
    Reads RecordKind.fields (.set k) (readDistinct read) := by
  constructor
  · intro d d' hstep xs
    cases hstep with
    | member hstep =>
      rw [readDistinct_array, readDistinct_array]
      simp only [map_eq_ok_iff, Document.readAll_exchange (h.respells hstep)]
    | copy mem =>
      rw [readDistinct_array, readDistinct_array]
      simp only [map_eq_ok_iff, Document.readAll_concat_eq_ok_iff]
      constructor
      · rintro ⟨ys, hys, rfl⟩
        obtain ⟨y, -, hy⟩ := Document.exists_read_of_mem hys mem
        exact ⟨ys ++ [y], ⟨ys, y, hys, hy, rfl⟩, eraseDups_of_copy mem hys hy⟩
      · rintro ⟨_, ⟨ys, y, hys, hy, rfl⟩, rfl⟩
        exact ⟨ys, hys, (eraseDups_of_copy mem hys hy).symm⟩
  · intro d hdoubled xs hxs
    cases hdoubled with
    | member mem hinner =>
      rw [readDistinct_array] at hxs
      obtain ⟨ys, hys, -⟩ := map_eq_ok_iff.mp hxs
      obtain ⟨x, -, hx⟩ := Document.exists_read_of_mem hys mem
      exact h.doubled hinner x hx

theorem attribute_reads : Reads RecordKind.fields (.record .attribute) readAttribute :=
  .record (.strict .leaf <| .nullable .leaf rfl .nil) _

theorem Event.reads : Reads RecordKind.fields (.record .event) read :=
  .record (.strict .leaf <| .nullable (reads_distinct attribute_reads) rfl .nil) _

theorem Log.reads : Reads RecordKind.fields (.record .log) read :=
  .record (.nullable (.integer _ _) rfl <| .nullable .leaf rfl <|
    .nullable (reads_distinct Event.reads) rfl .nil) _

theorem Message.reads : Reads RecordKind.fields (.record .message) read :=
  .record (.strict .leaf <| .nullable .leaf rfl .nil) _

theorem Coin.reads : Reads RecordKind.fields (.record .coin) read :=
  .record (.nullable .leaf rfl <| .nullable .leaf rfl .nil) _

theorem Fee.reads : Reads RecordKind.fields (.record .fee) read :=
  .record (.nullable (.integer _ _) rfl <| .strict (.list Coin.reads) .nil) _

theorem PubKey.reads : Reads RecordKind.fields (.record .pubKey) read :=
  .record (.strict .leaf <| .strict .leaf .nil) _

theorem Signature.reads : Reads RecordKind.fields (.record .signature) read :=
  .record (.nullable (.option PubKey.reads (by nofun)) rfl <| .nullable .leaf rfl .nil) _

theorem RequestValue.reads : Reads RecordKind.fields (.record .requestValue) read :=
  .record (.strict (.list Message.reads) <| .strict Fee.reads <| .nullable .leaf rfl <|
    .strict (.list Signature.reads) .nil) _

theorem Request.reads : Reads RecordKind.fields (.record .request) read :=
  .record (.strict .leaf <| .strict RequestValue.reads .nil) _

theorem Result.reads : Reads RecordKind.fields (.record .result) read :=
  .record (.strict (.integer _ _) <| .nullable (.integer _ _) rfl <|
    .nullable (.integer _ _) rfl <| .nullable .leaf rfl <| .strict .leaf <|
    .strict (.integer _ _) <| .nullable .leaf rfl <| .nullable .leaf rfl <|
    .nullable (.integer _ _) rfl <| .nullable (.integer _ _) rfl <|
    .nullable (.option (.list Log.reads) (by nofun)) rfl <| .strict Request.reads .nil) _

inductive Input where
  | text (s : String)
  | value (v : Value)

namespace Input

def read : Input → Except FormatError Result
  | .text s => Result.ofText s
  | .value v => Result.ofValue v

/-- The document of the input; a text that is no document has none. -/
def document? : Input → Option Document
  | .text s => Document.ofText? Json.maxDepth s
  | .value v => some v.sorted.toDocument

/-- Any number of steps lead from one input to the other. -/
def Respelled (i i' : Input) : Prop :=
  ∃ d d', i.document? = some d ∧ i'.document? = some d' ∧
    Relation.EqvGen (Respells RecordKind.fields (.record .result)) d d'

/-- Some object of the input holds a field of its record twice. -/
def Doubled (i : Input) : Prop :=
  ∃ d, i.document? = some d ∧ Json.Doubled RecordKind.fields (.record .result) d

theorem document?_compact {v : Value} (hfloat : v.FloatFree) (hdepth : v.depth ≤ Json.maxDepth) :
    (text v.compact).document? = some v.toDocument :=
  Document.ofText?_of_spelling (v.spelling_compactChars hfloat) hdepth

theorem read_eq_ok_iff {i : Input} {r : Result} :
    i.read = .ok r ↔ ∃ d, i.document? = some d ∧ Result.read d = .ok r := by
  cases i with
  | text s => exact mapError_eq_ok_iff.trans Json.readTextWith_eq_ok_iff
  | value v =>
    rw [read, Result.ofValue, mapError_eq_ok_iff]
    simp [document?]

/-- However an accepted input is spelled, it is accepted with the same result; none is accepted in
which a field stands twice. -/
theorem respelled_alike_and_doubled_refused (i : Input) :
    (∀ r, i.read = .ok r → ∀ i', i.Respelled i' → i'.read = .ok r) ∧
    (i.Doubled → ∀ r, i.read ≠ .ok r) := by
  constructor
  · rintro r hread i' ⟨d, d', hd, hd', steps⟩
    obtain ⟨_, hdocument, hr⟩ := read_eq_ok_iff.mp hread
    obtain rfl := Option.some.inj (hd.symm.trans hdocument)
    exact read_eq_ok_iff.mpr ⟨d', hd', (Result.reads.respells_eqvGen steps r).mp hr⟩
  · rintro ⟨d, hd, hdoubled⟩ r hread
    obtain ⟨_, hdocument, hr⟩ := read_eq_ok_iff.mp hread
    obtain rfl := Option.some.inj (hd.symm.trans hdocument)
    exact Result.reads.doubled hdoubled r hr

def sharedFields : List (String × Value) :=
  [("timestamp", .number (.ofInt64 0)), ("tx", .object [("value", .object [])]),
    ("txhash", .text "A")]

def eventValue : Value :=
  .object [("type", .text "t")]

def logsValue (events : List Value) : Value :=
  .array [.object [("events", .array events)]]

def plainValue : Value :=
  .object (("codespace", .text "c") :: ("height", .number (.ofInt64 7)) ::
    ("logs", logsValue [eventValue]) :: sharedFields)

/-- The plain value with a foreign field, a null, its event twice, its height as a text and its code
space under the other name. -/
def looseValue : Value :=
  .object (("memo", .array []) :: ("index", .null) ::
    ("logs", logsValue [eventValue, eventValue]) :: ("height", .text " +07") ::
    ("codeSpace", .text "c") :: sharedFields)

def doubledValue : Value :=
  .object (("codespace", .text "c") :: ("codeSpace", .text "c") ::
    ("height", .number (.ofInt64 7)) :: sharedFields)

theorem respelled_plain_loose : (value plainValue).Respelled (text looseValue.compact) := by
  have height : Text.SpellsInt 7 " +07".toList :=
    Text.readInt?_trimChars_eq_some_iff.mp rfl
  have logs : Respells RecordKind.fields (.list .log) (logsValue [eventValue]).toDocument
      (logsValue [eventValue, eventValue]).toDocument :=
    @Respells.listed _ _ _ _ _ [] [] (.field rfl (.copy (.head _)))
  refine ⟨plainValue.sorted.toDocument, looseValue.toDocument, rfl,
    document?_compact (by decide) (by decide), ?_⟩
  refine .trans _ _ _ (.rel _ _ (.rename rfl (@rfl _ (FieldForm.named? _ "codeSpace")))) ?_
  refine .trans _ _ _ (.rel _ _ (.reorder (.swap _ _ _))) ?_
  refine .trans _ _ _ (.rel _ _ (.field rfl (.integer (.number (by decide)) (.text height)))) ?_
  refine .trans _ _ _ (.rel _ _ (.reorder (((List.Perm.swap _ _ _).cons _).trans (.swap _ _ _)))) ?_
  refine .trans _ _ _ (.rel _ _ (.field rfl logs)) ?_
  refine .trans _ _ _ (.rel _ _ (.null (@rfl _ (FieldForm.named? _ "index")) rfl (by decide))) ?_
  exact .rel _ _ (.foreign rfl rfl)

theorem doubled_codespace : (text doubledValue.compact).Doubled :=
  ⟨doubledValue.toDocument, document?_compact (by decide) (by decide),
    .here rfl rfl (.cons_cons _ (.cons_cons _ (List.nil_sublist _)))⟩

theorem respelled_alike_and_doubled_refused_of_codespace :
    (∃ r, (value plainValue).read = .ok r ∧ (text looseValue.compact).read = .ok r) ∧
    ∀ r, (text doubledValue.compact).read ≠ .ok r := by
  refine ⟨⟨_, rfl, ?_⟩, (respelled_alike_and_doubled_refused _).2 doubled_codespace⟩
  exact (respelled_alike_and_doubled_refused _).1 _ rfl _ respelled_plain_loose

end Input

end TxReceipt.Raw
