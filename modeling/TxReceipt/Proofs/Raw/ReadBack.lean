import TxReceipt.Proofs.Json.LooseInteger
import TxReceipt.Proofs.Raw.Distinct
import TxReceipt.Proofs.Receipt.RoundTrip
import TxReceipt.Raw.Write

/-!
# Reading back raw results

The results that are accepted are those without repetitions in their logs and with message indices
that fit 64 bits with sign. `accepted_iff` says so, and just these are read back from what is
written of them. In texts, payloads must not hold doubles and must leave the five levels above them.
Texts and values are read alike.
-/

namespace TxReceipt

namespace Json.Value

variable {α : Type} {v : Value} {read : Document → Except ReadError α} {x : α}

theorem readsAs_none : null.ReadsAs (Document.readOption read) none :=
  readsAs_of_sorted_eq rfl rfl

/-- What is no null is read as without the option of null. -/
theorem ReadsAs.option (h : v.ReadsAs read x) (hnull : v ≠ .null) :
    v.ReadsAs (Document.readOption read) (some x) := by
  have hread : ∀ w : Value, w ≠ .null → read w.toDocument = .ok x →
      Document.readOption read w.toDocument = .ok (some x) := by
    intro w hw hread
    have hne : w.toDocument ≠ .null := by
      cases w with
      | null => exact absurd rfl hw
      | _ => nofun
    rw [Document.readOption_of_ne_null hne, hread]
    rfl
  have hsorted : v.sorted ≠ .null := by
    cases v with
    | null => exact absurd rfl hnull
    | _ => nofun
  exact ⟨hread v hnull h.asWritten, hread v.sorted hsorted h.inNormalForm⟩

theorem readsAs_optionalText (s? : Option String) :
    (optionalText s?).ReadsAs (Document.readOption Document.readText) s? := by
  cases s? with
  | none => exact readsAs_none
  | some s => exact (readsAs_text s).option nofun

theorem readsAs_textOrNull (s : String) : (text s).ReadsAs Document.readTextOrNull s :=
  readsAs_of_sorted_eq rfl rfl

end Json.Value

namespace Raw

open Json (Document Members Value)
open Json.Value (FloatFree readsAs_none readsAs_text readsAs_textOrNull readsAs_optionalText
  readsAs_list readsAs_payload readsAs_looseInt32 readsAs_looseInt64 readsAs_looseUInt64)

/-- A list without repetitions is read back as it was written. -/
theorem readsAs_distinct {α : Type} [DecidableEq α] {read : Document → Except Json.ReadError α}
    {write : α → Value} {xs : List α} (hnodup : xs.Nodup)
    (h : ∀ x ∈ xs, (write x).ReadsAs read x) :
    (Value.array (xs.map write)).ReadsAs (readDistinct read) xs := by
  have hoption := (readsAs_list h).option nofun
  have hread := hoption.map fun xs? => (xs?.getD []).eraseDups
  rw [Option.getD_some, Lists.eraseDups_of_nodup hnodup] at hread
  exact hread

theorem attribute_readsAs (a : Attribute) : (attributeValue a).ReadsAs readAttribute a := by
  refine Members.Written.readsAs_map (r := (a.key, a.value, ())) ?_ (by decide) rfl
  exact .cons (.head _) (readsAs_text a.key) <|
    .cons (.head _) (readsAs_textOrNull a.value) .nil

theorem Event.readsAs {e : Event} (h : e.attributes.Nodup) : e.toValue.ReadsAs read e := by
  refine Members.Written.readsAs_map (r := (e.type, e.attributes, ())) ?_ (by decide) rfl
  exact .cons (.head _) (readsAs_text e.type) <|
    .cons (.head _) (readsAs_distinct h fun a _ => attribute_readsAs a) .nil

/-- A log that can have been read: nothing stands twice, and its index fits 64 bits with sign. -/
structure Log.Regular (log : Log) : Prop extends log.Distinct where
  index : log.msgIndex.toNat < 9223372036854775808

theorem Log.readsAs {log : Log} (h : log.Regular) : log.toValue.ReadsAs read log := by
  refine Members.Written.readsAs_map (r := (log.msgIndex, log.log, log.events, ())) ?_
    (by decide) rfl
  exact .cons (.head _) (readsAs_looseUInt64 h.index) <|
    .cons (.head _) (readsAs_textOrNull log.log) <|
    .cons (.head _) (readsAs_distinct h.events fun e he => Event.readsAs (h.attributes e he)) .nil

theorem Message.readsAs (m : Message) : m.toValue.ReadsAs read m := by
  refine Members.Written.readsAs_map (r := (m.type, m.value, ())) ?_ (by decide) rfl
  exact .cons (.head _) (readsAs_text m.type) <| .cons (.head _) (readsAs_payload m.value) .nil

theorem Coin.readsAs (c : Coin) : c.toValue.ReadsAs read c := by
  refine Members.Written.readsAs_map (r := (c.denomination, c.amount, ())) ?_ (by decide) rfl
  exact .cons (.head _) (readsAs_optionalText c.denomination) <|
    .cons (.head _) (readsAs_optionalText c.amount) .nil

theorem Fee.readsAs (f : Fee) : f.toValue.ReadsAs read f := by
  refine Members.Written.readsAs_map (r := (f.gas, f.amount, ())) ?_ (by decide) rfl
  exact .cons (.head _) (readsAs_looseInt64 f.gas) <|
    .cons (.head _) (readsAs_list fun c _ => c.readsAs) .nil

theorem PubKey.readsAs (k : PubKey) : k.toValue.ReadsAs read k := by
  refine Members.Written.readsAs_map (r := (k.type, k.value, ())) ?_ (by decide) rfl
  exact .cons (.head _) (readsAs_text k.type) <| .cons (.head _) (readsAs_text k.value) .nil

theorem Signature.readsAs (s : Signature) : s.toValue.ReadsAs read s := by
  refine Members.Written.readsAs_map (r := (s.pubKey, s.signature, ())) ?_ (by decide) rfl
  refine .cons (.head _) ?_ <| .cons (.head _) (readsAs_textOrNull s.signature) .nil
  cases s.pubKey with
  | none => exact readsAs_none
  | some k => exact k.readsAs.option nofun

theorem RequestValue.readsAs (v : RequestValue) : v.toValue.ReadsAs read v := by
  refine Members.Written.readsAs_map (r := (v.messages, v.fee, v.memo, v.signatures, ())) ?_
    (by decide) rfl
  exact .cons (.head _) (readsAs_list fun m _ => m.readsAs) <|
    .cons (.head _) v.fee.readsAs <|
    .cons (.head _) (readsAs_textOrNull v.memo) <|
    .cons (.head _) (readsAs_list fun s _ => s.readsAs) .nil

theorem Request.readsAs (tx : Request) : tx.toValue.ReadsAs read tx := by
  refine Members.Written.readsAs_map (r := (tx.type, tx.value, ())) ?_ (by decide) rfl
  exact .cons (.head _) (readsAs_text tx.type) <| .cons (.head _) tx.value.readsAs .nil

namespace Result

theorem readsAs {r : Result} (h : ∀ log ∈ r.logs, log.Regular) : r.toValue.ReadsAs read r := by
  refine Members.Written.readsAs_map (r := (r.height, r.index, r.code, r.codespace, r.txHash,
    r.timestamp, r.data, r.info, r.gasWanted, r.gasUsed, r.logs?, r.tx, ())) ?_ (by decide) rfl
  refine .cons (.head _) (readsAs_looseInt64 r.height) <|
    .cons (.head _) (readsAs_looseInt32 r.index) <|
    .cons (.head _) (readsAs_looseInt32 r.code) <|
    .cons (.head _) (readsAs_optionalText r.codespace) <|
    .cons (.head _) (readsAs_text r.txHash) <|
    .cons (.head _) (readsAs_looseInt64 r.timestamp) <|
    .cons (.head _) (readsAs_optionalText r.data) <|
    .cons (.head _) (readsAs_optionalText r.info) <|
    .cons (.head _) (readsAs_looseInt64 r.gasWanted) <|
    .cons (.head _) (readsAs_looseInt64 r.gasUsed) <|
    .cons (.head _) ?_ <|
    .cons (.head _) r.tx.readsAs .nil
  rw [logs] at h
  cases hlogs : r.logs? with
  | none => exact readsAs_none
  | some logs =>
    rw [hlogs] at h
    exact (readsAs_list fun log hlog => Log.readsAs (h log hlog)).option (by rintro ⟨⟩)

end Result

theorem Log.regular_of_read {d : Document} {log : Log} (h : Log.read d = .ok log) :
    log.Regular := by
  refine ⟨Log.distinct_of_read h, ?_⟩
  obtain ⟨⟨msgIndex, log, events, _⟩, hmembers, rfl⟩ := map_eq_ok_iff.mp h
  obtain ⟨n, hd⟩ := Document.exists_within d
  obtain ⟨habsent | ⟨d', -, hread⟩, -⟩ := Members.readWithin hd hmembers
  · cases habsent
    exact Nat.succ_pos _
  · obtain ⟨i, hi, hindex⟩ := map_eq_ok_iff.mp hread
    have h64 := IntegerRange.contains_iff.mp (Document.readLoose_eq_ok_iff.mp hi).2.1
    simp only [IntegerRange.int64] at h64
    simp only at hindex ⊢
    rw [← hindex, UInt64.toNat_ofNat']
    omega

theorem Result.regular_of_read {d : Document} {r : Result} (h : Result.read d = .ok r) :
    ∀ log ∈ r.logs, log.Regular := by
  obtain ⟨⟨_, _, _, _, _, _, _, _, _, _, logs?, _, _⟩, hmembers, rfl⟩ := map_eq_ok_iff.mp h
  obtain ⟨n, hd⟩ := Document.exists_within d
  obtain ⟨-, -, -, -, -, -, -, -, -, -, hlogs, -⟩ := Members.readWithin hd hmembers
  intro log hlog
  rcases hlogs with habsent | ⟨_, -, hread⟩
  · cases habsent
    cases hlog
  · obtain ⟨_, hread⟩ := exists_of_mem_readOption hread hlog
    exact Log.regular_of_read hread

/-- The results that are accepted, of texts or of values. -/
theorem Result.accepted_iff {r : Result} : r.Accepted ↔ ∀ log ∈ r.logs, log.Regular := by
  constructor
  · rintro (⟨text, h⟩ | ⟨v, h⟩)
    · obtain ⟨d, -, hread⟩ := Json.exists_of_readTextWith (mapError_eq_ok_iff.mp h)
      exact regular_of_read hread
    · exact regular_of_read (mapError_eq_ok_iff.mp h)
  · intro h
    exact Or.inr ⟨r.toValue, mapError_eq_ok_iff.mpr (readsAs h).inNormalForm⟩

@[simp] theorem plain_optionalText (n : Nat) (s? : Option String) :
    (Value.optionalText s?).Plain n := by
  cases s? with
  | none => exact ⟨trivial, Nat.zero_le n⟩
  | some s => exact Value.plain_text n s

theorem Log.plain (log : Log) : log.toValue.Plain 5 := by
  have hevent (e : Event) : e.toValue.Plain 3 := Value.plain_object (by simp)
  have hevents : (Value.array (log.events.map Event.toValue)).Plain 4 :=
    Value.plain_map fun e _ => hevent e
  exact Value.plain_object (by simp [hevents])

theorem Fee.plain (f : Fee) : f.toValue.Plain 3 := by
  have hcoin (c : Coin) : c.toValue.Plain 1 := Value.plain_object (by simp)
  have hcoins : (Value.array (f.amount.map Coin.toValue)).Plain 2 :=
    Value.plain_map fun c _ => hcoin c
  exact Value.plain_object (by simp [hcoins])

theorem Signature.plain (s : Signature) : s.toValue.Plain 2 := by
  have hkey (k : PubKey) : k.toValue.Plain 1 := Value.plain_object (by simp)
  apply Value.plain_object
  cases s.pubKey with
  | none => simp [Value.plain_null]
  | some k => simp [hkey k]

/-- A result is five levels deeper than the payloads of its messages. -/
theorem Result.plain {r : Result} (h : ∀ m ∈ r.messages, m.value.value.Plain 122) :
    r.toValue.Plain Json.maxDepth := by
  have hmessage (m : Message) (hm : m ∈ r.messages) : m.toValue.Plain 123 :=
    Value.plain_object (by simp [h m hm])
  have hmessages : (Value.array (r.tx.value.messages.map Message.toValue)).Plain 124 :=
    Value.plain_map hmessage
  have hsignatures : (Value.array (r.tx.value.signatures.map Signature.toValue)).Plain 3 :=
    Value.plain_map fun s _ => s.plain
  have hvalue : r.tx.value.toValue.Plain 125 :=
    Value.plain_object (by simp [hmessages, r.tx.value.fee.plain.mono, hsignatures.mono])
  have htx : r.tx.toValue.Plain 126 := Value.plain_object (by simp [hvalue])
  apply Value.plain_object
  cases r.logs? with
  | none => simp [Value.plain_null, htx]
  | some logs =>
    have hlogs : (Value.array (logs.map Log.toValue)).Plain 6 :=
      Value.plain_map fun log _ => log.plain
    simp [hlogs.mono, htx]

namespace Result

theorem ofText_written {r : Result} (hregular : ∀ log ∈ r.logs, log.Regular)
    (hpayloads : ∀ m ∈ r.messages, m.value.value.Plain 122) :
    ofText r.toValue.compact = .ok r ∧ ofText r.toValue.indented = .ok r := by
  have hread := (readsAs hregular).asWritten
  obtain ⟨hfloat, hdepth⟩ := plain hpayloads
  constructor
  · exact mapError_eq_ok_iff.mpr ((Json.readTextWith_compact read hfloat hdepth).trans hread)
  · exact mapError_eq_ok_iff.mpr ((Json.readTextWith_indented read hfloat hdepth).trans hread)

/-- The payloads of an accepted text leave the five levels above them. -/
theorem depth_payload_of_ofText {text : String} {r : Result} (h : ofText text = .ok r) :
    ∀ m ∈ r.messages, m.value.value.depth ≤ 122 := by
  obtain ⟨d, hd, hread⟩ := Json.exists_of_readTextWith (mapError_eq_ok_iff.mp h)
  exact depth_of_read hd hread

/-- What is accepted is read back from what is written of it: from its value in any case, from both
layouts of its text if its payloads hold no doubles and leave the levels above them. Those of an
accepted text do leave them, so that reading, writing and reading again is reading once, and the
receipt is the same. -/
theorem accepted_read_back {r : Result} (accepted : r.Accepted) :
    ofValue r.toValue = .ok r ∧
    ((∀ m ∈ r.messages, m.value.value.FloatFree ∧ m.value.value.depth ≤ 122) →
      ofText r.toValue.compact = .ok r ∧ ofText r.toValue.indented = .ok r) ∧
    ∀ text, ofText text = .ok r → (∀ m ∈ r.messages, m.value.value.FloatFree) →
      ofText r.toValue.compact = ofText text ∧ ofText r.toValue.indented = ofText text ∧
      ∀ network, Receipt.ofRawText r.toValue.compact network = Receipt.ofRawText text network := by
  have hregular := accepted_iff.mp accepted
  refine ⟨mapError_eq_ok_iff.mpr (readsAs hregular).inNormalForm, ofText_written hregular, ?_⟩
  intro text htext hfloat
  have hdepth := depth_payload_of_ofText htext
  obtain ⟨hcompact, hindented⟩ :=
    ofText_written hregular fun m hm => ⟨hfloat m hm, hdepth m hm⟩
  refine ⟨hcompact.trans htext.symm, hindented.trans htext.symm, fun network => ?_⟩
  rw [Receipt.ofRawText, Receipt.ofRawText, hcompact, htext]

/-- A raw text with aliases, integers in texts, and an event that stands twice. -/
def looseText : String :=
  "\x7b\"height\":\" +07\",\"txHash\":\"A\",\"timestamp\":null,\"logs\":[\x7b\"msg_index\":\"1\"," ++
  "\"events\":[\x7b\"type\":\"t\",\"attributes\":[[\"k\"],[\"k\"]]\x7d,[\"t\",[[\"k\",null]]]]\x7d]," ++
  "\"tx\":\x7b\"value\":\x7b\"msg\":[[\"m\",[2,1]]]\x7d\x7d\x7d"

theorem accepted_read_back_of_looseText : ∃ r, ofText looseText = .ok r ∧ r.Accepted ∧
    r.height = 7 ∧ r.logs = [⟨1, "", [⟨"t", [⟨"k", ""⟩]⟩]⟩] ∧
    (∀ m ∈ r.messages, m.value.value.FloatFree) ∧ ofText r.toValue.compact = .ok r := by
  have hread : (ofText looseText).toOption.any (fun r => r.height = 7 ∧
      r.logs = [⟨1, "", [⟨"t", [⟨"k", ""⟩]⟩]⟩] ∧
      ∀ m ∈ r.messages, m.value.value.FloatFree) = true := by
    decide +kernel
  cases htext : ofText looseText with
  | error e =>
    rw [htext] at hread
    cases hread
  | ok r =>
    rw [htext] at hread
    obtain ⟨hheight, hlogs, hfloat⟩ := of_decide_eq_true hread
    have haccepted : r.Accepted := Or.inl ⟨looseText, htext⟩
    obtain ⟨hcompact, -⟩ := (accepted_read_back haccepted).2.2 looseText htext hfloat
    exact ⟨r, rfl, haccepted, hheight, hlogs, hfloat, hcompact.trans htext⟩

/-- A value without doubles that is nested no deeper than a text may be is read as its compact text
is: with the same result, or with the same excerpt and the same reason. -/
theorem ofText_compact_eq_ofValue {v : Value} (hfloat : v.FloatFree)
    (hdepth : v.depth ≤ Json.maxDepth) : ofText v.sorted.compact = ofValue v := by
  have hplain : v.sorted.Plain Json.maxDepth := Value.Plain.sorted ⟨hfloat, hdepth⟩
  rw [ofText, ofValue, Json.readTextWith_compact read hplain.1 hplain.2]

/-- A value with two faults: the index of its log, which is met first, and its height. -/
def faultyValue : Value :=
  .object [("logs", .array [.object [("msgIndex", .number (.ofInt64 (-1)))]]),
    ("height", .object [])]

theorem ofText_compact_eq_ofValue_of_faults :
    faultyValue.FloatFree ∧ faultyValue.depth ≤ Json.maxDepth ∧
    ofText faultyValue.sorted.compact = ofValue faultyValue ∧
    ∃ e, ofValue faultyValue = .error e ∧
      e.reason.cause? = some "expected integer, got \x7b\x7d" := by
  have hfloat : faultyValue.FloatFree := by decide
  have hdepth : faultyValue.depth ≤ Json.maxDepth := by decide
  exact ⟨hfloat, hdepth, ofText_compact_eq_ofValue hfloat hdepth, _, rfl, by decide⟩

end Result

end Raw

end TxReceipt
