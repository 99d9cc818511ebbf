import TxReceipt.Proofs.Event.ReadBack
import TxReceipt.Proofs.Json.Depth
import TxReceipt.Proofs.Json.Reader
import TxReceipt.Receipt.Adapt
import TxReceipt.Receipt.Read

/-!
# Round trip of receipts

Every receipt is read back from its value, and from its indented text where the payloads of its
messages hold no doubles and leave the reader enough levels.
-/

namespace TxReceipt

open Json (Document Members Value)
open Json.Value (FloatFree readsAs_text readsAs_int32 readsAs_int64 readsAs_uint64 readsAs_list
  readsAs_payload)

theorem Outcome.ofWireName?_wireName (o : Outcome) : ofWireName? o.wireName = some o := by
  cases o <;> rfl

theorem Status.readsAs (s : Status) : s.toValue.ReadsAs read s := by
  refine Members.Written.readsAs_map (r := (s.code, s.codeSpace, s.outcome, ())) ?_ (by decide) rfl
  exact .cons (.head _) (readsAs_int32 s.code) <|
    .cons (.head _) (readsAs_text s.codeSpace) <|
    .cons (.head _) (readsAs_named isNull s.outcome.ofWireName?_wireName) .nil

theorem readsAs_signer (address : String) : (signerValue address).ReadsAs readSigner address := by
  refine Members.Written.readsAs_map (r := (address, ())) ?_ (by decide) rfl
  exact .cons (.head _) (readsAs_text address) .nil

theorem Summary.readsAs (s : Summary) : s.toValue.ReadsAs read s := by
  refine Members.Written.readsAs_map
    (r := (s.height, s.txIndex, s.txHash, s.timestamp, s.signers.toList, s.status, ())) ?_
    (by decide) ?_
  · exact .cons (.head _) (readsAs_int64 s.height) <|
      .cons (.head _) (readsAs_int32 s.txIndex) <|
      .cons (.head _) (readsAs_text s.txHash) <|
      .cons (.head _) (readsAs_int64 s.timestamp) <|
      .cons (.head _) (readsAs_list fun address _ => readsAs_signer address) <|
      .cons (.head _) s.status.readsAs .nil
  · simp only [AscendingSet.ofList_toList]

theorem Message.readsAs (m : Message) : m.toValue.ReadsAs read m := by
  refine Members.Written.readsAs_map (r := (m.msgIndex, m.requestType, m.details, ())) ?_
    (by decide) rfl
  exact .cons (.head _) (readsAs_uint64 m.msgIndex) <|
    .cons (.head _) (readsAs_text m.requestType) <|
    .cons (.head _) (readsAs_payload m.details) .nil

namespace Receipt

theorem readsAs (r : Receipt) : r.toValue.ReadsAs read r := by
  refine Members.Written.readsAs_map (r := (r.summary, r.messages, r.events, ())) ?_
    (by decide) rfl
  exact .cons (.head _) r.summary.readsAs <|
    .cons (.head _) (readsAs_list fun m _ => m.readsAs) <|
    .cons (.head _) (readsAs_list fun e _ => e.readsAs) .nil

end Receipt

theorem Summary.plain (s : Summary) : s.toValue.Plain 3 := by
  have hsigner (address : String) : (signerValue address).Plain 1 :=
    Value.plain_object (by simp)
  have hsigners : (Value.array (s.signers.toList.map signerValue)).Plain 2 :=
    Value.plain_map fun address _ => hsigner address
  have hstatus : s.status.toValue.Plain 1 := Value.plain_object (by simp)
  apply Value.plain_object
  simp [hsigners, hstatus.mono]

theorem Message.plain {m : Message} {n : Nat} (h : m.details.value.Plain n) :
    m.toValue.Plain (n + 1) := by
  apply Value.plain_object
  simp [h]

/-- A receipt is three levels deeper than the payloads of its messages. -/
theorem Receipt.plain {r : Receipt} (h : ∀ m ∈ r.messages, m.details.value.Plain 124) :
    r.toValue.Plain Json.maxDepth := by
  have hmessages : (Value.array (r.messages.map Message.toValue)).Plain 126 :=
    Value.plain_map fun m hm => Message.plain (h m hm)
  have hevents : (Value.array (r.events.map Event.toValue)).Plain 4 :=
    Value.plain_map fun e _ => e.plain
  apply Value.plain_object
  simp [r.summary.plain.mono, hmessages, hevents.mono]

theorem Raw.Message.depth_of_read {d : Document} {n : Nat} {m : Raw.Message} (hd : d.Within n)
    (h : Raw.Message.read d = .ok m) : m.value.value.depth ≤ n - 1 := by
  obtain ⟨⟨type, value, _⟩, ht, rfl⟩ := map_eq_ok_iff.mp h
  obtain ⟨-, habsent | ⟨d', hd', hvalue⟩, -⟩ := Members.readWithin hd ht
  · cases habsent
    exact Nat.zero_le _
  · exact Document.depth_of_readPayload hd' hvalue

theorem Raw.RequestValue.depth_of_read {d : Document} {n : Nat} {v : Raw.RequestValue}
    (hd : d.Within n) (h : Raw.RequestValue.read d = .ok v) :
    ∀ m ∈ v.messages, m.value.value.depth ≤ n - 3 := by
  obtain ⟨⟨messages, fee, memo, signatures, _⟩, ht, rfl⟩ := map_eq_ok_iff.mp h
  obtain ⟨habsent | ⟨d', hd', hmessages⟩, -⟩ := Members.readWithin hd ht
  · cases habsent
    exact List.forall_mem_nil _
  · intro m hm
    obtain ⟨d'', hd'', hread⟩ := Document.exists_of_mem_readList hd' hmessages hm
    exact Raw.Message.depth_of_read hd'' hread

theorem Raw.Request.depth_of_read {d : Document} {n : Nat} {tx : Raw.Request} (hd : d.Within n)
    (h : Raw.Request.read d = .ok tx) : ∀ m ∈ tx.value.messages, m.value.value.depth ≤ n - 4 := by
  obtain ⟨⟨type, value, _⟩, ht, rfl⟩ := map_eq_ok_iff.mp h
  obtain ⟨-, habsent | ⟨d', hd', hvalue⟩, -⟩ := Members.readWithin hd ht
  · cases habsent
  · exact Raw.RequestValue.depth_of_read hd' hvalue

theorem Raw.Result.depth_of_read {d : Document} {n : Nat} {raw : Raw.Result} (hd : d.Within n)
    (h : Raw.Result.read d = .ok raw) : ∀ m ∈ raw.messages, m.value.value.depth ≤ n - 5 := by
  obtain ⟨t, ht, rfl⟩ := map_eq_ok_iff.mp h
  obtain ⟨-, -, -, -, -, -, -, -, -, -, -, habsent | ⟨d', hd', htx⟩, -⟩ := Members.readWithin hd ht
  · cases habsent
  · exact Raw.Request.depth_of_read hd' htx

/-- The payloads of an accepted raw text leave the levels that a receipt adds. -/
theorem Raw.Result.depth_of_ofText {text : String} {raw : Raw.Result}
    (h : Raw.Result.ofText text = .ok raw) : ∀ m ∈ raw.messages, m.value.value.depth ≤ 124 := by
  obtain ⟨d, hd, hraw⟩ := Json.exists_of_readTextWith (mapError_eq_ok_iff.mp h)
  intro m hm
  have hdepth := Raw.Result.depth_of_read hd hraw m hm
  simp only [Json.maxDepth] at hdepth
  omega

theorem Message.depth_of_read {d : Document} {n : Nat} {m : Message} (hd : d.Within n)
    (h : Message.read d = .ok m) : m.details.value.depth ≤ n - 1 := by
  obtain ⟨⟨msgIndex, requestType, details, _⟩, ht, rfl⟩ := map_eq_ok_iff.mp h
  obtain ⟨-, -, habsent | ⟨d', hd', hdetails⟩, -⟩ := Members.readWithin hd ht
  · cases habsent
  · exact Document.depth_of_readPayload hd' hdetails

namespace Receipt

theorem depth_of_read {d : Document} {n : Nat} {r : Receipt} (hd : d.Within n)
    (h : read d = .ok r) : ∀ m ∈ r.messages, m.details.value.depth ≤ n - 3 := by
  obtain ⟨⟨summary, messages, events, _⟩, ht, rfl⟩ := map_eq_ok_iff.mp h
  obtain ⟨-, habsent | ⟨d', hd', hmessages⟩, -⟩ := Members.readWithin hd ht
  · cases habsent
  · intro m hm
    obtain ⟨d'', hd'', hread⟩ := Document.exists_of_mem_readList hd' hmessages hm
    exact Message.depth_of_read hd'' hread

/-- The payloads of an accepted text of a receipt leave the levels that the receipt adds. -/
theorem depth_of_ofText {text : String} {r : Receipt} (h : ofText text = .ok r) :
    ∀ m ∈ r.messages, m.details.value.depth ≤ 124 := by
  obtain ⟨d, hd, hread⟩ := Json.exists_of_readTextWith h
  exact depth_of_read hd hread

theorem depth_of_ofRawText {text network : String} {r : Receipt}
    (h : ofRawText text network = .ok r) : ∀ m ∈ r.messages, m.details.value.depth ≤ 124 := by
  obtain ⟨raw, hraw, rfl⟩ := map_eq_ok_iff.mp h
  intro m hm
  obtain ⟨i, hi, rfl⟩ := List.mem_mapIdx.mp hm
  exact Raw.Result.depth_of_ofText hraw _ (List.getElem_mem hi)

theorem ofValue_toValue (r : Receipt) : ofValue r.toValue = .ok r :=
  r.readsAs.inNormalForm

theorem ofText_indented {r : Receipt} (h : ∀ m ∈ r.messages, m.details.value.Plain 124) :
    ofText r.toValue.indented = .ok r := by
  have hplain := plain h
  have htext := Json.readTextWith_indented read hplain.1 hplain.2
  rw [r.readsAs.asWritten] at htext
  exact htext

/-- A receipt is read back from its value. It is read back from its indented text too, if its
payloads hold no doubles and are nested at most 124 deep, which all payloads of accepted texts
are; so every receipt of a raw text survives being printed. -/
theorem round_trip (r : Receipt) :
    ofValue r.toValue = .ok r ∧
    ((∀ m ∈ r.messages, m.details.value.FloatFree ∧ m.details.value.depth ≤ 124) →
      ofText r.toValue.indented = .ok r) ∧
    (∀ text raw, Raw.Result.ofText text = .ok raw →
      ∀ m ∈ raw.messages, m.value.value.depth ≤ 124) ∧
    (∀ text, ofText text = .ok r → ∀ m ∈ r.messages, m.details.value.depth ≤ 124) ∧
    (∀ text network, ofRawText text network = .ok r →
      (∀ m ∈ r.messages, m.details.value.FloatFree) → ofText r.toValue.indented = .ok r) := by
  refine ⟨r.ofValue_toValue, ofText_indented, fun _ _ => Raw.Result.depth_of_ofText,
    fun _ => depth_of_ofText, ?_⟩
  intro text network htext hfloat
  have hdepth := depth_of_ofRawText htext
  exact ofText_indented fun m hm => ⟨hfloat m hm, hdepth m hm⟩

/-- A raw text whose records are arrays, with a nested payload. -/
def positionalText : String :=
  "[1,0,0,null,\"A\",0,null,null,0,0,null,[\"t\",[[[\"u\",[1,[2]]]]]]]"

theorem round_trip_of_positionalText : ∃ r, ofRawText positionalText "link" = .ok r ∧
    r.messages.length = 1 ∧ ofText r.toValue.indented = .ok r := by
  have hread : (ofRawText positionalText "link").toOption.any (fun r => r.messages.length = 1 ∧
      ∀ m ∈ r.messages, m.details.value.FloatFree) = true := by
    decide +kernel
  cases htext : ofRawText positionalText "link" with
  | error e =>
    rw [htext] at hread
    cases hread
  | ok r =>
    rw [htext] at hread
    obtain ⟨hlength, hfloat⟩ := of_decide_eq_true hread
    exact ⟨r, rfl, hlength, (round_trip r).2.2.2.2 _ _ htext hfloat⟩

end Receipt

end TxReceipt
