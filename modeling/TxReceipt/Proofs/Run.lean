import TxReceipt.Proofs.Json.Sequence
import TxReceipt.Proofs.Receipt.RoundTrip
import TxReceipt.Run

/-!
# What a run prints

A run prints the receipts of its leading files, those in front of the first that is missing or holds
no raw result, and nothing else. `run_prints_leading` says so for all files, settings files and
environments, and that the receipts are read back from what was printed.
-/

namespace TxReceipt

/-- The receipts of a text that holds them one after the other. -/
def Receipt.ofTexts (text : String) : Except Json.ReadError (List Receipt) :=
  Json.readSequenceWith Json.maxDepth Receipt.read text

/-- The receipt of a file, if the file is there and holds a raw result. -/
def Receipt.ofFile? (network : String) (file : Option String) : Option Receipt :=
  file.bind fun text => (Receipt.ofRawText text network).toOption

namespace RunResult

/-- The files in front of the first that has no receipt. -/
def leading (network : String) (files : List (Option String)) : List (Option String) :=
  files.takeWhile fun file => (Receipt.ofFile? network file).isSome

def receipts (network : String) (files : List (Option String)) : List Receipt :=
  (leading network files).filterMap (Receipt.ofFile? network)

variable {network : String} {file : Option String} {files : List (Option String)}

theorem leading_cons_of_some {r : Receipt} (h : Receipt.ofFile? network file = some r) :
    leading network (file :: files) = file :: leading network files :=
  List.takeWhile_cons_of_pos (by rw [h]; rfl)

theorem leading_cons_of_none (h : Receipt.ofFile? network file = none) :
    leading network (file :: files) = [] :=
  List.takeWhile_cons_of_neg (by rw [h]; exact Bool.false_ne_true)

theorem receipts_cons_of_some {r : Receipt} (h : Receipt.ofFile? network file = some r) :
    receipts network (file :: files) = r :: receipts network files := by
  rw [receipts, leading_cons_of_some h, List.filterMap_cons_some h, receipts]

/-- Every leading file has its receipt. -/
theorem map_leading : (leading network files).map (Receipt.ofFile? network) =
    (receipts network files).map some := by
  induction files with
  | nil => rfl
  | cons file files ih =>
    cases h : Receipt.ofFile? network file with
    | none => rw [receipts, leading_cons_of_none h]; rfl
    | some r =>
      rw [leading_cons_of_some h, receipts_cons_of_some h, List.map_cons, List.map_cons, h, ih]

theorem ofFiles_cons_of_none (h : Receipt.ofFile? network file = none) :
    ofFiles network (file :: files) = failed := by
  cases file with
  | none => rfl
  | some text =>
    rw [ofFiles]
    cases hread : Receipt.ofRawText text network with
    | error e => rfl
    | ok r =>
      rw [Receipt.ofFile?, Option.bind_some, hread] at h
      cases h

theorem ofFiles_cons_of_some {r : Receipt} (h : Receipt.ofFile? network file = some r) :
    ofFiles network (file :: files) =
      ⟨(ofFiles network files).exitCode, printed r ++ (ofFiles network files).output⟩ := by
  cases file with
  | none => cases h
  | some text =>
    rw [ofFiles]
    cases hread : Receipt.ofRawText text network with
    | error e =>
      rw [Receipt.ofFile?, Option.bind_some, hread] at h
      cases h
    | ok r' =>
      rw [Receipt.ofFile?, Option.bind_some, hread] at h
      cases h
      rfl

/-- The run prints the leading receipts, and succeeds if all files are leading ones. -/
theorem ofFiles_eq (network : String) (files : List (Option String)) : ofFiles network files =
    ⟨if (leading network files).length = files.length then 0 else 1,
      String.join ((receipts network files).map printed)⟩ := by
  induction files with
  | nil => rfl
  | cons file files ih =>
    cases h : Receipt.ofFile? network file with
    | none =>
      rw [ofFiles_cons_of_none h, receipts, leading_cons_of_none h]
      rfl
    | some r =>
      rw [ofFiles_cons_of_some h, ih, receipts_cons_of_some h, leading_cons_of_some h,
        List.map_cons, String.join_cons]
      simp only [List.length_cons, Nat.add_right_cancel_iff]

/-- Behind a file without a receipt nothing counts. -/
theorem receipts_append_of_none (h : Receipt.ofFile? network file = none)
    (more : List (Option String)) :
    receipts network (files ++ file :: more) = receipts network files := by
  induction files with
  | nil => rw [List.nil_append, receipts, leading_cons_of_none h]; rfl
  | cons file' files ih =>
    rw [List.cons_append]
    cases h' : Receipt.ofFile? network file' with
    | none => rw [receipts, receipts, leading_cons_of_none h', leading_cons_of_none h']
    | some r => rw [receipts_cons_of_some h', receipts_cons_of_some h', ih]

/-- Further files add receipts at the end, or none. -/
theorem exists_receipts_append (network : String) (files more : List (Option String)) :
    ∃ added, receipts network (files ++ more) = receipts network files ++ added := by
  induction files with
  | nil => exact ⟨receipts network more, rfl⟩
  | cons file files ih =>
    rw [List.cons_append]
    cases h : Receipt.ofFile? network file with
    | none =>
      rw [receipts, receipts, leading_cons_of_none h, leading_cons_of_none h]
      exact ⟨[], rfl⟩
    | some r =>
      obtain ⟨added, hadded⟩ := ih
      rw [receipts_cons_of_some h, receipts_cons_of_some h, hadded]
      exact ⟨added, rfl⟩

theorem mem_receipts {r : Receipt} (h : r ∈ receipts network files) :
    ∃ text, Receipt.ofRawText text network = .ok r := by
  obtain ⟨file, -, hfile⟩ := List.mem_filterMap.mp h
  obtain ⟨text, -, htext⟩ := Option.bind_eq_some_iff.mp hfile
  cases hread : Receipt.ofRawText text network with
  | error e =>
    rw [hread] at htext
    cases htext
  | ok r' =>
    rw [hread] at htext
    cases htext
    exact ⟨text, hread⟩

/-- The receipts are read back from what was printed of them. -/
theorem ofTexts_printed
    (hfloat : ∀ r ∈ receipts network files, ∀ m ∈ r.messages, m.details.value.FloatFree) :
    Receipt.ofTexts (String.join ((receipts network files).map printed)) =
      .ok (receipts network files) := by
  apply Json.readSequenceWith_lines
  intro r hr
  obtain ⟨text, htext⟩ := mem_receipts hr
  have hdepth := Receipt.depth_of_ofRawText htext
  exact ⟨Receipt.plain fun m hm => ⟨hfloat r hr m hm, hdepth m hm⟩, r.readsAs.asWritten⟩

end RunResult

open RunResult

theorem run_of_files {chain : ChainSettings} {files : List (Option String)} (h : files ≠ []) :
    run (.ok chain) files = .ofFiles chain.hrp files := by
  have hne : files.isEmpty = false := List.isEmpty_eq_false_iff.mpr h
  rw [run, hne]
  rfl

/-- A run without settings or without files fails and prints nothing. Any other run prints the
receipts of its leading files, one after the other and nothing else, and succeeds exactly if these
are all files. The receipts, if their payloads hold no doubles, are read back from what was printed;
and what comes behind a failing file changes nothing, nor do further files change what earlier ones
printed. -/
theorem run_prints_leading (settingsFile : Option String) (environment : Settings.Environment)
    (files : List (Option String)) :
    ((∃ e, Settings.load settingsFile environment = .error e) ∨ files = [] →
      run (Settings.load settingsFile environment) files = ⟨1, ""⟩) ∧
    ∀ chain, Settings.load settingsFile environment = .ok chain → files ≠ [] →
      let outcome := run (Settings.load settingsFile environment)
      let found := receipts chain.hrp files
      (leading chain.hrp files).map (Receipt.ofFile? chain.hrp) = found.map some ∧
      (outcome files).output = String.join (found.map fun r => r.toValue.indented ++ "\n") ∧
      (outcome files).exitCode =
        (if (leading chain.hrp files).length = files.length then 0 else 1) ∧
      ((∀ r ∈ found, ∀ m ∈ r.messages, m.details.value.FloatFree) →
        Receipt.ofTexts (outcome files).output = .ok found) ∧
      (∀ failing more, Receipt.ofFile? chain.hrp failing = none →
        (outcome (files ++ failing :: more)).output = (outcome files).output) ∧
      ∀ more, ∃ added, (outcome (files ++ more)).output = (outcome files).output ++ added := by
  refine ⟨?_, fun chain hchain hfiles => ?_⟩
  · rintro (⟨e, he⟩ | rfl)
    · rw [he]
      rfl
    · cases Settings.load settingsFile environment with
      | error e => rfl
      | ok chain => rfl
  · intro outcome found
    have hrun (more : List (Option String)) :
        outcome (files ++ more) = .ofFiles chain.hrp (files ++ more) := by
      rw [← run_of_files (by simp [hfiles]), ← hchain]
    have hall : outcome files = .ofFiles chain.hrp files := by simpa using hrun []
    rw [hall, ofFiles_eq]
    refine ⟨map_leading, rfl, rfl, ofTexts_printed, fun failing more h => ?_, fun more => ?_⟩
    · rw [hrun, ofFiles_eq, receipts_append_of_none h]
    · obtain ⟨added, hadded⟩ := exists_receipts_append chain.hrp files more
      refine ⟨String.join (added.map printed), ?_⟩
      rw [hrun, ofFiles_eq, hadded, List.map_append, String.join_append]

/-- On the main network, which a variable sets, the receipt of a file is printed and read back,
although the file after it is missing; with no files nothing is printed. -/
theorem run_prints_leading_of_missing_file :
    let environment := [("TX_RESULT__CHAIN__IS_MAIN_NET", "true")]
    let first := [some Receipt.positionalText]
    let files := first ++ none :: [some ""]
    Settings.load none environment = .ok ⟨true, none⟩ ∧
    run (Settings.load none environment) [] = ⟨1, ""⟩ ∧
    ∃ r, receipts "link" files = [r] ∧ (∀ m ∈ r.messages, m.details.value.FloatFree) ∧
      (run (Settings.load none environment) files).exitCode = 1 ∧
      Receipt.ofTexts (run (Settings.load none environment) files).output = .ok [r] ∧
      (run (Settings.load none environment) files).output =
        (run (Settings.load none environment) first).output := by
  intro environment first files
  have hload : Settings.load none environment = .ok ⟨true, none⟩ := rfl
  have hread : (Receipt.ofFile? "link" (some Receipt.positionalText)).any (fun r =>
      ∀ m ∈ r.messages, m.details.value.FloatFree) = true := by
    decide +kernel
  obtain ⟨r, hr, hfloat⟩ := (Option.any_eq_true _ _).mp hread
  have hfloat := of_decide_eq_true hfloat
  have hnone : Receipt.ofFile? "link" none = none := rfl
  have hfiles : files = some Receipt.positionalText :: none :: [some ""] := rfl
  have hleading : leading "link" files = first := by
    rw [hfiles, leading_cons_of_some hr, leading_cons_of_none hnone]
  have hfound : receipts "link" files = [r] := by
    rw [hfiles, receipts_cons_of_some hr, receipts, leading_cons_of_none hnone]
    rfl
  have nothing := (run_prints_leading none environment []).1 (.inr rfl)
  obtain ⟨-, -, hexit, hback, -⟩ :=
    (run_prints_leading none environment files).2 _ hload (by simp [files])
  obtain ⟨-, -, -, -, hfailing, -⟩ :=
    (run_prints_leading none environment first).2 _ hload (by simp [first])
  have hhrp : ChainSettings.hrp ⟨true, none⟩ = "link" := rfl
  rw [hhrp, hleading] at hexit
  rw [hhrp, hfound] at hback
  exact ⟨hload, nothing, r, hfound, hfloat, hexit, hback (List.forall_mem_singleton.mpr hfloat),
    hfailing none [some ""] (hhrp ▸ hnone)⟩

end TxReceipt
