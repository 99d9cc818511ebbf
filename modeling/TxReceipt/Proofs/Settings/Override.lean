import TxReceipt.Proofs.Except
import TxReceipt.Proofs.Settings.QuotedFile
import TxReceipt.Proofs.Settings.Recast

/-!
# The override of what texts of addresses start with

A variable of the environment can set what the texts of addresses start with.
`hrp_override_recast` says which settings are loaded then: they hold what the variable's value is
recast to, and so a file that holds the value between double quotes gives the same settings only if
recasting leaves the value as it is. The network stays the one that the file names.
-/

namespace TxReceipt.Settings

namespace Node

variable {key other : String} {change : Node → Node} {fs : List (String × Node)} {v : Node}
  {s : String}

theorem field?_cons {f : String × Node} :
    field? (f :: fs) key = if f.1 = key then some f.2 else field? fs key := by
  by_cases h : f.1 = key <;> simp [field?, h]

theorem field?_update_self :
    field? (update key change fs) key = some (change ((field? fs key).getD .nil)) := by
  induction fs with
  | nil => simp [update, field?]
  | cons f fs ih =>
    rw [update, field?_cons]
    by_cases h : f.1 = key
    · rw [if_pos h, if_pos h, field?_cons, if_pos rfl]
      rfl
    · rw [if_neg h, if_neg h, field?_cons, if_neg h, ih]

theorem field?_update_of_ne (hne : key ≠ other) :
    field? (update key change fs) other = field? fs other := by
  induction fs with
  | nil => simp [update, field?, hne]
  | cons f fs ih =>
    rw [update, field?_cons]
    by_cases h : f.1 = key
    · rw [if_pos h, field?_cons, if_neg hne, if_neg (h ▸ hne)]
    · rw [if_neg h, field?_cons, ih]

/-- A node that is a text in its place replaces what is there. -/
theorem mergeInto_of_asText? {old : Node} (h : v.asText? = some s) : mergeInto old v = v := by
  cases v with
  | nil | list | table => cases h
  | bool | int | float | text => rfl

end Node

open Node (field?)

variable {file : Option String} {environment : Environment} {root : Node} {c : ChainSettings}
  {s t : String}

theorem readText_of_asText? {v : Node} (h : v.asText? = some t) :
    readText (some v) = .ok (some t) := by
  cases v with
  | nil | list | table => cases h
  | bool | int | float | text => simp only [readText, h]

def hrpVariable : String :=
  "TX_RESULT__CHAIN__BECH32_HRP"

def hrpPath : List Node.Step :=
  [.field "chain", .field "bech32_hrp"]

def isSetting (v : String × String) : Bool :=
  (settingName? v.1).isSome

/-- Variables that set nothing do nothing. -/
theorem override_filter_isSetting :
    override (environment.filter isSetting) root = override environment root := by
  rw [override, override, List.foldl_filter]
  congr 1
  funext root v
  cases h : settingName? v.1 <;> simp [isSetting, h]

theorem override_of_only (only : environment.filter isSetting = [(hrpVariable, s)]) :
    override environment root = root.set hrpPath (nodeOfVariable s) := by
  have hname : settingName? hrpVariable = some "chain__bech32_hrp".toList := by decide +kernel
  have hpath : pathOfName (pointed "chain__bech32_hrp".toList) = hrpPath := by decide +kernel
  rw [← override_filter_isSetting, only, override]
  simp only [List.foldl_cons, List.foldl_nil, hname, hpath]

/-- The fields of the table that gives the settings of the chain, none without such a table. -/
def chainFields (root : Node) : List (String × Node) :=
  ((field? root.fields "chain").getD .nil).fields

theorem ofRoot_set_hrpPath {v : Node} (h : v.asText? = some t) : ofRoot (root.set hrpPath v) =
    (readBool (field? (chainFields root) "is_main_net")).map fun b => ⟨b, some t⟩ := by
  have hne : "bech32_hrp" ≠ "is_main_net" := by decide
  have hset : root.set hrpPath v = .table (Node.update "chain"
      (fun chain => .table (Node.update "bech32_hrp" (fun _ => v) chain.fields)) root.fields) := by
    simp only [hrpPath, Node.set, Node.mergeInto_of_asText? h]
  rw [hset, ofRoot, Node.fields, Node.field?_update_self]
  simp only [ofChain, Node.field?_update_of_ne hne, Node.field?_update_self, readText_of_asText? h]
  rw [chainFields]
  rfl

/-- The file gives the settings of the chain in their order, without their names. -/
def ListsChain (file : Option String) : Prop :=
  ∃ root items, rootOfFile file = .ok root ∧ field? root.fields "chain" = some (.list items)

theorem listsChain_iff (hroot : rootOfFile file = .ok root) :
    ListsChain file ↔ ∃ items, field? root.fields "chain" = some (.list items) := by
  constructor
  · rintro ⟨_, items, hroot', hlist⟩
    cases hroot.symm.trans hroot'
    exact ⟨items, hlist⟩
  · rintro ⟨items, hlist⟩
    exact ⟨root, items, hroot, hlist⟩

/-- Settings that load by themselves load under the override, with their network, unless it stands
in a list, which the override replaces by a table. -/
theorem exists_network_of_load (loads : load file [] = .ok c) : ∃ root b,
    rootOfFile file = .ok root ∧ readBool (field? (chainFields root) "is_main_net") = .ok b ∧
      (b = true ↔ c.isMainNet = true ∧ ¬ ListsChain file) := by
  cases hroot : rootOfFile file with
  | error e =>
    rw [load, hroot] at loads
    cases loads
  | ok root =>
    have hload : ofRoot root = .ok c := by
      rw [load, hroot] at loads
      exact loads
    rw [ofRoot] at hload
    rw [listsChain_iff hroot]
    cases hchain : field? root.fields "chain" with
    | none =>
      rw [hchain] at hload
      cases hload
      exact ⟨root, false, rfl, by rw [chainFields, hchain]; rfl, by simp [ChainSettings.default]⟩
    | some chain =>
      rw [hchain] at hload
      cases chain with
      | table fields =>
        obtain ⟨b, hb, hload⟩ := bind_eq_ok_iff.mp hload
        obtain ⟨hrp, _, hload⟩ := bind_eq_ok_iff.mp hload
        cases hload
        exact ⟨root, b, rfl, by rw [chainFields, hchain]; exact hb, by simp⟩
      | list items => exact ⟨root, false, rfl, by rw [chainFields, hchain]; rfl, by simp⟩
      | nil | bool | int | float | text => cases hload

theorem load_eq_ok_iff_of_only {loaded : ChainSettings}
    (only : environment.filter isSetting = [(hrpVariable, s)]) (hrecast : Recast s t) :
    load file environment = .ok loaded ↔ ∃ root b, rootOfFile file = .ok root ∧
      readBool (field? (chainFields root) "is_main_net") = .ok b ∧ ⟨b, some t⟩ = loaded := by
  have htext := asText?_nodeOfVariable.mpr hrecast
  simp only [load, override_of_only only, ofRoot_set_hrpPath htext, bind_eq_ok_iff, map_eq_ok_iff,
    exists_and_left]

theorem hrp_of_recast {b : Bool} (hrecast : Recast s t) :
    (ChainSettings.mk b (some t)).hrp =
      if Text.trim s = "" then (ChainSettings.mk b (some t)).network.hrp else Text.trim t := by
  simp only [ChainSettings.hrp, hrecast.trim_eq_empty_iff]

/-- Where the override is the only variable of a setting, the settings hold the one text that its
value is recast to. A file that holds the value between double quotes gives the settings with the
value itself, and so the same ones exactly if recasting does nothing to it. -/
theorem hrp_override_recast (only : environment.filter isSetting = [(hrpVariable, s)]) :
    ∃ t, (∀ t', Recast s t' ↔ t' = t) ∧
      (∀ c, load file [] = .ok c → ∃ loaded, load file environment = .ok loaded ∧
        (loaded.isMainNet = true ↔ c.isMainNet = true ∧ ¬ ListsChain file)) ∧
      ∀ loaded, load file environment = .ok loaded →
        loaded.hrpOverride = some t ∧
        load (some (quotingFile loaded.isMainNet s)) [] = .ok ⟨loaded.isMainNet, some s⟩ ∧
        (load (some (quotingFile loaded.isMainNet s)) [] = load file environment ↔ t = s) ∧
        loaded.hrp = if Text.trim s = "" then loaded.network.hrp else Text.trim t := by
  obtain ⟨t, hrecast⟩ := exists_recast s
  refine ⟨t, fun t' => ⟨fun h => h.unique hrecast, fun h => h ▸ hrecast⟩, ?_, ?_⟩
  · -- Settings load.
    intro c loads
    obtain ⟨root, b, hroot, hnetwork, hb⟩ := exists_network_of_load loads
    exact ⟨⟨b, some t⟩,
      (load_eq_ok_iff_of_only only hrecast).mpr ⟨root, b, hroot, hnetwork, rfl⟩, hb⟩
  · -- Whichever settings load hold the recast value.
    intro loaded loads
    obtain ⟨_, b, _, _, rfl⟩ := (load_eq_ok_iff_of_only only hrecast).mp loads
    refine ⟨rfl, load_quotingFile, ?_, hrp_of_recast hrecast⟩
    rw [load_quotingFile, loads, Except.ok.injEq, ChainSettings.mk.injEq, Option.some.injEq]
    exact ⟨fun h => h.2.symm, fun h => ⟨rfl, h.symm⟩⟩

/-- A plus sign is lost. -/
theorem plus_sign_of_override_recast :
    ∃ loaded, load none [("PATH", "/bin"), (hrpVariable, "+5")] = .ok loaded ∧
      loaded.hrpOverride = some "5" ∧ loaded.hrp = "5" ∧
      load (some (quotingFile loaded.isMainNet "+5")) [] ≠ .ok loaded := by
  have honly :
      [("PATH", "/bin"), (hrpVariable, "+5")].filter isSetting = [(hrpVariable, "+5")] := by
    decide +kernel
  obtain ⟨t, ht, hkept, hloaded⟩ := @hrp_override_recast none _ _ honly
  have hfive : Recast "+5" (String.ofList (Text.intChars 5)) :=
    .integer ⟨['+'], by decide, 0, by decide +kernel⟩ (by decide)
  obtain rfl : "5" = t := (ht "5").mp hfive
  obtain ⟨loaded, loads, -⟩ := hkept .default rfl
  obtain ⟨hoverride, -, hquoted, hhrp⟩ := hloaded loaded loads
  rw [loads] at hquoted
  exact ⟨loaded, loads, hoverride, hhrp, mt hquoted.mp (by decide)⟩

/-- Zeros in front are lost, in a file they stay. -/
theorem leading_zeros_of_override_dropped :
    load none [(hrpVariable, "007")] = .ok ⟨false, some "7"⟩ ∧
    (ChainSettings.mk false (some "7")).hrp = "7" ∧
    load (some (quotingFile false "007")) [] = .ok ⟨false, some "007"⟩ ∧
    load none [(hrpVariable, "007")] ≠ load (some (quotingFile false "007")) [] := by
  have hload : load none [(hrpVariable, "007")] = .ok ⟨false, some "7"⟩ := by decide +kernel
  refine ⟨hload, by decide +kernel, load_quotingFile, ?_⟩
  rw [hload, load_quotingFile]
  decide

end TxReceipt.Settings
