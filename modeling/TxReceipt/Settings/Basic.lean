import TxReceipt.Json.Record
import TxReceipt.Settings.Environment
import TxReceipt.Settings.Path
import TxReceipt.Settings.Yaml
import TxReceipt.Text.Blank

/-!
# Settings of the program

Settings say which network transactions belong to, and so what the texts of its addresses start
with. A file gives them, variables of the environment override it, and what neither says has a
default: the test network. `load` reads both.
-/

namespace TxReceipt

inductive Network where
  | main
  | test
  deriving DecidableEq

/-- What the texts of a network's addresses start with. -/
def Network.hrp : Network → String
  | .main => "link"
  | .test => "tlink"

structure ChainSettings where
  isMainNet : Bool
  hrpOverride : Option String
  deriving DecidableEq

namespace ChainSettings

/-- The test network. -/
def default : ChainSettings :=
  ⟨false, none⟩

def network (s : ChainSettings) : Network :=
  if s.isMainNet then .main else .test

/-- What the texts of addresses start with: the override without blanks at its ends, unless it is
blank, or what the network has. -/
def hrp (s : ChainSettings) : String :=
  match s.hrpOverride with
  | some text => if Text.trim text = "" then s.network.hrp else Text.trim text
  | none => s.network.hrp

open Json (Document Member ReadError) in
open Json.Document (readOption readText) in
/-- Reads settings of the chain that are given as data. -/
def read (d : Document) : Except ReadError ChainSettings :=
  (Json.Members.read
    (.cons (.optional ["is_main_net"] Json.Document.readBool false) <|
    .cons (.optional ["bech32_hrp"] (readOption readText) none) .nil) d).map
    fun (isMainNet, hrpOverride, _) => ⟨isMainNet, hrpOverride⟩

end ChainSettings

namespace Settings

inductive LoadError where
  | unreadable
  | unusable
  deriving DecidableEq

def LoadError.message : LoadError → String
  | .unreadable => "failed to read config file"
  | .unusable => "failed to parse config"

/-- The tree of a file, which has to be a table whose keys are names of paths; a file that is not
there is an empty one. -/
def rootOfFile : Option String → Except LoadError Node
  | none => .ok (.table [])
  | some text =>
    match Yaml.ofText? text with
    | some (.table fields) =>
      .ok (fields.foldl (fun root f => root.set (pathOfName f.1.toList) f.2) (.table []))
    | _ => .error .unreadable

def readBool : Option Node → Except LoadError Bool
  | none => .ok false
  | some node =>
    match node.asBool? with
    | some b => .ok b
    | none => .error .unusable

/-- The text of a node, `none` if it is absent or nil. -/
def readText : Option Node → Except LoadError (Option String)
  | none | some .nil => .ok none
  | some node =>
    match node.asText? with
    | some s => .ok (some s)
    | none => .error .unusable

/-- The settings of the chain: a table, or a list of them in their order. -/
def ofChain : Node → Except LoadError ChainSettings
  | .table fields => do
    let isMainNet ← readBool (Node.field? fields "is_main_net")
    let hrpOverride ← readText (Node.field? fields "bech32_hrp")
    return ⟨isMainNet, hrpOverride⟩
  | .list items => do
    let isMainNet ← readBool items[0]?
    let hrpOverride ← readText items[1]?
    return ⟨isMainNet, hrpOverride⟩
  | _ => .error .unusable

def ofRoot (root : Node) : Except LoadError ChainSettings :=
  match Node.field? root.fields "chain" with
  | none => .ok .default
  | some chain => ofChain chain

/-- The settings of a file, if it is there, and an environment. -/
def load (file : Option String) (environment : Environment) : Except LoadError ChainSettings := do
  let root ← rootOfFile file
  ofRoot (override environment root)

/-- The file that comes with the program. -/
def shippedFile : String :=
  "# Network the adapted transactions belong to. Selects the default bech32\n" ++
  "# prefix: \"link\" on main-net, \"tlink\" on test-net.\n" ++
  "chain:\n" ++
  "  is_main_net: false\n" ++
  "  # Uncomment to override the network default.\n" ++
  "  # bech32_hrp: \"tlink\"\n"

end Settings

end TxReceipt
