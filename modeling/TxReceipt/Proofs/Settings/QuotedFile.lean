import Mathlib.Data.List.TakeWhile
import TxReceipt.Proofs.Settings.Yaml.Quoted
import TxReceipt.Settings.Basic

/-!
# A file with a quoted text

`quotingFile` is a file of settings that names the network and holds a text between double quotes.
The lines before the text are cut into tokens turn by turn, and `load_quotingFile` says that the
settings that are loaded hold the text, whatever it is.
-/

namespace TxReceipt.Settings

namespace Yaml

/-- A token stands at the place: a key that may have begun can still reach to it, and no block ends
before it. -/
structure Layout.AtToken (s : Layout) : Prop where
  keepsKey : s.forgetStaleKey? = some s
  inBlocks : s.closeBlocks s.cursor.column = s
  goesOn : s.cursor.rest.isEmpty = false

theorem Layout.tokens?_of_cut? {s t u : Layout} {fuel : Nat} (hskip : s.skipVoid? = some t)
    (ht : t.AtToken) (hcut : t.cut? = some u) : s.tokens? (fuel + 1) = u.tokens? fuel := by
  rw [Layout.tokens?, hskip]
  simp only [Option.bind_eq_bind, Option.bind_some, ht.keepsKey, ht.inBlocks, ht.goesOn, hcut]
  rfl

def chainName : List Char :=
  ['c', 'h', 'a', 'i', 'n']

def networkName : List Char :=
  ['i', 's', '_', 'm', 'a', 'i', 'n', '_', 'n', 'e', 't']

def overrideName : List Char :=
  ['b', 'e', 'c', 'h', '3', '2', '_', 'h', 'r', 'p']

def truthWord : Bool → List Char
  | true => ['t', 'r', 'u', 'e']
  | false => ['f', 'a', 'l', 's', 'e']

/-- The value of the override and the end of its line, the last one. -/
def overrideValue (cs : List Char) : List Char :=
  '"' :: (quoted cs ++ ['"', '\n'])

def overrideLine (cs : List Char) : List Char :=
  overrideName ++ ':' :: ' ' :: overrideValue cs

def networkValue (isMainNet : Bool) (cs : List Char) : List Char :=
  ':' :: ' ' :: (truthWord isMainNet ++ '\n' :: ' ' :: ' ' :: overrideLine cs)

def chainValue (isMainNet : Bool) (cs : List Char) : List Char :=
  ':' :: '\n' :: ' ' :: ' ' :: (networkName ++ networkValue isMainNet cs)

/-- The lines of a file that names the network and holds a text between double quotes. -/
def quotingLines (isMainNet : Bool) (cs : List Char) : List Char :=
  chainName ++ chainValue isMainNet cs

def chainTokens : List Token :=
  [.blockMappingStart, .key, .plain chainName, .value]

def networkTokens (isMainNet : Bool) : List Token :=
  chainTokens ++
    [.blockMappingStart, .key, .plain networkName, .value, .plain (truthWord isMainNet)]

/-- The tokens in front of the quoted text. -/
def frontTokens (isMainNet : Bool) : List Token :=
  networkTokens isMainNet ++ [.key, .plain overrideName, .value]

def fileStart (isMainNet : Bool) (cs : List Char) : Layout :=
  .mk ⟨quotingLines isMainNet cs, 0, 0, 0, true⟩ [] [] none [] true 0 false [] false

def behindChainName (isMainNet : Bool) (cs : List Char) : Layout :=
  .mk ⟨chainValue isMainNet cs, 0, 5, 5, false⟩ [.plain chainName] [] (some ⟨0, 0, 0, 0, false⟩) []
    false 0 false [] false

def behindChain (isMainNet : Bool) (cs : List Char) : Layout :=
  .mk ⟨(chainValue isMainNet cs).tail, 0, 6, 6, false⟩ chainTokens [⟨1, false⟩, ⟨0, true⟩] none []
    false 0 false [] false

def atNetworkName (isMainNet : Bool) (cs : List Char) : Layout :=
  .mk ⟨networkName ++ networkValue isMainNet cs, 1, 2, 9, true⟩ chainTokens
    [⟨1, false⟩, ⟨0, true⟩] none [] true 0 false [] false

def behindNetworkName (isMainNet : Bool) (cs : List Char) : Layout :=
  .mk ⟨networkValue isMainNet cs, 1, 13, 20, false⟩ (chainTokens ++ [.plain networkName])
    [⟨0, true⟩] (some ⟨4, 1, 2, 9, false⟩) [] false 0 false [] false

def behindNetwork (isMainNet : Bool) (cs : List Char) : Layout :=
  .mk ⟨(networkValue isMainNet cs).tail, 1, 14, 21, false⟩
    (chainTokens ++ [.blockMappingStart, .key, .plain networkName, .value])
    [⟨3, false⟩, ⟨2, true⟩, ⟨0, true⟩] none [] false 0 false [] false

def atNetworkWord (isMainNet : Bool) (cs : List Char) : Layout :=
  .mk ⟨(networkValue isMainNet cs).drop 2, 1, 15, 22, false⟩
    (chainTokens ++ [.blockMappingStart, .key, .plain networkName, .value])
    [⟨3, false⟩, ⟨2, true⟩, ⟨0, true⟩] none [] false 0 false [] false

def atOverrideName (isMainNet : Bool) (cs : List Char) : Layout :=
  .mk ⟨overrideLine cs, 2, 2, 25 + (truthWord isMainNet).length, true⟩ (networkTokens isMainNet)
    [⟨2, true⟩, ⟨0, true⟩] none [] true 0 false [] false

def behindOverrideName (isMainNet : Bool) (cs : List Char) : Layout :=
  .mk ⟨(overrideLine cs).drop 10, 2, 12, 35 + (truthWord isMainNet).length, false⟩
    (networkTokens isMainNet ++ [.plain overrideName]) [⟨2, true⟩, ⟨0, true⟩]
    (some ⟨9, 2, 2, 25 + (truthWord isMainNet).length, true⟩) [] false 0 false [] false

def behindOverride (isMainNet : Bool) (cs : List Char) : Layout :=
  .mk ⟨(overrideLine cs).drop 11, 2, 13, 36 + (truthWord isMainNet).length, false⟩
    (frontTokens isMainNet) [⟨3, false⟩, ⟨2, true⟩, ⟨0, true⟩] none [] false 0 false [] false

def atText (isMainNet : Bool) (cs : List Char) : Layout :=
  .mk ⟨overrideValue cs, 2, 14, 37 + (truthWord isMainNet).length, false⟩ (frontTokens isMainNet)
    [⟨3, false⟩, ⟨2, true⟩, ⟨0, true⟩] none [] false 0 false [] false

def fileEnd (isMainNet : Bool) (cs : List Char) (offset : Nat) : Layout :=
  .mk ⟨[], 3, 0, offset, true⟩ (frontTokens isMainNet ++ [.quoted (String.ofList cs)])
    [⟨3, false⟩, ⟨2, true⟩, ⟨0, true⟩] none [] true offset false [] false

variable {isMainNet : Bool} {cs : List Char} {fuel : Nat}

theorem tokens?_chain :
    (fileStart isMainNet cs).tokens? (fuel + 2) = (behindChain isMainNet cs).tokens? fuel := by
  have hname : (fileStart isMainNet cs).cut? = some (behindChainName isMainNet cs) := rfl
  have hcolon : (behindChainName isMainNet cs).cut? = some (behindChain isMainNet cs) := rfl
  rw [Layout.tokens?_of_cut? rfl ⟨rfl, rfl, rfl⟩ hname]
  exact Layout.tokens?_of_cut? rfl ⟨rfl, rfl, rfl⟩ hcolon

theorem tokens?_network :
    (behindChain isMainNet cs).tokens? (fuel + 3) = (atOverrideName isMainNet cs).tokens? fuel := by
  have hname : (atNetworkName isMainNet cs).cut? = some (behindNetworkName isMainNet cs) := rfl
  have hcolon : (behindNetworkName isMainNet cs).cut? = some (behindNetwork isMainNet cs) := rfl
  have hspace : (behindNetwork isMainNet cs).skipVoid? = some (atNetworkWord isMainNet cs) := by
    cases isMainNet <;> rfl
  have hword : (atNetworkWord isMainNet cs).cut? = some (atOverrideName isMainNet cs) := by
    cases isMainNet <;> rfl
  rw [Layout.tokens?_of_cut? (t := atNetworkName isMainNet cs) rfl ⟨rfl, rfl, rfl⟩ hname,
    Layout.tokens?_of_cut? rfl ⟨rfl, rfl, rfl⟩ hcolon]
  exact Layout.tokens?_of_cut? hspace ⟨rfl, rfl, by cases isMainNet <;> rfl⟩ hword

theorem tokens?_override : (atOverrideName isMainNet cs).tokens? (fuel + 2) =
    (behindOverride isMainNet cs).tokens? fuel := by
  have hname : (atOverrideName isMainNet cs).cut? = some (behindOverrideName isMainNet cs) := by
    cases isMainNet <;> rfl
  have hcolon : (behindOverrideName isMainNet cs).cut? = some (behindOverride isMainNet cs) := by
    cases isMainNet <;> rfl
  rw [Layout.tokens?_of_cut? rfl ⟨rfl, rfl, rfl⟩ hname]
  exact Layout.tokens?_of_cut? rfl ⟨by cases isMainNet <;> rfl, rfl, rfl⟩ hcolon

theorem cut?_atText :
    ∃ offset, (atText isMainNet cs).cut? = some (fileEnd isMainNet cs offset) := by
  have hindent : (3 : Int) ≤ ((atText isMainNet cs).cursor.column : Int) :=
    (by decide : (3 : Int) ≤ ((14 : Nat) : Int))
  obtain ⟨⟨_, _, column, offset, isFresh⟩, htake, rfl, rfl, -⟩ :
      ∃ q, takeQuoted? false 3 (atText isMainNet cs).cursor = some (String.ofList cs, q) ∧
        (atText isMainNet cs).cursor.Ahead q ['\n'] :=
    takeQuoted?_quoted rfl hindent
  refine ⟨offset + 1, ?_⟩
  have hcut : (atText isMainNet cs).cut? =
      (takeQuoted? false 3 (atText isMainNet cs).cursor).bind fun r =>
        ((((atText isMainNet cs).saveKey.allowKey false).goTo r.2).skipVoid?).bind fun s =>
          some ({ s with valueOffset := s.cursor.offset }.push (.quoted r.1)) := rfl
  rw [hcut, htake]
  rfl

/-- The quoted text is one more token, behind which the file ends. -/
theorem tokens?_text : (behindOverride isMainNet cs).tokens? (fuel + 2) =
    some (frontTokens isMainNet ++ [.quoted (String.ofList cs), .blockEnd, .blockEnd]) := by
  obtain ⟨offset, hcut⟩ := @cut?_atText isMainNet cs
  have hspace : (behindOverride isMainNet cs).skipVoid? = some (atText isMainNet cs) := by
    cases isMainNet <;> rfl
  rw [Layout.tokens?_of_cut? hspace ⟨rfl, rfl, rfl⟩ hcut]
  rfl

theorem ne_nul_of_mem_quotingLines {c : Char} (h : c ∈ quotingLines isMainNet cs) :
    (c != '\x00') = true := by
  rw [bne_iff_ne]
  rintro rfl
  have hword : '\x00' ∉ truthWord isMainNet := by cases isMainNet <;> decide
  simp [quotingLines, chainValue, networkValue, overrideLine, overrideValue, chainName, networkName,
    overrideName, hword, not_mem_quoted] at h

theorem ofChars?_quotingLines : Token.ofChars? (quotingLines isMainNet cs) =
    some (frontTokens isMainNet ++ [.quoted (String.ofList cs), .blockEnd, .blockEnd]) := by
  have hstart : Layout.ofChars (quotingLines isMainNet cs) = fileStart isMainNet cs := by
    have hall : (quotingLines isMainNet cs).takeWhile (· != '\x00') =
        quotingLines isMainNet cs :=
      List.takeWhile_eq_self_iff.mpr fun c => ne_nul_of_mem_quotingLines
    rw [Layout.ofChars, Cursor.ofChars, hall]
    rfl
  obtain ⟨fuel, hfuel⟩ : ∃ fuel, (quotingLines isMainNet cs).length + 2 = fuel + 9 :=
    ⟨(chainValue isMainNet cs).length - 2, by
      simp [quotingLines, chainName, chainValue]⟩
  rw [Token.ofChars?, hstart, hfuel, tokens?_chain, tokens?_network, tokens?_override, tokens?_text]

def quotingRoot (isMainNet : Bool) (s : String) : Node :=
  .table [("chain", .table [("is_main_net", .bool isMainNet), ("bech32_hrp", .text s)])]

theorem ofTokens?_front {s : String} :
    Contents.ofTokens? (frontTokens isMainNet ++ [.quoted s, .blockEnd, .blockEnd]) =
      some (.document (.node (quotingRoot isMainNet s))) := by
  cases isMainNet <;> rfl

end Yaml

/-- A file that names the network and holds a text between double quotes. -/
def quotingFile (isMainNet : Bool) (s : String) : String :=
  String.ofList (Yaml.quotingLines isMainNet s.toList)

example : quotingFile true "007 \"x\"" =
    "chain:\n  is_main_net: true\n  bech32_hrp: \"007 \\\"x\\\"\"\n" := by
  decide +kernel

variable {isMainNet : Bool} {s : String}

theorem ofText?_quotingFile :
    Yaml.ofText? (quotingFile isMainNet s) = some (Yaml.quotingRoot isMainNet s) := by
  have hunmarked :
      Yaml.unmarked (quotingFile isMainNet s) = Yaml.quotingLines isMainNet s.toList := by
    rw [Yaml.unmarked, quotingFile, String.toList_ofList]
    rfl
  rw [Yaml.ofText?, hunmarked, Yaml.ofChars?_quotingLines, String.ofList_toList]
  simp only [Option.bind_eq_bind, Option.bind_some, Yaml.ofTokens?_front]
  rfl

theorem rootOfFile_quotingFile :
    rootOfFile (some (quotingFile isMainNet s)) = .ok (Yaml.quotingRoot isMainNet s) := by
  have hpath : pathOfName "chain".toList = [.field "chain"] := by decide +kernel
  rw [rootOfFile, ofText?_quotingFile]
  simp only [Yaml.quotingRoot, List.foldl_cons, List.foldl_nil, hpath]
  rfl

theorem load_quotingFile :
    load (some (quotingFile isMainNet s)) [] = .ok ⟨isMainNet, some s⟩ := by
  rw [load, rootOfFile_quotingFile]
  rfl

end TxReceipt.Settings
