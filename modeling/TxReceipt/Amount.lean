import TxReceipt.Text.Numeral
import TxReceipt.Token

/-!
# Amounts in events

Fungible tokens of collections are counted by texts `amount:token id`, coins by texts such as
`1000tcony`.
-/

namespace TxReceipt

structure CompositeAmount where
  amount : String
  tokenId : String
  deriving DecidableEq

namespace CompositeAmount

/-- What stands before the first colon is the amount, what stands after it the id. Without a colon
all is amount. -/
def parse (raw : String) : CompositeAmount :=
  let cs := raw.toList
  ⟨String.ofList (cs.takeWhile (· != ':')), String.ofList (cs.dropWhile (· != ':')).tail⟩

/-- The type of the token, empty if its id has none. -/
def tokenType (a : CompositeAmount) : String :=
  Token.typeOr a.tokenId ""

end CompositeAmount

structure CoinAmount where
  amount : String
  denomination : String
  deriving DecidableEq

namespace CoinAmount

/-- The letters, digits and the underscore of ASCII. -/
def isDenominationChar (c : Char) : Bool :=
  c.isAlphanum || c == '_'

/-- Digits are the amount, the rest is the denomination; both are empty where either part would be,
or where the rest is no word. -/
def parse (raw : String) : CoinAmount :=
  let amount := raw.toList.takeWhile Text.isDigit
  let denomination := raw.toList.dropWhile Text.isDigit
  if amount ≠ [] ∧ denomination ≠ [] ∧ denomination.all isDenominationChar then
    ⟨String.ofList amount, String.ofList denomination⟩
  else ⟨"", ""⟩

end CoinAmount

end TxReceipt
