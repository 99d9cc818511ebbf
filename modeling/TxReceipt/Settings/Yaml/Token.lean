import TxReceipt.Settings.Yaml.Tag

/-!
# Tokens

What a text says, apart from its layout: the starts and ends of documents and collections, the marks
of keys, values and items, and the scalars. Blocks, which a text shows by indentation alone, have
tokens of their own.
-/

namespace TxReceipt.Settings.Yaml

inductive Token where
  | version
  | meaning (m : Tag.Meaning)
  | documentStart
  | documentEnd
  | blockSequenceStart
  | blockMappingStart
  | blockEnd
  | flowSequenceStart
  | flowSequenceEnd
  | flowMappingStart
  | flowMappingEnd
  | item
  | comma
  | key
  | value
  | anchor (name : String)
  | reference (name : String)
  | tag (t : Tag)
  | plain (text : List Char)
  | quoted (text : String)

end TxReceipt.Settings.Yaml
