import TxReceipt.Main
import TxReceipt.Proofs.Account.Address
import TxReceipt.Proofs.Extract.Agreement
import TxReceipt.Proofs.Extract.TokenIds
import TxReceipt.Proofs.Receipt.RoundTrip
import TxReceipt.Receipt.Read
import TxReceipt.Proofs.Json.LooseInteger
import TxReceipt.Proofs.Raw.ReadBack
import TxReceipt.Proofs.Amount
import TxReceipt.Proofs.Extract.Reconstruction
import TxReceipt.Proofs.Json.Respelling
import TxReceipt.Proofs.Raw.Respelling
import TxReceipt.Proofs.Extract.LogOrder
import TxReceipt.Proofs.Extract.ForeignEvents
import TxReceipt.Proofs.Account.Separation
import TxReceipt.Proofs.Account.Base64
import TxReceipt.Proofs.Receipt.Signers
import TxReceipt.Proofs.Account.Regrouping
import TxReceipt.Proofs.Json.Sequence
import TxReceipt.Proofs.Run
import TxReceipt.Proofs.Raw.KeySpelling
import TxReceipt.Proofs.Extract.KeySpelling
import TxReceipt.Proofs.Extract.Auxiliary
import TxReceipt.Proofs.Extract.Modification
import TxReceipt.Proofs.Extract.BurnRecovery
import TxReceipt.Proofs.Extract.BurnPaths
import TxReceipt.Proofs.Event.TokenParts
import TxReceipt.Proofs.Raw.Lookup
import TxReceipt.Proofs.Json.IntegerOutcome
import TxReceipt.Proofs.Raw.Collapse
import TxReceipt.Proofs.Event.WireForm
import TxReceipt.Proofs.Account.Amino
import TxReceipt.Proofs.Account.Uvarint
import TxReceipt.Proofs.Settings.Override
