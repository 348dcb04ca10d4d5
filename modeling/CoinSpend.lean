import CoinSpend.InputVerification
import CoinSpend.SignedMessage
import CoinSpend.Signer
import CoinSpend.TransactionJson
import CoinSpend.Proofs.CountedReading
import CoinSpend.Proofs.WireForm
import CoinSpend.Proofs.Commitment
import CoinSpend.Proofs.SigningRuns
import CoinSpend.Proofs.PrimeModuli
import CoinSpend.Proofs.ResidueField
import CoinSpend.Proofs.CurveGroup
import CoinSpend.Proofs.AcceptedSignatures
import CoinSpend.Proofs.DerForm
import CoinSpend.Proofs.KeyForm
import CoinSpend.Proofs.KeyHashSpends
import CoinSpend.Proofs.SignedSessions
import CoinSpend.Proofs.RunChecks
import CoinSpend.Proofs.StreamedPreimage
import CoinSpend.Proofs.KeyHashDecision
import CoinSpend.Proofs.ExtractedSpends
import CoinSpend.Proofs.PermittedEdits
import CoinSpend.Proofs.IndependentInputs
import CoinSpend.Proofs.RecoveredKeys
import CoinSpend.Proofs.TextForms
import CoinSpend.Proofs.Base64Form
import CoinSpend.Proofs.SignedMessages
import CoinSpend.Proofs.CanonicalScripts
import CoinSpend.Proofs.GuardedTexts
import CoinSpend.Proofs.WalletTexts
import CoinSpend.Proofs.SignatureFields
import CoinSpend.Proofs.MessageSignatureTexts
import CoinSpend.Proofs.DerLanguage
import CoinSpend.Proofs.KeyEncodings
import CoinSpend.Proofs.ObtainedSignatures
import CoinSpend.Proofs.TransactionTexts
import CoinSpend.Proofs.DecodingErrors
import CoinSpend.Proofs.AddressedScripts
import CoinSpend.Proofs.BatchSigning
import CoinSpend.Proofs.WrittenSignatures
import CoinSpend.Proofs.ScriptCuts
import CoinSpend.Proofs.ShortestScripts
import CoinSpend.Proofs.CompactSignatures
import CoinSpend.Proofs.RecoveryNumbers
import CoinSpend.Proofs.RecognisedScripts
import CoinSpend.Proofs.SucceedingRuns
import CoinSpend.Proofs.DefectiveScripts
import CoinSpend.Proofs.StackLimits
import CoinSpend.Proofs.LockingChecks
import CoinSpend.Proofs.StackFrames
import CoinSpend.Proofs.WireSize
import CoinSpend.Proofs.HexTexts
import CoinSpend.Proofs.ScriptTexts
import CoinSpend.Proofs.PackedWords
import CoinSpend.Proofs.TruthValues
import CoinSpend.Proofs.CompactForm
import CoinSpend.Proofs.ReadingRuns
