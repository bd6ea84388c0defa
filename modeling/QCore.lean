import QCore.MachineIntProofs
import QCore.SortedMapProofs
import QCore.HashMapProofs
import QCore.Utf8Proofs
import QCore.JsonProofs
import QCore.JsonGrammarProofs
import QCore.JsonAcceptProofs
import QCore.JsonRoundTripProofs
import QCore.SessionProofs
import QCore.SessionStateProofs
import QCore.SessionRestoreProofs
import QCore.SessionSpentProofs
import QCore.SessionImportProofs
import QCore.SessionRefusalProofs
import QCore.SigningStopProofs
import QCore.TransitionProofs
import QCore.DiskProofs
import QCore.OrderNonceProofs
import QCore.SigningRunProofs
import QCore.ProcessRunProofs
import QCore.TerminalRunProofs
import QCore.ByteMemoryProofs
import QCore.FallibleProofs
import QCore.CratesProofs
import QCore.ContractProofs
import QCore.QuorumProofs
import QCore.DecoderProofs
import QCore.FixedWidthProofs
import QCore.CertificateProofs
import QCore.CertificateCanonicalProofs
import QCore.FinalityProofs
import QCore.FinalitySafetyProofs
import QCore.FinalityExactProofs
import QCore.TraceProofs
import QCore.WireProofs
import QCore.RosterProofs
import QCore.ClientProofs
import QCore.TrustProofs
import QCore.RosterRunProofs
import QCore.AddressProofs
import QCore.HeadProofs
import QCore.ConfirmationProofs
import QCore.SigningProofs
import QCore.OrderProofs
import QCore.EntryPointProofs
import QCore.SubmissionProofs
import QCore.DeadlineExactProofs
import QCore.DeployFeeProofs
import QCore.DelimitedProofs
import QCore.OrderBindingProofs
import QCore.CallArgsProofs
import QCore.RosterOrderProofs
import QCore.CarriedTreeProofs
import QCore.PathPositionProofs
import QCore.PositionReportProofs
import QCore.RegroupProofs
import QCore.MnemonicProofs
import QCore.WordIndexProofs
import QCore.MnemonicRoundTripProofs
import QCore.HeadFloorProofs
import QCore.TransactionLeafProofs
import QCore.ScanProofs
import QCore.HttpProofs
import QCore.ChunkedBodyProofs
import QCore.HttpFramingProofs
import QCore.ResponseEndProofs
import QCore.HttpRoundTripProofs
import QCore.LookalikeProofs
import QCore.SlotKeyProofs
import QCore.SecureHashProofs
import QCore.Sha256Proofs
import QCore.SimulationProofs
import QCore.EntryRunProofs
import QCore.EntryStepProofs
import QCore.SharedSessionProofs
import QCore.AccountProofs
import QCore.ClientRunProofs
import QCore.AskedProofs
import QCore.CallChangeProofs
import QCore.AddressBookRunProofs
import QCore.FollowedProofs
import QCore.AgreementProofs
import QCore.HttpRequestProofs
import QCore.LoopbackProofs
import QCore.TypedOrderProofs
import QCore.TerminalProofs
import QCore.TerminalFileProofs
import QCore.QueryProofs
import QCore.ContractReadProofs
import QCore.DeployReadProofs
