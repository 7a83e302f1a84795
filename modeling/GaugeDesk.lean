import GaugeDesk.Settlement.SettlementReceipts
import GaugeDesk.Settlement.SettlementTerminal
import GaugeDesk.Settlement.SettlementPreflight
import GaugeDesk.Settlement.SettlementAgreement
import GaugeDesk.Settlement.LaneInvariant
import GaugeDesk.ModelConnection.Overruns
import GaugeDesk.ModelConnection.Handles
import GaugeDesk.Store.Serializable
import GaugeDesk.Store.AtMostOnce
import GaugeDesk.Store.Outbox
import GaugeDesk.Store.Requests
import GaugeDesk.Store.PairRelocation
import GaugeDesk.Journal.Dispositions
import GaugeDesk.Store.AuthorizationFence
import GaugeDesk.Plan.PlanSettlement
import GaugeDesk.Vault.VaultHistory
import GaugeDesk.Lifecycles.ClosedLifecycles
import GaugeDesk.Machine.Reservation
import GaugeDesk.Signing.HostRegistration
import GaugeDesk.Signing.ProtectedProfile
import GaugeDesk.Signing.ExportManifest
import GaugeDesk.External.FolderApply
import GaugeDesk.Advancement.AutoAdvance
import GaugeDesk.Settlement.CandidateDigest
import GaugeDesk.Audit.AuditTampering
import GaugeDesk.Account.RouteReconcile
import GaugeDesk.ModelConnection.Candidates
import GaugeDesk.ModelConnection.Folding
import GaugeDesk.ModelConnection.Picker
import GaugeDesk.Relay.ChunkedBodies
import GaugeDesk.Plan.PlanProgress
import GaugeDesk.Account.RootChain
import GaugeDesk.Store.ChainedRecords
import GaugeDesk.Governance.EnvelopeSupply
import GaugeDesk.Relay.WireFrames
import GaugeDesk.Store.ClaimOwnership
import GaugeDesk.Audit.AuditExport
import GaugeDesk.Store.PrefixScan
import GaugeDesk.ModelConnection.CalendarMonth
