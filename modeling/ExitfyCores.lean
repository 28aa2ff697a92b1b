import ExitfyCores.Lib.Regex
import ExitfyCores.Lib.GoString
import ExitfyCores.Lib.GoError
import ExitfyCores.Lib.History
import ExitfyCores.Lib.Checked
import ExitfyCores.Lib.Raise
import ExitfyCores.Lib.Git
import ExitfyCores.Lib.PyJson
import ExitfyCores.Lib.PathOrder
import ExitfyCores.Bridge.SecretPatterns
import ExitfyCores.Bridge.JsonScanner
import ExitfyCores.Bridge.SafeError
import ExitfyCores.Lifecycle.Xray
import ExitfyCores.Lifecycle.SingBox
import ExitfyCores.Elf.Reader
import ExitfyCores.Elf.HashTables
import ExitfyCores.Elf.Inspection
import ExitfyCores.Elf.Loader
import ExitfyCores.Bundle.RawTar
import ExitfyCores.Bundle.Audit
import ExitfyCores.Bundle.Names
import ExitfyCores.Bundle.Topology
import ExitfyCores.Bundle.Builder
import ExitfyCores.Bundle.Pax
import ExitfyCores.Bundle.Limits
import ExitfyCores.Proofs.XrayLifecycle
import ExitfyCores.Proofs.SingBoxLifecycle
import ExitfyCores.Proofs.ElfInspection
import ExitfyCores.Proofs.ElfExports
import ExitfyCores.Proofs.ElfImage
import ExitfyCores.Proofs.ManifestChecks
import ExitfyCores.Proofs.BundleCanonical
import ExitfyCores.Proofs.TopologyCheck
import ExitfyCores.Proofs.BuilderWalk
import ExitfyCores.Proofs.BuilderHeaders
import ExitfyCores.Proofs.BuilderOrder
import ExitfyCores.Proofs.BuilderLimits
import ExitfyCores.Release.DraftState
import ExitfyCores.Proofs.Reservation
import ExitfyCores.Release.PublishHead
import ExitfyCores.Proofs.PublishHead
import ExitfyCores.Release.Schedule
import ExitfyCores.Proofs.Schedule
import ExitfyCores.Lib.PyJsonText
import ExitfyCores.Lib.PyCodec
import ExitfyCores.Lib.PyJsonRoundTrip
import ExitfyCores.Lib.Interaction
import ExitfyCores.Retirement.Api
import ExitfyCores.Retirement.Retire
import ExitfyCores.Lib.PyJsonDigits
import ExitfyCores.Proofs.Snapshot
import ExitfyCores.Proofs.RetirementGuard
import ExitfyCores.Retirement.Server
import ExitfyCores.Proofs.Receipt
import ExitfyCores.Proofs.RetirementResume
import ExitfyCores.Proofs.PlainServer
import ExitfyCores.Bundle.Payload
import ExitfyCores.Proofs.PayloadScanners
import ExitfyCores.Proofs.PayloadScan
import ExitfyCores.Proofs.IntelHexGrammar
import ExitfyCores.Proofs.PdfObjectGrammar
import ExitfyCores.Proofs.RawTarGrammar
import ExitfyCores.Release.ReadyDraft
import ExitfyCores.Proofs.ReadyDraft
import ExitfyCores.Bundle.GitIndex
import ExitfyCores.Proofs.GitIndex
import ExitfyCores.Elf.Domain
import ExitfyCores.Proofs.ElfTotality
import ExitfyCores.Lib.PyFloat
import ExitfyCores.Lib.PyEqual
import ExitfyCores.Release.Handoff
import ExitfyCores.Proofs.Handoff
import ExitfyCores.Lib.Sha256
import ExitfyCores.Proofs.HandoffImage
import ExitfyCores.Release.RemoteRelease
import ExitfyCores.Release.PublishedCandidate
import ExitfyCores.Proofs.RemoteRelease
import ExitfyCores.Proofs.Custody
import ExitfyCores.Proofs.PublishedChain
import ExitfyCores.Lib.MarkedWalk
import ExitfyCores.Proofs.GnuWalk
import ExitfyCores.Lib.JsonGrammar
import ExitfyCores.Proofs.JsonKey
import ExitfyCores.Lib.JsonTokens
import ExitfyCores.Proofs.JsonScan
import ExitfyCores.Proofs.JsonRedaction
import ExitfyCores.Lib.JsonTree
import ExitfyCores.Proofs.JsonExact
import ExitfyCores.Bundle.Vendor
import ExitfyCores.Proofs.VendorAccounting
import ExitfyCores.Lib.Interleaving
import ExitfyCores.Release.Files
import ExitfyCores.Proofs.StableRead
import ExitfyCores.Proofs.CopyRegular
import ExitfyCores.Proofs.ClosedErrors
import ExitfyCores.Lib.Numerals
import ExitfyCores.Proofs.PaxPayload
import ExitfyCores.Lib.WeakOrder
import ExitfyCores.Ndk.Discovery
import ExitfyCores.Proofs.NdkVersions
import ExitfyCores.Process.System
import ExitfyCores.Process.BoundedCommand
import ExitfyCores.Proofs.BoundedCommand
import ExitfyCores.Proofs.ErrorSecrets
import ExitfyCores.Bundle.TarWriter
import ExitfyCores.Proofs.TarRoundTrip
import ExitfyCores.Proofs.BuiltAudit
import ExitfyCores.Lib.CommitGraph
import ExitfyCores.Public.Checks
import ExitfyCores.Public.Repository
import ExitfyCores.Public.Checkout
import ExitfyCores.Proofs.PublicFile
import ExitfyCores.Proofs.PublicListing
import ExitfyCores.Proofs.PublicAudit
import ExitfyCores.Proofs.PublicHistory
import ExitfyCores.Lib.Moments
import ExitfyCores.Bundle.Publish
import ExitfyCores.Proofs.Publish
