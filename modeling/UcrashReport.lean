import UcrashReport.Common.Signature
import UcrashReport.Soundness.CrashSections
import UcrashReport.Rust.FileTree
import UcrashReport.Common.BuildId
import UcrashReport.Common.Types
import UcrashReport.Decoder.Symbols
import UcrashReport.Common.Database
import UcrashReport.Machine.Run
import UcrashReport.Server.Api
import UcrashReport.Decoder.PoolChanges
import UcrashReport.Soundness.FailedFetch
import UcrashReport.Soundness.PathContainment
import UcrashReport.Soundness.CompleteTrees
import UcrashReport.Soundness.BuildIdIndex
import UcrashReport.Decoder.Scrub
import UcrashReport.Decoder.Annotate
import UcrashReport.Common.CrashLines
import UcrashReport.Soundness.AnnotatedLines
import UcrashReport.Common.Files
import UcrashReport.Decoder.Decode
import UcrashReport.Decoder.Main
import UcrashReport.Service
import UcrashReport.ServiceMoves
import UcrashReport.Soundness.HeldJobs
import UcrashReport.Soundness.AcceptedUploads
import UcrashReport.Soundness.JobLedger
import UcrashReport.Soundness.ReportRows
import UcrashReport.Soundness.RetentionSweeps
import UcrashReport.Soundness.DecodedReports
import UcrashReport.Soundness.RawRetention
import UcrashReport.UploadHistory
import UcrashReport.Soundness.StoredReports
import UcrashReport.Soundness.OwnPayloads
import UcrashReport.Soundness.KeptData
import UcrashReport.Soundness.RepeatedUploads
import UcrashReport.Machine.Linearizable
import UcrashReport.Server.Visibility
import UcrashReport.Soundness.PublishLinks
import UcrashReport.Soundness.DeviceViews
import UcrashReport.Server.Login
import UcrashReport.Soundness.DeviceLogin
import UcrashReport.Rust.Language
import UcrashReport.Rust.Tokens
import UcrashReport.Rust.Fields
import UcrashReport.Decoder.Addresses
import UcrashReport.Soundness.ScrubbedAddresses
import UcrashReport.Soundness.SignatureFields
import UcrashReport.Soundness.GroupRows
import UcrashReport.Soundness.FiledReports
import UcrashReport.Common.Usign
import UcrashReport.Soundness.RejectedUploads
import UcrashReport.Soundness.UploadAttribution
import UcrashReport.Decoder.Symbolizer
import UcrashReport.Soundness.MatchingSymbols
import UcrashReport.Decoder.PoolLayout
import UcrashReport.Soundness.SnapshotRetention
import UcrashReport.Decoder.IndexShape
import UcrashReport.Soundness.IndexCoverage
import UcrashReport.Decoder.PoolSteps
import UcrashReport.Soundness.CollectionRaces
import UcrashReport.Soundness.LogTransport
import UcrashReport.Soundness.SymbolLocations
import UcrashReport.Soundness.ClaimOrder
import UcrashReport.Soundness.PublishedSums
import UcrashReport.Common.FrameLines
import UcrashReport.Soundness.HashedFrames
import UcrashReport.Soundness.FrameRoundTrip
import UcrashReport.Soundness.ScrubbedTraces
import UcrashReport.Soundness.FrameSites
import UcrashReport.Soundness.AddressFreeFrames
import UcrashReport.Soundness.NoiseSites
import UcrashReport.Soundness.ExceptionNoise
import UcrashReport.Soundness.SymbolizedLines
import UcrashReport.Soundness.Symbolization
import UcrashReport.Rust.Markers
import UcrashReport.Soundness.CompilerClones
import UcrashReport.Decoder.Ipv6Matches
import UcrashReport.Soundness.ScrubbedGroups
import UcrashReport.Soundness.ScrubbedIpv6
import UcrashReport.Soundness.OnePass
import UcrashReport.Soundness.PassOutcome
import UcrashReport.Soundness.BearerTokens
import UcrashReport.Store.Ranking
import UcrashReport.Server.Dashboard
import UcrashReport.Soundness.DashboardViews
import UcrashReport.Machine.Past
import UcrashReport.Server.ChangeRequests
import UcrashReport.Soundness.Publication
import UcrashReport.Machine.Hosts
import UcrashReport.Soundness.PortalSteps
import UcrashReport.Server.Debuginfod
import UcrashReport.Soundness.ServedDebugFiles
import UcrashReport.Soundness.LocatedTexts
import UcrashReport.Soundness.ShownTexts
import UcrashReport.Store.Upserts
import UcrashReport.Soundness.UpsertedRows
import UcrashReport.Soundness.UploadForms
