import RankLens.Footprint
import RankLens.Transition
import RankLens.Effects
import RankLens.Soundness
import RankLens.ExactlyOnce
import RankLens.Receipts
import RankLens.Backing
import RankLens.Ownership
import RankLens.Durability
import RankLens.LegalHolds
import RankLens.Orphans
import RankLens.Leftovers
import RankLens.Evidence
import RankLens.Counters
import RankLens.Leases
import RankLens.Entries
import RankLens.Normalizing
import RankLens.Inputs
import RankLens.Reports
import RankLens.Revisions
import RankLens.Envelope
import RankLens.Summaries
import RankLens.Projection
import RankLens.Spooling
import RankLens.Resume
import RankLens.Drain
import RankLens.Polling
import RankLens.Forgetting
import RankLens.Restoration
import RankLens.Canonical
import RankLens.Reportable
import RankLens.Export
import RankLens.Sweeping
import RankLens.Agreement
import RankLens.Poller
import RankLens.Incidents
import RankLens.Recorder
import RankLens.Analyzer
import RankLens.EventFiles
import RankLens.Observed
import RankLens.Skipping
import RankLens.JsonText
import RankLens.Snapshots
import RankLens.Wrappers
import RankLens.Accepting
import RankLens.Conserved
import RankLens.Browser
import RankLens.Importing
import RankLens.Requests
import RankLens.Notifications
import RankLens.Answers
import RankLens.Replays
import RankLens.Paging
import RankLens.Rejections
import RankLens.Sacct
import RankLens.HoldReleases
import RankLens.Uniqueness
import RankLens.Coverage
import RankLens.Backfills
import RankLens.Bootstrap
import RankLens.Validation
import RankLens.Groups
import RankLens.Attempts
import RankLens.Allocations
import RankLens.Revocations
import RankLens.ObjectFiles
import RankLens.Benchmark
import RankLens.CsvExport
import RankLens.Launching
import RankLens.Compact
