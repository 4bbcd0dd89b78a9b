import Coppermind.Lib.Text
import Coppermind.Lib.Effect
import Coppermind.Lib.Assoc
import Coppermind.Lib.PyStr
import Coppermind.Lib.Bounded
import Coppermind.Lib.Lines
import Coppermind.Lib.Run
import Coppermind.Lib.Task
import Coppermind.Lib.Commands
import Coppermind.Lib.History
import Coppermind.Lib.Merge
import Coppermind.Lib.Digits
import Coppermind.Lib.Base64
import Coppermind.Lib.Json
import Coppermind.Lib.Keyset
import Coppermind.Lib.Grouped
import Coppermind.Lib.Redirects
import Coppermind.Lib.Volume
import Coppermind.Naming
import Coppermind.Frontmatter.Value
import Coppermind.Frontmatter.Lookup
import Coppermind.Frontmatter.Equality
import Coppermind.Frontmatter.Split
import Coppermind.Frontmatter.Write
import Coppermind.Frontmatter.BodyBytes
import Coppermind.Frontmatter.Splice
import Coppermind.Artifacts.Store
import Coppermind.Artifacts.Write
import Coppermind.Artifacts.Outcome
import Coppermind.Artifacts.HeldBytes
import Coppermind.Artifacts.Mirror
import Coppermind.Artifacts.Replay
import Coppermind.Schema.NoteTime
import Coppermind.Schema.Keys
import Coppermind.Schema.Tags
import Coppermind.Schema.ClosedTags
import Coppermind.Schema.Agreement
import Coppermind.Settings.Product
import Coppermind.Notes.Row
import Coppermind.Notes.Json
import Coppermind.Notes.Rename
import Coppermind.Notes.Cursor
import Coppermind.Notes.Listing
import Coppermind.Notes.Pages
import Coppermind.Dossiers.Ledger
import Coppermind.Dossiers.Changes
import Coppermind.Dossiers.Page
import Coppermind.Dossiers.Service
import Coppermind.Dossiers.Sound
import Coppermind.Dossiers.Operations
import Coppermind.Dossiers.Identity
import Coppermind.Notes.Adoption
import Coppermind.NoteHistory.Evidence
import Coppermind.Notes.Closure
import Coppermind.Notes.Writes
import Coppermind.Reconciler.Scan
import Coppermind.Reconciler.Pass
import Coppermind.Reconciler.Interleaving
import Coppermind.Reconciler.PassSpec
import Coppermind.Reconciler.Tree
import Coppermind.Reconciler.Absence
import Coppermind.NoteHistory.Recovery
import Coppermind.Reconciler.Deferral
import Coppermind.Reconciler.Storable
import Coppermind.Maintenance.Gate
import Coppermind.Notes.MoveFile
import Coppermind.Notes.Folders
import Coppermind.Sources.Store
import Coppermind.Sources.Document
import Coppermind.Naming.Portable
import Coppermind.Naming.Unique
import Coppermind.Artifacts.Filename
import Coppermind.Artifacts.Refused
import Coppermind.Sources.Ingest
import Coppermind.Sources.Outcome
import Coppermind.Sources.Singular
import Coppermind.Sources.Citation
import Coppermind.Sources.Canonical
import Coppermind.Sources.Order
import Coppermind.Sources.Repair
import Coppermind.Sources.Retry
import Coppermind.Filing.Store
import Coppermind.Filing.Plan
import Coppermind.Filing.File
import Coppermind.Filing.Approval
import Coppermind.Filing.Published
import Coppermind.Filing.Lossless
import Coppermind.Filing.ReadBack
import Coppermind.Filing.Moments
import Coppermind.Filing.Broken
import Coppermind.Settings.Helper
import Coppermind.Settings.Agreement
import Coppermind.Git.Exclude
import Coppermind.Control.StateFiles
import Coppermind.Control.Updates
import Coppermind.FieldIndex.Refresh
import Coppermind.FieldIndex.Requests
import Coppermind.Calendar.Import
import Coppermind.Calendar.Merge
import Coppermind.Calendar.Archive
import Coppermind.Calendar.Tables
import Coppermind.Calendar.Applied
import Coppermind.Api.Authenticator
import Coppermind.Api.Revocation
import Coppermind.ObsidianSync.Supervisor
import Coppermind.ObsidianSync.OneClient
import Coppermind.Review.Calendars
import Coppermind.Review.Followups
import Coppermind.Review.Published
import Coppermind.Enrichment.Jobs
import Coppermind.Enrichment.Sound
import Coppermind.Enrichment.Runs
import Coppermind.Purge.Store
import Coppermind.Purge.Plan
import Coppermind.Purge.Operation
import Coppermind.Purge.Unused
import Coppermind.Purge.Saving
import Coppermind.Purge.Steps
import Coppermind.Purge.Lawful
import Coppermind.Purge.Runs
import Coppermind.Purge.Receipts
import Coppermind.Purge.Intact
import Coppermind.Purge.Resume
import Coppermind.Lib.Table
import Coppermind.Search.Store
import Coppermind.Search.CatchUp
import Coppermind.Search.Lawful
import Coppermind.Search.Reading
import Coppermind.Search.Recording
import Coppermind.Search.Goal
import Coppermind.Search.Converge
