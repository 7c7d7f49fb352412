import RegionAtlas.Archive.Database
import RegionAtlas.Archive.Files
import RegionAtlas.Archive.Load
import RegionAtlas.Archive.Record
import RegionAtlas.Command.Arguments
import RegionAtlas.Command.Error
import RegionAtlas.Command.Invoke
import RegionAtlas.Command.Perform
import RegionAtlas.Command.Report
import RegionAtlas.Command.Request
import RegionAtlas.Desk
import RegionAtlas.Extent.Lifespan
import RegionAtlas.Extent.Range
import RegionAtlas.Json.Decode
import RegionAtlas.Json.Node
import RegionAtlas.Json.Source
import RegionAtlas.Json.Value
import RegionAtlas.Ledger.Change
import RegionAtlas.Ledger.Contents
import RegionAtlas.Ledger.Lookup
import RegionAtlas.Ledger.Operation
import RegionAtlas.Ledger.Refusal
import RegionAtlas.Ledger.Table
import RegionAtlas.Ledger.Trace
import RegionAtlas.Ledger.Transaction
import RegionAtlas.Main
import RegionAtlas.Pairing.Commit
import RegionAtlas.Pairing.Image
import RegionAtlas.Pairing.Module
import RegionAtlas.Pairing.Proposal
import RegionAtlas.Project.Program
import RegionAtlas.Project.Project
import RegionAtlas.Proofs.Acceptance
import RegionAtlas.Proofs.Atomicity
import RegionAtlas.Proofs.Calls
import RegionAtlas.Proofs.Checking
import RegionAtlas.Proofs.Choice
import RegionAtlas.Proofs.Chronicle
import RegionAtlas.Proofs.Commands
import RegionAtlas.Proofs.Conflicts
import RegionAtlas.Proofs.Contents
import RegionAtlas.Proofs.Correspondence
import RegionAtlas.Proofs.Course
import RegionAtlas.Proofs.Cutting
import RegionAtlas.Proofs.Debouncing
import RegionAtlas.Proofs.Desks
import RegionAtlas.Proofs.Difference
import RegionAtlas.Proofs.Documents
import RegionAtlas.Proofs.Drafts
import RegionAtlas.Proofs.Enablement
import RegionAtlas.Proofs.Exclusivity
import RegionAtlas.Proofs.Extent
import RegionAtlas.Proofs.FileNames
import RegionAtlas.Proofs.Fitting
import RegionAtlas.Proofs.Foresight
import RegionAtlas.Proofs.Holdings
import RegionAtlas.Proofs.Invocations
import RegionAtlas.Proofs.Journal
import RegionAtlas.Proofs.LifeCycle
import RegionAtlas.Proofs.Listing
import RegionAtlas.Proofs.Loading
import RegionAtlas.Proofs.ModuleNames
import RegionAtlas.Proofs.NetEffect
import RegionAtlas.Proofs.Notification
import RegionAtlas.Proofs.Numbering
import RegionAtlas.Proofs.Numerals
import RegionAtlas.Proofs.Offers
import RegionAtlas.Proofs.Offsets
import RegionAtlas.Proofs.Origin
import RegionAtlas.Proofs.PairingLaw
import RegionAtlas.Proofs.Paths
import RegionAtlas.Proofs.Processes
import RegionAtlas.Proofs.Prospects
import RegionAtlas.Proofs.Queries
import RegionAtlas.Proofs.Ranking
import RegionAtlas.Proofs.Reload
import RegionAtlas.Proofs.Repetition
import RegionAtlas.Proofs.Replay
import RegionAtlas.Proofs.Reporting
import RegionAtlas.Proofs.Reversal
import RegionAtlas.Proofs.Revision
import RegionAtlas.Proofs.RoundTrip
import RegionAtlas.Proofs.Selections
import RegionAtlas.Proofs.Serving
import RegionAtlas.Proofs.Sessions
import RegionAtlas.Proofs.Showing
import RegionAtlas.Proofs.Sides
import RegionAtlas.Proofs.Staging
import RegionAtlas.Proofs.Timeline
import RegionAtlas.Proofs.Tokens
import RegionAtlas.Proofs.Translation
import RegionAtlas.Proofs.Twins
import RegionAtlas.Proofs.UndoRedo
import RegionAtlas.Proofs.Views
import RegionAtlas.Proofs.Words
import RegionAtlas.Record.Id
import RegionAtlas.Record.Mapping
import RegionAtlas.Record.Region
import RegionAtlas.Session
import RegionAtlas.Text.Blank
import RegionAtlas.Text.Radix
import RegionAtlas.Window.Window
