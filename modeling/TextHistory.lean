import TextHistory.Text.Lines
import TextHistory.Text.Blank
import TextHistory.Text.Numeral
import TextHistory.Text.Percent
import TextHistory.Text.Quoted
import TextHistory.Edit.Semantic
import TextHistory.Alignment.Search
import TextHistory.Alignment.Slide
import TextHistory.Alignment.Unified
import TextHistory.Edit.Between
import TextHistory.Patch.Printer
import TextHistory.Patch.Parser
import TextHistory.Patch.Build
import TextHistory.Patch.Apply
import TextHistory.Patch.Checked
import TextHistory.Json.Decode
import TextHistory.History
import TextHistory.Api
import TextHistory.Client.Run
import TextHistory.Service.Directory
import TextHistory.Main
import TextHistory.Proofs.Text.Occurrence
import TextHistory.Proofs.Text.Checked
import TextHistory.Proofs.Text.Numeral
import TextHistory.Proofs.Text.Percent
import TextHistory.Proofs.Edit.Soundness
import TextHistory.Proofs.Patch.WrittenForm
import TextHistory.Proofs.Patch.Fit
import TextHistory.Proofs.Patch.Gathering
import TextHistory.Proofs.Store
import TextHistory.Proofs.Tuning
import TextHistory.Proofs.Version
import TextHistory.Proofs.History.Planning
import TextHistory.Proofs.History.Snapshots
import TextHistory.Proofs.History.Interleaving
import TextHistory.Proofs.History.Commit
import TextHistory.Proofs.History.Receipts
import TextHistory.Proofs.History.Effects
import TextHistory.Proofs.History.Expectation
import TextHistory.Proofs.Patch.Codec
import TextHistory.Proofs.History.Retuning
import TextHistory.Proofs.Store.Failure
import TextHistory.Proofs.Api.Tagged
import TextHistory.Proofs.History.Agreement
import TextHistory.Proofs.Store.Views
import TextHistory.Proofs.Edit.NormalForm
import TextHistory.Proofs.Patch.Layout
import TextHistory.Proofs.Patch.Drift
import TextHistory.Proofs.Patch.Rejection
import TextHistory.Proofs.Patch.Locality
import TextHistory.Proofs.Patch.Faultless
import TextHistory.Proofs.Patch.Margin
import TextHistory.Proofs.Edit.Merging
import TextHistory.Edit.Checked
import TextHistory.Proofs.Edit.Cursor
import TextHistory.Proofs.Edit.Absorption
import TextHistory.Proofs.Patch.Composition
import TextHistory.Proofs.Version.Corruption
import TextHistory.Proofs.Patch.Grouping
import TextHistory.Proofs.Patch.Heading
import TextHistory.Proofs.Patch.Context
import TextHistory.Proofs.Http.EntityTag
import TextHistory.Proofs.Version.Name
