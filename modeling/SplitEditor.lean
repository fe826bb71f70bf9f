import SplitEditor.Editor.Completion
import SplitEditor.Highlight.Language
import SplitEditor.Highlight.Theme
import SplitEditor.Main
import SplitEditor.Wasm.Writer
import SplitEditor.Proofs.Session.Overlap
import SplitEditor.Proofs.Session.LatestEdit
import SplitEditor.Proofs.Text.Utf16
import SplitEditor.Proofs.Text.Utf8
import SplitEditor.Proofs.Text.Transcode
import SplitEditor.Proofs.Text.Agreement
import SplitEditor.Proofs.Session.Requests
import SplitEditor.Proofs.Session.Suspension
import SplitEditor.Proofs.Text.Parting
import SplitEditor.Proofs.Editor.Ranges
import SplitEditor.Proofs.Highlight.Extent
import SplitEditor.Proofs.Highlight.Partition
import SplitEditor.Proofs.Analysis.Calls
import SplitEditor.Proofs.Analysis.Protocol
import SplitEditor.Proofs.Analysis.Layout
import SplitEditor.Proofs.Analysis.FieldLoads
import SplitEditor.Proofs.Analysis.RoundTrip
import SplitEditor.Proofs.Session.Coherence
import SplitEditor.Proofs.Session.Queries
import SplitEditor.Proofs.Session.Loading
import SplitEditor.Proofs.Analysis.Tiers
import SplitEditor.Proofs.Analysis.Detection
import SplitEditor.Proofs.Editor.Columns
import SplitEditor.Proofs.Analysis.Admission
import SplitEditor.Proofs.Highlight.Rereading
import SplitEditor.Proofs.Analysis.Presence
import SplitEditor.Proofs.Text.Surrogates
import SplitEditor.Proofs.Wasm.Contents
import SplitEditor.Proofs.Analysis.Uploading
import SplitEditor.Proofs.Analysis.Bounds
import SplitEditor.Proofs.Highlight.Ending
import SplitEditor.Proofs.Highlight.Kinds
import SplitEditor.Proofs.Highlight.Recognition
import SplitEditor.Proofs.Highlight.FunctionNames
import SplitEditor.Proofs.Highlight.Expressions
import SplitEditor.Proofs.Highlight.Colors
import SplitEditor.Proofs.Cli.Usage
