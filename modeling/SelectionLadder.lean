import SelectionLadder.Engine.Command
import SelectionLadder.Markdown.Html
import SelectionLadder.Markdown.Marker
import SelectionLadder.Markdown.Reference
import SelectionLadder.Markdown.Structure
import SelectionLadder.Outline.Build
import SelectionLadder.Proofs.Containment
import SelectionLadder.Proofs.Outline.Tiling
import SelectionLadder.Proofs.Text.Offsets
import SelectionLadder.Settings.Store
import SelectionLadder.Source.Lines
import SelectionLadder.Source.Markdown
import SelectionLadder.Text.Buffer
import SelectionLadder.Text.CharClass
import SelectionLadder.Text.Tiers
import SelectionLadder.Wire.Outline
import SelectionLadder.Word.Rule
import SelectionLadder.Proofs.Text.Tiers
import SelectionLadder.Proofs.Engine.Scene
import SelectionLadder.Proofs.Engine.Run
import SelectionLadder.Proofs.Ladder.Rungs
import SelectionLadder.Proofs.Ladder.Textual
import SelectionLadder.Proofs.Outline.Chain
import SelectionLadder.Proofs.Ladder.Structural
import SelectionLadder.Proofs.Engine.Outlines
import SelectionLadder.Proofs.Ladder.Growth
import SelectionLadder.Proofs.Outline.Lookup
import SelectionLadder.Proofs.Engine.Caching
import SelectionLadder.Proofs.Outline.Provenance
import SelectionLadder.Proofs.Ladder.Shrinking
import SelectionLadder.Proofs.Except
import SelectionLadder.Proofs.Wire.Decoding
import SelectionLadder.Proofs.Outline.Queries
import SelectionLadder.Proofs.Outline.OneTree
import SelectionLadder.Proofs.Ladder.Origin
import SelectionLadder.Proofs.NodeId
import SelectionLadder.Proofs.Outline.Content
import SelectionLadder.Proofs.Outline.Renaming
import SelectionLadder.Proofs.Json.Tokens
import SelectionLadder.Proofs.Json.Values
import SelectionLadder.Proofs.Wire.RoundTrip
import SelectionLadder.Proofs.Engine.Targets
import SelectionLadder.Proofs.Outline.Blocks
import SelectionLadder.Proofs.Ladder.CutWords
import SelectionLadder.Proofs.Kind
import SelectionLadder.Proofs.Outline.Leading
import SelectionLadder.Proofs.Markdown.Spans
import SelectionLadder.Proofs.Outline.Gaps
import SelectionLadder.Proofs.Outline.Starts
import SelectionLadder.Proofs.Outline.Reports
import SelectionLadder.Proofs.Ladder.Unions
import SelectionLadder.Proofs.Text.Slices
import SelectionLadder.Proofs.Text.Paragraphs
import SelectionLadder.Proofs.Vocabulary
import SelectionLadder.Proofs.Text.CharClass
import SelectionLadder.Proofs.Word.Columns
import SelectionLadder.Proofs.Word.Order
import SelectionLadder.Proofs.Word.Runs
import SelectionLadder.Proofs.Word.Reports
import SelectionLadder.Proofs.Json.Texts
import SelectionLadder.Proofs.Json.Records
import SelectionLadder.Proofs.Settings.Overrides
import SelectionLadder.Proofs.Settings.RoundTrip
import SelectionLadder.Proofs.Text.Clamping
import SelectionLadder.Proofs.Lattice
import SelectionLadder.Proofs.Wire.Fields
import SelectionLadder.Proofs.Wire.Forms
