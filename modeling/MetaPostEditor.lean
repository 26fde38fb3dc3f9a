import MetaPostEditor.Main
import MetaPostEditor.Proofs.CarryIn
import MetaPostEditor.Proofs.Rescanning
import MetaPostEditor.Proofs.EditPaths
import MetaPostEditor.Proofs.Freshness
import MetaPostEditor.Proofs.EditedText
import MetaPostEditor.Proofs.Operations
import MetaPostEditor.Proofs.LinearHistory
import MetaPostEditor.Proofs.EndEdits
import MetaPostEditor.Proofs.Snapshots
import MetaPostEditor.Proofs.ExactUndo
import MetaPostEditor.Proofs.TypedText
import MetaPostEditor.Proofs.WholeWords
import MetaPostEditor.Proofs.MeaningfulTags
import MetaPostEditor.Proofs.Refusals
import MetaPostEditor.Proofs.UndoLimit
import MetaPostEditor.Proofs.SwitchedModes
import MetaPostEditor.Proofs.Steadiness
import MetaPostEditor.Proofs.EmptyEdits
import MetaPostEditor.Proofs.BufferCalls
import MetaPostEditor.Proofs.Rendering
import MetaPostEditor.Proofs.Revisions
import MetaPostEditor.Proofs.PlainOutput
import MetaPostEditor.Proofs.Settings
import MetaPostEditor.Proofs.TagRule
import MetaPostEditor.Proofs.Cutting
import MetaPostEditor.Proofs.Listings
import MetaPostEditor.Proofs.Outdents
import MetaPostEditor.Proofs.SpanRuns
import MetaPostEditor.Proofs.Numerals
import MetaPostEditor.Proofs.HexColors
import MetaPostEditor.Proofs.PaletteEntries
import MetaPostEditor.Proofs.DumpedSpans
import MetaPostEditor.Proofs.LineStarts
import MetaPostEditor.Proofs.TabStops
import MetaPostEditor.Proofs.Resumption
import MetaPostEditor.Proofs.Transactions
import MetaPostEditor.Proofs.WordEdges
