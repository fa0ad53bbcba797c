import GlyphRebase.Rules.OfJson
import GlyphRebase.Text.Lowercase
import GlyphRebase.Pass
import GlyphRebase.FilePass
import GlyphRebase.CommandLine
import GlyphRebase.Main
import GlyphRebase.Proofs.FaithfulPass
import GlyphRebase.Proofs.WrittenRange
import GlyphRebase.Proofs.NegativeEntries
import GlyphRebase.Proofs.FaultySinks
import GlyphRebase.Proofs.TextPrefix
import GlyphRebase.Proofs.LineEnds
import GlyphRebase.Proofs.WholeText
import GlyphRebase.Proofs.Decimal
import GlyphRebase.Proofs.Layout
import GlyphRebase.Proofs.NamedLinks
import GlyphRebase.Proofs.OutputModes
import GlyphRebase.Proofs.Announcements
import GlyphRebase.Proofs.LatestEntry
import GlyphRebase.Proofs.Concatenation
import GlyphRebase.Proofs.SettingKeys
import GlyphRebase.Proofs.Layering
import GlyphRebase.Proofs.Arguments
import GlyphRebase.Proofs.OptionLayers
import GlyphRebase.Proofs.CommandRuns
import GlyphRebase.Proofs.EntryPattern
import GlyphRebase.Proofs.LocalFiles
import GlyphRebase.Proofs.PartialOutputs
import GlyphRebase.Proofs.FirstFailure
import GlyphRebase.Proofs.TransparentLines
import GlyphRebase.Proofs.Literals
import GlyphRebase.Proofs.RuleShapes
import GlyphRebase.Proofs.ReaderPosition
