import TaggedText.Conversion.Workbench
import TaggedText.Draft.Summary
import TaggedText.Json.Parser
import TaggedText.Main
import TaggedText.Proofs.Conversion.Faithfulness
import TaggedText.Proofs.Conversion.Reassembly
import TaggedText.Proofs.Conversion.Sessions
import TaggedText.Proofs.Conversion.Totality
import TaggedText.Proofs.Conversion.Visibility
import TaggedText.Proofs.Draft.Building
import TaggedText.Proofs.Draft.Ownership
import TaggedText.Proofs.Draft.Seams
import TaggedText.Proofs.Pattern.Pieces
import TaggedText.Proofs.PositionMap.Composition
import TaggedText.Proofs.PositionMap.TableLaws
import TaggedText.Proofs.Spacing.Hits
import TaggedText.Proofs.Spacing.WordParts
import TaggedText.Proofs.Conversion.Errands
import TaggedText.Proofs.Conversion.Stocks
import TaggedText.Proofs.Sentence.Cores
import TaggedText.Proofs.Draft.Priority
import TaggedText.Proofs.Conversion.Precedence
import TaggedText.Proofs.Draft.Overlaps
import TaggedText.Proofs.Conversion.Marking
import TaggedText.Proofs.CommandLine.Reading
import TaggedText.Proofs.Json.SingleLine
import TaggedText.Proofs.CommandLine.Running
import TaggedText.Proofs.Draft.Losses
import TaggedText.Proofs.Draft.Rows
import TaggedText.Proofs.Draft.Separation
import TaggedText.Proofs.Conversion.EntityPass
import TaggedText.Proofs.Conversion.BlankPass
import TaggedText.Proofs.Markup.Classification
import TaggedText.Proofs.Lines.Endings
import TaggedText.Proofs.Lines.ByteCount
import TaggedText.Proofs.Sentence.RoundTrip
import TaggedText.Proofs.Conversion.ConfigFiles
import TaggedText.Proofs.Spacing.Progress
import TaggedText.Proofs.Sentence.Merging
import TaggedText.Proofs.Draft.Sections
