import SectionDump.FileTree
import SectionDump.Inspection
import SectionDump.Main
import SectionDump.Metadata.Writer
import SectionDump.Proofs.Building
import SectionDump.Proofs.Reading
import SectionDump.Proofs.Finding
import SectionDump.Proofs.Labelling
import SectionDump.Proofs.Overlaps
import SectionDump.Proofs.Reordering
import SectionDump.Proofs.Querying
import SectionDump.Proofs.Extending
import SectionDump.Proofs.Decoding
import SectionDump.Proofs.Storing
import SectionDump.Proofs.Loading
import SectionDump.Proofs.Classifying
import SectionDump.Proofs.Inspecting
import SectionDump.Proofs.Overriding
import SectionDump.Proofs.Keeping
import SectionDump.Proofs.Deciding
import SectionDump.Proofs.Arguments
import SectionDump.Proofs.ReadingArguments
import SectionDump.Proofs.Answering
import SectionDump.Proofs.Lines
import SectionDump.Proofs.ReadingLines
import SectionDump.Proofs.Blocks
import SectionDump.Proofs.Values
import SectionDump.Proofs.Rendering
import SectionDump.Proofs.Grammar
import SectionDump.Proofs.OverlapReports
import SectionDump.Proofs.Markers
import SectionDump.Proofs.NameFaults
import SectionDump.Proofs.Respelling
import SectionDump.Proofs.Inserting
import SectionDump.Proofs.Colliding
import SectionDump.Proofs.ReadingNumbers
import SectionDump.Proofs.LastNames
import SectionDump.Proofs.Slicing
import SectionDump.Proofs.HexDumps
import SectionDump.Proofs.ReadingWords
import SectionDump.Proofs.ReadingNumerals
import SectionDump.Proofs.ReadingRequests
