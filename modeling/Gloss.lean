import Gloss.CommandLine.FileTree
import Gloss.Main
import Gloss.Pattern
import Gloss.Proofs.Machine
import Gloss.Proofs.Completeness
import Gloss.Proofs.Exactness
import Gloss.Proofs.Reading
import Gloss.Proofs.ViablePrefix
import Gloss.Proofs.Matching
import Gloss.Proofs.Lexemes
import Gloss.Proofs.Greedy
import Gloss.Proofs.OnePass
import Gloss.Proofs.Characters
import Gloss.Proofs.Stretches
import Gloss.Proofs.Tokenizing
import Gloss.Proofs.Lockstep
import Gloss.Proofs.Layout
import Gloss.Proofs.Names
import Gloss.Proofs.Passing
import Gloss.Proofs.Reporting
import Gloss.Proofs.Lines
import Gloss.Proofs.Coverage
import Gloss.Proofs.Hints
import Gloss.Proofs.Locations
import Gloss.Proofs.Resuming
import Gloss.Proofs.Declarations
import Gloss.Proofs.Composition
import Gloss.Proofs.Renaming
import Gloss.Proofs.Choice
import Gloss.Proofs.Segmenting
import Gloss.Proofs.Marking
import Gloss.Proofs.Stability
import Gloss.Proofs.Overlaps
import Gloss.Proofs.Neighbours
import Gloss.Proofs.Nesting
import Gloss.Proofs.Settling
import Gloss.Proofs.PositionOrder
import Gloss.Proofs.Erasing
import Gloss.Proofs.OneLevel
import Gloss.Proofs.Faultless
import Gloss.Proofs.InsideCharacters
import Gloss.Proofs.Escapes
import Gloss.Proofs.ListingReading
import Gloss.Proofs.ReportReading
import Gloss.Proofs.Sources
import Gloss.Proofs.Wording
import Gloss.Proofs.CheckOutput
import Gloss.Proofs.Lookahead
import Gloss.Proofs.NameOrder
import Gloss.Proofs.IdleBranches
