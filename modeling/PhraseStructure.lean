import PhraseStructure.Benchmark.Run
import PhraseStructure.Grammar.Display
import PhraseStructure.Main
import PhraseStructure.ParseTree.Bracketed
import PhraseStructure.Proofs.Except
import PhraseStructure.Proofs.SymbolTable
import PhraseStructure.Proofs.UnaryCycle
import PhraseStructure.Proofs.WellFormed
import PhraseStructure.Proofs.Closure
import PhraseStructure.Proofs.Partition
import PhraseStructure.Proofs.Rules
import PhraseStructure.Proofs.Chart
import PhraseStructure.Proofs.Height
import PhraseStructure.Proofs.Choices
import PhraseStructure.Proofs.Enumeration
import PhraseStructure.Proofs.Count
import PhraseStructure.Proofs.Recognition
import PhraseStructure.Proofs.DerivationTree
import PhraseStructure.Proofs.Multiplicity
import PhraseStructure.Proofs.Odometer
import PhraseStructure.Proofs.Representation
import PhraseStructure.Proofs.Entries
import PhraseStructure.Proofs.RuleText
import PhraseStructure.Proofs.Names
import PhraseStructure.Proofs.Display
import PhraseStructure.Proofs.Validation
import PhraseStructure.Proofs.Reordering
import PhraseStructure.Proofs.Definedness
import PhraseStructure.Proofs.Termination
import PhraseStructure.Proofs.Locality
import PhraseStructure.Proofs.Chunk
import PhraseStructure.Proofs.English
import PhraseStructure.Proofs.ChunkOrder
import PhraseStructure.Proofs.WayOrder
import PhraseStructure.Proofs.CycleCheck
import PhraseStructure.Proofs.Transcription
import PhraseStructure.Proofs.Pulls
import PhraseStructure.Proofs.Table
import PhraseStructure.Proofs.Lookups
import PhraseStructure.Proofs.Lowercase
import PhraseStructure.Proofs.Pattern
import PhraseStructure.Proofs.Retokenize
import PhraseStructure.Proofs.Bracketed
import PhraseStructure.Proofs.Drawing
import PhraseStructure.Proofs.Json
import PhraseStructure.Proofs.Options
import PhraseStructure.Proofs.Session
import PhraseStructure.Proofs.LeastClosure
import PhraseStructure.Proofs.Backtracking
import PhraseStructure.Proofs.Convolution
import PhraseStructure.Proofs.Census
import PhraseStructure.Proofs.Attachment
import PhraseStructure.Proofs.Pairing
import PhraseStructure.Proofs.Interning
