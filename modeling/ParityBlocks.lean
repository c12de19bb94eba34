import ParityBlocks.Main
import ParityBlocks.Search.Overrides
import ParityBlocks.Proofs.Guarantees
import ParityBlocks.Proofs.Queue
import ParityBlocks.Proofs.Family
import ParityBlocks.Proofs.Representation
import ParityBlocks.Proofs.Stages
import ParityBlocks.Proofs.Loading
import ParityBlocks.Proofs.Skipping
import ParityBlocks.Proofs.Reordering
import ParityBlocks.Proofs.Renaming
import ParityBlocks.Proofs.Extent
import ParityBlocks.Proofs.Contiguity
import ParityBlocks.Proofs.Repetition
import ParityBlocks.Proofs.Diagnostics
import ParityBlocks.Proofs.Recognition
import ParityBlocks.Proofs.StoredVariables
import ParityBlocks.Proofs.Equivalences
import ParityBlocks.Proofs.Contradictions
import ParityBlocks.Proofs.Eligibility
import ParityBlocks.Proofs.Coverage
import ParityBlocks.Proofs.Resolution
import ParityBlocks.Proofs.SkipCauses
import ParityBlocks.Proofs.Bookkeeping
import ParityBlocks.Proofs.Delivery
import ParityBlocks.Proofs.Verbosity
import ParityBlocks.Proofs.Contents
import ParityBlocks.Proofs.FanOut
import ParityBlocks.Proofs.Succession
import ParityBlocks.Proofs.Economy
import ParityBlocks.Proofs.Permutations
import ParityBlocks.Proofs.CanonicalForm
import ParityBlocks.Proofs.Cancellation
import ParityBlocks.Proofs.Protocol
import ParityBlocks.Proofs.TimingTable
import ParityBlocks.Proofs.Document
import ParityBlocks.Proofs.Spanning
import ParityBlocks.Proofs.Folding
import ParityBlocks.Proofs.Ranking
import ParityBlocks.Proofs.Loans
