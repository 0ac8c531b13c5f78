import FilterQuery.Main
import FilterQuery.Trace
import FilterQuery.Proofs.Compilation
import FilterQuery.Proofs.Places
import FilterQuery.Proofs.Refusal
import FilterQuery.Proofs.RoundTrip
import FilterQuery.Proofs.Slices
import FilterQuery.Proofs.Demand
import FilterQuery.Proofs.Lexicon
import FilterQuery.Proofs.Segmentation
import FilterQuery.Proofs.Joining
import FilterQuery.Proofs.Shapes
import FilterQuery.Proofs.Enclosing
import FilterQuery.Proofs.Combining
import FilterQuery.Proofs.Replacing
import FilterQuery.Proofs.Asking
import FilterQuery.Proofs.Coalescing
import FilterQuery.Proofs.Changes
import FilterQuery.Proofs.Isolation
import FilterQuery.Proofs.Recasing
import FilterQuery.Proofs.Nearest
import FilterQuery.Proofs.Numerals
import FilterQuery.Proofs.Shortest
import FilterQuery.Proofs.Showing
import FilterQuery.Proofs.Limit
import FilterQuery.Proofs.Stepping
import FilterQuery.Proofs.Relabeling
import FilterQuery.Proofs.Decoding
import FilterQuery.Proofs.Sorting
import FilterQuery.Proofs.Checking
import FilterQuery.Proofs.Normalizing
import FilterQuery.Proofs.Declaring
