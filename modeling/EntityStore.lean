import EntityStore.World.Columns
import EntityStore.World.Listing
import EntityStore.World.Queries
import EntityStore.Proofs.Atomicity
import EntityStore.Proofs.Bijection
import EntityStore.Proofs.Borrowing
import EntityStore.Proofs.Buffers
import EntityStore.Proofs.Capacity
import EntityStore.Proofs.ColumnWrites
import EntityStore.Proofs.Conservation
import EntityStore.Proofs.DenseRows
import EntityStore.Proofs.DirectExecution
import EntityStore.Proofs.DirectorySize
import EntityStore.Proofs.FiniteMap
import EntityStore.Proofs.Issuing
import EntityStore.Proofs.Merging
import EntityStore.Proofs.Numbering
import EntityStore.Proofs.Queries
import EntityStore.Proofs.Ranges
import EntityStore.Proofs.Refinement
import EntityStore.Proofs.RefusedValues
import EntityStore.Proofs.RoundTrip
import EntityStore.Proofs.Safety
import EntityStore.Proofs.Signature
import EntityStore.Proofs.Tracking
import EntityStore.Proofs.Tuning
import EntityStore.Proofs.Unwinding
import EntityStore.Proofs.Versions
