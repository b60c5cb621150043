import OptimisticStore.Document
import OptimisticStore.Durable.RowTable
import OptimisticStore.Durable.Store
import OptimisticStore.Engine.Step
import OptimisticStore.Memory
import OptimisticStore.OrderedMap.Range
import OptimisticStore.OrderedMap.Table
import OptimisticStore.Proofs.History
import OptimisticStore.Proofs.Standing
import OptimisticStore.Proofs.Memory
import OptimisticStore.Proofs.Conflicts
import OptimisticStore.Proofs.Refinement
import OptimisticStore.Proofs.Stability
import OptimisticStore.Proofs.Serializability
import OptimisticStore.Proofs.Integrity
import OptimisticStore.Proofs.FailingReads
import OptimisticStore.Proofs.AllOrNothing
import OptimisticStore.Proofs.Invisibility
import OptimisticStore.Proofs.Bookkeeping
import OptimisticStore.Proofs.StreamGates
import OptimisticStore.Proofs.Finality
import OptimisticStore.Proofs.Retention
import OptimisticStore.Proofs.Footprint
import OptimisticStore.Proofs.OwnWrites
import OptimisticStore.Proofs.FailedCalls
import OptimisticStore.Proofs.Retrying
import OptimisticStore.Proofs.Balance
import OptimisticStore.Proofs.Pruning
import OptimisticStore.Proofs.Resolution
import OptimisticStore.Proofs.Contents
import OptimisticStore.Proofs.NamedMaps
import OptimisticStore.Proofs.Decoding
import OptimisticStore.Proofs.RowOrder
import OptimisticStore.Proofs.RangeForms
import OptimisticStore.Proofs.PointLookup
import OptimisticStore.Proofs.RawCalls
import OptimisticStore.Proofs.Paging
import OptimisticStore.Proofs.SharedRows
import OptimisticStore.Proofs.Windows
