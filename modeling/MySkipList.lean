import MySkipList.Foundation.Execution
import MySkipList.Foundation.Agreement
import MySkipList.Foundation.Heap
import MySkipList.Foundation.Buffer
import MySkipList.Foundation.Towers
import MySkipList.Foundation.Dictionary
import MySkipList.Foundation.HandleList
import MySkipList.Foundation.Recency
import MySkipList.Foundation.Text
import MySkipList.Foundation.Words
import MySkipList.Construction.LRUCache
import MySkipList.Construction.SkipListNode
import MySkipList.Construction.SkipList
import MySkipList.Construction.Persistence
import MySkipList.Construction.Timer
import MySkipList.Construction.Server
import MySkipList.Construction.Session
import MySkipList.Construction.ThreadPool
import MySkipList.Specification.BoundedSet
import MySkipList.Specification.LazySet
import MySkipList.Specification.KeyedStore
import MySkipList.Specification.Grammar
import MySkipList.Specification.Register
import MySkipList.Proof.LRUCache
import MySkipList.Proof.Eviction
import MySkipList.Proof.Timer
import MySkipList.Specification.Schedule
import MySkipList.Specification.Database
import MySkipList.Proof.Schedule
import MySkipList.Proof.ThreadPool
import MySkipList.Proof.WorkOrder
import MySkipList.Proof.Shutdown
import MySkipList.Proof.SkipList.Search
import MySkipList.Proof.SkipList.Relink
import MySkipList.Proof.SkipList.Invariant
import MySkipList.Proof.SkipList.Delete
import MySkipList.Proof.SkipList.Insert
import MySkipList.Proof.SkipList.Edit
import MySkipList.Proof.SkipList.View
import MySkipList.Proof.SkipList.Operations
import MySkipList.Proof.SkipList.Bounds
import MySkipList.Proof.SkipList.Structure
import MySkipList.Proof.SkipList.Coherence
import MySkipList.Proof.SkipList.Spans
import MySkipList.Proof.SkipList.Persistence
import MySkipList.Proof.SkipList.Refinement
import MySkipList.Proof.SkipList.Lazy
import MySkipList.Proof.SkipList.Inclusion
import MySkipList.Proof.SkipList.Loading
import MySkipList.Proof.SkipList.Registers
import MySkipList.Proof.SkipList.Release
import MySkipList.Proof.SkipList.Memory
import MySkipList.Proof.SkipList.Levels
import MySkipList.Proof.SkipList.Backward
import MySkipList.Proof.SkipList.Intact
import MySkipList.Proof.Server.Steps
import MySkipList.Proof.Server.Soundness
import MySkipList.Proof.Server.Database
import MySkipList.Proof.Server.Totality
import MySkipList.Proof.Server.Isolation
import MySkipList.Proof.Server.Replies
import MySkipList.Proof.Server.Memory
import MySkipList.Proof.Server.Capacity
import MySkipList.Proof.Server.Refinement
import MySkipList.Proof.Server.Grammar
import MySkipList.Proof.Server.Expiry
import MySkipList.Proof.Session
import MySkipList.Proof.Delivery
import MySkipList.Proof.Protorpc.Stuck
