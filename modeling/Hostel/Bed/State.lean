/-
# Hostel.Bed.State — what the Bed manager holds for one name, and where its goroutines stand.

The manager's maps are keyed by Bed name and no critical section moves an entry to another name, so
the state splits into one `Slot` per name: the name's entry in each map, the objects those entries
point to, the goroutines working on the name, and its local and durable data.

* Pointers are numbers into the slot's heaps.  One initialization builds at most one allocation, so
  both are named by the same `TaskId`.
* A lock is modelled by the goroutine that holds it, a cleanup attempt by the goroutine that runs
  it.
* A goroutine is its program counter, which carries the local variables still in use.  It stands
  *between* two critical sections or I/O calls: one step is one of those.

Records, diagnostics and messages that no modelled step reads are left out.
-/
import Hostel.Store.StageIn

namespace Hostel.Bed

open Store

/-- An initialization (`*bedInitialization`) and the allocation (`*managedBed`) it builds. -/
abbrev TaskId := Nat

/-- A local identity (`*localIdentity`), with the shared `*model.Bed` it owns. -/
abbrev LocalId := Nat

/-- A local cleanup attempt (`*localCleanup`). -/
abbrev AttemptId := Nat

/-- A goroutine that serves a request or a background loop. -/
abbrev ThreadId := Nat

/-- The goroutines: the one an initialization runs in, and all others. -/
inductive Agent
  | task (i : TaskId)
  | thread (t : ThreadId)
  deriving DecidableEq, Repr

/-! ## Objects -/

/-- `localIdentity` together with the fields of its Bed's spec and status that the manager reads. -/
structure LocalIdentity where
  lifecycle : LifecycleStatus
  storeKind : SyncKind
  hasMainProcesses : Bool
  stageIn : StageInRequest
  cleanup : Option AttemptId
  deriving DecidableEq, Repr

/-- `localCleanup`: one attempt keeps its completion result for its waiters. -/
structure LocalCleanup where
  running : Bool
  removeRoot : Bool
  err : Option Fault
  owner : Option Agent
  deriving DecidableEq, Repr

/-- `managedBed`: the coordination state of one allocation.  `stopNext` and `releaseNext` are the
retry cursors of its two lifecycle sequences. -/
structure ManagedBed where
  cleanupMu : Option Agent
  persistMu : Option Agent
  runtimeClosed : Bool
  stopNext : Nat
  releaseNext : Nat
  lastActiveAt : Time
  idleTTL : Time
  inflight : Nat
  inflightByKind : OperationKind → Nat
  activitySeq : Nat
  generation : Int
  persistedAt : Time
  purging : Bool
  sessions : Nat
  shells : Nat

/-- The participants of `stopSequence`: pillow, store, executor. -/
def stopParticipants : Nat := 3

/-- The participants of `releaseSequence`: pillow, amenity, executor, resource, configuration,
filesystem, network, store. -/
def releaseParticipants : Nat := 8

/-! ## Program counters of the shared procedures -/

/-- `teardown`.  `initializing` is the local variable that decides whether the phase is reported. -/
inductive TeardownPc
  | start
  | mark
  | stop (initializing : Bool)
  | stopHooks (initializing : Bool)
  | releaseHooks (initializing : Bool)
  | close (initializing : Bool)
  | look
  | announce (retiring : Bool)
  | failed (err : Fault)
  | ret (err : Option Fault)
  deriving DecidableEq

/-- `cleanLocalIdentity` with `removeIdentityTrees` inlined.  `c` is the attempt joined in `join`,
and the attempt this goroutine runs in every later step. -/
inductive CleanPc
  | entry (removeRoot : Bool)
  | join (c : AttemptId) (removeRoot : Bool)
  | sweep (c : AttemptId)
  | claim (c : AttemptId)
  | remove (c : AttemptId)
  | inspect (c : AttemptId)
  | inspectGc (c : AttemptId)
  | forget (c : AttemptId)
  | unlink (c : AttemptId)
  | unregister (c : AttemptId)
  | settle (c : AttemptId) (err : Option Fault)
  | ret (err : Option Fault)
  deriving DecidableEq

/-- `persistBed`: `w` is the snapshot watermark, `tree` what the upload has read. -/
inductive PersistPc
  | lock
  | enter
  | bump
  | mark (info : Meta)
  | read (info : Meta) (w : Time)
  | put (info : Meta) (w : Time) (tree : Dir)
  | stat (info : Meta) (w : Time)
  | commit (info : Meta) (w : Time) (snapshot : Option Int)
  | save (info : Meta)
  | unlock (err : Option Fault)
  | ret (err : Option Fault)
  deriving DecidableEq

/-- `finishRetirement`: the result is what the Go function returns. -/
inductive RetirePc
  | acquire
  | check
  | teardown (pc : TeardownPc)
  | clean (pc : CleanPc)
  | drop
  | release (evicted : Bool) (err : Option Fault)
  | ret (evicted : Bool) (err : Option Fault)
  deriving DecidableEq

/-! ## Program counters of the goroutines -/

/-- The steps of `initializeResidentBed`, with the three of `StageInBedFS` spelled out. -/
inductive Stage
  | configuration | inspect | select | restore | paths | bedfs | resident | network | processView
  | resources | executor | admission | bind | pillows
  deriving DecidableEq, Repr

/-- The progress reason `updateInitialization` reports before a stage, where it reports one. -/
def Stage.reason : Stage → Option String
  | .inspect => some "InspectingSnapshot"
  | .select => some "SelectingBedFSSource"
  | .restore => some "RestoringSnapshot"
  | .bedfs => some "PreparingBedFS"
  | .network => some "PreparingNetwork"
  | .resources => some "PreparingResources"
  | .pillows => some "PreparingPillows"
  | _ => none

/-- The stage after a stage; the choice between `restore` and `paths` is made in `select`. -/
def Stage.next : Stage → Option Stage
  | .configuration => some .inspect
  | .inspect => some .select
  | .select | .restore => some .paths
  | .paths => some .bedfs
  | .bedfs => some .resident
  | .resident => some .network
  | .network => some .processView
  | .processView => some .resources
  | .resources => some .executor
  | .executor => some .admission
  | .admission => some .bind
  | .bind => some .pillows
  | .pillows => none

/-- `runInitialization`, with `initializeResidentBed` and `finishInitialization` inlined. -/
inductive TaskPc
  | save
  | report (stage : Stage)
  | prepare (stage : Stage)
  | undo (err : Fault) (pc : TeardownPc)
  | strand (err : Fault)
  | check
  | announce
  | publish
  | insert (err : Fault)
  | acquire (err : Fault)
  | rollback (err : Fault) (pc : TeardownPc)
  | unlock (err : Fault) (cleanupErr : Option Fault)
  | drop (err : Fault)
  | finishCheck (err : Fault)
  | finishClean (err : Fault) (failedReason : String) (pc : CleanPc)
  | finishFinal (err : Option Fault) (failedReason : String)
  | finished
  deriving DecidableEq

/-- `beginInitialization`, as run by an `InitializeBed` request. -/
inductive CreatePc
  | wait
  | select
  | accept (selected : Option SyncKind)
  | returned (err : Option Fault)
  deriving DecidableEq

/-- What `evictResidentBed` leaves with: the flags its deferred functions test and its results. -/
structure EvictExit where
  quiesced : Bool
  locked : Bool
  evicted : Bool
  err : Option Fault
  deriving DecidableEq

/-- `evict` and `evictResidentBed`.  `seq` is the activity sequence read at the fence; from
`recover` on are the deferred functions.  `resident` tells a retirement after the eviction of a
resident Bed from one found by the lookup. -/
inductive EvictPc
  | lookup
  | cancel
  | await (i : TaskId)
  | retire (j : TaskId) (resident : Bool) (pc : RetirePc)
  | acquire (j : TaskId)
  | fence (j : TaskId)
  | stop (j : TaskId) (seq : Nat)
  | quiesce (j : TaskId) (seq : Nat)
  | persist (j : TaskId) (seq : Nat) (pc : PersistPc)
  | decide (j : TaskId) (seq : Nat)
  | handoff (j : TaskId)
  | recover (j : TaskId) (x : EvictExit)
  | restart (j : TaskId) (x : EvictExit)
  | resume (j : TaskId) (x : EvictExit)
  | readiness (j : TaskId) (x : EvictExit)
  | unlock (j : TaskId) (x : EvictExit)
  | returned (evicted : Bool) (err : Option Fault)
  deriving DecidableEq

/-- `Purge` and `purgeOwned`.  `l` is the identity it cleans, `kind` the store it deletes from, `b`
the allocation it took over. -/
inductive PurgePc
  | begin
  | wait (p : ThreadId)
  | identify
  | resolve (l : LocalId)
  | choose (l : LocalId) (kind : SyncKind)
  | cancel (l : LocalId) (kind : SyncKind)
  | await (i : TaskId) (l : LocalId) (kind : SyncKind)
  | take (l : LocalId) (kind : SyncKind)
  | acquire (b : TaskId) (l : LocalId) (kind : SyncKind)
  | lockPersist (b : TaskId) (l : LocalId) (kind : SyncKind)
  | teardown (b : TaskId) (l : LocalId) (kind : SyncKind) (pc : TeardownPc)
  | delete (b : Option TaskId) (l : LocalId) (kind : SyncKind)
  | clean (b : Option TaskId) (l : LocalId) (pc : CleanPc)
  | drop (b : Option TaskId)
  | unlockPersist (b : TaskId) (err : Option Fault)
  | unlockCleanup (b : TaskId) (err : Option Fault)
  | finish (err : Option Fault)
  | returned (err : Option Fault)
  deriving DecidableEq

/-- `Close`, for one name: `todo` are the allocations of the list it still has to release. -/
inductive ClosePc
  | cancel
  | await (i : TaskId)
  | joinPurge
  | waitPurge (p : ThreadId)
  | list
  | listRetirements (todo : List TaskId)
  | next (todo : List TaskId)
  | retire (j : TaskId) (todo : List TaskId) (pc : RetirePc)
  | acquire (j : TaskId) (todo : List TaskId)
  | teardown (j : TaskId) (todo : List TaskId) (pc : TeardownPc)
  | release (j : TaskId) (todo : List TaskId)
  | returned
  deriving DecidableEq

/-- `Checkpoint` after `Get`. -/
inductive CheckpointPc
  | begin
  | persist (pc : PersistPc)
  | finish (err : Option Fault)
  | returned (err : Option Fault)
  deriving DecidableEq

/-- `persistDirty` for one Bed of the list it took. -/
inductive SyncPc
  | select
  | persist (pc : PersistPc)
  | returned (err : Option Fault)
  deriving DecidableEq

/-- `CreatePillowShell` and `ForegroundShell` after `Get`. -/
inductive ShellPc
  | touch
  | start
  | register
  | returned (err : Option Fault)
  deriving DecidableEq

/-- What a caller of `InitializeBed` asks for: the sync kind its volumes imply (`none` when it
declares no volumes) and whether the declared pillows have main processes. -/
structure CreateRequest where
  sync : Option SyncKind
  hasMainProcesses : Bool
  deriving DecidableEq, Repr

/-- The goroutines that work on a name, besides its initializations. -/
inductive Thread
  | idle
  | create (req : CreateRequest) (pc : CreatePc)
  | evict (cutoff : Option Time) (pc : EvictPc)
  | purge (pc : PurgePc)
  | close (pc : ClosePc)
  | checkpoint (j : TaskId) (pc : CheckpointPc)
  | sync (j : TaskId) (pc : SyncPc)
  | shell (j : TaskId) (pc : ShellPc)
  | collect (l : LocalId) (pc : CleanPc)
  deriving DecidableEq

/-- `bedInitialization`: `canceled` is the error of its context, `staged` what `StageInBedFS`
reported. -/
structure Initialization where
  identity : LocalId
  canceled : Option Fault
  staged : StageInResult
  done : Bool
  err : Option Fault
  pc : TaskPc

/-! ## The slot of one name -/

/-- Everything the manager, the local disk and the store hold for one name.  `operations` lists the
admitted operations whose finish function has not run. -/
structure Slot where
  bed : Option TaskId
  initialization : Option TaskId
  purge : Option ThreadId
  retirement : Option TaskId
  identity : Option LocalId
  task : TaskId → Initialization
  alloc : TaskId → ManagedBed
  locals : LocalId → LocalIdentity
  cleanups : AttemptId → LocalCleanup
  threads : ThreadId → Thread
  nTasks : Nat
  nLocals : Nat
  nCleanups : Nat
  nThreads : Nat
  operations : List (TaskId × OperationKind)
  collector : Option ThreadId
  disk : Disk
  snapshot : Option Snapshot

namespace Slot

/-- The lifecycle section that allocation (or initialization) `i` shares with its local identity. -/
def lifecycle (s : Slot) (i : TaskId) : LifecycleStatus := (s.locals (s.task i).identity).lifecycle

/-- `snapshot().Phase` of an initialization, `Status().Lifecycle.Phase` of an allocation. -/
def phase (s : Slot) (i : TaskId) : Phase := (s.lifecycle i).phase

/-- `Spec().StoreKind` of an initialization or allocation. -/
def storeKind (s : Slot) (i : TaskId) : SyncKind := (s.locals (s.task i).identity).storeKind

def dataSynced (s : Slot) (j : TaskId) : Bool :=
  s.storeKind j == .noop || !decide ((s.alloc j).persistedAt < (s.alloc j).lastActiveAt)

/-- `pinnedLocked`: a compound capacity fact, not another lifecycle state. -/
def pinned (s : Slot) (j : TaskId) : Bool := decide (0 < (s.alloc j).inflight) || !s.dataSynced j

def retainUntil (s : Slot) (j : TaskId) : Time :=
  retentionDeadline (s.lifecycle j).keepaliveAt (s.alloc j).idleTTL

/-- The initialization recorded for the name, if its phase is `Initializing`. -/
def initializing (s : Slot) : Option TaskId :=
  s.initialization.filter fun i => s.phase i == .initializing

/-- What `occupiedBedsLocked` counts for this name. -/
def occupied (s : Slot) : Nat :=
  (if s.bed.isSome then 1 else 0) + (if s.retirement.isSome then 1 else 0) +
    -- the initialization, unless a retirement of the name is counted already
    (if s.retirement.isNone && s.initializing.isSome then 1 else 0)

def inUse (s : Slot) : Bool :=
  s.bed.isSome || s.initializing.isSome || s.retirement.isSome || s.purge.isSome

/-- The cleanup recorded on the registered identity. -/
def pendingCleanup (s : Slot) : Option AttemptId := s.identity.bind fun l => (s.locals l).cleanup

end Slot

end Hostel.Bed
