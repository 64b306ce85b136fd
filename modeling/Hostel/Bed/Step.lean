/-
# Hostel.Bed.Step — the requests and background loops acting on a slot, and the whole manager.

`Act.plan` says which write an action performs on a slot and how it moves or starts a goroutine; it
is `none` when the action is not enabled.  `Slot.step` carries the plan out.  A `Manager` is a slot
per name, the configuration, the clock, and the two atomic counters; its actions are a tick of the
clock, the start of shutdown, and an action on one name.
-/
import Hostel.Bed.Programs
import Hostel.Logic.Machine
import Mathlib.Algebra.BigOperators.Group.Finset.Basic

namespace Hostel.Bed

open Store Function

/-! ## Actions on one name -/

/-- What can happen to one name.  The actions that carry an allocation or initialization model a
caller that holds its pointer, however stale. -/
inductive Act
  | initializeBed (req : CreateRequest)
  | evict
  | evictExpired
  | purge
  | close
  | checkpoint
  | syncDirty
  | retryCleanup
  | collectLuggage
  | task (i : TaskId) (r : Reply)
  | thread (t : ThreadId) (r : Reply)
  | expire (i : TaskId)
  | prune
  | beginOperation (j : TaskId) (kind : OperationKind) (timeout : Time) (r : Reply)
  | finishOperation (j : TaskId) (kind : OperationKind)
  | touch (j : TaskId)
  | openSession (j : TaskId) (r : Reply)
  | closeSession (j : TaskId)
  | renew (j : TaskId) (base : Time)
  | writeData (x : Nat)
  | pillowsChanged (l : LocalId) (ready : Bool)
  | openShell
  | closeShell (j : TaskId)
  deriving DecidableEq

/-- How an action moves the goroutines of a name. -/
inductive Move
  | stay
  | task (i : TaskId) (pc : TaskPc)
  | thread (t : ThreadId) (th : Thread)
  | spawn (th : Thread)
  | spawnCollector (th : Thread)
  deriving DecidableEq

def Slot.move (s : Slot) : Move → Slot
  | .stay => s
  | .task i pc => s.mapTask i fun t => { t with pc := pc }
  | .thread t th => { s with threads := update s.threads t th }
  | .spawn th => { s with threads := update s.threads s.nThreads th, nThreads := s.nThreads + 1 }
  | .spawnCollector th =>
    { s with
      threads := update s.threads s.nThreads th
      nThreads := s.nThreads + 1
      collector := some s.nThreads }

/-- One step of a goroutine that is not an initialization. -/
def threadStep (env : Env) (r : Reply) (s : Slot) (t : ThreadId) : Thread → Option (Write × Thread)
  | .idle => none
  | .create req pc => lift (.create req) (createStep env r s req pc)
  | .evict cutoff pc => lift (.evict cutoff) (evictStep env r s t cutoff pc)
  | .purge pc => lift .purge (purgeStep env r s t pc)
  | .close pc => lift .close (closeStep env r s t pc)
  | .checkpoint j pc => lift (.checkpoint j) (checkpointStep env r s t j pc)
  | .sync j pc => lift (.sync j) (syncStep r s t j pc)
  | .shell j pc => lift (.shell j) (shellStep r s j pc)
  | .collect l pc => lift (.collect l) (cleanStep r s (.thread t) l pc)

/-- A step of a goroutine, by the program it runs. -/
inductive ThreadStep (env : Env) (r : Reply) (s : Slot) (t : ThreadId) (w : Write) :
    Thread → Thread → Prop
  | create req pc pc' (h : createStep env r s req pc = some (w, pc')) :
    ThreadStep env r s t w (.create req pc) (.create req pc')
  | evict cutoff pc pc' (h : evictStep env r s t cutoff pc = some (w, pc')) :
    ThreadStep env r s t w (.evict cutoff pc) (.evict cutoff pc')
  | purge pc pc' (h : purgeStep env r s t pc = some (w, pc')) :
    ThreadStep env r s t w (.purge pc) (.purge pc')
  | close pc pc' (h : closeStep env r s t pc = some (w, pc')) :
    ThreadStep env r s t w (.close pc) (.close pc')
  | checkpoint j pc pc' (h : checkpointStep env r s t j pc = some (w, pc')) :
    ThreadStep env r s t w (.checkpoint j pc) (.checkpoint j pc')
  | sync j pc pc' (h : syncStep r s t j pc = some (w, pc')) :
    ThreadStep env r s t w (.sync j pc) (.sync j pc')
  | shell j pc pc' (h : shellStep r s j pc = some (w, pc')) :
    ThreadStep env r s t w (.shell j pc) (.shell j pc')
  | collect l pc pc' (h : cleanStep r s (.thread t) l pc = some (w, pc')) :
    ThreadStep env r s t w (.collect l pc) (.collect l pc')

theorem threadStep_inv {env : Env} {r : Reply} {s : Slot} {t : ThreadId} {w : Write}
    {th th' : Thread} (h : threadStep env r s t th = some (w, th')) :
    ThreadStep env r s t w th th' := by
  cases th
  case idle => cases h
  all_goals
    obtain ⟨_, hsub, rfl⟩ := lift_eq_some.mp h
    constructor
    exact hsub

/-- Whether the collection goroutine is busy with this name.  The daemon runs one such goroutine,
and shutdown joins it before it retries cleanups itself. -/
def Slot.collecting (s : Slot) : Bool :=
  match s.collector with
  | none => false
  | some c =>
    match s.threads c with
    | .collect _ (.ret _) => false
    | _ => true

def Act.plan (env : Env) (s : Slot) : Act → Option (Write × Move)
  | .initializeBed req => some (.skip, .spawn (.create req .wait))
  | .evict => some (.skip, .spawn (.evict none .lookup))
  | .evictExpired =>
    match s.bed with
    | some j =>
      if s.retainUntil j ≠ 0 ∧ s.retainUntil j ≤ env.now then
        some (.skip, .spawn (.evict (some env.now) .lookup))
      else none
    | none => none
  | .purge => some (.skip, .spawn (.purge .begin))
  | .close => if env.closed then some (.skip, .spawn (.close .cancel)) else none
  | .checkpoint =>
    match s.bed with
    | some j => some (.skip, .spawn (.checkpoint j .begin))
    | none => none
  | .syncDirty =>
    match s.bed with
    | some j => if (s.storeKind j).durable then some (.skip, .spawn (.sync j .select)) else none
    | none => none
  | .retryCleanup =>
    match s.identity with
    | some l =>
      if (s.locals l).cleanup.isSome && !s.inUse && !s.collecting then
        some (.skip, .spawnCollector (.collect l (.entry false)))
      else none
    | none => none
  | .collectLuggage =>
    if s.pendingCleanup.isNone && !s.inUse && !s.collecting then
      some (.claimLuggage, .spawnCollector (.collect s.registered (.entry true)))
    else none
  | .task i r => lift (.task i) (taskStep env r s i (s.task i).pc)
  | .thread t r => lift (.thread t) (threadStep env r s t (s.threads t))
  | .expire i => some (.cancelInitialization i .hook, .stay)
  | .prune =>
    match s.initialization with
    | some i =>
      if s.phase i = .failed ∧
          (s.lifecycle i).updatedAt + failedInitializationRetention ≤ env.now then
        some (.deleteInitialization, .stay)
      else none
    | none => none
  | .beginOperation j kind timeout r =>
    if kind ≠ .checkpoint ∧ s.admits env r j kind then
      some (.beginOperation j kind (operationTimeout timeout), .stay)
    else none
  | .finishOperation j kind =>
    if kind ≠ .checkpoint ∧ (j, kind) ∈ s.operations then some (.finishOperation j kind, .stay)
    else none
  | .touch j => if s.bed = some j then some (.touch j, .stay) else none
  | .openSession j r => if s.admitsSession env r j then some (.openSession j, .stay) else none
  | .closeSession j => some (.closeSession j, .stay)
  | .renew j base =>
    if env.closed = false ∧ s.bed = some j ∧ (s.alloc j).purging = false ∧
        s.phase j = .resident then some (.renew j base, .stay) else none
  | .writeData x => some (.writeData x, .stay)
  | .pillowsChanged l ready => some (.setReadiness l ready, .stay)
  | .openShell =>
    match s.bed with
    | some j => some (.skip, .spawn (.shell j .touch))
    | none => none
  | .closeShell j => some (.closeShell j, .stay)

/-- One action on a slot: the new state and the change of the counters. -/
def Slot.step (env : Env) (s : Slot) (a : Act) : Option (Slot × Effect) :=
  (a.plan env s).map fun p => ((s.apply env p.1).move p.2, p.1.effect env s)

/-! ## The slot after a start -/

/-- The slot after `recoverLocalIdentities`. -/
def Slot.boot (env : Env) (disk : Disk) (snapshot : Option Snapshot) : Slot :=
  { bed := none, initialization := none, purge := none, retirement := none
    -- a local tree makes a dormant identity, and a `.gc-` tree a pending cleanup
    identity := if disk.dir.isSome || disk.gc.isSome then some 0 else none
    task := fun _ => { Initialization.fresh 0 with done := true, pc := .finished }
    alloc := fun _ => ManagedBed.fresh env.idleTTL
    locals := fun _ =>
      { LocalIdentity.fresh with
        lifecycle := status env .dormant "NotResident"
        cleanup := if disk.gc.isSome then some 0 else none }
    cleanups := fun _ => { running := false, removeRoot := false, err := none, owner := none }
    threads := fun _ => .idle
    nTasks := 0, nLocals := 1, nCleanups := 1, nThreads := 0
    operations := [], collector := none, disk := disk, snapshot := snapshot }

/-! ## The manager -/

/-- The startup configuration the lifecycle reads; `maxBeds = 0` means unlimited. -/
structure Config where
  maxBeds : Nat
  idleTTL : Time
  store : StoreConfig
  deriving DecidableEq, Repr

/-- The manager over names `ν`.  `names` are the names any request has mentioned. -/
structure Manager (ν : Type) where
  config : Config
  closed : Bool
  now : Time
  residentBeds : Int
  pinnedBeds : Int
  names : Finset ν
  slot : ν → Slot

/-- A tick of the clock, the start of shutdown, or an action on one name. -/
inductive Event (ν : Type)
  | tick (d : Time)
  | stop
  | act (n : ν) (a : Act)
  deriving DecidableEq

namespace Manager

variable {ν : Type} [DecidableEq ν]

def bedCount (m : Manager ν) : Nat := (m.names.filter fun n => (m.slot n).bed.isSome).card

def occupiedBeds (m : Manager ν) : Nat := ∑ n ∈ m.names, (m.slot n).occupied

/-- What an action on `n` reads from the rest of the manager. -/
def env (m : Manager ν) (n : ν) : Env :=
  { closed := m.closed, now := m.now, maxBeds := m.config.maxBeds, idleTTL := m.config.idleTTL
    occupied := ∑ k ∈ m.names.erase n, (m.slot k).occupied
    store := m.config.store }

def step (m : Manager ν) : Event ν → Option (Manager ν)
  | .tick d => some { m with now := m.now + d }
  | .stop => some { m with closed := true }
  | .act n a =>
    ((m.slot n).step (m.env n) a).map fun p =>
      { m with
        residentBeds := m.residentBeds + p.2.resident
        pinnedBeds := m.pinnedBeds + p.2.pinned
        names := insert n m.names
        slot := update m.slot n p.1 }

/-- The manager after `Start` on the given local trees and snapshots. -/
def boot (config : Config) (now : Time) (disk : ν → Disk) (snapshot : ν → Option Snapshot) :
    Manager ν :=
  { config := config, closed := false, now := now, residentBeds := 0, pinnedBeds := 0, names := ∅
    slot := fun n => Slot.boot
      { closed := false, now := now, maxBeds := config.maxBeds, idleTTL := config.idleTTL
        occupied := 0, store := config.store } (disk n) (snapshot n) }

def machine (ν : Type) [DecidableEq ν] : Logic.Machine (Manager ν) (Event ν) := ⟨step⟩

end Manager

end Hostel.Bed
