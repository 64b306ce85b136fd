/-
# Hostel.Bed.Write — what one critical section or I/O call does to a slot.

Every step of every goroutine performs exactly one `Write` and moves its program counter, so an
invariant is checked against each write, never against each program.  `Write.effect` is the change
of `residentBeds` and `pinnedBeds` that the source makes in the same critical section.
-/
import Hostel.Bed.State
import Mathlib.Data.List.Basic

namespace Hostel.Bed

open Store Function

/-- What a step on one name reads from the rest of the manager.  `occupied` is the number of
occupied Beds under the *other* names. -/
structure Env where
  closed : Bool
  now : Time
  maxBeds : Nat
  idleTTL : Time
  occupied : Nat
  store : StoreConfig
  deriving DecidableEq

inductive Write
  | skip
  -- the maps
  | accept (kind : SyncKind) (hasMainProcesses : Bool)
  | publish (i : TaskId) (ready : Bool)
  | insertRetirement (i : TaskId)
  | deleteRetirement
  | deleteInitialization
  | retire (j : TaskId)
  | takeForPurge (j : TaskId)
  | installFence (t : ThreadId)
  | removeFence
  -- initializations
  | cancelInitialization (i : TaskId) (err : Fault)
  | finishInitialization (i : TaskId) (err : Option Fault) (delete : Bool)
      (status : Option LifecycleStatus)
  | stage (i : TaskId) (result : StageInResult)
  | seed (i : TaskId) (info : Meta) (persistedAt : Time)
  -- local identities
  | setLifecycle (l : LocalId) (next : LifecycleStatus)
  | setReadiness (l : LocalId) (ready : Bool)
  | registerIdentity
  | unregisterIdentity (l : LocalId)
  | claimLuggage
  | beginCleanup (l : LocalId) (removeRoot : Bool) (owner : Agent)
  | settleCleanup (l : LocalId) (c : AttemptId) (err : Option Fault)
  -- disk and store
  | removeGc
  | claimDir
  | makeDir
  | restoreDir (tree : Dir)
  | saveMeta (info : Meta)
  | writeData (x : Nat)
  | commitSnapshot (snapshot : Snapshot)
  | deleteSnapshot
  -- allocations
  | lockCleanup (j : TaskId) (owner : Agent)
  | unlockCleanup (j : TaskId)
  | lockPersist (j : TaskId) (owner : Agent)
  | unlockPersist (j : TaskId)
  | stopHook (j : TaskId)
  | releaseHook (j : TaskId)
  | closeRuntime (j : TaskId)
  | beginOperation (j : TaskId) (kind : OperationKind) (timeout : Time)
  | finishOperation (j : TaskId) (kind : OperationKind)
  | touch (j : TaskId)
  | openSession (j : TaskId)
  | closeSession (j : TaskId)
  | registerShell (j : TaskId)
  | closeShell (j : TaskId)
  | renew (j : TaskId) (base : Time)
  | captureGeneration (j : TaskId) (generation : Int)
  | commitWatermark (j : TaskId) (w : Time)
  deriving DecidableEq

/-! ## Fresh objects -/

def status (env : Env) (phase : Phase) (reason : String) : LifecycleStatus :=
  { phase := phase, ready := false, reason := reason, updatedAt := env.now, keepaliveAt := 0 }

@[simp] theorem status_phase (env : Env) (phase : Phase) (reason : String) :
    (status env phase reason).phase = phase := rfl

def LifecycleStatus.zero : LifecycleStatus :=
  { phase := .unset, ready := false, reason := "", updatedAt := 0, keepaliveAt := 0 }

/-- A new local identity, before any initialization wrote its spec. -/
def LocalIdentity.fresh : LocalIdentity :=
  { lifecycle := LifecycleStatus.zero, storeKind := .noop, hasMainProcesses := false,
    stageIn := { localPresent := false, localGeneration := 0 }, cleanup := none }

/-- The allocation `initializeResidentBed` starts from. -/
def ManagedBed.fresh (idleTTL : Time) : ManagedBed :=
  { cleanupMu := none, persistMu := none, runtimeClosed := false, stopNext := 0, releaseNext := 0,
    lastActiveAt := 0, idleTTL := idleTTL, inflight := 0, inflightByKind := fun _ => 0,
    activitySeq := 0, generation := 0, persistedAt := 0, purging := false, sessions := 0,
    shells := 0 }

/-- A new `bedInitialization` on identity `l`, about to run. -/
def Initialization.fresh (l : LocalId) : Initialization :=
  { identity := l, canceled := none,
    staged := { source := .fresh, snapshot := none, restored := false },
    done := false, err := none, pc := .save }

namespace ManagedBed

/-- `touchLocked`, without the retention clock. -/
def touch (b : ManagedBed) (now : Time) : ManagedBed :=
  { b with lastActiveAt := now, activitySeq := b.activitySeq + 1 }

/-- The counters `BeginOperation` moves. -/
def begin (b : ManagedBed) (kind : OperationKind) (now : Time) : ManagedBed :=
  { b.touch now with
    inflight := b.inflight + 1
    inflightByKind := update b.inflightByKind kind (b.inflightByKind kind + 1) }

/-- The counters a finish function moves. -/
def finish (b : ManagedBed) (kind : OperationKind) (now : Time) : ManagedBed :=
  -- a checkpoint has captured the watermark set at its start, so finishing one is not activity
  { (if kind = .checkpoint then b else b.touch now) with
    inflight := b.inflight - 1
    inflightByKind := update b.inflightByKind kind (b.inflightByKind kind - 1) }

variable (b : ManagedBed) (kind : OperationKind) (now : Time)

@[simp] theorem begin_inflightByKind (c : OperationKind) :
    (b.begin kind now).inflightByKind c =
      if c = kind then b.inflightByKind c + 1 else b.inflightByKind c := by
  simp only [begin, update_apply]
  split_ifs with h
  · rw [h]
  · rfl

@[simp] theorem finish_inflightByKind (c : OperationKind) :
    (b.finish kind now).inflightByKind c =
      if c = kind then b.inflightByKind c - 1 else b.inflightByKind c := by
  simp only [finish, update_apply]
  split_ifs with h
  · rw [h]
  · rfl

@[simp] theorem finish_cleanupMu : (b.finish kind now).cleanupMu = b.cleanupMu := by
  unfold finish
  split <;> rfl

@[simp] theorem finish_persistMu : (b.finish kind now).persistMu = b.persistMu := by
  unfold finish
  split <;> rfl

@[simp] theorem finish_persistedAt : (b.finish kind now).persistedAt = b.persistedAt := by
  unfold finish
  split <;> rfl

@[simp] theorem finish_runtimeClosed : (b.finish kind now).runtimeClosed = b.runtimeClosed := by
  unfold finish
  split <;> rfl

end ManagedBed

/-! ## Applying a write -/

namespace Slot

def mapTask (s : Slot) (i : TaskId) (f : Initialization → Initialization) : Slot :=
  { s with task := update s.task i (f (s.task i)) }

def mapAlloc (s : Slot) (j : TaskId) (f : ManagedBed → ManagedBed) : Slot :=
  { s with alloc := update s.alloc j (f (s.alloc j)) }

def mapLocal (s : Slot) (l : LocalId) (f : LocalIdentity → LocalIdentity) : Slot :=
  { s with locals := update s.locals l (f (s.locals l)) }

def setLifecycle (s : Slot) (l : LocalId) (next : LifecycleStatus) : Slot :=
  s.mapLocal l fun loc => { loc with lifecycle := loc.lifecycle.set next }

def keepalive (s : Slot) (j : TaskId) (base : Time) : Slot :=
  s.mapLocal (s.task j).identity fun loc => { loc with lifecycle := loc.lifecycle.keepalive base }

/-- The identity `localIdentityLocked` answers: the registered one, or else a new one. -/
def registered (s : Slot) : LocalId := s.identity.getD s.nLocals

def registerIdentity (s : Slot) : Slot :=
  { s with
    identity := some s.registered
    locals :=
      if s.identity = none then update s.locals s.nLocals LocalIdentity.fresh else s.locals
    nLocals := if s.identity = none then s.nLocals + 1 else s.nLocals }

/-- A new cleanup attempt on identity `l`. -/
def recordCleanup (s : Slot) (l : LocalId) (c : LocalCleanup) : Slot :=
  { s.mapLocal l fun loc => { loc with cleanup := some s.nCleanups } with
    cleanups := update s.cleanups s.nCleanups c
    nCleanups := s.nCleanups + 1 }

/-- The admission of `beginInitialization`: record the spec, report `Initializing`, and make the new
initialization the entry of the name. -/
def accept (s : Slot) (env : Env) (kind : SyncKind) (hasMainProcesses : Bool) : Slot :=
  let r := s.registerIdentity
  let l := s.registered
  { r.mapLocal l fun loc =>
      { loc with
        storeKind := kind
        hasMainProcesses := hasMainProcesses
        stageIn := StageInRequest.of s.disk.meta
        lifecycle := loc.lifecycle.set (status env .initializing "InitializationQueued") } with
    initialization := some s.nTasks
    task := update s.task s.nTasks (Initialization.fresh l)
    alloc := update s.alloc s.nTasks (ManagedBed.fresh env.idleTTL)
    nTasks := s.nTasks + 1 }

/-- `publishInitializedBed`, once its checks passed. -/
def publish (s : Slot) (env : Env) (i : TaskId) (ready : Bool) : Slot :=
  { (s.keepalive i env.now).setLifecycle (s.task i).identity
      { phase := .resident, ready := ready,
        reason := if ready then "Initialized" else "RequiredPillowUnavailable",
        updatedAt := env.now, keepaliveAt := 0 } with
    bed := some i
    initialization := none }

/-- The last critical section of `finishInitialization`. -/
def finishInitialization (s : Slot) (i : TaskId) (err : Option Fault) (delete : Bool)
    (status : Option LifecycleStatus) : Slot :=
  { s.mapTask i fun t => { t with done := true, err := err } with
    initialization := if delete then none else s.initialization
    locals := (s.mapLocal (s.task i).identity fun loc =>
      { loc with lifecycle := (status.map loc.lifecycle.set).getD loc.lifecycle }).locals }

/-- `pillowsChanged`: only the readiness of a resident Bed is updated. -/
def setReadiness (s : Slot) (env : Env) (l : LocalId) (ready : Bool) : Slot :=
  s.mapLocal l fun loc =>
    if loc.lifecycle.phase = .resident then
      { loc with lifecycle :=
        { loc.lifecycle with
          ready := ready
          updatedAt := env.now
          reason := if ready then "Initialized" else "RequiredPillowUnavailable" } }
    else loc

/-- The end of `removeIdentityTrees`: the identity is forgotten if it is still the registered
one. -/
def unregisterIdentity (s : Slot) (env : Env) (l : LocalId) : Slot :=
  { s.mapLocal l fun loc =>
      if s.identity = some l then
        { loc with lifecycle := loc.lifecycle.set (status env .dormant "Forgotten") }
      else loc with
    identity := if s.identity = some l then none else s.identity }

/-- The end of a cleanup attempt. -/
def settleCleanup (s : Slot) (l : LocalId) (c : AttemptId) (err : Option Fault) : Slot :=
  -- a successful one leaves no fence on a registered identity
  { s.mapLocal l fun loc =>
      if err = none ∧ s.identity = some l then { loc with cleanup := none } else loc with
    cleanups := update s.cleanups c { s.cleanups c with running := false, err := err } }

/-- The claim of `removeLuggage`: register the identity and put an idle cleanup fence on it. -/
def claimLuggage (s : Slot) : Slot :=
  s.registerIdentity.recordCleanup s.registered
    { running := false, removeRoot := true, err := none, owner := none }

def apply (env : Env) (s : Slot) : Write → Slot
  | .skip => s
  | .accept kind hasMain => s.accept env kind hasMain
  | .publish i ready => s.publish env i ready
  | .insertRetirement i => { s with retirement := some i }
  | .deleteRetirement => { s with retirement := none }
  | .deleteInitialization => { s with initialization := none }
  | .retire j => { s with retirement := some j, bed := none }
  | .takeForPurge j =>
    { s.mapAlloc j fun b => { b with purging := true } with retirement := some j, bed := none }
  | .installFence t => { s with purge := some t }
  | .removeFence => { s with purge := none }
  | .cancelInitialization i err =>
    s.mapTask i fun t => { t with canceled := t.canceled.or (some err) }
  | .finishInitialization i err delete status => s.finishInitialization i err delete status
  | .stage i result => s.mapTask i fun t => { t with staged := result }
  | .seed i info persistedAt =>
    { s.mapAlloc i fun b => { b with
        lastActiveAt := env.now, persistedAt := persistedAt, generation := info.generation } with
      disk := (s.disk.saveMeta info).getD s.disk }
  | .setLifecycle l next => s.setLifecycle l next
  | .setReadiness l ready => s.setReadiness env l ready
  | .registerIdentity => s.registerIdentity
  | .unregisterIdentity l => s.unregisterIdentity env l
  | .claimLuggage => s.claimLuggage
  | .beginCleanup l removeRoot owner =>
    s.recordCleanup l
      { running := true, removeRoot := removeRoot, err := none, owner := some owner }
  | .settleCleanup l c err => s.settleCleanup l c err
  | .removeGc => { s with disk := { s.disk with gc := none } }
  | .claimDir => { s with disk := { dir := none, gc := s.disk.dir.or s.disk.gc } }
  | .makeDir =>
    { s with disk := { s.disk with dir := some (s.disk.dir.getD { info := none, data := [] }) } }
  | .restoreDir tree => { s with disk := { s.disk with dir := some tree } }
  | .saveMeta info => { s with disk := (s.disk.saveMeta info).getD s.disk }
  | .writeData x =>
    { s with disk := { s.disk with dir := s.disk.dir.map fun d => { d with data := x :: d.data } } }
  | .commitSnapshot snapshot => { s with snapshot := some snapshot }
  | .deleteSnapshot => { s with snapshot := none }
  | .lockCleanup j owner => s.mapAlloc j fun b => { b with cleanupMu := some owner }
  | .unlockCleanup j => s.mapAlloc j fun b => { b with cleanupMu := none }
  | .lockPersist j owner => s.mapAlloc j fun b => { b with persistMu := some owner }
  | .unlockPersist j => s.mapAlloc j fun b => { b with persistMu := none }
  | .stopHook j => s.mapAlloc j fun b => { b with stopNext := b.stopNext + 1 }
  | .releaseHook j => s.mapAlloc j fun b => { b with releaseNext := b.releaseNext + 1 }
  | .closeRuntime j => s.mapAlloc j fun b => { b with runtimeClosed := true }
  | .beginOperation j kind timeout =>
    { (s.mapAlloc j fun b => b.begin kind env.now).keepalive j (env.now + timeout) with
      operations := (j, kind) :: s.operations }
  | .finishOperation j kind =>
    { (s.mapAlloc j fun b => b.finish kind env.now).keepalive j env.now with
      operations := s.operations.erase (j, kind) }
  | .touch j => (s.mapAlloc j fun b => b.touch env.now).keepalive j env.now
  | .openSession j =>
    (s.mapAlloc j fun b => { b.touch env.now with sessions := b.sessions + 1 }).keepalive j env.now
  | .closeSession j => s.mapAlloc j fun b => { b with sessions := b.sessions - 1 }
  | .registerShell j => s.mapAlloc j fun b => { b with shells := b.shells + 1 }
  | .closeShell j => s.mapAlloc j fun b => { b with shells := b.shells - 1 }
  | .renew j base => s.keepalive j base
  | .captureGeneration j generation => s.mapAlloc j fun b => { b with generation := generation }
  | .commitWatermark j w => s.mapAlloc j fun b => { b with persistedAt := w }

end Slot

/-! ## The counters -/

/-- What a step adds to `residentBeds` and `pinnedBeds`. -/
structure Effect where
  resident : Int
  pinned : Int
  deriving DecidableEq

def Effect.zero : Effect := ⟨0, 0⟩

def Slot.pinnedWeight (s : Slot) (j : TaskId) : Int := if s.pinned j then 1 else 0

/-- `adjustPinnedLocked`, called by sections that changed allocation `j` from `s` to `s'`. -/
def adjustPinned (s s' : Slot) (j : TaskId) : Effect := ⟨0, s'.pinnedWeight j - s.pinnedWeight j⟩

/-- The counter updates made together with a write. -/
def Write.effect (env : Env) (s : Slot) : Write → Effect
  | .publish i _ => ⟨1, s.pinnedWeight i⟩
  | .retire _ => ⟨-1, 0⟩
  | .takeForPurge j => ⟨-1, -s.pinnedWeight j⟩
  | .beginOperation j kind timeout =>
    adjustPinned s (s.apply env (.beginOperation j kind timeout)) j
  | .openSession j => adjustPinned s (s.apply env (.openSession j)) j
  | .touch j => adjustPinned s (s.apply env (.touch j)) j
  -- these may run after the allocation left `beds`, and count only while it is the current entry
  | .finishOperation j kind =>
    if s.bed = some j then adjustPinned s (s.apply env (.finishOperation j kind)) j else Effect.zero
  | .commitWatermark j w =>
    if s.bed = some j then adjustPinned s (s.apply env (.commitWatermark j w)) j else Effect.zero
  | _ => Effect.zero

end Hostel.Bed
