/-
# Hostel.Bed.Frame — a write, field by field.

`Slot.apply` is written section by section, as the source is.  Each lemma below says for one field
which writes can have changed it, so that later proofs never unfold a section.
-/
import Hostel.Bed.Step

namespace Hostel.Bed

open Store Function

namespace Write

def bed (s : Slot) : Write → Option TaskId
  | .publish i _ => some i
  | .retire _ | .takeForPurge _ => none
  | _ => s.bed

def initialization (s : Slot) : Write → Option TaskId
  | .accept _ _ => some s.nTasks
  | .publish _ _ | .deleteInitialization => none
  | .finishInitialization _ _ delete _ => if delete then none else s.initialization
  | _ => s.initialization

def purge (s : Slot) : Write → Option ThreadId
  | .installFence t => some t
  | .removeFence => none
  | _ => s.purge

def retirement (s : Slot) : Write → Option TaskId
  | .insertRetirement i => some i
  | .deleteRetirement => none
  | .retire j | .takeForPurge j => some j
  | _ => s.retirement

def identity (s : Slot) : Write → Option LocalId
  | .accept _ _ | .registerIdentity | .claimLuggage => some s.registered
  | .unregisterIdentity l => if s.identity = some l then none else s.identity
  | _ => s.identity

def task (s : Slot) (i : TaskId) : Write → Initialization
  | .accept _ _ => if i = s.nTasks then Initialization.fresh s.registered else s.task i
  | .cancelInitialization k err =>
    if i = k then { s.task i with canceled := (s.task i).canceled.or (some err) } else s.task i
  | .finishInitialization k err _ _ =>
    if i = k then { s.task i with done := true, err := err } else s.task i
  | .stage k result => if i = k then { s.task i with staged := result } else s.task i
  | _ => s.task i

def alloc (env : Env) (s : Slot) (j : TaskId) : Write → ManagedBed
  | .accept _ _ => if j = s.nTasks then ManagedBed.fresh env.idleTTL else s.alloc j
  | .takeForPurge k => if j = k then { s.alloc j with purging := true } else s.alloc j
  | .seed k info persistedAt =>
    if j = k then { s.alloc j with
      lastActiveAt := env.now, persistedAt := persistedAt, generation := info.generation }
    else s.alloc j
  | .lockCleanup k owner => if j = k then { s.alloc j with cleanupMu := some owner } else s.alloc j
  | .unlockCleanup k => if j = k then { s.alloc j with cleanupMu := none } else s.alloc j
  | .lockPersist k owner => if j = k then { s.alloc j with persistMu := some owner } else s.alloc j
  | .unlockPersist k => if j = k then { s.alloc j with persistMu := none } else s.alloc j
  | .stopHook k =>
    if j = k then { s.alloc j with stopNext := (s.alloc j).stopNext + 1 } else s.alloc j
  | .releaseHook k =>
    if j = k then { s.alloc j with releaseNext := (s.alloc j).releaseNext + 1 } else s.alloc j
  | .closeRuntime k => if j = k then { s.alloc j with runtimeClosed := true } else s.alloc j
  | .beginOperation k kind _ => if j = k then (s.alloc j).begin kind env.now else s.alloc j
  | .finishOperation k kind => if j = k then (s.alloc j).finish kind env.now else s.alloc j
  | .touch k => if j = k then (s.alloc j).touch env.now else s.alloc j
  | .openSession k =>
    if j = k then { (s.alloc j).touch env.now with sessions := (s.alloc j).sessions + 1 }
    else s.alloc j
  | .closeSession k =>
    if j = k then { s.alloc j with sessions := (s.alloc j).sessions - 1 } else s.alloc j
  | .registerShell k =>
    if j = k then { s.alloc j with shells := (s.alloc j).shells + 1 } else s.alloc j
  | .closeShell k =>
    if j = k then { s.alloc j with shells := (s.alloc j).shells - 1 } else s.alloc j
  | .captureGeneration k generation =>
    if j = k then { s.alloc j with generation := generation } else s.alloc j
  | .commitWatermark k w => if j = k then { s.alloc j with persistedAt := w } else s.alloc j
  | _ => s.alloc j

def phase (s : Slot) (l : LocalId) : Write → Phase
  | .accept _ _ => if l = s.registered then .initializing else (s.locals l).lifecycle.phase
  | .publish i _ => if l = (s.task i).identity then .resident else (s.locals l).lifecycle.phase
  | .finishInitialization i _ _ status =>
    if l = (s.task i).identity then
      (status.map LifecycleStatus.phase).getD (s.locals l).lifecycle.phase
    else (s.locals l).lifecycle.phase
  | .setLifecycle k next => if l = k then next.phase else (s.locals l).lifecycle.phase
  | .unregisterIdentity k =>
    if s.identity = some k ∧ l = k then .dormant else (s.locals l).lifecycle.phase
  | .registerIdentity =>
    if s.identity = none ∧ l = s.nLocals then .unset else (s.locals l).lifecycle.phase
  | .claimLuggage =>
    if s.identity = none ∧ l = s.nLocals then .unset else (s.locals l).lifecycle.phase
  | _ => (s.locals l).lifecycle.phase

def cleanup (s : Slot) (l : LocalId) : Write → Option AttemptId
  | .accept _ _ | .registerIdentity =>
    if s.identity = none ∧ l = s.nLocals then none else (s.locals l).cleanup
  | .claimLuggage => if l = s.registered then some s.nCleanups else (s.locals l).cleanup
  | .beginCleanup k _ _ => if l = k then some s.nCleanups else (s.locals l).cleanup
  | .settleCleanup k _ err =>
    if err = none ∧ s.identity = some k ∧ l = k then none else (s.locals l).cleanup
  | _ => (s.locals l).cleanup

def storeKind (s : Slot) (l : LocalId) : Write → SyncKind
  | .accept kind _ => if l = s.registered then kind else (s.locals l).storeKind
  | .registerIdentity =>
    if s.identity = none ∧ l = s.nLocals then .noop else (s.locals l).storeKind
  | .claimLuggage =>
    if s.identity = none ∧ l = s.nLocals then .noop else (s.locals l).storeKind
  | _ => (s.locals l).storeKind

def stageIn (s : Slot) (l : LocalId) : Write → StageInRequest
  | .accept _ _ =>
    if l = s.registered then StageInRequest.of s.disk.meta else (s.locals l).stageIn
  | .registerIdentity =>
    if s.identity = none ∧ l = s.nLocals then LocalIdentity.fresh.stageIn else (s.locals l).stageIn
  | .claimLuggage =>
    if s.identity = none ∧ l = s.nLocals then LocalIdentity.fresh.stageIn else (s.locals l).stageIn
  | _ => (s.locals l).stageIn

def attempt (s : Slot) (c : AttemptId) : Write → LocalCleanup
  | .claimLuggage =>
    if c = s.nCleanups then { running := false, removeRoot := true, err := none, owner := none }
    else s.cleanups c
  | .beginCleanup _ removeRoot owner =>
    if c = s.nCleanups then
      { running := true, removeRoot := removeRoot, err := none, owner := some owner }
    else s.cleanups c
  | .settleCleanup _ k err =>
    if c = k then { s.cleanups c with running := false, err := err } else s.cleanups c
  | _ => s.cleanups c

def nTasks (s : Slot) : Write → Nat
  | .accept _ _ => s.nTasks + 1
  | _ => s.nTasks

def nLocals (s : Slot) : Write → Nat
  | .accept _ _ | .registerIdentity | .claimLuggage =>
    if s.identity = none then s.nLocals + 1 else s.nLocals
  | _ => s.nLocals

def nCleanups (s : Slot) : Write → Nat
  | .claimLuggage | .beginCleanup _ _ _ => s.nCleanups + 1
  | _ => s.nCleanups

def operations (s : Slot) : Write → List (TaskId × OperationKind)
  | .beginOperation j kind _ => (j, kind) :: s.operations
  | .finishOperation j kind => s.operations.erase (j, kind)
  | _ => s.operations

def dir (s : Slot) : Write → Option Dir
  | .seed _ info _ | .saveMeta info => s.disk.dir.map fun d => { d with info := some info }
  | .claimDir => none
  | .makeDir => some (s.disk.dir.getD { info := none, data := [] })
  | .restoreDir tree => some tree
  | .writeData x => s.disk.dir.map fun d => { d with data := x :: d.data }
  | _ => s.disk.dir

def gc (s : Slot) : Write → Option Dir
  | .removeGc => none
  | .claimDir => s.disk.dir.or s.disk.gc
  | _ => s.disk.gc

def snapshot (s : Slot) : Write → Option Snapshot
  | .commitSnapshot sn => some sn
  | .deleteSnapshot => none
  | _ => s.snapshot

theorem task_pc (s : Slot) (i : TaskId) (w : Write) (h : i ≠ s.nTasks) :
    (w.task s i).pc = (s.task i).pc := by
  cases w <;> simp only [task] <;> split_ifs <;> first | rfl | contradiction

theorem task_identity (s : Slot) (i : TaskId) (w : Write) (h : i ≠ s.nTasks) :
    (w.task s i).identity = (s.task i).identity := by
  cases w <;> simp only [task] <;> split_ifs <;> first | rfl | contradiction

theorem le_nTasks (s : Slot) (w : Write) : s.nTasks ≤ w.nTasks s := by
  cases w <;> simp [nTasks]

theorem le_nLocals (s : Slot) (w : Write) : s.nLocals ≤ w.nLocals s := by
  cases w <;> simp only [nLocals] <;> first | exact le_rfl | (split_ifs <;> omega)

theorem le_nCleanups (s : Slot) (w : Write) : s.nCleanups ≤ w.nCleanups s := by
  cases w <;> simp [nCleanups]

end Write

namespace Move

def pc (s : Slot) (i : TaskId) : Move → TaskPc
  | .task k pc => if i = k then pc else (s.task i).pc
  | _ => (s.task i).pc

def threads (s : Slot) (t : ThreadId) : Move → Thread
  | .thread u th => if t = u then th else s.threads t
  | .spawn th | .spawnCollector th => if t = s.nThreads then th else s.threads t
  | _ => s.threads t

def nThreads (s : Slot) : Move → Nat
  | .spawn _ | .spawnCollector _ => s.nThreads + 1
  | _ => s.nThreads

end Move

/-! ## The fields after a write -/

namespace Slot

variable (env : Env) (s : Slot) (w : Write)

theorem registered_of_some {s : Slot} {l : LocalId} (h : s.identity = some l) :
    s.registered = l := by
  simp [registered, h]

theorem registered_of_none {s : Slot} (h : s.identity = none) : s.registered = s.nLocals := by
  simp [registered, h]

@[simp] theorem apply_bed : (s.apply env w).bed = w.bed s := by
  cases w <;> rfl

@[simp] theorem apply_initialization : (s.apply env w).initialization = w.initialization s := by
  cases w <;> rfl

@[simp] theorem apply_purge : (s.apply env w).purge = w.purge s := by
  cases w <;> rfl

@[simp] theorem apply_retirement : (s.apply env w).retirement = w.retirement s := by
  cases w <;> rfl

@[simp] theorem apply_identity : (s.apply env w).identity = w.identity s := by
  cases w <;> rfl

@[simp] theorem apply_nTasks : (s.apply env w).nTasks = w.nTasks s := by
  cases w <;> rfl

@[simp] theorem apply_nLocals : (s.apply env w).nLocals = w.nLocals s := by
  cases w <;> rfl

@[simp] theorem apply_nCleanups : (s.apply env w).nCleanups = w.nCleanups s := by
  cases w <;> rfl

@[simp] theorem apply_operations : (s.apply env w).operations = w.operations s := by
  cases w <;> rfl

@[simp] theorem apply_threads : (s.apply env w).threads = s.threads := by
  cases w <;> rfl

@[simp] theorem apply_nThreads : (s.apply env w).nThreads = s.nThreads := by
  cases w <;> rfl

@[simp] theorem apply_snapshot : (s.apply env w).snapshot = w.snapshot s := by
  cases w <;> rfl

@[simp] theorem apply_task (i : TaskId) : (s.apply env w).task i = w.task s i := by
  cases w <;> try rfl
  all_goals
    simp only [apply, accept, mapTask, finishInitialization, update_apply, Write.task] <;>
      split_ifs with h <;> simp only [h]

@[simp] theorem apply_alloc (j : TaskId) : (s.apply env w).alloc j = w.alloc env s j := by
  cases w <;> try rfl
  all_goals
    simp only [apply, accept, mapAlloc, keepalive, mapLocal, update_apply, Write.alloc] <;>
      split_ifs with h <;> simp only [h]

@[simp] theorem apply_attempt (c : AttemptId) : (s.apply env w).cleanups c = w.attempt s c := by
  cases w <;> try rfl
  all_goals
    simp only [apply, claimLuggage, recordCleanup, settleCleanup, mapLocal, registerIdentity,
      update_apply, Write.attempt] <;>
      split_ifs with h <;> simp only [h]

@[simp] theorem apply_dir : (s.apply env w).disk.dir = w.dir s := by
  cases w <;> first | rfl | simp [apply, Disk.saveMeta_getD, Write.dir]

@[simp] theorem apply_gc : (s.apply env w).disk.gc = w.gc s := by
  cases w <;> first | rfl | simp [apply, Disk.saveMeta_getD, Write.gc]

theorem registerIdentity_locals (l : LocalId) :
    s.registerIdentity.locals l =
      if s.identity = none ∧ l = s.nLocals then LocalIdentity.fresh else s.locals l := by
  simp only [registerIdentity]
  by_cases h : s.identity = none
  · simp [h, update_apply]
  · simp [h]

theorem mapLocal_locals (k l : LocalId) (f : LocalIdentity → LocalIdentity) :
    (s.mapLocal k f).locals l = if l = k then f (s.locals l) else s.locals l := by
  simp only [mapLocal, update_apply]
  split_ifs with h
  · rw [h]
  · rfl

theorem apply_local (l : LocalId) :
    ((s.apply env w).locals l).lifecycle.phase = w.phase s l ∧
      ((s.apply env w).locals l).cleanup = w.cleanup s l ∧
      ((s.apply env w).locals l).storeKind = w.storeKind s l ∧
      ((s.apply env w).locals l).stageIn = w.stageIn s l ∧
      (l ≠ s.nLocals → (s.locals l).lifecycle.keepaliveAt ≤
        ((s.apply env w).locals l).lifecycle.keepaliveAt) := by
  cases w with
  | finishInitialization i err delete status =>
    cases status <;>
      simp only [apply, finishInitialization, mapLocal_locals, Write.phase, Write.cleanup,
        Write.storeKind, Write.stageIn] <;>
      split_ifs <;> simp
  | accept | registerIdentity | claimLuggage | beginCleanup =>
    simp only [apply, accept, claimLuggage, recordCleanup, mapLocal_locals, registerIdentity_locals,
      Write.phase, Write.cleanup, Write.storeKind, Write.stageIn]
    split_ifs <;> simp_all [LocalIdentity.fresh, registered, registerIdentity, LifecycleStatus.zero]
  | publish | setLifecycle | setReadiness | unregisterIdentity | settleCleanup | beginOperation
  | finishOperation | touch | openSession | renew =>
    simp only [apply, publish, settleCleanup, unregisterIdentity, setReadiness, setLifecycle,
      keepalive, mapAlloc, mapLocal_locals, Write.phase, Write.cleanup, Write.storeKind,
      Write.stageIn]
    split_ifs <;> simp_all
  | _ => exact ⟨rfl, rfl, rfl, rfl, fun _ => le_rfl⟩

@[simp] theorem apply_phase (l : LocalId) :
    ((s.apply env w).locals l).lifecycle.phase = w.phase s l :=
  (apply_local ..).1

@[simp] theorem apply_cleanup (l : LocalId) : ((s.apply env w).locals l).cleanup = w.cleanup s l :=
  (apply_local ..).2.1

@[simp] theorem apply_storeKind (l : LocalId) :
    ((s.apply env w).locals l).storeKind = w.storeKind s l :=
  (apply_local ..).2.2.1

@[simp] theorem apply_stageIn (l : LocalId) : ((s.apply env w).locals l).stageIn = w.stageIn s l :=
  (apply_local ..).2.2.2.1

/-! ## The fields after a move -/

variable (m : Move)

@[simp] theorem move_bed : (s.move m).bed = s.bed := by
  cases m <;> rfl

@[simp] theorem move_initialization : (s.move m).initialization = s.initialization := by
  cases m <;> rfl

@[simp] theorem move_purge : (s.move m).purge = s.purge := by
  cases m <;> rfl

@[simp] theorem move_retirement : (s.move m).retirement = s.retirement := by
  cases m <;> rfl

@[simp] theorem move_identity : (s.move m).identity = s.identity := by
  cases m <;> rfl

@[simp] theorem move_alloc : (s.move m).alloc = s.alloc := by
  cases m <;> rfl

@[simp] theorem move_locals : (s.move m).locals = s.locals := by
  cases m <;> rfl

@[simp] theorem move_cleanups : (s.move m).cleanups = s.cleanups := by
  cases m <;> rfl

@[simp] theorem move_nTasks : (s.move m).nTasks = s.nTasks := by
  cases m <;> rfl

@[simp] theorem move_nLocals : (s.move m).nLocals = s.nLocals := by
  cases m <;> rfl

@[simp] theorem move_nCleanups : (s.move m).nCleanups = s.nCleanups := by
  cases m <;> rfl

@[simp] theorem move_operations : (s.move m).operations = s.operations := by
  cases m <;> rfl

@[simp] theorem move_disk : (s.move m).disk = s.disk := by
  cases m <;> rfl

@[simp] theorem move_snapshot : (s.move m).snapshot = s.snapshot := by
  cases m <;> rfl

@[simp] theorem move_task (i : TaskId) : (s.move m).task i = { s.task i with pc := m.pc s i } := by
  cases m with
  | task k pc =>
    simp only [move, mapTask, update_apply, Move.pc]
    split_ifs with h
    · rw [h]
    · rfl
  | _ => rfl

@[simp] theorem move_thread (t : ThreadId) : (s.move m).threads t = m.threads s t := by
  cases m <;> simp [move, mapTask, Move.threads, update_apply]

@[simp] theorem move_nThreads : (s.move m).nThreads = m.nThreads s := by
  cases m <;> rfl

@[simp] theorem nThreads_apply : m.nThreads (s.apply env w) = m.nThreads s := by
  cases m <;> simp [Move.nThreads]

@[simp] theorem threads_apply (t : ThreadId) : m.threads (s.apply env w) t = m.threads s t := by
  cases m <;> simp [Move.threads]

end Slot

-- Once the write or the move is known, `simp` reads the field off.
attribute [simp] Write.initialization Write.cleanup Write.attempt Write.operations Write.dir
  Move.threads Move.nThreads

end Hostel.Bed
