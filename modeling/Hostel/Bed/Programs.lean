/-
# Hostel.Bed.Programs — the goroutines of the manager, one step function each.

Like the procedures they call, the programs map a program counter to a write and a next program
counter.  A procedure's `ret` is where its caller takes over again.
-/
import Hostel.Bed.Procedures

namespace Hostel.Bed

open Store

/-- `failedInitializationRetention`, in milliseconds. -/
def failedInitializationRetention : Time := 600000

/-- `DefaultOperationTimeout` and `MaxOperationTimeout`, in milliseconds. -/
def defaultOperationTimeout : Time := 300000

@[inherit_doc defaultOperationTimeout]
def maxOperationTimeout : Time := 7200000

/-- The bound `BeginOperation` puts on every operation. -/
def operationTimeout (timeout : Time) : Time :=
  if timeout = 0 then defaultOperationTimeout else min timeout maxOperationTimeout

variable (env : Env) (r : Reply) (s : Slot)

/-! ## `runInitialization` -/

/-- `updateInitialization`: progress is reported only by the current initialization of the name,
and only while it is initializing. -/
def reportWrite (i : TaskId) (reason : String) : Write :=
  if s.initialization = some i ∧ s.phase i = .initializing then
    .setLifecycle (s.task i).identity (status env .initializing reason)
  else .skip

def afterStage (stage : Stage) : TaskPc :=
  match stage.next with
  | some next => .report next
  | none => .check

/-- The metadata that the resident stage of initialization `i` saves. -/
def Slot.residentInfo (s : Slot) (i : TaskId) : Meta :=
  residentMeta (s.storeKind i) (s.task i).staged s.disk.meta

/-- One stage of `initializeResidentBed` that its hooks let through. -/
def stageStep (i : TaskId) : Stage → Write × TaskPc
  | .inspect =>
    (.stage i { source := .fresh, snapshot := s.statSnapshot (s.storeKind i), restored := false },
      .report .select)
  | .select =>
    match selectSource (s.locals (s.task i).identity).stageIn (s.task i).staged.snapshot with
    | .luggage => (.stage i { (s.task i).staged with source := .luggage }, .report .paths)
    | .fresh => (.makeDir, .report .paths)
    | .snapshot =>
      (.stage i { (s.task i).staged with source := .snapshot, restored := true }, .report .restore)
  | .restore =>
    match s.snapshot with
    | some sn => (.restoreDir sn.tree, .report .paths)
    | none => (.skip, .undo .hook .start)
  | .resident =>
    match s.disk.dir with
    | some _ =>
      (.seed i (s.residentInfo i) (seedPersistedAt env.now (s.task i).staged (s.residentInfo i)),
        .report .network)
    | none => (.skip, .undo .hook .start)
  | stage => (.skip, afterStage stage)

/-- The decision of `finishInitialization` under the manager lock: whether the entry of the name is
removed, and the status that is reported. -/
def finishDecision (i : TaskId) (err : Option Fault) (failedReason : String) :
    Bool × Option LifecycleStatus :=
  if s.initialization = some i then
    match err with
    | none => (true, none)
    | some f =>
      if s.retirement.isSome then (true, some (status env .evicting "CleanupPending"))
      else if f.canceled then (true, none)
      else (false, some (status env .failed failedReason))
  else (false, none)

/-- The reason a failure of initialization `i` is reported with. -/
def Slot.failedReason (s : Slot) (i : TaskId) : String :=
  failedReadinessReason (s.lifecycle i).reason

/-- `runInitialization` of task `i`. -/
def taskStep (i : TaskId) : TaskPc → Option (Write × TaskPc)
  | .save =>
    match r.fault with
    | some f => some (.skip, .finishCheck f)
    | none => some (.skip, .report .configuration)
  | .report stage =>
    match stage.reason with
    | some reason => some (reportWrite env s i reason, .prepare stage)
    | none => some (.skip, .prepare stage)
  | .prepare stage =>
    match r.fault with
    | some f => some (.skip, .undo f .start)
    | none => some (stageStep env s i stage)
  | .undo err (.ret none) => some (.skip, .finishCheck err)
  | .undo err (.ret (some f)) => some (.skip, .strand ⟨err.canceled || f.canceled⟩)
  | .undo err pc => lift (.undo err) (teardownStep env r s i pc)
  | .strand err => some (.insertRetirement i, .finishCheck err)
  | .check =>
    match (s.task i).canceled with
    | some f => some (.skip, .insert f)
    | none => some (.skip, .announce)
  | .announce => some (reportWrite env s i "PublishingResident", .publish)
  | .publish =>
    if env.closed ∨ s.initialization ≠ some i ∨ s.phase i ≠ .initializing then
      some (.skip, .insert .cancel)
    else if s.bed.isSome then some (.skip, .insert .hook)
    else some (.publish i r.ready, .finishFinal none "")
  | .insert err => some (.insertRetirement i, .acquire err)
  | .acquire err =>
    match r.fault with
    | some f => some (.skip, .finishCheck ⟨err.canceled || f.canceled⟩)
    | none =>
      if (s.alloc i).cleanupMu = none then some (.lockCleanup i (.task i), .rollback err .start)
      else none
  | .rollback err (.ret cleanupErr) => some (.skip, .unlock err cleanupErr)
  | .rollback err pc => lift (.rollback err) (teardownStep env r s i pc)
  | .unlock err none => some (.unlockCleanup i, .drop err)
  | .unlock err (some f) => some (.unlockCleanup i, .finishCheck ⟨err.canceled || f.canceled⟩)
  | .drop err => some (.deleteRetirement, .finishCheck err)
  | .finishCheck err =>
    if s.retirement.isSome then some (.skip, .finishFinal (some err) (s.failedReason i))
    else some (.skip, .finishClean err (s.failedReason i) (.entry false))
  | .finishClean err failedReason (.ret f) =>
    some (.skip, .finishFinal (Fault.join (some err) f) failedReason)
  | .finishClean err failedReason pc =>
    lift (.finishClean err failedReason) (cleanStep r s (.task i) (s.task i).identity pc)
  | .finishFinal err failedReason =>
    some (.finishInitialization i err (finishDecision env s i err failedReason).1
      (finishDecision env s i err failedReason).2, .finished)
  | .finished => none

/-! ## `beginInitialization` -/

/-- The critical section that accepts an initialization. -/
def admission (req : CreateRequest) (selected : Option SyncKind) : Write × CreatePc :=
  if s.pendingCleanup.isSome then (.skip, .wait)
  else if env.closed || s.purge.isSome then (.skip, .returned (some .hook))
  else if s.bed.isSome || s.initializing.isSome then (.skip, .returned r.fault)
  else if s.retirement.isSome then (.skip, .returned (some .hook))
  else match selected, r.fault with
    | none, _ => (.skip, .returned (some .hook))
    | some _, some f => (.skip, .returned (some f))
    | some kind, none =>
      if (decide (0 < env.maxBeds) && decide (env.maxBeds ≤ env.occupied)) || !r.allowed then
        -- the previous, failed entry is removed even when capacity refuses the request
        (.deleteInitialization, .returned (some .hook))
      else (.accept kind req.hasMainProcesses, .returned none)

/-- `bedSync`: the requested kind, else the one the local metadata records, else the default. -/
def Slot.bedSync (s : Slot) (env : Env) (req : CreateRequest) : Option SyncKind :=
  env.store.resolve (req.sync.or (s.disk.meta.map Meta.sync))

/-- `beginInitialization` for a request. -/
def createStep (req : CreateRequest) : CreatePc → Option (Write × CreatePc)
  | .wait =>
    match r.fault with
    | some f => some (.skip, .returned (some f))
    | none =>
      match s.pendingCleanup with
      | none => some (.skip, .select)
      | some c =>
        if (s.cleanups c).running then none else some (.skip, .returned (some .hook))
  | .select =>
    match r.fault with
    | some f => some (.skip, .returned (some f))
    | none =>
      if req.sync.isSome && (s.bedSync env req).isNone then some (.skip, .returned (some .hook))
      else some (.skip, .accept (s.bedSync env req))
  | .accept selected => some (admission env r s req selected)
  | .returned _ => none

/-! ## `evict` and `evictResidentBed` -/

/-- `cancelInitialization` under the manager lock: `none` when the name has no initialization,
`inl` for an entry that is only removed, `inr` for a running one whose context is cancelled. -/
def Slot.cancelTarget (s : Slot) : Option (Unit ⊕ TaskId) :=
  s.initialization.map fun i => if s.phase i = .initializing then .inr i else .inl ()

/-- `beginEvictionLocked` refuses: `some err` is the error it returns. -/
def evictionRefused (cutoff : Option Time) (j : TaskId) : Option (Option Fault) :=
  if env.closed || decide (s.bed ≠ some j) || (s.alloc j).purging then some (some .hook)
  else if s.phase j ≠ .resident ∨ 0 < (s.alloc j).inflight then some none
  else match cutoff with
    | some now =>
      if s.retainUntil j = 0 ∨ now < s.retainUntil j then some none else none
    | none => none

/-- `evict`, run by thread `t`; `cutoff` is the instant of an idle collection. -/
def evictStep (t : ThreadId) (cutoff : Option Time) : EvictPc → Option (Write × EvictPc)
  | .lookup =>
    match s.retirement, s.bed with
    | some j, _ => some (.skip, .retire j false .acquire)
    | none, some j => some (.skip, .acquire j)
    | none, none => some (.skip, .cancel)
  | .cancel =>
    match s.cancelTarget with
    | none => some (.skip, .returned false none)
    | some (.inl _) => some (.deleteInitialization, .returned true none)
    | some (.inr i) => some (.cancelInitialization i .cancel, .await i)
  | .await i =>
    match r.fault with
    | some f => some (.skip, .returned false (some f))
    | none => if (s.task i).done then some (.skip, .returned true none) else none
  | .retire j resident (.ret evicted err) =>
    if resident then some (.skip, .recover j ⟨true, false, evicted, err⟩)
    else some (.skip, .returned evicted err)
  | .retire j resident pc => lift (.retire j resident) (retireStep env r s (.thread t) j pc)
  | .acquire j =>
    match r.fault with
    | some f => some (.skip, .returned false (some f))
    | none =>
      if (s.alloc j).cleanupMu = none then some (.lockCleanup j (.thread t), .fence j) else none
  | .fence j =>
    match evictionRefused env s cutoff j with
    | some err => some (.skip, .unlock j ⟨false, true, false, err⟩)
    | none =>
      some (.setLifecycle (s.task j).identity (status env .evicting "StoppingPillows"),
        .stop j (s.alloc j).activitySeq)
  | .stop j seq =>
    match r.fault with
    | some f => some (.skip, .recover j ⟨false, true, false, some f⟩)
    | none => some (.skip, .quiesce j seq)
  | .quiesce j seq =>
    match r.fault with
    | some f => some (.skip, .recover j ⟨true, true, false, some f⟩)
    | none => some (.skip, .persist j seq .lock)
  | .persist j seq (.ret none) => some (.skip, .decide j seq)
  | .persist j _ (.ret (some f)) => some (.skip, .recover j ⟨true, true, false, some f⟩)
  | .persist j seq pc => lift (.persist j seq) (persistStep r s (.thread t) j pc)
  | .decide j seq =>
    if env.closed ∨ s.bed ≠ some j ∨ 0 < (s.alloc j).inflight ∨ (s.alloc j).activitySeq ≠ seq then
      some (.skip, .recover j ⟨true, true, false, none⟩)
    else some (.retire j, .handoff j)
  | .handoff j => some (.unlockCleanup j, .retire j true .acquire)
  | .recover j x =>
    if env.closed ∨ s.bed ≠ some j then some (.skip, .unlock j x)
    else if x.quiesced then some (.skip, .restart j x)
    else some (.skip, .resume j x)
  | .restart j x => some (.skip, .resume j { x with err := Fault.join x.err r.fault })
  | .resume j x =>
    some (.setLifecycle (s.task j).identity (status env .resident ""), .readiness j x)
  | .readiness j x => some (.setReadiness (s.task j).identity r.ready, .unlock j x)
  | .unlock j x =>
    if x.locked then some (.unlockCleanup j, .returned x.evicted x.err)
    else some (.skip, .returned x.evicted x.err)
  | .returned _ _ => none

/-! ## `Purge` -/

/-- The store kind of the name's entry, when it has one. -/
def Slot.entryKind (s : Slot) : Option SyncKind :=
  ((s.bed.or s.retirement).or s.initialization).map s.storeKind

/-- The kind `purgeOwned` starts from. -/
def purgeKind (store : StoreConfig) (info : Option Meta) : Option SyncKind :=
  match store.resolve (info.map Meta.sync) with
  -- without local metadata a durable kind rather than `noop`
  | some .noop => if info.isSome then some .noop else some (store.resolveDurable.getD .noop)
  | kind => kind

/-- What the goroutine of a finished purge returned. -/
def Slot.purgeResult (s : Slot) (p : ThreadId) : Option (Option Fault) :=
  match s.threads p with
  | .purge (.returned err) => some err
  | _ => none

/-- Where `purgeOwned` leaves to when it fails with, or without, an allocation in its hands. -/
def purgeExit (b : Option TaskId) (err : Option Fault) : PurgePc :=
  match b with
  | some j => .unlockPersist j err
  | none => .finish err

/-- `Purge`, run by thread `t`. -/
def purgeStep (t : ThreadId) : PurgePc → Option (Write × PurgePc)
  | .begin =>
    match s.purge with
    | some p => some (.skip, .wait p)
    | none => some (.installFence t, .identify)
  | .wait p =>
    match r.fault, s.purgeResult p with
    | some f, _ => some (.skip, .returned (some f))
    | none, some err => some (.skip, .returned err)
    | none, none => none
  | .identify => some (.registerIdentity, .resolve s.registered)
  | .resolve l =>
    match r.fault, purgeKind env.store s.disk.meta with
    | some f, _ => some (.skip, .finish (some f))
    | none, none => some (.skip, .finish (some .hook))
    | none, some kind => some (.skip, .choose l kind)
  | .choose l kind => some (.skip, .cancel l (s.entryKind.getD kind))
  | .cancel l kind =>
    match s.cancelTarget with
    | none => some (.skip, .take l kind)
    | some (.inl _) => some (.deleteInitialization, .take l kind)
    | some (.inr i) => some (.cancelInitialization i .cancel, .await i l kind)
  | .await i l kind =>
    match r.fault with
    | some f => some (.skip, .finish (some f))
    | none => if (s.task i).done then some (.skip, .take l kind) else none
  | .take l kind =>
    match s.bed, s.retirement with
    | some j, _ => some (.takeForPurge j, .acquire j l kind)
    | none, some j => some (.skip, .acquire j l kind)
    | none, none => some (.skip, .delete none l kind)
  | .acquire j l kind =>
    match r.fault with
    | some f => some (.skip, .finish (some f))
    | none =>
      if (s.alloc j).cleanupMu = none then
        some (.lockCleanup j (.thread t), .lockPersist j l kind) else none
  | .lockPersist j l kind =>
    if (s.alloc j).persistMu = none then
      some (.lockPersist j (.thread t), .teardown j l kind .start) else none
  | .teardown j l kind (.ret none) => some (.skip, .delete (some j) l kind)
  | .teardown j _ _ (.ret (some f)) => some (.skip, .unlockPersist j (some f))
  | .teardown j l kind pc => lift (.teardown j l kind) (teardownStep env r s j pc)
  | .delete b l kind =>
    match r.fault with
    | some f => some (.skip, purgeExit b (some f))
    | none =>
      if kind.durable then some (.deleteSnapshot, .clean b l (.entry true))
      else some (.skip, .clean b l (.entry true))
  | .clean b _ (.ret none) => some (.skip, .drop b)
  | .clean b _ (.ret (some f)) => some (.skip, purgeExit b (some f))
  | .clean b l pc => lift (.clean b l) (cleanStep r s (.thread t) l pc)
  | .drop b => some (.deleteRetirement, purgeExit b none)
  | .unlockPersist j err => some (.unlockPersist j, .unlockCleanup j err)
  | .unlockCleanup j err => some (.unlockCleanup j, .finish err)
  | .finish err => some (.removeFence, .returned err)
  | .returned _ => none

/-! ## `Close`, `Checkpoint`, `persistDirty` -/

/-- `Close` for one name, run by thread `t` after the manager stopped admission. -/
def closeStep (t : ThreadId) : ClosePc → Option (Write × ClosePc)
  | .cancel =>
    match s.initializing with
    | some i => some (.cancelInitialization i .cancel, .await i)
    | none => some (.skip, .joinPurge)
  | .await i =>
    match r.fault with
    | some _ => some (.skip, .returned)
    | none => if (s.task i).done then some (.skip, .joinPurge) else none
  | .joinPurge =>
    match s.purge with
    | some p => some (.skip, .waitPurge p)
    | none => some (.skip, .list)
  | .waitPurge p =>
    match r.fault, s.purgeResult p with
    | some _, _ => some (.skip, .returned)
    | none, some _ => some (.skip, .list)
    | none, none => none
  | .list => some (.skip, .listRetirements s.bed.toList)
  | .listRetirements todo => some (.skip, .next (todo ++ s.retirement.toList))
  | .next [] => some (.skip, .returned)
  | .next (j :: todo) =>
    if s.retirement = some j then some (.skip, .retire j todo .acquire)
    else some (.skip, .acquire j todo)
  | .retire _ todo (.ret _ _) => some (.skip, .next todo)
  | .retire j todo pc => lift (.retire j todo) (retireStep env r s (.thread t) j pc)
  | .acquire j todo =>
    match r.fault with
    | some _ => some (.skip, .next todo)
    | none =>
      if (s.alloc j).cleanupMu = none then
        some (.lockCleanup j (.thread t), .teardown j todo .start) else none
  | .teardown j todo (.ret _) => some (.skip, .release j todo)
  | .teardown j todo pc => lift (.teardown j todo) (teardownStep env r s j pc)
  | .release j todo => some (.unlockCleanup j, .next todo)
  | .returned => none

/-- The admission check of `BeginOperation`. -/
def Slot.admits (s : Slot) (env : Env) (r : Reply) (j : TaskId) (kind : OperationKind) : Bool :=
  decide (s.bed = some j) && !env.closed && decide (s.phase j = .resident) &&
    (!(s.locals (s.task j).identity).hasMainProcesses || (s.lifecycle j).ready ||
      decide (kind = .control)) &&
    (s.pinned j || r.allowed)

/-- The admission check of `OpenSession`. -/
def Slot.admitsSession (s : Slot) (env : Env) (r : Reply) (j : TaskId) : Bool :=
  decide (s.bed = some j) && !env.closed &&
    (!(s.locals (s.task j).identity).hasMainProcesses ||
      (decide (s.phase j = .resident) && (s.lifecycle j).ready)) &&
    (s.pinned j || r.allowed)

/-- `Checkpoint` of allocation `j`, run by thread `t`. -/
def checkpointStep (t : ThreadId) (j : TaskId) : CheckpointPc → Option (Write × CheckpointPc)
  | .begin =>
    if s.admits env r j .checkpoint then
      some (.beginOperation j .checkpoint (operationTimeout 0), .persist .lock)
    else some (.skip, .returned (some .hook))
  | .persist (.ret err) => some (.skip, .finish err)
  | .persist pc => lift .persist (persistStep r s (.thread t) j pc)
  | .finish err => some (.finishOperation j .checkpoint, .returned err)
  | .returned _ => none

/-- The dirty check of `persistDirty`. -/
def Slot.dirty (s : Slot) (j : TaskId) : Bool :=
  decide ((s.alloc j).persistedAt < (s.alloc j).lastActiveAt) &&
    decide ((s.alloc j).inflight = 0) && decide (s.phase j ≠ .evicting) && !(s.alloc j).purging

/-- `persistDirty` of allocation `j`, run by thread `t`. -/
def syncStep (t : ThreadId) (j : TaskId) : SyncPc → Option (Write × SyncPc)
  | .select => if s.dirty j then some (.skip, .persist .lock) else some (.skip, .returned none)
  | .persist (.ret err) => some (.skip, .returned err)
  | .persist pc => lift .persist (persistStep r s (.thread t) j pc)
  | .returned _ => none

/-- `CreatePillowShell` and `ForegroundShell` on allocation `j`, which may have left `beds`. -/
def shellStep (j : TaskId) : ShellPc → Option (Write × ShellPc)
  | .touch => some (if s.bed = some j then .touch j else .skip, .start)
  -- without a lock; a foreground shell that is alive already is used instead
  | .start => some (.skip, if r.fault = none ∧ r.ready then .register else .returned r.fault)
  -- `b.shells` takes the shell without a look at the phase, at `closed` or at `beds`
  | .register => some (if r.ready then .registerShell j else .skip, .returned none)
  | .returned _ => none

variable {r s} in
theorem shellStep_writes {j : TaskId} {pc pc' : ShellPc} {w : Write}
    (h : shellStep r s j pc = some (w, pc')) :
    w = .skip ∨ w = .touch j ∧ s.bed = some j ∨ w = .registerShell j ∧ pc = .register := by
  cases pc with
  | touch | register =>
    obtain ⟨rfl, -⟩ := Prod.mk.inj (Option.some.inj h)
    split_ifs <;> simp_all
  | start =>
    cases h
    exact .inl rfl
  | returned err => cases h

end Hostel.Bed
