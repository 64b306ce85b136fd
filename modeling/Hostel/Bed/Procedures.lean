/-
# Hostel.Bed.Procedures — the procedures that several goroutines share.

`teardown`, `cleanLocalIdentity`, `persistBed` and `finishRetirement` are step functions from a
program counter to the write it performs and the next one; `none` means that the step is blocked, or
that the procedure has returned.  The environment answers every I/O call, hook and context check
with a `Reply`.
-/
import Hostel.Bed.Write

namespace Hostel.Bed

open Store

/-- How the environment answers one step: the error a hook, an I/O call or an expired context
returns, whether the required pillows are ready, and the verdict of resource admission. -/
structure Reply where
  fault : Option Fault
  ready : Bool
  allowed : Bool
  deriving DecidableEq

namespace Reply

def ok : Reply := { fault := none, ready := true, allowed := true }

def fail (f : Fault) : Reply := { fault := some f, ready := true, allowed := true }

end Reply

/-- Move a goroutine along with a procedure it called. -/
def lift {α β : Type} (wrap : α → β) (p : Option (Write × α)) : Option (Write × β) :=
  p.map fun q => (q.1, wrap q.2)

theorem lift_eq_some {α β : Type} {wrap : α → β} {p : Option (Write × α)} {w : Write} {b : β} :
    lift wrap p = some (w, b) ↔ ∃ a, p = some (w, a) ∧ b = wrap a := by
  cases p with
  | none => simp [lift]
  | some q =>
    obtain ⟨v, a⟩ := q
    simp only [lift, Option.map_some, Option.some.injEq, Prod.mk.injEq]
    constructor
    · rintro ⟨rfl, rfl⟩
      exact ⟨a, ⟨rfl, rfl⟩, rfl⟩
    · rintro ⟨c, ⟨rfl, rfl⟩, rfl⟩
      exact ⟨rfl, rfl⟩

variable (env : Env) (r : Reply) (s : Slot)

/-! ## `teardown` -/

/-- The deferred function of `teardown`: a failure is reported unless the Bed is initializing. -/
def teardownFails (initializing : Bool) (err : Fault) : TeardownPc :=
  if initializing then .ret (some err) else .failed err

/-- `teardown` of allocation `j`. -/
def teardownStep (j : TaskId) : TeardownPc → Option (Write × TeardownPc)
  | .start =>
    if (s.alloc j).runtimeClosed then some (.skip, .ret none)
    else if s.phase j = .initializing then some (.skip, .stop true)
    else some (.skip, .mark)
  | .mark =>
    some (.setLifecycle (s.task j).identity (status env .evicting "RuntimeCleanup"), .stop false)
  | .stop initializing =>
    match r.fault with
    | some f => some (.skip, teardownFails initializing f)
    | none => some (.skip, .stopHooks initializing)
  | .stopHooks initializing =>
    if (s.alloc j).stopNext < stopParticipants then
      match r.fault with
      | some f => some (.skip, teardownFails initializing f)
      | none => some (.stopHook j, .stopHooks initializing)
    else some (.skip, .releaseHooks initializing)
  | .releaseHooks initializing =>
    if (s.alloc j).releaseNext < releaseParticipants then
      match r.fault with
      | some f => some (.skip, teardownFails initializing f)
      | none => some (.releaseHook j, .releaseHooks initializing)
    else some (.skip, .close initializing)
  | .close initializing =>
    if initializing then some (.closeRuntime j, .ret none) else some (.closeRuntime j, .look)
  | .look => some (.skip, .announce (decide (s.retirement = some j)))
  | .announce retiring =>
    some (.setLifecycle (s.task j).identity
      (if retiring then status env .evicting "CleanupPending"
        else status env .dormant "RuntimeReleased"), .ret none)
  | .failed err =>
    some (.setLifecycle (s.task j).identity (status env .evicting "CleanupPending"),
      .ret (some err))
  | .ret _ => none

/-! ## `cleanLocalIdentity` -/

/-- `cleanLocalIdentity` of identity `l`, run by `A`. -/
def cleanStep (A : Agent) (l : LocalId) : CleanPc → Option (Write × CleanPc)
  | .entry removeRoot =>
    if s.identity = some l then
      match (s.locals l).cleanup, r.fault with
      | none, none => some (.beginCleanup l removeRoot A, .sweep s.nCleanups)
      | none, some f => some (.skip, .ret (some f))
      | some c, fault =>
        if (s.cleanups c).running then some (.skip, .join c removeRoot)
        else match fault with
          | none =>
            -- the root removal that an earlier attempt was asked for is inherited
            some (.beginCleanup l (removeRoot || (s.cleanups c).removeRoot) A, .sweep s.nCleanups)
          | some f => some (.skip, .ret (some f))
    else some (.skip, .ret none)
  | .join c removeRoot =>
    match r.fault with
    | some f => some (.skip, .ret (some f))
    | none =>
      if (s.cleanups c).running then none
      else match (s.cleanups c).err with
        | some f => some (.skip, .ret (some f))
        | none => some (.skip, .entry removeRoot)
  -- `removeIdentityTrees`: its first failure ends the attempt
  | .sweep c =>
    match r.fault with
    | some f => some (.skip, .settle c (some f))
    | none =>
      if (s.cleanups c).removeRoot then some (.removeGc, .claim c) else some (.removeGc, .inspect c)
  | .claim c =>
    match r.fault with
    | some f => some (.skip, .settle c (some f))
    | none => some (.claimDir, .remove c)
  | .remove c =>
    match r.fault with
    | some f => some (.skip, .settle c (some f))
    | none => some (.removeGc, .inspect c)
  | .inspect c =>
    match r.fault with
    | some f => some (.skip, .settle c (some f))
    | none => if s.disk.dir = none then some (.skip, .inspectGc c) else some (.skip, .settle c none)
  | .inspectGc c =>
    match r.fault with
    | some f => some (.skip, .settle c (some f))
    | none => if s.disk.gc = none then some (.skip, .forget c) else some (.skip, .settle c none)
  | .forget c =>
    match r.fault with
    | some f => some (.skip, .settle c (some f))
    | none => some (.skip, .unlink c)
  | .unlink c =>
    match r.fault with
    | some f => some (.skip, .settle c (some f))
    | none => some (.skip, .unregister c)
  | .unregister c => some (.unregisterIdentity l, .settle c none)
  | .settle c err => some (.settleCleanup l c err, .ret err)
  | .ret _ => none

/-! ## `persistBed` -/

/-- Whether the store refuses generation `g` because it already holds that one or a later one. -/
def Slot.conflicts (s : Slot) (g : Int) : Bool :=
  match s.snapshot with
  | some sn => decide (g ≤ sn.generation)
  | none => false

/-- What `StatBed` answers for a store kind: `noop` knows no snapshots. -/
def Slot.statSnapshot (s : Slot) (kind : SyncKind) : Option Int :=
  if kind.durable then s.snapshot.map Snapshot.generation else none

/-- The metadata `persistBed` of allocation `j` saves before it packs. -/
def Slot.bumped (s : Slot) (j : TaskId) : Meta := Meta.bump (s.storeKind j) s.disk.meta

/-- `persistBed` of allocation `j`, run by `A`. -/
def persistStep (A : Agent) (j : TaskId) : PersistPc → Option (Write × PersistPc)
  | .lock => if (s.alloc j).persistMu = none then some (.lockPersist j A, .enter) else none
  | .enter =>
    if (s.alloc j).purging then some (.skip, .unlock (some .hook)) else some (.skip, .bump)
  | .bump =>
    match r.fault, s.disk.dir with
    | none, some _ => some (.saveMeta (s.bumped j), .mark (s.bumped j))
    | none, none => some (.skip, .unlock (some .hook))
    | some f, _ => some (.skip, .unlock (some f))
  | .mark info => some (.captureGeneration j info.generation, .read info (s.alloc j).lastActiveAt)
  | .read info w =>
    if (s.storeKind j).durable then
      match r.fault, s.disk.dir with
      | none, some tree =>
        if s.conflicts info.generation then some (.skip, .unlock (some .hook))
        else some (.skip, .put info w tree)
      | none, none => some (.skip, .unlock (some .hook))
      | some f, _ => some (.skip, .unlock (some f))
    else some (.skip, .stat info w)
  | .put info w tree =>
    match r.fault with
    | some f => some (.skip, .unlock (some f))
    | none => some (.commitSnapshot { generation := info.generation, tree := tree }, .stat info w)
  | .stat info w =>
    some (.skip, .commit info w (if r.fault = none then s.statSnapshot (s.storeKind j) else none))
  | .commit info w snapshot => some (.commitWatermark j w, .save (info.commit w snapshot))
  | .save info =>
    if r.fault = none then some (.saveMeta info, .unlock none) else some (.skip, .unlock none)
  | .unlock err => some (.unlockPersist j, .ret err)
  | .ret _ => none

/-! ## `finishRetirement` -/

/-- `finishRetirement` of allocation `j`, run by `A`. -/
def retireStep (A : Agent) (j : TaskId) : RetirePc → Option (Write × RetirePc)
  | .acquire =>
    match r.fault with
    | some f => some (.skip, .ret false (some f))
    | none => if (s.alloc j).cleanupMu = none then some (.lockCleanup j A, .check) else none
  | .check =>
    if s.retirement = some j then some (.skip, .teardown .start)
    else some (.skip, .release true none)
  | .teardown (.ret none) => some (.skip, .clean (.entry true))
  | .teardown (.ret (some f)) => some (.skip, .release false (some f))
  | .teardown pc => lift .teardown (teardownStep env r s j pc)
  | .clean (.ret none) => some (.skip, .drop)
  | .clean (.ret (some f)) => some (.skip, .release false (some f))
  | .clean pc => lift .clean (cleanStep r s A (s.task j).identity pc)
  | .drop =>
    if s.retirement = some j then some (.deleteRetirement, .release true none)
    else some (.skip, .release true none)
  | .release evicted err => some (.unlockCleanup j, .ret evicted err)
  | .ret _ _ => none

end Hostel.Bed
