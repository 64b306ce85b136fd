/-
# Hostel.Bed.Lifecycle — the shared Bed model the manager coordinates around.

The source keeps one `*model.Bed` per local identity, and every initialization of that identity and
every allocation it builds share its lifecycle section.  So a `LifecycleStatus` belongs to a local
identity, never to an initialization.

`Message` texts are diagnostic only and are left out; the machine-readable `reason` is kept.
-/
import Mathlib.Logic.Function.Basic
import Mathlib.Order.Lattice

namespace Hostel.Bed

/-- Instants, in ticks of the daemon clock.  `0` is Go's zero `time.Time`. -/
abbrev Time := Nat

/-- `LifecyclePhase`: the coarse lifecycle of a local Bed identity; `unset` is the zero value of an
identity that no lifecycle update has reached. -/
inductive Phase
  | unset | initializing | resident | evicting | purging | dormant | failed
  deriving DecidableEq, Repr

/-- `SyncKind`: how the files of a Bed are synchronized.  `copy` is for explicit transfers only and
is never resolved for a Bed. -/
inductive SyncKind
  | noop | auto | cas | pack | tar | restic | copy
  deriving DecidableEq, Repr

/-- Every kind but `noop` writes snapshots to the object store. -/
def SyncKind.durable (k : SyncKind) : Bool := k != .noop

inductive OperationKind
  | exec | file | browser | mcp | checkpoint | control | pillow
  deriving DecidableEq, Repr

def OperationKind.all : List OperationKind :=
  [.exec, .file, .browser, .mcp, .checkpoint, .control, .pillow]

/-- What the manager can tell about a Go error: whether `errors.Is(err, context.Canceled)`. -/
structure Fault where
  canceled : Bool
  deriving DecidableEq, Repr

namespace Fault

def cancel : Fault := ⟨true⟩

/-- Any other failure: a hook, an I/O error, an expired deadline. -/
def hook : Fault := ⟨false⟩

/-- `errors.Join`. -/
def join : Option Fault → Option Fault → Option Fault
  | none, g => g
  | f, none => f
  -- the joined error is a cancellation as soon as one of its parts is
  | some f, some g => some ⟨f.canceled || g.canceled⟩

end Fault

structure LifecycleStatus where
  phase : Phase
  ready : Bool
  reason : String
  updatedAt : Time
  keepaliveAt : Time
  deriving DecidableEq, Repr

namespace LifecycleStatus

/-- `setLifecycle` on one status: phase and readiness change, the retention clock stays. -/
def set (current next : LifecycleStatus) : LifecycleStatus :=
  { next with keepaliveAt := current.keepaliveAt }

/-- `keepaliveLocked`: the retention clock only moves forward. -/
def keepalive (current : LifecycleStatus) (base : Time) : LifecycleStatus :=
  if current.keepaliveAt < base then { current with keepaliveAt := base } else current

@[simp] theorem set_phase (current next : LifecycleStatus) :
    (current.set next).phase = next.phase := rfl

@[simp] theorem set_keepaliveAt (current next : LifecycleStatus) :
    (current.set next).keepaliveAt = current.keepaliveAt := rfl

@[simp] theorem keepalive_keepaliveAt (current : LifecycleStatus) (base : Time) :
    (current.keepalive base).keepaliveAt = max current.keepaliveAt base := by
  unfold keepalive
  split_ifs with h
  · exact (max_eq_right h.le).symm
  · exact (max_eq_left (Nat.le_of_not_lt h)).symm

@[simp] theorem keepalive_phase (current : LifecycleStatus) (base : Time) :
    (current.keepalive base).phase = current.phase := by
  unfold keepalive
  split <;> rfl

end LifecycleStatus

/-- `retentionDeadline`: zero, which is "no deadline", unless both the base and the TTL are set. -/
def retentionDeadline (base ttl : Time) : Time :=
  if ttl = 0 ∨ base = 0 then 0 else base + ttl

/-- `failedReadinessReason`: the failure reason a stage's progress reason turns into. -/
def failedReadinessReason (current : String) : String :=
  if current = "InspectingSnapshot" ∨ current = "SelectingBedFSSource" then
    "SnapshotInspectionFailed"
  else if current = "RestoringSnapshot" then "SnapshotRestoreFailed"
  else if current = "PreparingBedFS" then "BedFSPreparationFailed"
  else if current = "PreparingNetwork" then "NetworkPreparationFailed"
  else if current = "PreparingResources" then "ResourcePreparationFailed"
  else if current = "PublishingResident" then "ResidentPublicationFailed"
  else "InitializationFailed"

end Hostel.Bed
