/-
# Hostel.Store.StageIn — local copies, snapshots, and which of the two an initialization selects.

A Bed directory carries its bookkeeping (`meta.json`) beside its data.  The generation in it is
bumped *before* a snapshot is packed, so that the snapshot carries its own generation, and the last
persisted instant is recorded only *after* the upload succeeded.  `selectSource` is the choice
`StageInBedFS` makes between luggage and snapshot.

The contents of a directory are modelled as the list of the writes it contains.
-/
import Hostel.Bed.Lifecycle

namespace Hostel.Store

open Hostel.Bed

/-! ## Which store a Bed uses -/

/-- The part of the store configuration that selects an implementation: whether a bucket is
configured, and the default kind. -/
structure StoreConfig where
  bucket : Bool
  defaultSync : SyncKind
  deriving DecidableEq, Repr

namespace StoreConfig

/-- `Resolve`. -/
def resolve (c : StoreConfig) : Option SyncKind → Option SyncKind
  | none => some c.defaultSync
  | some .noop => some .noop
  -- not a synchronization policy
  | some .copy => none
  -- without a bucket every durable kind is `noop`
  | some k => if c.bucket then some k else some .noop

/-- `ResolveDurable`: `none` is `ErrPersistenceUnavailable`. -/
def resolveDurable (c : StoreConfig) : Option SyncKind :=
  if c.defaultSync ≠ .noop then some c.defaultSync
  else if c.bucket then some .auto else none

end StoreConfig

/-! ## Local copies and snapshots -/

/-- `bedMeta`, the fields that the lifecycle reads. -/
structure Meta where
  sync : SyncKind
  generation : Int
  lastPersistedAt : Time
  snapshotGeneration : Int
  deriving DecidableEq, Repr

/-- A Bed directory: `meta.json`, `none` when it is missing or unreadable, and the data in it. -/
structure Dir where
  info : Option Meta
  data : List Nat
  deriving DecidableEq, Repr

/-- The metadata has no negative generation, which only a forged `meta.json` has. -/
def Dir.Counted (dir : Dir) : Prop := ∀ info, dir.info = some info → 0 ≤ info.generation

/-- A committed snapshot: the generation it was committed with, and the packed tree. -/
structure Snapshot where
  generation : Int
  tree : Dir
  deriving DecidableEq, Repr

/-- The two local trees of a Bed name: its directory and the `.gc-` tree claimed for deletion. -/
structure Disk where
  dir : Option Dir
  gc : Option Dir
  deriving DecidableEq, Repr

namespace Meta

/-- The metadata that `persistBed` and `initializeResidentBed` start from when none can be read. -/
def fresh (kind : SyncKind) : Meta :=
  { sync := kind, generation := 0, lastPersistedAt := 0, snapshotGeneration := 0 }

/-- The generation bump that `persistBed` saves before packing. -/
def bump (kind : SyncKind) (info : Option Meta) : Meta :=
  let m := info.getD (fresh kind)
  { m with generation := m.generation + 1 }

/-- What `persistBed` saves after a successful upload; `snapshot` is the generation that `Stat`
answered, if it answered. -/
def commit (m : Meta) (watermark : Time) (snapshot : Option Int) : Meta :=
  { m with lastPersistedAt := watermark, snapshotGeneration := snapshot.getD m.snapshotGeneration }

end Meta

def Disk.meta (d : Disk) : Option Meta := d.dir.bind Dir.info

theorem Disk.meta_counted {d : Disk} (h : ∀ dir, d.dir = some dir → dir.Counted) (kind : SyncKind) :
    0 ≤ (d.meta.getD (.fresh kind)).generation := by
  cases hmeta : d.meta with
  | none => exact le_rfl
  | some info =>
    obtain ⟨dir, hdir, hinfo⟩ := Option.bind_eq_some_iff.mp hmeta
    exact h dir hdir info hinfo

/-- `saveMeta`: the atomic write fails when the directory is not there. -/
def Disk.saveMeta (d : Disk) (m : Meta) : Option Disk :=
  d.dir.map fun dir => { d with dir := some { dir with info := some m } }

/-- A best-effort `saveMeta` rewrites the metadata of a directory that is there, and nothing
else. -/
theorem Disk.saveMeta_getD (d : Disk) (m : Meta) :
    (d.saveMeta m).getD d = { d with dir := d.dir.map fun dir => { dir with info := some m } } := by
  obtain ⟨dir, gc⟩ := d
  cases dir <;> rfl

/-! ## Stage-in -/

/-- `StageInSource`: which copy supplied the local BedFS. -/
inductive StageInSource
  | fresh | luggage | snapshot
  deriving DecidableEq, Repr

/-- `StageInRequest`: the local facts recorded when the initialization was accepted. -/
structure StageInRequest where
  localPresent : Bool
  localGeneration : Int
  deriving DecidableEq, Repr

/-- The request an initialization records from `loadMeta` under the manager lock. -/
def StageInRequest.of (info : Option Meta) : StageInRequest :=
  { localPresent := info.isSome, localGeneration := (info.map Meta.generation).getD 0 }

/-- `StageInResult`: `snapshot` is the generation `Stat` answered before the selection. -/
structure StageInResult where
  source : StageInSource
  snapshot : Option Int
  restored : Bool
  deriving DecidableEq, Repr

/-- The choice `StageInBedFS` makes between the local copy and the snapshot `Stat` found. -/
def selectSource (req : StageInRequest) : Option Int → StageInSource
  | none => if req.localPresent then .luggage else .fresh
  | some generation =>
    if req.localPresent && decide (generation ≤ req.localGeneration) then .luggage else .snapshot

/-- The metadata `initializeResidentBed` saves once the directory is staged. -/
def residentMeta (kind : SyncKind) (staged : StageInResult) (info : Option Meta) : Meta :=
  let m := info.getD (Meta.fresh kind)
  { m with sync := kind, snapshotGeneration := staged.snapshot.getD m.snapshotGeneration }

/-- The watermark `initializeResidentBed` seeds the allocation with: `now` for a restored copy and
for one that records no persist, otherwise the recorded instant. -/
def seedPersistedAt (now : Time) (staged : StageInResult) (m : Meta) : Time :=
  if staged.restored || decide (m.lastPersistedAt = 0) then now else m.lastPersistedAt

end Hostel.Store
