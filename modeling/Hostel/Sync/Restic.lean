/-
# Hostel.Sync.Restic — the layout that leaves the format to the restic tool.

`Persist` stages the part of the tree the filter keeps, lets the tool upload it to the Bed's
repository, and puts `head.json`, which names the tool's snapshot and is the commit point.  What one
run of the tool writes is any list of writes confined to the repository (`Upload`), and what it
reads back is a function of the repository's objects (`ResticTool`).
-/
import Hostel.Sync.Filter

namespace Hostel.Sync.Restic

open Hostel.Logic

structure ResticHead where
  ref : Key
  generation : Int
  bytes : Int
  deriving DecidableEq, Repr

/-- `resticRefPattern`: `^[0-9a-f]{64}$`. -/
def validRef (ref : Key) : Bool :=
  decide (ref.length = 64) && ref.all fun c => c.isDigit || (decide ('a' ≤ c) && decide (c ≤ 'f'))

structure ResticSummary where
  snapshotID : Key
  bytes : Int
  deriving DecidableEq, Repr

/-- One run of `restic backup`: the writes that took effect, and the summary it printed. -/
structure Upload (repo : Key → Bool) where
  writes : List Write
  confined : ∀ w ∈ writes, ∀ k, w.touches k = true → repo k = true
  summary : Option ResticSummary

/-- What the layout relies on: the copy into the staging directory, the JSON encoding of the head,
and `restic restore`, which reads the repository only. -/
structure ResticTool where
  stage : List Entry → Option (List Entry)
  encodeHead : ResticHead → Bytes
  decodeHead : Bytes → Option ResticHead
  decodeHead_encodeHead : ∀ h, decodeHead (encodeHead h) = some h
  download : (Key → Bool) → Objects → Key → Option (List Entry)
  download_confined : ∀ repo (o o' : Objects) ref, (∀ k, repo k = true → o k = o' k) →
    download repo o ref = download repo o' ref

/-- What goes wrong in one call of `Persist`, and what the tool does in it. -/
structure Faults (repo : Key → Bool) where
  /-- The tool is missing, or of another version. -/
  unavailable : Bool
  /-- The pre-write stat fails. -/
  head : Bool
  /-- Reading the previous head fails. -/
  load : Bool
  /-- The staging directory cannot be made or filled. -/
  staging : Bool
  upload : Upload repo
  commit : Outcome

section Layout

variable (T : ResticTool) (pre bed : Key)

/-- `Stat`; a head without a generation is an error. -/
def stat (o : Objects) : Except StoreError (Option SnapshotInfo) :=
  match o (headKey pre bed) with
  | none => .ok none
  | some x =>
    match x.metadata.generation with
    | none => .error .invalidGeneration
    | some g => .ok (some ⟨g, x.metadata.bytes.getD 0⟩)

def readHead (o : Objects) : Option ResticHead :=
  (o (headKey pre bed)).bind fun x => (T.decodeHead x.body).filter fun h => validRef h.ref

def headObject (generation : Int) (s : ResticSummary) : Object :=
  ⟨T.encodeHead ⟨s.snapshotID, generation, s.bytes⟩, ⟨some generation, some s.bytes⟩⟩

/-- `Persist` from the staging on. -/
def publish {repo : Key → Bool} (filter : SnapshotFilter) (c : Call) (f : Faults repo) : Effects :=
  if f.staging then .fail .staging
  else match T.stage (filteredFS filter c.dir) with
    | none => .fail .staging
    | some _ =>
      match f.upload.summary.filter fun s => validRef s.snapshotID with
      | none => ⟨f.upload.writes, some .upload⟩
      | some s =>
        (putThen f.commit (headKey pre bed) (headObject T c.generation s) ⟨[], none⟩).precede
          f.upload.writes

def persist {repo : Key → Bool} (o : Objects) (c : Call) (f : Faults repo) : Effects :=
  match newSnapshotFilter c.volumeRoots with
  | .error e => .fail e
  | .ok filter =>
    if f.unavailable then .fail .unavailable
    else if f.head then .fail .preWriteStat
    else match stat pre bed o with
      | .error e => .fail e
      | .ok none => publish T pre bed filter c f
      | .ok (some info) =>
        if c.generation ≤ info.generation then .fail (.conflict info.generation c.generation)
        else if f.load then .fail .load
        else match readHead T pre bed o with
          | none => .fail .load
          | some _ => publish T pre bed filter c f

/-- `Restore`, when the tool is available. -/
def restore (bucket : Bucket) (o : Objects) : Except StoreError (List Entry) :=
  match readHead T pre bed o with
  | none => .error .load
  | some head =>
    match T.download (inRepository pre bed bucket.name) o head.ref with
    | none => .error .archive
    | some t => .ok t

/-- `Delete`, as in `Pack.delete`. -/
def delete (o : Objects) (lists deletes : Bool) (deleted : Key → Bool) : Effects :=
  deleteListed (o.lists (bedPrefix pre bed)) lists deletes deleted

end Layout

end Hostel.Sync.Restic
