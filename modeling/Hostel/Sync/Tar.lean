/-
# Hostel.Sync.Tar — the archive of the tar layout.

`writeTarGzip` writes a record for every entry of the local tree that the filter keeps;
`readTarGzip` recreates the records in a directory.  The tar and gzip codecs are a parameter
(`TarGzip`).  Creating an entry stamps it, and the directory it is in, with the time of the clock.
Here a path through something that is not a directory is an error.
-/
import Hostel.Logic.Utf8
import Hostel.Sync.Filter

namespace Hostel.Sync.Tar

open Hostel.Logic

/-! ## Records -/

def second : Int := 1000000000

/-- `Time.Round(time.Second)`, in seconds: what `WriteHeader` keeps of a modification time. -/
def toSecond (t : Int) : Int := (t + 500000000) / second

/-- `time.Time{}`, in seconds. -/
def zeroTime : Int := -62135596800

inductive Typeflag
  | dir
  | reg
  | symlink
  | other (flag : UInt8)
  deriving DecidableEq, Repr

structure Header where
  name : Bytes
  typeflag : Typeflag
  mode : Nat
  modTime : Int
  linkname : Bytes
  deriving DecidableEq, Repr

structure Record where
  header : Header
  body : Bytes
  deriving DecidableEq, Repr

/-- The codecs: what is written can be read back. -/
structure TarGzip where
  encode : List Record → Bytes
  decode : Bytes → Option (List Record)
  decode_encode : ∀ rs, decode (encode rs) = some rs

inductive TarError
  | unsupportedFileType (rel : Bytes)
  | unsafeTarget (name target : Bytes)
  | escapingTarget (name target : Bytes)
  | backslash (name : Bytes)
  | escapes (name : Bytes)
  | duplicate (name : Bytes)
  | unsupportedEntryType (name : Bytes)
  | malformed
  | occupied (path : List Name)
  | notDirectory (path : List Name)
  deriving DecidableEq, Repr

/-! ## Path checks -/

def backslash : UInt8 := 92

/-- `fs.ValidPath`. -/
def validPath (p : Bytes) : Bool :=
  Utf8.valid p && (decide (p = [dot]) ||
    (p.splitOn slash).all fun e => decide (e ≠ [] ∧ e ≠ [dot] ∧ e ≠ dotdot))

def cleanTarPath (name : Bytes) : Except TarError Bytes :=
  if backslash ∈ name then .error (.backslash name)
  else if clean name = [dot] ∨ validPath (clean name) = false then .error (.escapes name)
  else .ok (clean name)

/-- A path that leaves the directory it starts from. -/
def climbs (resolved : Bytes) : Bool :=
  decide (resolved = dotdot) || (dotdot ++ [slash]).isPrefixOf resolved

theorem climbs_iff {q : Bytes} : climbs q = true ↔ q = dotdot ∨ ∃ r, q = dotdot ++ slash :: r := by
  rw [climbs, Bool.or_eq_true, decide_eq_true_eq, List.isPrefixOf_iff_prefix]
  refine or_congr_right (exists_congr fun r => ?_)
  rw [List.append_assoc, eq_comm]
  rfl

def validateTarSymlink (name target : Bytes) : Except TarError Unit :=
  if target = [] ∨ rooted target = true ∨ backslash ∈ target then .error (.unsafeTarget name target)
  else if climbs (clean (joinPath [dirName name, target])) then .error (.escapingTarget name target)
  else .ok ()

/-! ## `writeTarGzip` -/

def recordOf (rel : Bytes) : Info → Except TarError Record
  | .dir mode mtime => .ok ⟨⟨rel, .dir, mode, toSecond mtime, []⟩, []⟩
  | .leaf (.file mode mtime data) => .ok ⟨⟨rel, .reg, mode, toSecond mtime, []⟩, data⟩
  | .leaf (.symlink mtime target) =>
    match validateTarSymlink rel target with
    | .error e => .error e
    | .ok _ => .ok ⟨⟨rel, .symlink, 0o777, toSecond mtime, target⟩, []⟩
  | .leaf .special => .error (.unsupportedFileType rel)

/-- The walk of `writeTarGzip`. -/
def archive (f : SnapshotFilter) (path : List Name) : Tree → Except TarError (List Record)
  | .nil => .ok []
  | .leaf n l rest =>
    if f.excluded (relPath (path ++ [n])) then archive f path rest
    else do
      let r ← recordOf (relPath (path ++ [n])) (.leaf l)
      let rs ← archive f path rest
      return r :: rs
  | .dir n mode mtime children rest =>
    -- an excluded directory is skipped with what it contains
    if f.excluded (relPath (path ++ [n])) then archive f path rest
    else do
      let r ← recordOf (relPath (path ++ [n])) (.dir mode mtime)
      let cs ← archive f (path ++ [n]) children
      let rs ← archive f path rest
      return r :: (cs ++ rs)

def writeTarGzip (codec : TarGzip) (d : Directory) (f : SnapshotFilter) : Except TarError Bytes :=
  (archive f [] d.tree).map codec.encode

/-! ## `readTarGzip` -/

/-- The directory a restore writes to: what every path below it names, and itself under `[]`. -/
abbrev LocalTree := List Name → Option Info

def emptyTree (mode : Nat) (mtime : Int) : LocalTree := fun p =>
  if p = [] then some (.dir mode mtime) else none

/-- The permission bits of a mode. -/
def perm (mode : Nat) : Nat := mode % 0o1000

/-- A new entry at `p`; the directory it is in is modified. -/
def create (fs : LocalTree) (now : Int) (p : List Name) (i : Info) : LocalTree := fun q =>
  if q = p then some i
  else if q = p.dropLast then
    match fs q with
    | some (.dir mode _) => some (.dir mode now)
    | x => x
  else fs q

/-- `Root.MkdirAll` of `todo` below `done`. -/
def mkdirAll (clock : List Name → Int) (mode : Nat) (fs : LocalTree) (done : List Name) :
    List Name → Except TarError LocalTree
  | [] => .ok fs
  | n :: todo =>
    match fs (done ++ [n]) with
    | some (.dir _ _) => mkdirAll clock mode fs (done ++ [n]) todo
    | some (.leaf _) => .error (.notDirectory (done ++ [n]))
    | none =>
      mkdirAll clock mode
        (create fs (clock (done ++ [n])) (done ++ [n]) (.dir mode (clock (done ++ [n]))))
        (done ++ [n]) todo

/-- `Root.OpenFile` with `O_EXCL`, or `Root.Symlink`: nothing may be there. -/
def createNew (fs : LocalTree) (now : Int) (p : List Name) (i : Info) : Except TarError LocalTree :=
  match fs p with
  | some _ => .error (.occupied p)
  | none => .ok (create fs now p i)

structure RestoredDir where
  name : Bytes
  mode : Nat
  modTime : Int
  deriving DecidableEq, Repr

/-- The state of the loop of `readTarGzip`. -/
structure Extraction where
  fs : LocalTree
  seen : List Bytes
  dirs : List RestoredDir

/-- The modification time an entry ends with: a zero time is not restored. -/
def restoredTime (now modTime : Int) : Int := if modTime = zeroTime then now else modTime * second

/-- One record, under its cleaned name. -/
def extractAs (clock : List Name → Int) (x : Extraction) (name : Bytes) (r : Record) :
    Except TarError Extraction :=
  let p := elements name
  let mode := perm r.header.mode
  match r.header.typeflag with
  | .dir => do
    let fs ← mkdirAll clock (mode ||| 0o700) x.fs [] p
    return { x with fs := fs, dirs := x.dirs ++ [⟨name, mode, r.header.modTime⟩] }
  | .reg => do
    let fs ← mkdirAll clock 0o755 x.fs [] (elements (dirName name))
    let fs ← createNew fs (clock p) p
      (.leaf (.file mode (restoredTime (clock p) r.header.modTime) r.body))
    return { x with fs := fs }
  | .symlink => do
    validateTarSymlink name r.header.linkname
    let fs ← mkdirAll clock 0o755 x.fs [] (elements (dirName name))
    let fs ← createNew fs (clock p) p (.leaf (.symlink (clock p) r.header.linkname))
    return { x with fs := fs }
  | .other _ => .error (.unsupportedEntryType name)

def extract (clock : List Name → Int) (x : Extraction) (r : Record) :
    Except TarError Extraction := do
  let name ← cleanTarPath r.header.name
  if x.seen.contains name then .error (.duplicate name)
  else extractAs clock { x with seen := name :: x.seen } name r

/-- `Chmod` and `Chtimes` of a directory after the extraction. -/
def restoreDir (fs : LocalTree) (d : RestoredDir) : Except TarError LocalTree :=
  match fs (elements d.name) with
  | some (.dir _ mtime) =>
    .ok (Function.update fs (elements d.name)
      (some (.dir d.mode (restoredTime mtime d.modTime))))
  | _ => .error (.notDirectory (elements d.name))

def readTarGzip (codec : TarGzip) (clock : List Name → Int) (src : Bytes) (fs : LocalTree) :
    Except TarError LocalTree :=
  match codec.decode src with
  | none => .error .malformed
  | some rs => do
    let x ← rs.foldlM (extract clock) ⟨fs, [], []⟩
    x.dirs.reverse.foldlM restoreDir x.fs

/-! ## The layout -/

/-- What goes wrong in one call of `Persist`. -/
structure Faults where
  /-- The pre-write stat fails. -/
  head : Bool
  /-- The temporary archive cannot be made. -/
  staging : Bool
  commit : Outcome

def Faults.none : Faults := { head := false, staging := false, commit := .ok }

/-- Why a restore failed: the archive could not be had, or could not be extracted. -/
inductive RestoreError
  | store (e : StoreError)
  | extract (e : TarError)
  deriving DecidableEq, Repr

section Layout

variable (codec : TarGzip) (pre bed : Key)

def stat (o : Objects) : Option SnapshotInfo :=
  (o (snapshotKey pre bed)).map fun x => ⟨x.metadata.generation.getD 0, x.body.length⟩

def archiveObject (generation : Int) (archive : Bytes) : Object :=
  ⟨archive, ⟨some generation, none⟩⟩

def persist (o : Objects) (c : Call) (f : Faults) : Effects :=
  match newSnapshotFilter c.volumeRoots with
  | .error e => .fail e
  | .ok filter =>
    if f.head then .fail .preWriteStat
    else match (o (snapshotKey pre bed)).bind fun x => x.fences c.generation with
      | some g => .fail (.conflict g c.generation)
      | none =>
        if f.staging then .fail .staging
        else match writeTarGzip codec c.dir filter with
          | .error _ => .fail .archive
          | .ok b =>
            putThen f.commit (snapshotKey pre bed) (archiveObject c.generation b) ⟨[], none⟩

def restore (clock : List Name → Int) (o : Objects) (fs : LocalTree) :
    Except RestoreError LocalTree :=
  match o (snapshotKey pre bed) with
  | none => .error (.store .load)
  | some x => (readTarGzip codec clock x.body fs).mapError RestoreError.extract

/-- `Delete`: the one object.  `deletes` says whether the request succeeds, `deleted` which deletes
took effect. -/
def delete (deletes : Bool) (deleted : Key → Bool) : Effects :=
  ⟨[.delete fun k => decide (k = snapshotKey pre bed) && (deletes || deleted k)],
    if deletes then .none else some .delete⟩

end Layout

end Hostel.Sync.Tar
