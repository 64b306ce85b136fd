/-
# Hostel.Filesystem.Disk — file operations below one `os.Root`.

`os.Root` follows the links of a path inside the root and refuses to leave it (`Sync.Confinement`).
An operation that fails may have changed the tree already: the state is kept on an error.
`unlinked` collects the entries that were deleted, moved away or replaced, to tell an entry from
another one that took its place.

Owners and the umask are left out.
-/
import Hostel.Filesystem.Paths
import Hostel.Filesystem.TransferTree

namespace Hostel.Filesystem

open Hostel.Logic Hostel.Sync Hostel.Sync.Tar Function

/-! ## Errors and state -/

inductive GuardError
  | mappingRoot
  | crossesMapping (target : Bytes)
  deriving DecidableEq, Repr

/-- Errors of the operating system that `RootError` does not have. -/
inductive SysError
  | isDirectory
  | invalid
  | notEmpty
  deriving DecidableEq, Repr

inductive FsError
  | guard (e : GuardError)
  | guards (src dest : Option GuardError)
  | readOnlyMapping (p : Bytes)
  | crossesMappings
  | selectMapping (target : Bytes)
  | path (e : PathError)
  /-- A carrier path outside the root. -/
  | outsideHome
  | isDirectory (p : Bytes)
  | notDirectory (p : Bytes)
  | permissionBits
  | owner
  | emptyOld (p : Bytes)
  | interrupted
  | root (e : RootError)
  | sys (e : SysError)
  | tree (e : TreeError)
  deriving DecidableEq, Repr

/-- The tree below a root, and the places of the entries that were taken from it. -/
structure Disk where
  tree : LocalTree
  unlinked : List (List Name)

inductive DiskResult (α : Type)
  | ok (a : α) (d : Disk)
  | error (e : FsError) (d : Disk)

abbrev DiskM (α : Type) := Disk → DiskResult α

def DiskM.bind {α β : Type} (x : DiskM α) (k : α → DiskM β) : DiskM β := fun d =>
  match x d with
  | .ok a d' => k a d'
  | .error e d' => .error e d'

instance monadDiskM : Monad DiskM where
  pure a := fun d => .ok a d
  bind := DiskM.bind

def DiskM.fail {α : Type} (e : FsError) : DiskM α := fun d => .error e d

/-- What an operation reads from outside: the clock, random names, whether a directory has entries,
whether the owner that a permission names is the Bed's, and that of the file, and whether the
context ends. -/
structure Env where
  limit : Nat
  clock : List Name → Int
  temp : List Name → Name
  occupied : LocalTree → List Name → Bool
  ownerAllowed : Bytes → Bytes → Bool
  ownerUnchanged : List Name → Bytes → Bytes → Bool
  interrupted : List Name → Bool

namespace Env

variable (env : Env)

/-! ## Places -/

/-- The place of the entry that a path names: links are followed on the way to it. -/
def place (fs : LocalTree) (p : List Name) : Except RootError (List Name) :=
  match p.getLast? with
  | none => .ok []
  | some n => (Root.openDir env.limit fs p.dropLast).map (· ++ [n])

def lstat (fs : LocalTree) (p : List Name) : Except RootError (List Name × Info) :=
  match place env fs p with
  | .error e => .error e
  | .ok q =>
    match fs q with
    | none => .error (.notExist q)
    | some i => .ok (q, i)

/-- What a path leads to, its last element followed too. -/
def followed (fs : LocalTree) (p : List Name) : Walk Name := walk (view fs) env.limit [] (descend p)

def walkError : Walk Name → RootError
  | .arrived q => .tar (.notDirectory q)
  | .missing dir n _ => .notExist (dir ++ [n])
  | .blocked q => .tar (.notDirectory q)
  | .escaped => .pathEscapes
  | .exhausted => .tooManyLinks

/-! ## `os.Root` -/

/-- `Root.MkdirAll`, with the directories that were made before it failed. -/
def mkdirAll (p : List Name) : DiskM Unit := fun d =>
  match p.getLast? with
  | none => .ok () d
  | some n =>
    match Root.makeDirs env.clock 0o755 env.limit d.tree [] (descend p.dropLast) with
    | (fs, .error e) => .error (.root e) { d with tree := fs }
    | (fs, .ok dir) =>
      match Root.makeLast env.limit env.clock 0o755 fs dir n with
      | .ok fs' => .ok () { d with tree := fs' }
      | .error e => .error (.root e) { d with tree := fs }

/-- `mkdirAllOwned` of the directory a path is in: that of the root is outside it. -/
def mkdirParent (p : List Name) : DiskM Unit :=
  match p.getLast? with
  | none => DiskM.fail .outsideHome
  | some _ => mkdirAll env p.dropLast

/-- `Root.WriteFile`: a file that is there keeps its mode. -/
def writeFile (p : List Name) (data : Bytes) (mode : Nat) : DiskM Unit := fun d =>
  match followed env d.tree p with
  | .arrived q =>
    match d.tree q with
    | some (.leaf (.file m _ _)) =>
      .ok () { d with tree := update d.tree q (some (.leaf (.file m (env.clock q) data))) }
    | some (.dir _ _) => .error (.sys .isDirectory) d
    | _ => .ok () d
  | .missing dir n [] =>
    .ok () { d with
      tree := create d.tree (env.clock (dir ++ [n])) (dir ++ [n])
        (.leaf (.file mode (env.clock (dir ++ [n])) data)) }
  | w => .error (.root (walkError w)) d

/-- `Root.ReadFile`, and the mode that `Root.Stat` reports for the file. -/
def readFile (fs : LocalTree) (p : List Name) : Except FsError (Bytes × Nat) :=
  match followed env fs p with
  | .arrived q =>
    match fs q with
    | some (.leaf (.file mode _ data)) => .ok (data, mode)
    | some (.dir _ _) => .error (.sys .isDirectory)
    | _ => .ok ([], 0o644)
  | w => .error (.root (walkError w))

def modified (fs : LocalTree) (dir : List Name) : LocalTree := fun q =>
  if q = dir then
    match fs q with
    | some (.dir mode _) => some (.dir mode (env.clock dir))
    | x => x
  else fs q

/-- `Root.Remove` of what is no directory. -/
def unlink (p : List Name) : DiskM Unit := fun d =>
  match lstat env d.tree p with
  | .error e => .error (.root e) d
  | .ok (_, .dir _ _) => .error (.sys .isDirectory) d
  | .ok (q, .leaf _) => .ok () ⟨update (modified env d.tree q.dropLast) q none, q :: d.unlinked⟩

def removeAll (p : List Name) : DiskM Unit := fun d =>
  match lstat env d.tree p with
  | .error (.notExist _) => .ok () d
  | .error e => .error (.root e) d
  | .ok (q, _) =>
    if q.isEmpty then .error (.sys .invalid) d
    else
      .ok () ⟨fun r => if q.isPrefixOf r then none else modified env d.tree q.dropLast r,
        q :: d.unlinked⟩

/-- The tree after the entry at `s` was moved to `t`. -/
def moved (fs : LocalTree) (s t : List Name) : LocalTree := fun r =>
  if t.isPrefixOf r then fs (s ++ r.drop t.length)
  else if s.isPrefixOf r then none
  else modified env (modified env fs s.dropLast) t.dropLast r

/-- What `rename(2)` says to an entry `i` at `s` that is to replace what is at `t`. -/
def renameCheck (fs : LocalTree) (s t : List Name) (i : Info) : Except FsError Unit :=
  if s.isEmpty || t.isEmpty then .error (.sys .invalid)
  else
    match i, fs t with
    | .dir _ _, none => if s.isPrefixOf t then .error (.sys .invalid) else .ok ()
    | .dir _ _, some (.dir _ _) =>
      if s.isPrefixOf t then .error (.sys .invalid)
      else if t.isPrefixOf s || env.occupied fs t then .error (.sys .notEmpty)
      else .ok ()
    | .dir _ _, some (.leaf _) => .error (.root (.tar (.notDirectory t)))
    | .leaf _, some (.dir _ _) => .error (.sys .isDirectory)
    | .leaf _, _ => .ok ()

def rename (src dest : List Name) : DiskM Unit := fun d =>
  match lstat env d.tree src, place env d.tree dest with
  | .error e, _ | .ok _, .error e => .error (.root e) d
  | .ok (s, i), .ok t =>
    if s = t then .ok () d
    else
      match renameCheck env d.tree s t i with
      | .error e => .error e d
      | .ok () =>
        let replaced := if (d.tree t).isSome then [t] else []
        .ok () ⟨moved env d.tree s t, s :: replaced ++ d.unlinked⟩

/-- `Root.Open` and `File.Chmod`. -/
def chmod (p : List Name) (mode : Nat) (owned : List Name → Bool) : DiskM Unit := fun d =>
  match followed env d.tree p with
  | .arrived q =>
    if owned q then
      match d.tree q with
      | some (.leaf (.file _ mtime data)) =>
        .ok () { d with tree := update d.tree q (some (.leaf (.file mode mtime data))) }
      | some (.dir _ mtime) => .ok () { d with tree := update d.tree q (some (.dir mode mtime)) }
      | _ => .ok () d
    else .error .owner d
  | w => .error (.root (walkError w)) d

/-! ## Transfers -/

def transfer (overwrite : Bool) : Transfer :=
  ⟨env.limit, env.clock, overwrite, env.temp, env.interrupted⟩

/-- The mode of a transferred file: that of the regular file it replaces. -/
def transferMode (fs : LocalTree) (p : List Name) (overwrite : Bool) : Except RootError Nat :=
  if overwrite then
    match lstat env fs p with
    | .ok (_, .leaf (.file mode _ _)) => .ok mode
    | .ok _ | .error (.notExist _) => .ok 0o644
    | .error e => .error e
  else .ok 0o644

/-- The body of `WriteTransferFile`. -/
def writeTransfer (p : List Name) (body : Bytes) (overwrite : Bool) : DiskM Nat := do
  mkdirParent env p
  fun d =>
    match p.getLast?, transferMode env d.tree p overwrite with
    | some n, .ok mode =>
      if env.interrupted p then .error .interrupted d
      else
        match (env.transfer overwrite).publish d.tree p.dropLast n
            fun q => .leaf (.file mode (env.clock q) body) with
        | .ok fs => .ok body.length { d with tree := fs }
        -- of a temporary file that is not published nothing remains
        | .error e => .error (.root e) d
    | _, .error e => .error (.root e) d
    | none, _ => .error .outsideHome d

def below (fs : LocalTree) (base : List Name) : LocalTree := fun p => fs (base ++ p)

/-- The tree with what is below a directory replaced. -/
def graft (fs : LocalTree) (base : List Name) (sub : LocalTree) : LocalTree := fun p =>
  if base.isPrefixOf p then sub (p.drop base.length) else fs p

/-- The body of `ImportTransferTree`. -/
def importTree (src : Directory) (p : List Name) (overwrite : Bool) : DiskM Unit := do
  mkdirAll env p
  fun d =>
    match Root.openDir env.limit d.tree p with
    | .error e => .error (.root e) d
    | .ok q =>
      match (env.transfer overwrite).copyTransferTree none src (below d.tree q) with
      | (sub, none) => .ok () { d with tree := graft d.tree q sub }
      | (sub, some err) => .error (.tree err) { d with tree := graft d.tree q sub }

end Env

end Hostel.Filesystem
