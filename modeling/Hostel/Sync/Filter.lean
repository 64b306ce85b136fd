/-
# Hostel.Sync.Filter — the local tree of a Bed, and the part of it a snapshot keeps.

Every layout archives the entries of the Bed's directory, in the order of a walk, that
`snapshotFilter.excluded` does not reject.
-/
import Hostel.Sync.Objects

namespace Hostel.Sync

open Hostel.Logic

/-! ## Directory trees -/

abbrev Name := Bytes

/-- What is not a directory: a file, a symlink, or something of another type.  A mode holds the
permission bits and the bits above them; times are in nanoseconds. -/
inductive Leaf
  | file (mode : Nat) (mtime : Int) (data : Bytes)
  | symlink (mtime : Int) (target : Bytes)
  | special
  deriving DecidableEq, Repr

inductive Info
  | leaf (l : Leaf)
  | dir (mode : Nat) (mtime : Int)
  deriving DecidableEq, Repr

def Info.isLeaf : Info → Bool
  | .leaf _ => true
  | .dir _ _ => false

inductive Tree
  | nil
  | leaf (name : Name) (l : Leaf) (rest : Tree)
  | dir (name : Name) (mode : Nat) (mtime : Int) (children rest : Tree)
  deriving DecidableEq, Repr

structure Entry where
  path : List Name
  info : Info
  deriving DecidableEq, Repr

namespace Tree

def names : Tree → List Name
  | nil => []
  | leaf n _ rest | dir n _ _ _ rest => n :: rest.names

/-- The entries in the order of `filepath.WalkDir`. -/
def walk (path : List Name) : Tree → List Entry
  | nil => []
  | leaf n l rest => ⟨path ++ [n], .leaf l⟩ :: rest.walk path
  | dir n mode mtime children rest =>
    -- a directory comes before what it contains
    ⟨path ++ [n], .dir mode mtime⟩ :: (children.walk (path ++ [n]) ++ rest.walk path)

/-- Names are free of NUL and slash and neither `.` nor `..`, and no two entries of a directory
share one. -/
def WellFormed : Tree → Prop
  | nil => True
  | leaf n _ rest => (Plain n ∧ 0 ∉ n) ∧ n ∉ rest.names ∧ rest.WellFormed
  | dir n _ _ children rest =>
    (Plain n ∧ 0 ∉ n) ∧ n ∉ rest.names ∧ children.WellFormed ∧ rest.WellFormed

instance decidableWellFormed : (t : Tree) → Decidable t.WellFormed
  | nil => .isTrue trivial
  | leaf n _ rest =>
    have := decidableWellFormed rest
    inferInstanceAs (Decidable ((Plain n ∧ 0 ∉ n) ∧ n ∉ rest.names ∧ rest.WellFormed))
  | dir n _ _ children rest =>
    have := decidableWellFormed children
    have := decidableWellFormed rest
    inferInstanceAs
      (Decidable ((Plain n ∧ 0 ∉ n) ∧ n ∉ rest.names ∧ children.WellFormed ∧ rest.WellFormed))

end Tree

structure Directory where
  tree : Tree
  wellFormed : tree.WellFormed
  deriving DecidableEq

def Directory.empty : Directory := ⟨.nil, trivial⟩

/-- The path of an entry relative to the root of the walk (`filepath.Rel`). -/
def relPath (path : List Name) : Bytes := [slash].intercalate path

/-! ## `snapshotFilter` -/

/-- The bytes of an ASCII text. -/
def ascii (s : String) : Bytes := s.toList.map fun c => UInt8.ofNat c.toNat

def volumesPrefix : Bytes := ascii "volumes/"

/-- The check of one root in `newSnapshotFilter`: one element below `volumes/`. -/
def validRoot (root : Bytes) : Bool :=
  volumesPrefix.isPrefixOf root && decide (clean root = root) &&
    !(root.drop volumesPrefix.length).contains slash && decide (root ≠ volumesPrefix)

/-- `newSnapshotFilter`, on the roots after `roots`. -/
def addRoots (roots : List Bytes) : List Bytes → Except StoreError (List Bytes)
  | [] => .ok roots
  | root :: rest =>
    if validRoot root then
      if root ∈ roots then .error (.duplicateRoot root) else addRoots (roots ++ [root]) rest
    else .error (.invalidRoot root)

structure SnapshotFilter where
  roots : List Bytes
  deriving DecidableEq, Repr

/-- Without roots, the workspace is durable. -/
def defaultRoots : List Bytes := [ascii "volumes/workspace"]

def newSnapshotFilter (roots : Option (List Bytes)) : Except StoreError SnapshotFilter :=
  (addRoots [] (roots.getD defaultRoots)).map SnapshotFilter.mk

def pathWithin (candidate root : Bytes) : Bool :=
  decide (candidate = root) || (root ++ [slash]).isPrefixOf candidate

/-- `strings.Trim(s, "/")`. -/
def trimSlashes (s : Bytes) : Bytes := (s.dropWhile (· = slash)).rdropWhile (· = slash)

def SnapshotFilter.excluded (f : SnapshotFilter) (rel : Bytes) : Bool :=
  let rel := trimSlashes rel
  if rel = [dot] ∨ rel = ascii "meta.json" then false
  else !f.roots.any fun root => pathWithin rel root || pathWithin root rel

def filteredFS (f : SnapshotFilter) (d : Directory) : List Entry :=
  (d.tree.walk []).filter fun e => !f.excluded (relPath e.path)

/-- The entries `fs.WalkDir` reports to the callback and that it does not skip. -/
def visited (excluded : Option (Bytes → Bool)) (path : List Name) : Tree → List Entry
  | .nil => []
  | .leaf n l rest =>
    let kept := visited excluded path rest
    if excluded.any (fun f => f (relPath (path ++ [n]))) then kept
    else ⟨path ++ [n], .leaf l⟩ :: kept
  | .dir n mode mtime children rest =>
    let kept := visited excluded path rest
    -- an excluded directory is not entered
    if excluded.any (fun f => f (relPath (path ++ [n]))) then kept
    else ⟨path ++ [n], .dir mode mtime⟩ :: (visited excluded (path ++ [n]) children ++ kept)

/-! ## Persist calls -/

structure Call where
  dir : Directory
  generation : Int
  volumeRoots : Option (List Bytes)
  deriving DecidableEq

/-- The tree a `Persist` call captures. -/
def Call.tree (c : Call) : Option (List Entry) :=
  match newSnapshotFilter c.volumeRoots with
  | .ok f => some (filteredFS f c.dir)
  | .error _ => none

/-- A persist of the empty directory, with the default roots. -/
def emptyCall (generation : Int) : Call := ⟨.empty, generation, none⟩

/-- A workspace with one entry. -/
def workspaceTree (n : Name) (l : Leaf) : Tree :=
  .dir (ascii "volumes") 0o755 0 (.dir (ascii "workspace") 0o755 0 (.leaf n l .nil) .nil) .nil

/-- A persist of a workspace with one file, with the default roots. -/
def fileCall (generation : Int) (data : Bytes) : Call :=
  ⟨⟨workspaceTree (ascii "a") (.file 0o644 0 data),
    (by decide : (workspaceTree (ascii "a") .special).WellFormed)⟩, generation, none⟩

end Hostel.Sync
