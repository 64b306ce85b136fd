/-
# Hostel.Filesystem.Mappings — a BedFS with mounted volumes.

A BedFS is a root of its own and a list of mappings, each the root of a mounted volume that clients
see at a target path.  An operation on a client path runs below the root of the first mapping whose
target contains the path, or below the Bed's own.

`SetMounts` checks a cleaned copy of each target and stores the target as it was given; the targets
of two mounts are compared as texts.  So two mounts whose cleaned targets overlap can both be
accepted, and the first hides the other where they do (`read_only_mounts`).
-/
import Hostel.Filesystem.Disk

namespace Hostel.Filesystem

open Hostel.Logic Hostel.Sync Hostel.Sync.Tar List

/-! ## Mounts -/

structure Mount where
  source : Bytes
  target : Bytes
  readOnly : Bool
  owned : Bool
  deriving DecidableEq, Repr

/-- `mappedRoot`: an accepted mount, with its source resolved to a carrier path. -/
structure MappedRoot where
  source : List Name
  target : Bytes
  readOnly : Bool
  owned : Bool
  target_rooted : rooted target = true

/-- One BedFS, without the contents of its roots. -/
structure FS where
  home : List Name
  workdir : Bytes
  mappings : List MappedRoot
  workdir_rooted : rooted (clientWorkdir workdir) = true

/-- The text of an absolute carrier path. -/
def carrierText (p : List Name) : Bytes := render true p

/-- What `SetMounts` asks the carrier: where a path leads (`none` if it fails, or is not absolute),
and whether a directory can be opened. -/
structure Carrier where
  evalSymlinks : Bytes → Option (List Name)
  opens : List Name → Bool

inductive MountError
  | invalidSource
  | target (e : MountPathError)
  | overlapsHostel
  | overlap
  | unopened
  | path (e : PathError)
  | disk (e : FsError)
  deriving DecidableEq, Repr

variable {p : Bytes}

theorem rooted_of_clean (h : rooted (clean p) = true) : rooted p = true := by
  by_contra hp
  rw [Bool.not_eq_true] at hp
  have hnormal : Normal false (elements p).reverse := by
    have := normal_kept p
    rwa [hp, ← reverse_reverse (kept p)] at this
  unfold clean at h
  simp only [hp] at h
  split at h
  · cases h
  next hne =>
  by_cases hnil : elements p = []
  · exact hne (by rw [hnil]; rfl)
  · rw [(coordinates_render hnormal hnil).1] at h
    cases h

theorem rooted_of_validateMountPath (h : validateMountPath p = .ok ()) : rooted p = true := by
  unfold validateMountPath at h
  split at h
  · cases h
  next hroot =>
  rw [Bool.or_eq_true, not_or] at hroot
  simpa using hroot.1

/-! ## `SetMounts` -/

def checkMount (c : Carrier) (fs : FS) (m : Mount) : Except MountError MappedRoot :=
  match c.evalSymlinks m.source with
  | none => .error .invalidSource
  | some source =>
    if source = [] then .error .invalidSource
    else
      match h : validateMountPath (clean m.target) with
      | .error e => .error (.target e)
      | .ok () =>
        match c.evalSymlinks (carrierText fs.home.dropLast.dropLast) with
        | none => .error .invalidSource
        | some carrierRoot =>
          if !m.owned && pathsOverlap (carrierText source) (carrierText carrierRoot) then
            .error .overlapsHostel
          else if fs.mappings.any fun prior =>
              pathsOverlap m.target prior.target ||
                pathsOverlap (carrierText source) (carrierText prior.source) then
            .error .overlap
          else if c.opens source then
            .ok ⟨source, m.target, m.readOnly, m.owned,
              rooted_of_clean (rooted_of_validateMountPath h)⟩
          else .error .unopened

/-- One round of `SetMounts`: the mount is checked and recorded, and its target is made a directory
of the Bed. -/
def setMount (env : Env) (c : Carrier) (s : FS × LocalTree) (m : Mount) :
    Except MountError (FS × LocalTree) :=
  match checkMount c s.1 m with
  | .error e => .error e
  | .ok mapped =>
    let fs := { s.1 with mappings := s.1.mappings ++ [mapped] }
    match fromClient fs.workdir [slash] m.target with
    | .error e => .error (.path e)
    | .ok p =>
      match env.mkdirAll p ⟨Env.below s.2 fs.home, []⟩ with
      | .ok () d => .ok (fs, Env.graft s.2 fs.home d.tree)
      | .error e _ => .error (.disk e)

def setMounts (env : Env) (c : Carrier) (s : FS × LocalTree) (ms : List Mount) :
    Except MountError (FS × LocalTree) :=
  ms.foldlM (setMount env c) s

/-! ## Routing -/

namespace FS

variable (fs : FS)

/-- The root that an operation runs in: the Bed's own, or that of a mapping. -/
abbrev Target := Option (Fin fs.mappings.length)

variable {fs} in
def base : fs.Target → List Name
  | none => fs.home
  | some i => fs.mappings[i].source

variable {fs} in
def mountedAt : fs.Target → Bytes
  | none => [slash]
  | some i => fs.mappings[i].target

variable {fs} in
def readOnly : fs.Target → Bool
  | none => false
  | some i => fs.mappings[i].readOnly

def mapped (p : Bytes) : fs.Target :=
  fs.mappings.findFinIdx? fun m => (relativeTo m.target (clientPath fs.workdir p)).isSome

def route (p : Bytes) (write : Bool) : Except FsError fs.Target :=
  let target := fs.mapped p
  if write && readOnly target then .error (.readOnlyMapping p) else .ok target

/-- `guardMappingRoot` of a root that clients see at `root`, with these mappings. -/
def guardIn (root : Bytes) (mappings : List MappedRoot) (p : Bytes) : Option GuardError :=
  let p := clientPath fs.workdir p
  if root ≠ [] ∧ p = root then some .mappingRoot
  else (mappings.find? fun m => (relativeTo p m.target).isSome).map
    fun m => .crossesMapping m.target

def guardMappingRoot (p : Bytes) : Option GuardError := fs.guardIn [slash] fs.mappings p

def transferRoute (p : Bytes) (write : Bool) : Except FsError fs.Target :=
  match fs.route p write with
  | .error e => .error e
  | .ok (some i) => .ok (some i)
  | .ok none =>
    match fs.mappings.find? fun m => (relativeTo (clientPath fs.workdir p) m.target).isSome with
    | some m => .error (.selectMapping m.target)
    | none => .ok none

/-! ## Operations below one root -/

def resolve (root : Bytes) (p : Bytes) : DiskM (List Name) :=
  match fromClient fs.workdir root p with
  | .ok es => pure es
  | .error e => DiskM.fail (.path e)

structure Permission where
  owner : Bytes
  group : Bytes
  mode : Int
  deriving DecidableEq, Repr

structure ReplaceItem where
  old : Bytes
  new : Bytes
  deriving DecidableEq, Repr

/-- `os.FileMode(mode) & os.ModePerm`. -/
def permBits (mode : Int) : Nat := (mode % 0o1000).toNat

/-- `strings.ReplaceAll` and `strings.Count`; `skip` bytes belong to the last occurrence. -/
def replaceAll (item : ReplaceItem) : Nat → Bytes → Bytes × Nat
  | _, [] => ([], 0)
  | skip + 1, _ :: rest => replaceAll item skip rest
  | 0, b :: rest =>
    if item.old.isPrefixOf (b :: rest) then
      let (out, count) := replaceAll item (item.old.length - 1) rest
      (item.new ++ out, count + 1)
    else
      let (out, count) := replaceAll item 0 rest
      (b :: out, count)

variable (env : Env)

def writeIn (root p data : Bytes) (mode : Int) : DiskM Unit := do
  let es ← fs.resolve root p
  env.mkdirParent es
  env.writeFile es data (if mode = 0 then 0o644 else permBits mode)

def removeIn (root p : Bytes) : DiskM Unit := do
  let es ← fs.resolve root p
  fun d =>
    match env.lstat d.tree es with
    | .error (.notExist _) => .ok () d
    | .error e => .error (.root e) d
    | .ok (_, .dir _ _) => .error (.isDirectory p) d
    | .ok (_, .leaf _) => env.unlink es d

def renameIn (root src dest : Bytes) : DiskM Unit := do
  let s ← fs.resolve root src
  let t ← fs.resolve root dest
  env.mkdirParent t
  env.rename s t

def chmodIn (root p : Bytes) (perm : Permission) : DiskM Unit := do
  let es ← fs.resolve root p
  env.chmod es (permBits perm.mode) fun q =>
    decide (perm.owner = [] ∧ perm.group = []) || env.ownerUnchanged q perm.owner perm.group

def replaceIn (root p : Bytes) (item : ReplaceItem) : DiskM Nat := do
  let es ← fs.resolve root p
  fun d =>
    match env.readFile d.tree es with
    | .error e => .error e d
    | .ok (data, mode) =>
      if item.old = [] then .error (.emptyOld p) d
      else
        let (out, count) := replaceAll item 0 data
        if count = 0 then .ok 0 d
        else
          match env.writeFile es out mode d with
          | .ok () d => .ok count d
          | .error e d => .error e d

def makeDirIn (root p : Bytes) : DiskM Unit := do
  let es ← fs.resolve root p
  env.mkdirAll es

def removeDirIn (root p : Bytes) : DiskM Unit := do
  let es ← fs.resolve root p
  fun d =>
    match env.lstat d.tree es with
    | .error (.notExist _) => .ok () d
    | .error e => .error (.root e) d
    | .ok (_, .leaf _) => .error (.notDirectory p) d
    | .ok (_, .dir _ _) => env.removeAll es d

def writeTransferIn (root p body : Bytes) (overwrite : Bool) : DiskM Nat := do
  let es ← fs.resolve root p
  env.writeTransfer es body overwrite

def importTreeIn (root : Bytes) (src : Directory) (p : Bytes) (overwrite : Bool) : DiskM Unit := do
  let es ← fs.resolve root p
  env.importTree src es overwrite

/-! ## Operations -/

/-- What a call returned, the carrier after it, and the carrier paths of the entries it took
away. -/
structure Outcome (α : Type) where
  result : Except FsError α
  host : LocalTree
  unlinked : List (List Name)

def fail {α : Type} (e : FsError) (host : LocalTree) : Outcome α := ⟨.error e, host, []⟩

def inRoot {α : Type} (base : List Name) (act : DiskM α) (host : LocalTree) : Outcome α :=
  match act ⟨Env.below host base, []⟩ with
  | .ok a d => ⟨.ok a, Env.graft host base d.tree, d.unlinked.map (base ++ ·)⟩
  | .error e d => ⟨.error e, Env.graft host base d.tree, d.unlinked.map (base ++ ·)⟩

/-- An operation in the root that routing names. -/
def routed {α : Type} (r : Except FsError fs.Target) (act : fs.Target → DiskM α)
    (host : LocalTree) : Outcome α :=
  match r with
  | .error e => fail e host
  | .ok i => inRoot (base i) (act i) host

def write (p data : Bytes) (mode : Int) : LocalTree → Outcome Unit :=
  fs.routed (fs.route p true) fun i => fs.writeIn env (mountedAt i) p data mode

/-- The guard of the mapping that `Remove` calls for a path below it. -/
def guardMapped (i : fs.Target) (p : Bytes) : Option GuardError :=
  match i with
  | none => none
  | some i => fs.guardIn fs.mappings[i].target [] p

def removeOne (p : Bytes) (host : LocalTree) : Outcome Unit :=
  match fs.guardMappingRoot p with
  | some e => fail (.guard e) host
  | none =>
    match fs.route p true with
    | .error e => fail e host
    | .ok i =>
      match fs.guardMapped i p with
      | some e => fail (.guard e) host
      | none => inRoot (base i) (fs.removeIn env (mountedAt i) p) host

def remove : List Bytes → LocalTree → Outcome Unit
  | [], host => ⟨.ok (), host, []⟩
  | p :: ps, host =>
    match fs.removeOne env p host with
    | ⟨.error e, host', gone⟩ => ⟨.error e, host', gone⟩
    | ⟨.ok (), host', gone⟩ =>
      let rest := remove ps host'
      { rest with unlinked := gone ++ rest.unlinked }

def rename (src dest : Bytes) (host : LocalTree) : Outcome Unit :=
  match fs.guardMappingRoot src, fs.guardMappingRoot dest with
  | none, none =>
    match fs.route src true with
    | .error e => fail e host
    | .ok source =>
      match fs.route dest true with
      | .error e => fail e host
      | .ok destination =>
        if source ≠ destination then fail .crossesMappings host
        else inRoot (base source) (fs.renameIn env (mountedAt source) src dest) host
  | e, e' => fail (.guards e e') host

def validatePermission (p : Bytes) (perm : Permission) : Except FsError Unit :=
  match fs.route p true with
  | .error e => .error e
  | .ok _ =>
    if perm.mode < 0 ∨ 0o777 < perm.mode then .error .permissionBits
    else if env.ownerAllowed perm.owner perm.group then .ok ()
    else .error .owner

def chmod (p : Bytes) (perm : Permission) (host : LocalTree) : Outcome Unit :=
  match fs.validatePermission env p perm with
  | .error e => fail e host
  | .ok () => fs.routed (fs.route p true) (fun i => fs.chmodIn env (mountedAt i) p perm) host

def replace (p : Bytes) (item : ReplaceItem) : LocalTree → Outcome Nat :=
  fs.routed (fs.route p true) fun i => fs.replaceIn env (mountedAt i) p item

def makeDir (p : Bytes) : LocalTree → Outcome Unit :=
  fs.routed (fs.route p true) fun i => fs.makeDirIn env (mountedAt i) p

def removeDir (p : Bytes) (host : LocalTree) : Outcome Unit :=
  match fs.guardMappingRoot p with
  | some e => fail (.guard e) host
  | none => fs.routed (fs.route p true) (fun i => fs.removeDirIn env (mountedAt i) p) host

def writeTransferFile (p body : Bytes) (overwrite : Bool) : LocalTree → Outcome Nat :=
  fs.routed (fs.transferRoute p true) fun i => fs.writeTransferIn env (mountedAt i) p body overwrite

def importTransferTree (src : Directory) (p : Bytes) (overwrite : Bool) :
    LocalTree → Outcome Unit :=
  fs.routed (fs.transferRoute p true) fun i => fs.importTreeIn env (mountedAt i) src p overwrite

/-! ## The mutating operations -/

inductive FileOp
  | write (p data : Bytes) (mode : Int)
  | remove (p : Bytes)
  | rename (src dest : Bytes)
  | chmod (p : Bytes) (perm : Permission)
  | replace (p : Bytes) (item : ReplaceItem)
  | makeDir (p : Bytes)
  | removeDir (p : Bytes)
  | writeTransferFile (p body : Bytes) (overwrite : Bool)
  | importTransferTree (src : Directory) (p : Bytes) (overwrite : Bool)

def FileOp.paths : FileOp → List Bytes
  | .write p _ _ | .remove p | .chmod p _ | .replace p _ | .makeDir p | .removeDir p => [p]
  | .writeTransferFile p _ _ | .importTransferTree _ p _ => [p]
  | .rename src dest => [src, dest]

/-- An outcome without the value that was returned. -/
def Outcome.void {α : Type} (o : Outcome α) : Outcome Unit :=
  ⟨o.result.map fun _ => (), o.host, o.unlinked⟩

def run (op : FileOp) (host : LocalTree) : Outcome Unit :=
  match op with
  | .write p data mode => fs.write env p data mode host
  | .remove p => fs.remove env [p] host
  | .rename src dest => fs.rename env src dest host
  | .chmod p perm => fs.chmod env p perm host
  | .replace p item => (fs.replace env p item host).void
  | .makeDir p => fs.makeDir env p host
  | .removeDir p => fs.removeDir env p host
  | .writeTransferFile p body overwrite => (fs.writeTransferFile env p body overwrite host).void
  | .importTransferTree src p overwrite => fs.importTransferTree env src p overwrite host

/-! ## What an operation can do -/

variable {fs env}

/-- Everything a mutating operation can do: it fails before it has touched anything, or it runs
below one root, which is that of every path it has and is not read-only. -/
inductive Effect (fs : FS) (op : FileOp) (host : LocalTree) : Outcome Unit → Prop
  | refused (e : FsError) : Effect fs op host (fail e host)
  | ran (i : fs.Target) (act : DiskM Unit) (hroute : ∀ p ∈ op.paths, fs.mapped p = i)
    (hwrite : readOnly i = false) :
      Effect fs op host (inRoot (base i) act host)

theorem route_write {i : fs.Target} (h : fs.route p true = .ok i) :
    fs.mapped p = i ∧ readOnly i = false := by
  unfold route at h
  simp only [Bool.true_and] at h
  split at h
  · cases h
  next hro =>
  cases h
  exact ⟨rfl, by simpa using hro⟩

theorem transferRoute_write {i : fs.Target} (h : fs.transferRoute p true = .ok i) :
    fs.mapped p = i ∧ readOnly i = false := by
  unfold transferRoute at h
  split at h
  · cases h
  · next j hj =>
    cases h
    exact route_write hj
  · next hj =>
    split at h
    · cases h
    · cases h
      exact route_write hj

theorem routed_effect {op : FileOp} {r : Except FsError fs.Target} {act : fs.Target → DiskM Unit}
    {host : LocalTree} (h : ∀ i, r = .ok i → ∀ p ∈ op.paths, fs.mapped p = i ∧ readOnly i = false)
    (hne : op.paths ≠ []) : Effect fs op host (fs.routed r act host) := by
  cases r with
  | error e => exact .refused e
  | ok i =>
    obtain ⟨p, ps, hp⟩ := exists_cons_of_ne_nil hne
    exact .ran i (act i) (fun q hq => (h i rfl q hq).1) (h i rfl p (hp ▸ mem_cons_self)).2

theorem void_routed {α : Type} {r : Except FsError fs.Target} {act : fs.Target → DiskM α}
    {host : LocalTree} :
    (fs.routed r act host).void = fs.routed r (fun i => act i >>= fun _ => pure ()) host := by
  cases r with
  | error e => rfl
  | ok i =>
    cases hact : act i ⟨Env.below host (base i), []⟩ <;>
      simp [routed, inRoot, bind, DiskM.bind, hact] <;> rfl

theorem removeOne_effect (p : Bytes) (host : LocalTree) :
    Effect fs (.remove p) host (fs.removeOne env p host) := by
  unfold removeOne
  split
  · exact .refused _
  · split
    · exact .refused _
    · next i hroute =>
      obtain ⟨hmapped, hwrite⟩ := route_write hroute
      split
      · exact .refused _
      · refine .ran i _ (fun q hq => ?_) hwrite
        rwa [mem_singleton.mp hq]

theorem remove_singleton (p : Bytes) (host : LocalTree) :
    fs.remove env [p] host = fs.removeOne env p host := by
  unfold remove
  split
  · next h => exact h.symm
  · next h =>
    rw [h]
    simp [remove]

theorem rename_effect (src dest : Bytes) (host : LocalTree) :
    Effect fs (.rename src dest) host (fs.rename env src dest host) := by
  unfold rename
  split
  · split
    · exact .refused _
    · next i hsrc =>
      split
      · exact .refused _
      · next j hdest =>
        split
        · exact .refused _
        · next hsame =>
          obtain rfl : i = j := by simpa using hsame
          refine .ran i _ (forall_mem_cons.mpr ⟨(route_write hsrc).1, ?_⟩) (route_write hsrc).2
          exact forall_mem_singleton.mpr (route_write hdest).1
  · exact .refused _

/-- **Everything a mutating operation can do.** -/
theorem run_effect (fs : FS) (env : Env) (op : FileOp) (host : LocalTree) :
    Effect fs op host (fs.run env op host) := by
  have hone {p : Bytes} : ∀ i, fs.route p true = .ok i → ∀ q ∈ [p], fs.mapped q = i ∧
      readOnly i = false := by
    intro i h q hq
    rw [mem_singleton.mp hq]
    exact route_write h
  have htransfer {p : Bytes} : ∀ i, fs.transferRoute p true = .ok i →
      ∀ q ∈ [p], fs.mapped q = i ∧ readOnly i = false := by
    intro i h q hq
    rw [mem_singleton.mp hq]
    exact transferRoute_write h
  cases op with
  | write p data mode | makeDir p => exact routed_effect hone (by simp [FileOp.paths])
  | remove p =>
    change Effect _ _ _ (fs.remove env [p] host)
    rw [remove_singleton]
    exact removeOne_effect p host
  | rename src dest => exact rename_effect src dest host
  | chmod p perm =>
    change Effect _ _ _ (fs.chmod env p perm host)
    unfold chmod
    split
    · exact .refused _
    · exact routed_effect hone (by simp [FileOp.paths])
  | replace p item =>
    change Effect _ _ _ (fs.replace env p item host).void
    rw [replace, void_routed]
    exact routed_effect hone (by simp [FileOp.paths])
  | removeDir p =>
    change Effect _ _ _ (fs.removeDir env p host)
    unfold removeDir
    split
    · exact .refused _
    · exact routed_effect hone (by simp [FileOp.paths])
  | writeTransferFile p body overwrite =>
    change Effect _ _ _ (fs.writeTransferFile env p body overwrite host).void
    rw [writeTransferFile, void_routed]
    exact routed_effect htransfer (by simp [FileOp.paths])
  | importTransferTree src p overwrite => exact routed_effect htransfer (by simp [FileOp.paths])

end FS

end Hostel.Filesystem
