/-
# Hostel.Filesystem.TransferTree — copying a directory into another.

`copyTransferTree` copies from a Bed into a private staging directory and back.  It walks the source
and writes each entry to the destination through `os.Root`, a file or a link under a temporary name
first.

Its check of a link is the check of `readTarGzip` (`Sync.Confinement`), made on the text of the
target.  A copy into an empty directory creates every link where the source has it, so that here
only the targets matter.
-/
import Hostel.Sync.Confinement

namespace Hostel.Filesystem

open Hostel.Logic Hostel.Sync Hostel.Sync.Tar Function List

/-! ## The copy -/

inductive TransferError
  /-- `ErrTransferFileType`. -/
  | fileType
  | interrupted
  | root (e : RootError)
  deriving DecidableEq, Repr

/-- The `os.PathError` around the error of an entry. -/
structure TreeError where
  path : Bytes
  err : TransferError
  deriving DecidableEq, Repr

/-- A directory that the copy made, with the mode and the time it gets at the end. -/
structure MadeDir where
  path : List Name
  mode : Nat
  mtime : Int
  deriving DecidableEq, Repr

structure Copied where
  dst : LocalTree
  dirs : List MadeDir

/-- What stays the same during a copy.  `temp` has the random name under which the content of an
entry is first written; `interrupted` says that the context ends while the entry is copied. -/
structure Transfer where
  limit : Nat
  clock : List Name → Int
  overwrite : Bool
  temp : List Name → Name
  interrupted : List Name → Bool

namespace Transfer

variable (c : Transfer)

/-- `Root.Link` or `Root.Rename` of the temporary entry, and its removal. -/
def place (fs : LocalTree) (dir : List Name) (t n : Name) (i : Info) : Except RootError LocalTree :=
  let placed := update (create fs (c.clock (dir ++ [n])) (dir ++ [n]) i) (dir ++ [t]) none
  match fs (dir ++ [n]) with
  | none => .ok placed
  | some (.leaf _) => if c.overwrite then .ok placed else .error (.tar (.occupied (dir ++ [n])))
  | some (.dir _ _) => .error (.tar (.occupied (dir ++ [n])))

/-- A file or a link: written under a temporary name, and published. -/
def publish (fs : LocalTree) (dir : List Name) (n : Name) (entry : List Name → Info) :
    Except RootError LocalTree := do
  let t := c.temp (dir ++ [n])
  let fs ← Root.createNew c.limit c.clock fs (dir ++ [t]) entry
  let q ← Root.openDir c.limit fs dir
  place c fs q t n (entry (q ++ [t]))

def copyLeaf (x : Copied) (dir : List Name) (n : Name) (l : Leaf) : Except TransferError Copied :=
  let publishAs entry :=
    match publish c x.dst dir n entry with
    | .ok dst => .ok { x with dst := dst }
    | .error e => .error (.root e)
  match l with
  | .file mode mtime data => publishAs fun _ => .leaf (.file (perm mode) mtime data)
  | .symlink _ link =>
    let resolved := joinPath [dirName (relPath (dir ++ [n])), link]
    if rooted link || climbs resolved then .error .fileType
    else publishAs fun q => .leaf (.symlink (c.clock q) link)
  | .special => .error .fileType

/-- `Root.Mkdir`; a directory that is there already will do, and keeps its mode. -/
def copyDir (x : Copied) (path : List Name) (mode : Nat) (mtime : Int) :
    Except TransferError Copied :=
  match Root.createNew c.limit c.clock x.dst path fun q => .dir 0o755 (c.clock q) with
  | .ok dst => .ok ⟨dst, x.dirs ++ [⟨path, perm mode, mtime⟩]⟩
  | .error (.tar (.occupied q)) =>
    match x.dst q with
    | some (.dir _ _) => .ok x
    | _ => .error .fileType
  | .error e => .error (.root e)

def copyEntry (x : Copied) (e : Entry) : Except TreeError Copied :=
  let result :=
    if c.interrupted e.path then .error .interrupted
    else
      match e.info, e.path.getLast? with
      | .dir mode mtime, _ => copyDir c x e.path mode mtime
      | .leaf l, some n => copyLeaf c x e.path.dropLast n l
      | .leaf _, none => .ok x
  result.mapError fun err => ⟨relPath e.path, err⟩

/-- `Chmod` and `Chtimes` of a directory that the copy made. -/
def finishDir (fs : LocalTree) (d : MadeDir) : Except TreeError LocalTree :=
  match Root.openDir c.limit fs d.path with
  | .ok q => .ok (update fs q (some (.dir d.mode d.mtime)))
  | .error e => .error ⟨relPath d.path, .root e⟩

/-- Step after step until one fails, and what was done by then. -/
def runAll {σ α ε : Type} (step : σ → α → Except ε σ) : σ → List α → σ × Option ε
  | s, [] => (s, none)
  | s, a :: as =>
    match step s a with
    | .ok s' => runAll step s' as
    | .error e => (s, some e)

/-- What is in the destination at the end, and the error that ended the copy. -/
def copyTransferTree (excluded : Option (Bytes → Bool)) (src : Directory) (dst : LocalTree) :
    LocalTree × Option TreeError :=
  match runAll (copyEntry c) ⟨dst, []⟩ (visited excluded [] src.tree) with
  | (x, none) => runAll (finishDir c) x.dst x.dirs.reverse
  | (x, some e) => (x.dst, some e)

theorem foldlM_of_runAll {σ α ε : Type} {step : σ → α → Except ε σ} {s s' : σ} {as : List α}
    (h : runAll step s as = (s', none)) : as.foldlM step s = .ok s' := by
  induction as generalizing s with
  | nil =>
    cases h
    rfl
  | cons a as ih =>
    rw [runAll] at h
    rw [foldlM_cons]
    split at h
    · next s₁ hs => exact hs ▸ ih h
    · cases h

/-! ## Copies into an empty directory -/

variable {c}

variable {fs : LocalTree}

variable {links : List (List Name × Bytes)} {fs' : LocalTree} {p dir : List Name} {n : Name}

/-- A link here is among the links, and has passed its check. -/
def Fits (links : List (List Name × Bytes)) (i : Info) (p : List Name) : Prop :=
  ∀ mtime target, i = .leaf (.symlink mtime target) → (p, target) ∈ links ∧ Passes p target

/-- What a step of the copy keeps: the directories, and where the links come from. -/
structure Keeps (links : List (List Name × Bytes)) (fs fs' : LocalTree) : Prop where
  dirs : ∀ q, DirAt fs q → DirAt fs' q
  among : Among links fs → Among links fs'

theorem Keeps.refl (fs : LocalTree) : Keeps links fs fs := ⟨fun _ h => h, fun h => h⟩

theorem Keeps.trans {fs'' : LocalTree} (h : Keeps links fs fs') (h' : Keeps links fs' fs'') :
    Keeps links fs fs'' :=
  ⟨fun q hq => h'.dirs q (h.dirs q hq), fun ha => h'.among (h.among ha)⟩

theorem Keeps.parents (h : Keeps links fs fs') (hp : Parents fs p) : Parents fs' p :=
  fun a ha => h.dirs a (hp a ha)

theorem not_dirAt_of_none (h : fs p = none) : ¬DirAt fs p := by
  rintro ⟨m, t, hdir⟩
  rw [h] at hdir
  cases hdir

theorem keeps_create {now : Int} {i : Info} (hfree : fs p = none) (hi : Fits links i p) :
    Keeps links fs (create fs now p i) := by
  constructor
  · exact fun q hq => hq.create_free hfree
  · intro h q mtime target hq
    rcases Root.create_link hq with ⟨rfl, hlink⟩ | hold
    · exact hi mtime target hlink
    · exact h q mtime target hold

/-- An entry that is written under a free name `t` and then stands at `n`. -/
theorem keeps_placed {t : Name} {i j : Info} {now now' : Int} (ht : fs (dir ++ [t]) = none)
    (hn : ¬DirAt (create fs now (dir ++ [t]) i) (dir ++ [n])) (hj : Fits links j (dir ++ [n])) :
    Keeps links fs
      (update (create (create fs now (dir ++ [t]) i) now' (dir ++ [n]) j) (dir ++ [t]) none) := by
  constructor
  · intro q hq
    have hqt : q ≠ dir ++ [t] := fun h => not_dirAt_of_none ht (h ▸ hq)
    have hcreated : DirAt (create fs now (dir ++ [t]) i) q := hq.create_free ht
    obtain ⟨m, mtime, hdir⟩ := hcreated.create (p := dir ++ [n]) fun h => hn (h ▸ hcreated)
    exact ⟨m, mtime, by rwa [update_of_ne hqt]⟩
  · intro h q mtime target hq
    by_cases hqt : q = dir ++ [t]
    · rw [hqt, update_self] at hq
      cases hq
    · rw [update_of_ne hqt] at hq
      rcases Root.create_link hq with ⟨rfl, hlink⟩ | hq
      · exact hj mtime target hlink
      · rcases Root.create_link hq with ⟨rfl, -⟩ | hold
        · exact absurd rfl hqt
        · exact h q mtime target hold

variable {entry : List Name → Info} {x x' : Copied}

theorem createNew_keeps (hparents : Parents fs p.dropLast) (hentry : Fits links (entry p) p)
    (h : Root.createNew c.limit c.clock fs p entry = .ok fs') :
    Keeps links fs fs' ∧ fs' p = some (entry p) := by
  obtain ⟨q, m, hm, hopen, hnone, rfl⟩ := Root.createNew_eq h
  cases hparents.openDir hopen
  rw [dropLast_append_getLast? m hm] at hnone ⊢
  exact ⟨keeps_create hnone hentry, create_self⟩

theorem publish_keeps (hparents : Parents fs dir) (hentry : ∀ q, Fits links (entry q) (dir ++ [n]))
    (h : publish c fs dir n entry = .ok fs') : Keeps links fs fs' := by
  obtain ⟨fs₁, hcreate, h⟩ := bind_eq_ok h
  obtain ⟨q, hopen, h⟩ := bind_eq_ok h
  obtain ⟨d, t, ht, hd, hnone, rfl⟩ := Root.createNew_eq hcreate
  rw [getLast?_concat, Option.some.injEq] at ht
  rw [dropLast_concat] at hd
  cases hparents.openDir hd
  rw [ht] at h
  have hparents' :
      Parents (create fs (c.clock (dir ++ [t])) (dir ++ [t]) (entry (dir ++ [t]))) dir :=
    fun a ha => (hparents a ha).create_free hnone
  cases hparents'.openDir hopen
  unfold place at h
  simp only at h
  split at h
  · next hfree =>
    cases h
    exact keeps_placed hnone (not_dirAt_of_none hfree) (hentry _)
  · next l hl =>
    split at h
    · cases h
      refine keeps_placed hnone ?_ (hentry _)
      rintro ⟨m, mtime, hdir⟩
      rw [hl] at hdir
      cases hdir
    · cases h
  · cases h

theorem passes_of_checked {target : Bytes} (hplain : PlainPath (dir ++ [n]))
    (hcheck : (rooted target || climbs (joinPath [dirName (relPath (dir ++ [n])), target])) =
      false) : Passes (dir ++ [n]) target := by
  obtain ⟨hroot, hclimbs⟩ := Bool.or_eq_false_iff.mp hcheck
  refine ⟨hroot, ?_⟩
  by_cases htarget : target = []
  · subst htarget
    exact inside.eq_1 _
  · exact inside_of_checked hplain htarget (by rwa [clean_joinPath (by simp) htarget])

theorem copyLeaf_keeps {l : Leaf} (hplain : PlainPath (dir ++ [n])) (hparents : Parents x.dst dir)
    (hlinks : ∀ mtime target, l = .symlink mtime target → (dir ++ [n], target) ∈ links)
    (h : copyLeaf c x dir n l = .ok x') : Keeps links x.dst x'.dst := by
  cases l with
  | special => cases h
  | file mode mtime data =>
    unfold copyLeaf at h
    simp only at h
    split at h
    · next dst hpublish =>
      cases h
      refine publish_keeps hparents (fun q m t hlink => ?_) hpublish
      cases hlink
    · cases h
  | symlink mtime link =>
    unfold copyLeaf at h
    simp only at h
    split at h
    · cases h
    next hcheck =>
    split at h
    · next dst hpublish =>
      cases h
      refine publish_keeps hparents (fun q m t hlink => ?_) hpublish
      cases hlink
      exact ⟨hlinks mtime link rfl, passes_of_checked hplain (by simpa using hcheck)⟩
    · cases h

theorem copyDir_keeps {path : List Name} {mode : Nat} {mtime : Int}
    (hparents : Parents x.dst path.dropLast) (hp : path ≠ [])
    (h : copyDir c x path mode mtime = .ok x') :
    Keeps links x.dst x'.dst ∧ Parents x'.dst path := by
  obtain ⟨dir, n, rfl⟩ := eq_nil_or_concat' path |>.resolve_left hp
  have hall : ∀ {fs}, Keeps links x.dst fs → DirAt fs (dir ++ [n]) → Parents fs (dir ++ [n]) := by
    intro fs hk hself a ha
    rcases prefix_concat_iff.mp ha with rfl | ha
    · exact hself
    · exact hk.dirs a (hparents a (by rwa [dropLast_concat]))
  unfold copyDir at h
  split at h
  · next dst hcreate =>
    cases h
    obtain ⟨hk, hself⟩ := createNew_keeps hparents (by intro m t hlink; cases hlink) hcreate
    exact ⟨hk, hall hk ⟨_, _, hself⟩⟩
  · next q hoccupied =>
    split at h
    · next m t hdir =>
      cases h
      obtain ⟨d, hopen, rfl⟩ := Root.createNew_occupied getLast?_concat hoccupied
      cases hparents.openDir hopen
      rw [dropLast_concat] at hdir
      exact ⟨.refl _, hall (.refl _) ⟨m, t, hdir⟩⟩
    · cases h
  · cases h

def treeLinks (es : List Entry) : List (List Name × Bytes) :=
  es.filterMap fun e =>
    match e.info with
    | .leaf (.symlink _ target) => some (e.path, target)
    | _ => none

/-- One entry: what is in the directory stays, and a directory is there after its turn. -/
theorem copyEntry_keeps {i : Info} (hplain : PlainPath (dir ++ [n])) (hparents : Parents x.dst dir)
    (hlinks : treeLinks [⟨dir ++ [n], i⟩] ⊆ links) (h : copyEntry c x ⟨dir ++ [n], i⟩ = .ok x') :
    Keeps links x.dst x'.dst ∧
    ((∃ mode mtime, i = .dir mode mtime) → Parents x'.dst (dir ++ [n])) := by
  unfold copyEntry at h
  simp only [getLast?_concat, dropLast_concat] at h
  split at h
  · cases h
  · cases i with
    | dir mode mtime =>
      simp only at h
      have hdir : copyDir c x (dir ++ [n]) mode mtime = .ok x' := by
        cases hd : copyDir c x (dir ++ [n]) mode mtime with
        | error e => rw [hd] at h; cases h
        | ok y => rw [hd] at h; cases h; rfl
      obtain ⟨hk, hp⟩ := copyDir_keeps (by rwa [dropLast_concat]) (by simp) hdir
      exact ⟨hk, fun _ => hp⟩
    | leaf l =>
      simp only at h
      have hleaf : copyLeaf c x dir n l = .ok x' := by
        cases hl : copyLeaf c x dir n l with
        | error e => rw [hl] at h; cases h
        | ok y => rw [hl] at h; cases h; rfl
      refine ⟨copyLeaf_keeps hplain hparents (fun mtime target hl => ?_) hleaf, ?_⟩
      · subst hl
        exact hlinks mem_cons_self
      · rintro ⟨m, t, hdir⟩
        cases hdir

theorem treeLinks_append (es es' : List Entry) :
    treeLinks (es ++ es') = treeLinks es ++ treeLinks es' :=
  filterMap_append

theorem treeLinks_cons (e : Entry) (es : List Entry) :
    treeLinks (e :: es) = treeLinks [e] ++ treeLinks es :=
  treeLinks_append [e] es

variable {excluded : Option (Bytes → Bool)}

theorem visited_keeps {path : List Name} (t : Tree) (hwf : t.WellFormed)
    (hpath : ∀ e ∈ path, Plain e) (hparents : Parents x.dst path)
    (hlinks : treeLinks (visited excluded path t) ⊆ links)
    (h : (visited excluded path t).foldlM (copyEntry c) x = .ok x') : Keeps links x.dst x'.dst := by
  induction t generalizing path x x' with
  | nil =>
    cases h
    exact .refl _
  | leaf n l rest ih =>
    obtain ⟨⟨hn, -⟩, -, hrest⟩ := hwf
    unfold visited at h hlinks
    simp only at h hlinks
    split at h
    · next hskip =>
      rw [if_pos hskip] at hlinks
      exact ih hrest hpath hparents hlinks h
    · next hskip =>
      rw [if_neg hskip, treeLinks_cons, append_subset] at hlinks
      rw [foldlM_cons] at h
      obtain ⟨y, hy, h⟩ := bind_eq_ok h
      have hplain : PlainPath (path ++ [n]) :=
        ⟨by simp, by simpa [or_imp, forall_and] using ⟨hpath, hn⟩⟩
      obtain ⟨hk, -⟩ := copyEntry_keeps hplain hparents hlinks.1 hy
      exact hk.trans (ih hrest hpath (hk.parents hparents) hlinks.2 h)
  | dir n mode mtime children rest ihc ih =>
    obtain ⟨⟨hn, -⟩, -, hchildren, hrest⟩ := hwf
    unfold visited at h hlinks
    simp only at h hlinks
    split at h
    · next hskip =>
      rw [if_pos hskip] at hlinks
      exact ih hrest hpath hparents hlinks h
    · next hskip =>
      rw [if_neg hskip, treeLinks_cons, treeLinks_append, append_subset, append_subset] at hlinks
      rw [foldlM_cons] at h
      obtain ⟨y, hy, h⟩ := bind_eq_ok h
      rw [foldlM_append] at h
      obtain ⟨z, hz, h⟩ := bind_eq_ok h
      have hplain : ∀ e ∈ path ++ [n], Plain e := by simpa [or_imp, forall_and] using ⟨hpath, hn⟩
      obtain ⟨hk, hmade⟩ := copyEntry_keeps ⟨by simp, hplain⟩ hparents hlinks.1 hy
      have hk' := hk.trans (ihc hchildren hplain (hmade ⟨mode, mtime, rfl⟩) hlinks.2.1 hz)
      exact hk'.trans (ih hrest hpath (hk'.parents hparents) hlinks.2.2 h)

theorem finishDirs_links {ds : List MadeDir} (h : ds.foldlM (finishDir c) fs = .ok fs') :
    Root.NoNewLink fs fs' := by
  induction ds generalizing fs with
  | nil =>
    cases h
    exact .refl _
  | cons d ds ih =>
    rw [foldlM_cons] at h
    obtain ⟨fs₁, hfs₁, h⟩ := bind_eq_ok h
    refine Root.NoNewLink.trans ?_ (ih h)
    unfold finishDir at hfs₁
    split at hfs₁
    · next q hq =>
      cases hfs₁
      intro p mtime target hp
      by_cases hpq : p = q
      · subst hpq
        rw [update_self] at hp
        cases hp
      · rwa [update_of_ne hpq] at hp
    · cases hfs₁

theorem copyTransferTree_done {src : Directory} {dst fs : LocalTree}
    (h : c.copyTransferTree excluded src dst = (fs, none)) :
    ∃ x, (visited excluded [] src.tree).foldlM (copyEntry c) ⟨dst, []⟩ = .ok x ∧
      x.dirs.reverse.foldlM (finishDir c) x.dst = .ok fs := by
  unfold copyTransferTree at h
  split at h
  · next x hx => exact ⟨x, foldlM_of_runAll hx, foldlM_of_runAll h⟩
  · cases h

theorem copy_among {src : Directory} {mode : Nat} {mtime : Int}
    (h : copyTransferTree c excluded src (emptyTree mode mtime) = (fs, none)) :
    Among (treeLinks (visited excluded [] src.tree)) fs := by
  obtain ⟨x, hx, h⟩ := copyTransferTree_done h
  have hroot : Parents (emptyTree mode mtime) [] := by
    intro a ha
    rw [prefix_nil.mp ha]
    exact ⟨mode, mtime, rfl⟩
  have hkeeps := visited_keeps src.tree src.wellFormed (by simp) hroot (Subset.refl _) hx
  exact (finishDirs_links h).among (hkeeps.among (among_empty _ mode mtime))

/-- **Restored and transferred trees are confined** if their links are tidy: no target climbs after
it has named a link, and no link of the archive is below an earlier one.  Exactly, if no link leads
out when it is followed alone. -/
theorem linked_trees_confined (c : Transfer) (mode : Nat) (mtime : Int) :
    (∀ (codec : TarGzip) (src : Bytes) (rs : List Record) (fs : LocalTree),
      codec.decode src = some rs →
      Root.readTarGzip c.limit c.clock codec src (emptyTree mode mtime) = .ok fs →
      (Tidy (archiveLinks rs) → Apart (archiveLinks rs) → Confined (view fs)) ∧
      (Confined (view fs) ↔ ∀ p t target, fs p = some (.leaf (.symlink t target)) →
        ∀ fuel, walk (view fs) fuel [] (descend p) ≠ .escaped)) ∧
    ∀ (excluded : Option (Bytes → Bool)) (src : Directory) (fs : LocalTree),
      copyTransferTree c excluded src (emptyTree mode mtime) = (fs, none) →
      (Tidy (treeLinks (visited excluded [] src.tree)) → Confined (view fs)) ∧
      (Confined (view fs) ↔ ∀ p t target, fs p = some (.leaf (.symlink t target)) →
        ∀ fuel, walk (view fs) fuel [] (descend p) ≠ .escaped) := by
  refine ⟨fun codec src rs fs hdecode h => ⟨fun htidy hapart => ?_, confined_view_iff⟩,
    fun excluded src fs h =>
    ⟨fun htidy => (copy_among h).confined htidy, confined_view_iff⟩⟩
  exact (Root.read_among hdecode hapart h).confined htidy

/-! ### Links through a sibling -/

/-- At most 40 steps, nothing overwritten, never interrupted. -/
def plainTransfer : Transfer :=
  ⟨40, hourClock, false, fun _ => ascii ".hostel-transfer-0", fun _ => false⟩

def linkRecord (name target : String) : Record :=
  ⟨⟨ascii name, .symlink, 0o777, 0, ascii target⟩, []⟩

/-- A directory `d` with a link `l`, and next to it a link `x`. -/
def linkedArchive (l x : String) : List Record :=
  [⟨⟨ascii "d", .dir, 0o755, 0, []⟩, []⟩, linkRecord "d/l" l, linkRecord "x" x]

def linkedTree (l x : String) : Tree :=
  .dir (ascii "d") 0o755 0 (.leaf (ascii "l") (.symlink 0 (ascii l)) .nil)
    (.leaf (ascii "x") (.symlink 0 (ascii x)) .nil)

def linkedDir (l x : String) : Directory :=
  ⟨linkedTree l x, show Tree.WellFormed (linkedTree "" "") by decide⟩

def linkedRead (l x : String) : Except RootError LocalTree :=
  Root.readTarGzip plainTransfer.limit plainTransfer.clock TarGzip.simple
    (TarGzip.simple.encode (linkedArchive l x)) (emptyTree 0o755 0)

def linkedCopy (l x : String) : LocalTree × Option TreeError :=
  copyTransferTree plainTransfer none (linkedDir l x) (emptyTree 0o755 0)

def followAll (fs : LocalTree) (paths : List (List Name)) : List (Walk Name) :=
  paths.map fun p => walk (view fs) plainTransfer.limit [] (descend p)

theorem linkedRead_ok {l x : String} {paths : List (List Name)} {ws : List (Walk Name)}
    (h : ((linkedRead l x).toOption.map (followAll · paths)) = some ws) :
    ∃ fs, linkedRead l x = .ok fs ∧ followAll fs paths = ws := by
  obtain ⟨fs, hfs, hw⟩ := Option.map_eq_some_iff.mp h
  cases hread : linkedRead l x with
  | error e => rw [hread] at hfs; cases hfs
  | ok fs' =>
    rw [hread] at hfs
    cases hfs
    exact ⟨fs, rfl, hw⟩

/-- `d/l` climbs to its sibling `x`, and `x` descends to `d` and climbs back before it names a
link. -/
theorem linked_trees_confined_sibling :
    (∃ fs, linkedRead "../x" "d/../d" = .ok fs ∧ Confined (view fs)) ∧
      ∃ fs, linkedCopy "../x" "d/../d" = (fs, none) ∧ Confined (view fs) := by
  obtain ⟨harchive, htree⟩ := linked_trees_confined plainTransfer 0o755 0
  have hread : (linkedRead "../x" "d/../d").toOption.map (followAll · [[ascii "x"]]) =
      some [.arrived [ascii "d"]] := by
    rw [linkedRead, Root.readTarGzip, TarGzip.decode_encode]
    decide +kernel
  obtain ⟨fs, hfs, -⟩ := linkedRead_ok hread
  have hcopy : linkedCopy "../x" "d/../d" = ((linkedCopy "../x" "d/../d").1, none) :=
    Prod.ext rfl (by decide +kernel)
  exact ⟨⟨fs, hfs,
    (harchive _ _ _ _ (TarGzip.decode_encode _ _) hfs).1 (by decide +kernel) (by decide +kernel)⟩,
    _, hcopy, (htree _ _ _ hcopy).1 (by decide +kernel)⟩

/-- `d/l` is a link to the root, so that `d/l/..` is above it, while its text is `d`. -/
theorem sibling_link_escapes :
    (∃ fs, linkedRead ".." "d/l/.." = .ok fs ∧ ¬Confined (view fs)) ∧
      ∃ fs, linkedCopy ".." "d/l/.." = (fs, none) ∧ ¬Confined (view fs) := by
  have hread : (linkedRead ".." "d/l/..").toOption.map (followAll · [[ascii "x"]]) =
      some [.escaped] := by
    rw [linkedRead, Root.readTarGzip, TarGzip.decode_encode]
    decide +kernel
  have hcopy : (linkedCopy ".." "d/l/..").2 = none ∧
      followAll (linkedCopy ".." "d/l/..").1 [[ascii "x"]] = [.escaped] := by decide +kernel
  obtain ⟨fs, hfs, hwalk⟩ := linkedRead_ok hread
  exact ⟨⟨fs, hfs, fun h => h _ _ (cons.inj hwalk).1⟩, _, Prod.ext rfl hcopy.1,
    fun h => h _ _ (cons.inj hcopy.2).1⟩

/-- The same target of `x` is harmless while `d/l` stays in `d`: tidiness is not needed of every
tree. -/
theorem untidy_link_confined : ¬Tidy (archiveLinks (linkedArchive "." "d/l/..")) ∧
    ∃ fs, linkedRead "." "d/l/.." = .ok fs ∧ Confined (view fs) := by
  have hread :
      (linkedRead "." "d/l/..").toOption.map (followAll · [[ascii "d", ascii "l"], [ascii "x"]]) =
      some [.arrived [ascii "d"], .arrived []] := by
    rw [linkedRead, Root.readTarGzip, TarGzip.decode_encode]
    decide +kernel
  obtain ⟨fs, hfs, hwalks⟩ := linkedRead_ok hread
  obtain ⟨hl, hwalks⟩ := cons.inj hwalks
  refine ⟨by decide +kernel, fs, hfs, confined_view_iff.mpr fun p mtime target hp => ?_⟩
  have hmem :=
    (Root.read_among (TarGzip.decode_encode _ _) (by decide +kernel) hfs p mtime target hp).1
  rw [show archiveLinks (linkedArchive "." "d/l/..") =
    [([ascii "d", ascii "l"], ascii "."), ([ascii "x"], ascii "d/l/..")] by decide +kernel] at hmem
  simp only [mem_cons, Prod.mk.injEq, not_mem_nil, or_false] at hmem
  obtain ⟨rfl, -⟩ | ⟨rfl, -⟩ := hmem
  · exact not_escaped_of_arrived hl
  · exact not_escaped_of_arrived (cons.inj hwalks).1

end Transfer

end Hostel.Filesystem
