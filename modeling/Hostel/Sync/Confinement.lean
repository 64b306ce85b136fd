/-
# Hostel.Sync.Confinement — restored archives and their symbolic links.

`Sync.Tar` has the reader for archives whose names pass through no link, which is all that
`writeTarGzip` produces; here is the reader for every archive, with the links followed inside the
restore root as `os.Root` does.  On the archives that the first restores they agree
(`readTarGzip_of_ok`).

`validateTarSymlink` looks at one link, and at the text of its target.  A target that climbs after
it has named a link is checked as if that were a directory, and a link that is created below another
link is checked against a path it does not have.  Archives without either (`Tidy`, `Apart`) restore
to a confined directory.
-/
import Hostel.Sync.TarRoundTrip
import Hostel.Logic.Resolve

namespace Hostel.Sync

open Hostel.Logic List Option Bool

/-! ## Links in a directory -/

def linkSteps (target : Bytes) : Option (List (PathStep Name)) :=
  if rooted target then none else some (pathSteps target)

def Info.kind : Info → NodeKind Name
  | .dir _ _ => .dir
  | .leaf (.symlink _ target) => .link (linkSteps target)
  | .leaf _ => .file

namespace Tar

def view (fs : LocalTree) : FileView Name := fun p => (fs p).map Info.kind

/-! ## `os.Root` -/

inductive RootError
  | tar (e : TarError)
  | pathEscapes
  | tooManyLinks
  | notExist (path : List Name)
  deriving DecidableEq, Repr

namespace Root

-- `limit` is the number of steps after which `os.Root` gives up
variable (limit : Nat) (clock : List Name → Int)

def openDir (fs : LocalTree) (p : List Name) : Except RootError (List Name) :=
  match walk (view fs) limit [] (descend p) with
  | .arrived q =>
    match fs q with
    | some (.dir _ _) => .ok q
    | _ => .error (.tar (.notDirectory q))
  | .missing dir n _ => .error (.notExist (dir ++ [n]))
  | .blocked q => .error (.tar (.notDirectory q))
  | .escaped => .error .pathEscapes
  | .exhausted => .error .tooManyLinks

/-- The walk of `Root.MkdirAll` through all but the last element. -/
def makeDirs (mode : Nat) :
    Nat → LocalTree → List Name → List (PathStep Name) → LocalTree × Except RootError (List Name)
  | _, fs, cwd, [] => (fs, .ok cwd)
  | 0, fs, _, _ :: _ => (fs, .error .tooManyLinks)
  | fuel + 1, fs, cwd, .up :: rest =>
    if cwd.isEmpty then (fs, .error .pathEscapes) else makeDirs mode fuel fs cwd.dropLast rest
  | fuel + 1, fs, cwd, .down n :: rest =>
    match fs (cwd ++ [n]) with
    | none =>
      -- what is missing is created, and stays if the walk fails later on
      makeDirs mode fuel
        (create fs (clock (cwd ++ [n])) (cwd ++ [n]) (.dir mode (clock (cwd ++ [n]))))
        (cwd ++ [n]) rest
    | some (.dir _ _) => makeDirs mode fuel fs (cwd ++ [n]) rest
    | some (.leaf (.symlink _ target)) =>
      match linkSteps target with
      | none => (fs, .error .pathEscapes)
      | some steps => makeDirs mode fuel fs cwd (steps ++ rest)
    | some (.leaf _) => (fs, .error (.tar (.notDirectory (cwd ++ [n]))))

/-- The last element of `Root.MkdirAll`: a link will do if it leads to a directory. -/
def makeLast (mode : Nat) (fs : LocalTree) (dir : List Name) (n : Name) :
    Except RootError LocalTree :=
  match fs (dir ++ [n]) with
  | none => .ok (create fs (clock (dir ++ [n])) (dir ++ [n]) (.dir mode (clock (dir ++ [n]))))
  | some (.dir _ _) => .ok fs
  | some (.leaf (.symlink _ _)) =>
    match walk (view fs) limit dir [.down n] with
    | .arrived q =>
      match fs q with
      | some (.dir _ _) => .ok fs
      | _ => .error (.tar (.occupied (dir ++ [n])))
    | _ => .error (.tar (.occupied (dir ++ [n])))
  | some (.leaf _) => .error (.tar (.notDirectory (dir ++ [n])))

def mkdirAll (mode : Nat) (fs : LocalTree) (p : List Name) : Except RootError LocalTree :=
  match p.getLast? with
  | none => .ok fs
  | some n =>
    match makeDirs clock mode limit fs [] (descend p.dropLast) with
    | (fs, .ok dir) => makeLast limit clock mode fs dir n
    | (_, .error e) => .error e

def createNew (fs : LocalTree) (p : List Name) (entry : List Name → Info) :
    Except RootError LocalTree :=
  match p.getLast? with
  | none => .error (.tar (.occupied []))
  | some n => do
    let dir ← openDir limit fs p.dropLast
    match fs (dir ++ [n]) with
    | some _ => .error (.tar (.occupied (dir ++ [n])))
    | none => .ok (create fs (clock (dir ++ [n])) (dir ++ [n]) (entry (dir ++ [n])))

/-- `Root.Chmod` and `Root.Chtimes` of a directory. -/
def restoreDir (fs : LocalTree) (d : RestoredDir) : Except RootError LocalTree := do
  let q ← openDir limit fs (elements d.name)
  match fs q with
  | some (.dir _ mtime) =>
    .ok (Function.update fs q (some (.dir d.mode (restoredTime mtime d.modTime))))
  | _ => .error (.tar (.notDirectory q))

/-! ## `readTarGzip` -/

def extractAs (x : Extraction) (name : Bytes) (r : Record) : Except RootError Extraction :=
  let p := elements name
  let mode := perm r.header.mode
  match r.header.typeflag with
  | .dir => do
    let fs ← mkdirAll limit clock (mode ||| 0o700) x.fs p
    return { x with fs := fs, dirs := x.dirs ++ [⟨name, mode, r.header.modTime⟩] }
  | .reg => do
    let fs ← mkdirAll limit clock 0o755 x.fs (elements (dirName name))
    let fs ← createNew limit clock fs p fun q =>
      .leaf (.file mode (restoredTime (clock q) r.header.modTime) r.body)
    return { x with fs := fs }
  | .symlink => do
    (validateTarSymlink name r.header.linkname).mapError RootError.tar
    let fs ← mkdirAll limit clock 0o755 x.fs (elements (dirName name))
    let fs ← createNew limit clock fs p fun q => .leaf (.symlink (clock q) r.header.linkname)
    return { x with fs := fs }
  | .other _ => .error (.tar (.unsupportedEntryType name))

def extract (x : Extraction) (r : Record) : Except RootError Extraction := do
  let name ← (cleanTarPath r.header.name).mapError RootError.tar
  if x.seen.contains name then .error (.tar (.duplicate name))
  else extractAs limit clock { x with seen := name :: x.seen } name r

def readTarGzip (codec : TarGzip) (src : Bytes) (fs : LocalTree) : Except RootError LocalTree :=
  match codec.decode src with
  | none => .error (.tar .malformed)
  | some rs => do
    let x ← rs.foldlM (extract limit clock) ⟨fs, [], []⟩
    x.dirs.reverse.foldlM (restoreDir limit) x.fs

/-! ## Where the links come from -/

variable {limit clock}

/-- The links of `fs'` are those of `fs`. -/
def NoNewLink (fs fs' : LocalTree) : Prop :=
  ∀ p mtime target, fs' p = some (.leaf (.symlink mtime target)) →
    fs p = some (.leaf (.symlink mtime target))

theorem NoNewLink.refl (fs : LocalTree) : NoNewLink fs fs := fun _ _ _ h => h

theorem NoNewLink.trans {fs fs' fs'' : LocalTree} (h : NoNewLink fs fs') (h' : NoNewLink fs' fs'') :
    NoNewLink fs fs'' := fun p mtime target hlink => h p mtime target (h' p mtime target hlink)

variable {fs fs' : LocalTree} {p q : List Name} {i : Info} {now : Int} {mode : Nat}

theorem create_link {mtime : Int} {target : Bytes}
    (h : create fs now p i q = some (.leaf (.symlink mtime target))) :
    q = p ∧ i = .leaf (.symlink mtime target) ∨ fs q = some (.leaf (.symlink mtime target)) := by
  unfold create at h
  split at h
  · next hqp => exact .inl ⟨hqp, some.inj h⟩
  · split at h
    · split at h
      · cases h
      · exact .inr h
    · exact .inr h

theorem NoNewLink.create (hi : ∀ mtime target, i ≠ .leaf (.symlink mtime target)) :
    NoNewLink fs (create fs now p i) := by
  intro q mtime target h
  rcases create_link h with ⟨-, hlink⟩ | hold
  · exact absurd hlink (hi mtime target)
  · exact hold

theorem makeDirs_links (fuel : Nat) (cwd : List Name) (todo : List (PathStep Name)) :
    NoNewLink fs (makeDirs clock mode fuel fs cwd todo).1 := by
  induction fuel generalizing fs cwd todo with
  | zero => cases todo <;> exact .refl fs
  | succ fuel ih =>
    cases todo with
    | nil => exact .refl fs
    | cons x rest =>
      cases x with
      | up =>
        rw [makeDirs]
        split
        · exact .refl fs
        · exact ih _ _
      | down n =>
        rw [makeDirs]
        split
        · exact (NoNewLink.create (by simp)).trans (ih _ _)
        · exact ih _ _
        · split
          · exact .refl fs
          · exact ih _ _
        · exact .refl fs

theorem makeLast_links {dir : List Name} {n : Name}
    (h : makeLast limit clock mode fs dir n = .ok fs') : NoNewLink fs fs' := by
  unfold makeLast at h
  split at h
  · cases h
    exact .create (by simp)
  · cases h
    exact .refl fs
  · split at h
    · split at h
      · cases h
        exact .refl fs
      · cases h
    · cases h
  · cases h

theorem mkdirAll_links (h : mkdirAll limit clock mode fs p = .ok fs') : NoNewLink fs fs' := by
  unfold mkdirAll at h
  split at h
  · cases h
    exact .refl fs
  · split at h
    · next fs₁ dir hmade =>
      have hdirs : NoNewLink fs (makeDirs clock mode limit fs [] (descend p.dropLast)).1 :=
        makeDirs_links _ _ _
      rw [hmade] at hdirs
      exact hdirs.trans (makeLast_links h)
    · cases h

/-- A directory that a path leads to without meeting a link is the one its text names. -/
theorem openDir_direct (hlink : ∀ a b, p = a ++ b → a ≠ [] → ∀ mtime target,
    fs a ≠ some (.leaf (.symlink mtime target))) (h : openDir limit fs p = .ok q) : q = p := by
  unfold openDir at h
  split at h
  · next place hwalk =>
    have hplace : place = p := by
      refine walk_descend [] p (fun a b hab hne target hview => ?_) hwalk
      rw [nil_append, view] at hview
      obtain ⟨info, hinfo, hkind⟩ := map_eq_some_iff.mp hview
      cases info with
      | dir mode mtime => cases hkind
      | leaf l =>
        cases l with
        | symlink mtime target => exact hlink a b hab hne mtime target hinfo
        | file mode mtime data | special => cases hkind
    split at h
    · cases h
      exact hplace
    · cases h
  · cases h
  · cases h
  · cases h
  · cases h

theorem createNew_eq {entry : List Name → Info} (h : createNew limit clock fs p entry = .ok fs') :
    ∃ dir n, p.getLast? = some n ∧ openDir limit fs p.dropLast = .ok dir ∧ fs (dir ++ [n]) = none ∧
      fs' = create fs (clock (dir ++ [n])) (dir ++ [n]) (entry (dir ++ [n])) := by
  unfold createNew at h
  split at h
  · cases h
  next n hn =>
  obtain ⟨dir, hdir, h⟩ := bind_eq_ok h
  split at h
  · cases h
  next hnone =>
  cases h
  exact ⟨dir, n, hn, hdir, hnone, rfl⟩

/-- A creation that finds something there found it in the directory that the path leads to. -/
theorem createNew_occupied {entry : List Name → Info} {n : Name} (hn : p.getLast? = some n)
    (h : createNew limit clock fs p entry = .error (.tar (.occupied q))) :
    ∃ dir, openDir limit fs p.dropLast = .ok dir ∧ q = dir ++ [n] := by
  rw [createNew, hn] at h
  cases hopen : openDir limit fs p.dropLast with
  | ok dir =>
    simp only [hopen, ok_bind] at h
    refine ⟨dir, rfl, ?_⟩
    split at h
    · cases h
      rfl
    · cases h
  | error e =>
    rw [hopen] at h
    cases h
    unfold openDir at hopen
    split at hopen
    · split at hopen <;> cases hopen
    · cases hopen
    · cases hopen
    · cases hopen
    · cases hopen

end Root

/-! ## What the checks say about a link -/

theorem cleanTarPath_plain {raw name : Bytes} (h : cleanTarPath raw = .ok name) :
    elements name = elements raw ∧ PlainPath (elements name) ∧ name = relPath (elements name) := by
  unfold cleanTarPath at h
  split at h
  · cases h
  · split at h
    · cases h
    next hvalid =>
    obtain ⟨hdot, hvalid⟩ := not_or.mp hvalid
    rw [not_eq_false] at hvalid
    cases h
    have hrender : clean raw = render (rooted raw) (elements raw) := by
      unfold clean at hdot ⊢
      simp only at hdot ⊢
      split at hdot
      · exact absurd rfl hdot
      · next hne => rw [if_neg hne]
    -- an empty first element would be refused, so the name is not rooted
    have hsplits : ∀ e ∈ (clean raw).splitOn slash, e ≠ [] ∧ e ≠ [dot] ∧ e ≠ dotdot := by
      rw [validPath, and_eq_true, or_eq_true, decide_eq_true_eq] at hvalid
      simpa using hvalid.2.resolve_left hdot
    have hroot : rooted raw = false := by
      cases hr : rooted raw with
      | false => rfl
      | true =>
        refine absurd rfl (hsplits [] ?_).1
        simp [hrender, hr, render, rootSlash, splitOn_cons_eq_if_modifyHead]
    rw [hroot] at hrender
    have hne : elements raw ≠ [] := by
      intro hnil
      have hempty : clean raw = [] := by rw [hrender, hnil]; rfl
      exact absurd rfl (hsplits [] (by simp [hempty])).1
    have hnormal : Normal false (elements raw).reverse := by
      simpa [elements, hroot] using normal_kept raw
    have hcoords := (coordinates_render hnormal hne).2
    rw [← hrender] at hcoords
    rw [hcoords]
    have hsplit : (clean raw).splitOn slash = elements raw := by
      rw [hrender]
      exact splitOn_intercalate slash (slash_notMem_elements raw) hne
    refine ⟨rfl, ⟨hne, fun e he => ?_⟩, hrender⟩
    obtain ⟨h1, h2, h3⟩ := hsplits e (hsplit ▸ he)
    exact ⟨h1, slash_notMem_elements raw e he, h2, h3⟩

theorem dirName_relPath {dir : List Name} {n : Name} (hp : PlainPath (dir ++ [n])) :
    dirName (relPath (dir ++ [n])) = if dir = [] then [dot] else relPath dir := by
  have hplain : ∀ e ∈ dir, Plain e := fun e he => hp.2 e (by simp [he])
  rw [dirName, splitOn_relPath hp, dropLast_concat, intercalate_concat, append_nil]
  split
  · next hnil => rw [hnil, flatMap_nil, clean_nil]
  · next hne => exact clean_flatMap hplain hne

variable {p : List Name}

/-- A target that the check lets pass stays below the directory by its text. -/
theorem inside_of_checked {target : Bytes} (hp : PlainPath p) (htarget : target ≠ [])
    (hcheck : climbs (clean (joinPath [dirName (relPath p), target])) = false) :
    inside p.dropLast.length (pathSteps target) = true := by
  obtain ⟨dir, n, rfl⟩ := eq_nil_or_concat' p |>.resolve_left hp.1
  have helems : elements (dirName (relPath (dir ++ [n]))) = dir := elements_dirName hp.2
  rw [dropLast_concat]
  by_contra hout
  have hdeep : inside (elements (dirName (relPath (dir ++ [n])))).length (pathSteps target) =
      false := by
    rw [helems]
    exact eq_false_of_not_eq_true hout
  have hdirname : dirName (relPath (dir ++ [n])) ≠ [] ∧
      rooted (dirName (relPath (dir ++ [n]))) = false := by
    rw [dirName_relPath hp]
    split
    · decide
    · next hne =>
      have hdir : ∀ e ∈ dir, Plain e := fun e he => hp.2 e (by simp [he])
      have hnormal : Normal false dir.reverse := normal_reverse hdir
      exact ⟨render_ne_nil hnormal hne, (coordinates_render hnormal hne).1⟩
  have hplain : ∀ e ∈ elements (dirName (relPath (dir ++ [n]))), Plain e := fun e he =>
    hp.2 e (by rw [helems] at he; simp [he])
  rw [climbs_iff.mpr (join_climbs hdirname.1 htarget hdirname.2 hplain hdeep)] at hcheck
  cases hcheck

theorem validateTarSymlink_ok {name target : Bytes} (h : validateTarSymlink name target = .ok ()) :
    target ≠ [] ∧ rooted target = false ∧
    climbs (clean (joinPath [dirName name, target])) = false := by
  unfold validateTarSymlink at h
  split at h
  · cases h
  next hsafe =>
  split at h
  · cases h
  next hclimbs =>
  obtain ⟨hne, hrest⟩ := not_or.mp hsafe
  exact ⟨hne, by simpa using (not_or.mp hrest).1, by simpa using hclimbs⟩

/-! ## The reader without links

An archive that `Tar.readTarGzip` restores passes through no link, and is restored the same way
through `os.Root`, if its paths are not longer than the limit. -/

/-- Every directory on the way to `p` is there, and is no link. -/
def Parents (fs : LocalTree) (p : List Name) : Prop := ∀ a, a <+: p → DirAt fs a

variable {fs : LocalTree}

theorem Parents.concat {n : Name} (h : Parents fs p) (hn : DirAt fs (p ++ [n])) :
    Parents fs (p ++ [n]) := by
  intro a ha
  rcases prefix_concat_iff.mp ha with rfl | ha
  · exact hn
  · exact h a ha

theorem Parents.openDir {limit : Nat} {p q : List Name} (h : Parents fs p)
    (hopen : Root.openDir limit fs p = .ok q) : q = p := by
  refine Root.openDir_direct (fun a b hab _ mtime target hlink => ?_) hopen
  obtain ⟨m, t, hdir⟩ := h a ⟨b, hab.symm⟩
  rw [hdir] at hlink
  cases hlink

namespace Root

section Agreement

variable {limit : Nat} {clock : List Name → Int} {mode : Nat} {fs fs' : LocalTree} {p : List Name}
  {x x' : Extraction} {r : Record}

theorem openDir_of_parents (h : Parents fs p) (hlimit : p.length ≤ limit) :
    openDir limit fs p = .ok p := by
  have hreal : Real (view fs) p := by
    intro a ha _
    obtain ⟨m, t, hdir⟩ := h a ha
    rw [view, hdir]
    rfl
  have hwalk := walk_real hreal (limit - p.length) []
  rw [Nat.sub_add_cancel hlimit, append_nil, walk] at hwalk
  obtain ⟨m, t, hdir⟩ := h p prefix_rfl
  simp only [openDir, hwalk, hdir]

theorem makeDirs_of_mkdirAll {done todo : List Name} {fuel : Nat} (hdone : Parents fs done)
    (h : Tar.mkdirAll clock mode fs done todo = .ok fs') (hfuel : todo.length ≤ fuel) :
    makeDirs clock mode fuel fs done (descend todo) = (fs', .ok (done ++ todo)) ∧
    Parents fs' (done ++ todo) ∧
      ∀ q, DirAt fs q → DirAt fs' q := by
  induction todo generalizing fs done fuel with
  | nil =>
    cases h
    rw [append_nil]
    exact ⟨by cases fuel <;> rfl, hdone, fun _ => id⟩
  | cons n todo ih =>
    cases fuel with
    | zero => cases hfuel
    | succ fuel =>
      rw [append_cons]
      rw [Tar.mkdirAll] at h
      rw [descend, map_cons, makeDirs]
      split at h
      · next m t hdir =>
        rw [hdir]
        exact ih (hdone.concat ⟨m, t, hdir⟩) h (Nat.le_of_succ_le_succ hfuel)
      · cases h
      · next hnone =>
        rw [hnone]
        have hnew : Parents (create fs (clock (done ++ [n])) (done ++ [n])
            (.dir mode (clock (done ++ [n])))) (done ++ [n]) :=
          Parents.concat (fun a ha => (hdone a ha).create_free hnone) ⟨_, _, create_self⟩
        obtain ⟨hmade, hparents, hdirs⟩ := ih hnew h (Nat.le_of_succ_le_succ hfuel)
        exact ⟨hmade, hparents, fun q hq => hdirs q (hq.create_free hnone)⟩

theorem mkdirAll_concat {done todo : List Name} {n : Name}
    (h : Tar.mkdirAll clock mode fs done (todo ++ [n]) = .ok fs') :
    ∃ fs₁, Tar.mkdirAll clock mode fs done todo = .ok fs₁ ∧
    Tar.mkdirAll clock mode fs₁ (done ++ todo) [n] = .ok fs' := by
  induction todo generalizing fs done with
  | nil => exact ⟨fs, rfl, by rwa [append_nil]⟩
  | cons m todo ih =>
    rw [cons_append, Tar.mkdirAll] at h
    rw [Tar.mkdirAll]
    rw [append_cons done m todo]
    split at h
    · exact ih h
    · cases h
    · exact ih h

theorem mkdirAll_of_ok (hroot : DirAt fs []) (h : Tar.mkdirAll clock mode fs [] p = .ok fs')
    (hlimit : p.length ≤ limit) :
    mkdirAll limit clock mode fs p = .ok fs' ∧ Parents fs' p ∧ ∀ q, DirAt fs q → DirAt fs' q := by
  have hnil : Parents fs [] := fun a ha => by rwa [prefix_nil.mp ha]
  refine ⟨?_, (makeDirs_of_mkdirAll hnil h hlimit).2⟩
  rcases eq_nil_or_concat' p with rfl | ⟨dir, n, rfl⟩
  · cases h
    rfl
  · obtain ⟨fs₁, hdirs, hlast⟩ := mkdirAll_concat h
    rw [length_append, length_singleton] at hlimit
    obtain ⟨hmade, -, -⟩ := makeDirs_of_mkdirAll hnil hdirs (Nat.le_of_succ_le hlimit)
    simp only [mkdirAll, getLast?_concat, dropLast_concat, hmade, nil_append, makeLast] at hlast ⊢
    rw [Tar.mkdirAll] at hlast
    split at hlast
    · next hdir =>
      cases hlast
      rw [hdir]
    · cases hlast
    · next hnone =>
      cases hlast
      rw [hnone]

theorem createNew_of_ok {entry : List Name → Info} (hne : p ≠ []) (hparents : Parents fs p.dropLast)
    (h : Tar.createNew fs (clock p) p (entry p) = .ok fs') (hlimit : p.length ≤ limit) :
    createNew limit clock fs p entry = .ok fs' ∧ ∀ q, DirAt fs q → DirAt fs' q := by
  obtain ⟨dir, n, rfl⟩ := eq_nil_or_concat' p |>.resolve_left hne
  rw [dropLast_concat] at hparents
  rw [length_append, length_singleton] at hlimit
  unfold Tar.createNew at h
  split at h
  · cases h
  next hnone =>
  cases h
  refine ⟨?_, fun q hq => hq.create_free hnone⟩
  simp [createNew, openDir_of_parents hparents (Nat.le_of_succ_le hlimit), hnone, ok_bind]

/-- The directories to restore at the end are there. -/
structure Ready (limit : Nat) (x : Extraction) : Prop where
  root : DirAt x.fs []
  dirs : ∀ d ∈ x.dirs, Parents x.fs (elements d.name) ∧ (elements d.name).length ≤ limit

theorem Ready.keep (h : Ready limit x) (hfs : ∀ q, DirAt x.fs q → DirAt fs q) :
    Ready limit { x with fs := fs } where
  root := hfs _ h.root
  dirs d hd := ⟨fun a ha => hfs a ((h.dirs d hd).1 a ha), (h.dirs d hd).2⟩

theorem extractAs_of_ok {name : Bytes} (hplain : PlainPath (elements name))
    (hname : name = relPath (elements name)) (hlimit : (elements name).length ≤ limit)
    (hx : Ready limit x) (h : Tar.extractAs clock x name r = .ok x') :
    extractAs limit clock x name r = .ok x' ∧ Ready limit x' := by
  have hdir : elements (dirName name) = (elements name).dropLast := by
    obtain ⟨dir, n, hp⟩ := eq_nil_or_concat' (elements name) |>.resolve_left hplain.1
    conv_lhs => rw [hname]
    rw [hp, dropLast_concat]
    exact elements_dirName (hp ▸ hplain.2)
  have hshort : (elements name).dropLast.length ≤ limit := by
    rw [length_dropLast]
    omega
  -- a file and a link: the directories above it, and the entry
  have hleaf : ∀ (entry : List Name → Info) {fs₁ fs₂ : LocalTree},
      Tar.mkdirAll clock 0o755 x.fs [] (elements (dirName name)) = .ok fs₁ →
      Tar.createNew fs₁ (clock (elements name)) (elements name) (entry (elements name)) = .ok fs₂ →
      mkdirAll limit clock 0o755 x.fs (elements (dirName name)) = .ok fs₁ ∧
        createNew limit clock fs₁ (elements name) entry = .ok fs₂ ∧
        Ready limit { x with fs := fs₂ } := by
    intro entry fs₁ fs₂ hmk hnew
    rw [hdir] at hmk ⊢
    obtain ⟨hmade, hparents, hdirs⟩ := mkdirAll_of_ok hx.root hmk hshort
    obtain ⟨hcreated, hdirs'⟩ := createNew_of_ok hplain.1 hparents hnew hlimit
    exact ⟨hmade, hcreated, hx.keep fun q hq => hdirs' q (hdirs q hq)⟩
  unfold Tar.extractAs at h
  unfold extractAs
  cases htype : r.header.typeflag with
  | dir =>
    simp only [htype] at h ⊢
    obtain ⟨fs₁, hmk, h⟩ := bind_eq_ok h
    cases h
    obtain ⟨hmade, hparents, hdirs⟩ := mkdirAll_of_ok hx.root hmk hlimit
    refine ⟨by rw [hmade]; rfl, (hx.keep hdirs).root, fun d hd => ?_⟩
    rcases mem_append.mp hd with hd | hd
    · exact (hx.keep hdirs).dirs d hd
    · cases mem_singleton.mp hd
      exact ⟨hparents, hlimit⟩
  | reg =>
    simp only [htype] at h ⊢
    obtain ⟨fs₁, hmk, h⟩ := bind_eq_ok h
    obtain ⟨fs₂, hnew, h⟩ := bind_eq_ok h
    cases h
    obtain ⟨hmade, hcreated, hready⟩ := hleaf
      (fun q => .leaf (.file (perm r.header.mode) (restoredTime (clock q) r.header.modTime) r.body))
      hmk hnew
    exact ⟨by rw [hmade, ok_bind, hcreated]; rfl, hready⟩
  | symlink =>
    simp only [htype] at h ⊢
    obtain ⟨u, hvalid, h⟩ := bind_eq_ok h
    obtain ⟨fs₁, hmk, h⟩ := bind_eq_ok h
    obtain ⟨fs₂, hnew, h⟩ := bind_eq_ok h
    cases h
    obtain ⟨hmade, hcreated, hready⟩ :=
      hleaf (fun q => .leaf (.symlink (clock q) r.header.linkname)) hmk hnew
    exact ⟨by rw [hvalid, Except.mapError, ok_bind, hmade, ok_bind, hcreated]; rfl, hready⟩
  | other flag =>
    simp only [htype] at h
    cases h

theorem extract_of_ok (hlimit : (elements r.header.name).length ≤ limit) (hx : Ready limit x)
    (h : Tar.extract clock x r = .ok x') : extract limit clock x r = .ok x' ∧ Ready limit x' := by
  obtain ⟨name, hname, h⟩ := bind_eq_ok h
  obtain ⟨helems, hplain, hrel⟩ := cleanTarPath_plain hname
  split at h
  · cases h
  next hnew =>
  have hseen : Ready limit { x with seen := name :: x.seen } := ⟨hx.root, hx.dirs⟩
  obtain ⟨hextract, hready⟩ := extractAs_of_ok hplain hrel (helems ▸ hlimit) hseen h
  refine ⟨?_, hready⟩
  rw [extract, hname, Except.mapError, ok_bind, if_neg hnew]
  exact hextract

theorem extract_run_of_ok {rs : List Record}
    (hlimit : ∀ r ∈ rs, (elements r.header.name).length ≤ limit) (hx : Ready limit x)
    (h : rs.foldlM (Tar.extract clock) x = .ok x') :
    rs.foldlM (extract limit clock) x = .ok x' ∧ Ready limit x' := by
  induction rs generalizing x with
  | nil =>
    cases h
    exact ⟨rfl, hx⟩
  | cons r rs ih =>
    rw [foldlM_cons] at h ⊢
    obtain ⟨y, hy, h⟩ := bind_eq_ok h
    obtain ⟨hextract, hready⟩ := extract_of_ok (hlimit r mem_cons_self) hx hy
    rw [hextract, ok_bind]
    exact ih (fun s hs => hlimit s (mem_cons_of_mem _ hs)) hready h

theorem restoreDir_of_ok {d : RestoredDir} (hparents : Parents fs (elements d.name))
    (hlimit : (elements d.name).length ≤ limit) (h : Tar.restoreDir fs d = .ok fs') :
    restoreDir limit fs d = .ok fs' ∧ ∀ q, DirAt fs q → DirAt fs' q := by
  unfold Tar.restoreDir at h
  split at h
  · next m t hdir =>
    cases h
    refine ⟨by simp only [restoreDir, openDir_of_parents hparents hlimit, ok_bind, hdir], ?_⟩
    rintro q ⟨m', t', hq⟩
    by_cases hqd : q = elements d.name
    · subst hqd
      exact ⟨_, _, Function.update_self ..⟩
    · exact ⟨m', t', by rwa [Function.update_of_ne hqd]⟩
  · cases h

theorem restoreDirs_of_ok {ds : List RestoredDir}
    (hds : ∀ d ∈ ds, Parents fs (elements d.name) ∧ (elements d.name).length ≤ limit)
    (h : ds.foldlM Tar.restoreDir fs = .ok fs') : ds.foldlM (restoreDir limit) fs = .ok fs' := by
  induction ds generalizing fs with
  | nil =>
    cases h
    rfl
  | cons d ds ih =>
    rw [foldlM_cons] at h ⊢
    obtain ⟨fs₁, hfs₁, h⟩ := bind_eq_ok h
    obtain ⟨hd, hds⟩ := forall_mem_cons.mp hds
    obtain ⟨hrestored, hkeeps⟩ := restoreDir_of_ok hd.1 hd.2 hfs₁
    rw [hrestored, ok_bind]
    exact ih (fun e he => ⟨fun a ha => hkeeps a ((hds e he).1 a ha), (hds e he).2⟩) h

/-- **The two readers agree** on every archive that the reader without links restores. -/
theorem readTarGzip_of_ok {codec : TarGzip} {src : Bytes} {rs : List Record}
    (hdecode : codec.decode src = some rs)
    (hlimit : ∀ r ∈ rs, (elements r.header.name).length ≤ limit) (hroot : DirAt fs [])
    (h : Tar.readTarGzip codec clock src fs = .ok fs') :
    readTarGzip limit clock codec src fs = .ok fs' := by
  simp only [Tar.readTarGzip, readTarGzip, hdecode] at h ⊢
  obtain ⟨x, hx, h⟩ := bind_eq_ok h
  obtain ⟨hextracted, hready⟩ := extract_run_of_ok hlimit (x := ⟨fs, [], []⟩) ⟨hroot, by simp⟩ hx
  rw [hextracted, ok_bind]
  exact restoreDirs_of_ok (fun d hd => hready.dirs d (mem_reverse.mp hd)) h

end Agreement

end Root

/-! ## Tidy archives -/

/-- The links of an archive, with their targets. -/
def archiveLinks (rs : List Record) : List (List Name × Bytes) :=
  rs.filterMap fun r =>
    if r.header.typeflag = .symlink then some (elements r.header.name, r.header.linkname) else none

/-- No target climbs after it has named a link. -/
def Tidy (links : List (List Name × Bytes)) : Prop :=
  ∀ l ∈ links, tidy (links.map Prod.fst).contains l.1.dropLast (pathSteps l.2) = true

/-- No link is below an earlier one. -/
def Apart (links : List (List Name × Bytes)) : Prop :=
  (links.map Prod.fst).Pairwise fun p q => ¬p <+: q

instance (links : List (List Name × Bytes)) : Decidable (Tidy links) :=
  inferInstanceAs (Decidable (∀ l ∈ links, _))

instance (links : List (List Name × Bytes)) : Decidable (Apart links) :=
  inferInstanceAs (Decidable (Pairwise _ _))

def Passes (p : List Name) (target : Bytes) : Prop :=
  rooted target = false ∧ inside p.dropLast.length (pathSteps target) = true

/-- The links in the directory are among these, and have passed their checks. -/
def Among (links : List (List Name × Bytes)) (fs : LocalTree) : Prop :=
  ∀ p mtime target, fs p = some (.leaf (.symlink mtime target)) → (p, target) ∈ links ∧
    Passes p target

theorem link_of_view {target : Option (List (PathStep Name))}
    (h : view fs p = some (.link target)) :
    ∃ mtime text, fs p = some (.leaf (.symlink mtime text)) ∧ linkSteps text = target := by
  obtain ⟨info, hinfo, hkind⟩ := map_eq_some_iff.mp h
  cases info with
  | dir mode mtime => cases hkind
  | leaf l =>
    cases l with
    | file mode mtime data | special => cases hkind
    | symlink mtime text => exact ⟨mtime, text, hinfo, NodeKind.link.inj hkind⟩

theorem Among.confined {links : List (List Name × Bytes)} (h : Among links fs)
    (htidy : Tidy links) : Confined (view fs) := by
  refine confined_of_tidy (links.map Prod.fst).contains fun p target hp => ?_
  obtain ⟨mtime, text, hlink, rfl⟩ := link_of_view hp
  obtain ⟨hmem, hroot, hinside⟩ := h p mtime text hlink
  refine ⟨?_, _, by rw [linkSteps, hroot]; rfl, htidy _ hmem, hinside⟩
  exact contains_iff_mem.mpr (mem_map_of_mem hmem)

theorem among_empty (links : List (List Name × Bytes)) (mode : Nat) (mtime : Int) :
    Among links (emptyTree mode mtime) := by
  intro p m target hp
  unfold emptyTree at hp
  split at hp <;> cases hp

theorem confined_view_iff : Confined (view fs) ↔
    ∀ p mtime target, fs p = some (.leaf (.symlink mtime target)) →
      ∀ fuel, walk (view fs) fuel [] (descend p) ≠ .escaped := by
  rw [confined_iff]
  constructor
  · intro h p mtime target hp
    exact h p (linkSteps target) (by rw [view, hp]; rfl)
  · intro h p target hp
    obtain ⟨mtime, text, hlink, -⟩ := link_of_view hp
    exact h p mtime text hlink

namespace Root

variable {limit : Nat} {clock : List Name → Int} {x x' : Extraction} {r : Record}
  {fs fs' : LocalTree}
  {links : List (List Name × Bytes)}

theorem NoNewLink.among (hno : NoNewLink fs fs') (h : Among links fs) : Among links fs' :=
  fun p mtime target hlink => h p mtime target (hno p mtime target hlink)

theorem createNew_link {target : Bytes} (hfs : Among links fs) (hapart : ∀ l ∈ links, ¬l.1 <+: p)
    (h : createNew limit clock fs p (fun q => .leaf (.symlink (clock q) target)) = .ok fs')
    (hpasses : Passes p target) : Among (links ++ [(p, target)]) fs' := by
  obtain ⟨dir, n, hn, hdir, -, rfl⟩ := createNew_eq h
  have hp : p.dropLast ++ [n] = p := dropLast_append_getLast? n hn
  have hdirect : dir = p.dropLast := by
    refine openDir_direct (fun a b hab _ mtime target hlink => ?_) hdir
    refine hapart _ (hfs a mtime target hlink).1 ?_
    exact (prefix_append a b).trans (hab ▸ dropLast_prefix p)
  rw [hdirect, hp]
  intro q mtime text hq
  rcases create_link hq with ⟨rfl, hlink⟩ | hold
  · cases hlink
    exact ⟨by simp, hpasses⟩
  · obtain ⟨hmem, hrest⟩ := hfs q mtime text hold
    exact ⟨mem_append_left _ hmem, hrest⟩

theorem archiveLinks_append (rs rs' : List Record) :
    archiveLinks (rs ++ rs') = archiveLinks rs ++ archiveLinks rs' :=
  filterMap_append

variable {rs : List Record}

theorem extract_among (hfs : Among (archiveLinks rs) x.fs)
    (hapart : Apart (archiveLinks (rs ++ [r]))) (h : extract limit clock x r = .ok x') :
    Among (archiveLinks (rs ++ [r])) x'.fs := by
  obtain ⟨name, hname, h⟩ := bind_eq_ok h
  have hclean : cleanTarPath r.header.name = .ok name := by
    cases hc : cleanTarPath r.header.name with
    | error e => rw [hc] at hname; cases hname
    | ok m => rw [hc] at hname; cases hname; rfl
  obtain ⟨helems, hplain, hrel⟩ := cleanTarPath_plain hclean
  unfold Apart at hapart
  rw [archiveLinks_append] at hapart ⊢
  split at h
  · cases h
  · unfold extractAs at h
    simp only at h
    cases htype : r.header.typeflag with
    | dir =>
      simp only [htype] at h
      obtain ⟨fs, hmade, h⟩ := bind_eq_ok h
      cases h
      simpa [archiveLinks, htype] using (mkdirAll_links hmade).among hfs
    | reg =>
      simp only [htype] at h
      obtain ⟨fs, hmade, h⟩ := bind_eq_ok h
      obtain ⟨fs', hcreated, h⟩ := bind_eq_ok h
      cases h
      obtain ⟨dir, n, -, -, -, rfl⟩ := createNew_eq hcreated
      simpa [archiveLinks, htype]
        using NoNewLink.among (.create (by simp)) ((mkdirAll_links hmade).among hfs)
    | symlink =>
      simp only [htype] at h
      obtain ⟨u, hvalid, h⟩ := bind_eq_ok h
      obtain ⟨fs, hmade, h⟩ := bind_eq_ok h
      obtain ⟨fs', hcreated, h⟩ := bind_eq_ok h
      cases h
      have hok : validateTarSymlink name r.header.linkname = .ok () := by
        cases hv : validateTarSymlink name r.header.linkname with
        | error e => rw [hv] at hvalid; cases hvalid
        | ok u => rfl
      obtain ⟨htarget, hroot, hclimbs⟩ := validateTarSymlink_ok hok
      have hinside := inside_of_checked hplain htarget (hrel ▸ hclimbs)
      have hnew : archiveLinks [r] = [(elements name, r.header.linkname)] := by
        simp [archiveLinks, htype, helems]
      rw [hnew] at hapart ⊢
      rw [map_append, pairwise_append] at hapart
      refine createNew_link ((mkdirAll_links hmade).among hfs) ?_ hcreated ⟨hroot, hinside⟩
      exact fun l hl => hapart.2.2 l.1 (mem_map_of_mem hl) _ mem_cons_self
    | other flag =>
      simp only [htype] at h
      cases h

theorem extract_run_among (done : List Record) (hfs : Among (archiveLinks done) x.fs)
    (hapart : Apart (archiveLinks (done ++ rs))) (h : rs.foldlM (extract limit clock) x = .ok x') :
    Among (archiveLinks (done ++ rs)) x'.fs := by
  induction rs generalizing x done with
  | nil =>
    cases h
    rwa [append_nil]
  | cons r rs ih =>
    rw [foldlM_cons] at h
    obtain ⟨y, hy, h⟩ := bind_eq_ok h
    rw [append_cons] at hapart ⊢
    refine ih _ (extract_among hfs ?_ hy) hapart h
    rw [Apart, archiveLinks_append, map_append] at hapart
    exact (pairwise_append.mp hapart).1

theorem restoreDir_links {d : RestoredDir} (h : restoreDir limit fs d = .ok fs') :
    NoNewLink fs fs' := by
  obtain ⟨q, -, h⟩ := bind_eq_ok h
  split at h
  · cases h
    intro p mtime target hp
    by_cases hpq : p = q
    · subst hpq
      rw [Function.update_self] at hp
      cases hp
    · rwa [Function.update_of_ne hpq] at hp
  · cases h

theorem restoreDirs_links {ds : List RestoredDir}
    (h : ds.foldlM (restoreDir limit) fs = .ok fs') : NoNewLink fs fs' := by
  induction ds generalizing fs with
  | nil =>
    cases h
    exact .refl _
  | cons d ds ih =>
    rw [foldlM_cons] at h
    obtain ⟨fs₁, hfs₁, h⟩ := bind_eq_ok h
    exact (restoreDir_links hfs₁).trans (ih h)

/-- The links that an archive restores to are its own, at their names. -/
theorem read_among {codec : TarGzip} {src : Bytes} {mode : Nat} {mtime : Int}
    (hdecode : codec.decode src = some rs) (hapart : Apart (archiveLinks rs))
    (h : readTarGzip limit clock codec src (emptyTree mode mtime) = .ok fs) :
    Among (archiveLinks rs) fs := by
  unfold readTarGzip at h
  rw [hdecode] at h
  obtain ⟨x, hx, h⟩ := bind_eq_ok h
  exact (restoreDirs_links h).among (extract_run_among [] (among_empty _ mode mtime) hapart hx)

end Root

end Tar

end Hostel.Sync
