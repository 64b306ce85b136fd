/-
# Hostel.Store.Publish — stage-in on the file system.

`StageInBedFS` restores a snapshot into a sibling of the Bed directory and puts it in place with two
renames: the old directory goes to a reserved name, the restored tree takes its place, and if the
second rename fails the first one is undone.  The staging directory is removed on the way out, by
its path, which a successful publication has renamed away.

The directory that holds the Beds is a map from file names to trees, which a rename moves as a
whole.  Each system call fails or succeeds as the outside world decides, and succeeds only where it
can: a rename needs its source, and a target that is absent or an empty directory.
-/
import Hostel.Store.StageIn

namespace Hostel.Store

open Function Option

/-! ## Files beside each other -/

abbrev FileName := List Char

/-- What the names in one directory refer to. -/
abbrev Siblings (τ : Type) := FileName → Option τ

/-- How the system calls of one `StageInBedFS` end. -/
structure StageOutcomes (τ : Type) where
  /-- `Stat`: the generation of the snapshot. -/
  stat : Except Unit (Option Int)
  /-- `MkdirAll` of the Bed directory. -/
  makeDir : Bool
  /-- The random part of the staging directory's name. -/
  staging : Option FileName
  /-- The tree that `Restore` left behind, and whether it returned `nil`. -/
  restore : τ × Bool
  /-- `os.Stat` of the Bed directory tells whether it is there. -/
  inspect : Bool
  /-- The random part of the reserved name. -/
  reserve : Option FileName
  /-- `os.Remove` of the reservation. -/
  unreserve : Bool
  moveAside : Bool
  publish : Bool
  moveBack : Bool
  /-- What `RemoveAll` of the replaced directory left. -/
  removeOld : Option τ

inductive StageError
  | inspectSnapshot | createFresh | createStaging | restore | validate
  | reserve | unreserve | moveAside | inspectDir | publish
  deriving DecidableEq, Repr

/-- `.stage-in-<id>-`. -/
def stagePattern (id : FileName) : FileName :=
  ['.', 's', 't', 'a', 'g', 'e', '-', 'i', 'n', '-'] ++ id ++ ['-']

/-- `.replaced-bed-`. -/
def replacedPattern : FileName :=
  ['.', 'r', 'e', 'p', 'l', 'a', 'c', 'e', 'd', '-', 'b', 'e', 'd', '-']

variable {τ : Type} (empty : τ)

/-- `os.MkdirTemp`: a new name with this pattern. -/
def makeTemp (s : Siblings τ) (pattern : FileName) (random : Option FileName) :
    Option (FileName × Siblings τ) :=
  match random with
  | none => none
  | some x =>
    if (s (pattern ++ x)).isNone then some (pattern ++ x, update s (pattern ++ x) (some empty))
    else none

variable [DecidableEq τ]

def rename (ok : Bool) (source target : FileName) (s : Siblings τ) : Option (Siblings τ) :=
  if ok && (s source).isSome && (decide (s target = none) || decide (s target = some empty)) then
    some (update (update s target (s source)) source none)
  else none

/-! ## Stage-in -/

/-- The first half of `publishStagedBed`: what is at the path of the Bed, if anything, moves to a
reserved name. -/
def setAside (o : StageOutcomes τ) (bed : FileName) (s : Siblings τ) :
    Siblings τ × Except StageError (Option FileName) :=
  if o.inspect then
    match s bed with
    | none => (s, .ok none)
    | some _ =>
      match makeTemp empty s replacedPattern o.reserve with
      | none => (s, .error .reserve)
      | some (old, reserved) =>
        if o.unreserve then
          match rename empty o.moveAside bed old (update reserved old none) with
          | none => (update reserved old none, .error .moveAside)
          | some moved => (moved, .ok (some old))
        else (reserved, .error .unreserve)
  else (s, .error .inspectDir)

def publishStagedBed (o : StageOutcomes τ) (bed staging : FileName) (s : Siblings τ) :
    Siblings τ × Except StageError Unit :=
  match setAside empty o bed s with
  | (s', .error e) => (s', .error e)
  | (s', .ok old) =>
    match rename empty o.publish staging bed s' with
    | some published => (old.elim published fun n => update published n o.removeOld, .ok ())
    | none => (old.elim s' fun n => (rename empty o.moveBack n bed s').getD s', .error .publish)

/-- What `StageInBedFS` does with the staging directory: restore, validate and publish. -/
def restoreStaged (validate : τ → Bool) (o : StageOutcomes τ) (bed staging : FileName)
    (s : Siblings τ) : Siblings τ × Except StageError Unit :=
  let restored := update s staging (some o.restore.1)
  if o.restore.2 then
    if validate o.restore.1 then publishStagedBed empty o bed staging restored
    else (restored, .error .validate)
  else (restored, .error .restore)

/-- `StageInBedFS` of the Bed `id`, whose directory has the same name. -/
def stageInBedFS (id : FileName) (req : StageInRequest) (validate : τ → Bool) (o : StageOutcomes τ)
    (s : Siblings τ) : Siblings τ × Except StageError StageInResult :=
  match o.stat with
  | .error _ => (s, .error .inspectSnapshot)
  | .ok snapshot =>
    match selectSource req snapshot with
    | .luggage => (s, .ok { source := .luggage, snapshot, restored := false })
    | .fresh =>
      if o.makeDir then
        (update s id (some ((s id).getD empty)),
          .ok { source := .fresh, snapshot, restored := false })
      else (s, .error .createFresh)
    | .snapshot =>
      match makeTemp empty s (stagePattern id) o.staging with
      | none => (s, .error .createStaging)
      | some (staging, s) =>
        let r := restoreStaged empty validate o id staging s
        -- the deferred `RemoveAll`
        (update r.1 staging none,
          r.2.map fun _ => { source := .snapshot, snapshot, restored := true })

/-! ## What each part leaves -/

variable {empty} {o : StageOutcomes τ} {s s' : Siblings τ}
  {bed staging name source target : FileName}

omit [DecidableEq τ] in
theorem makeTemp_eq {pattern : FileName} {random : Option FileName} {r : FileName × Siblings τ}
    (h : makeTemp empty s pattern random = some r) :
    ∃ x, random = some x ∧ r.1 = pattern ++ x ∧ s r.1 = none ∧ r.2 = update s r.1 (some empty) := by
  unfold makeTemp at h
  split at h
  · cases h
  next x =>
  obtain ⟨hnone, h⟩ := ite_none_right_eq_some.mp h
  cases h
  exact ⟨x, rfl, rfl, isNone_iff_eq_none.mp hnone, rfl⟩

theorem rename_eq {ok : Bool} (h : rename empty ok source target s = some s') :
    s' = update (update s target (s source)) source none := by
  obtain ⟨-, h⟩ := ite_none_right_eq_some.mp h
  exact (some.inj h).symm

/-- The name the replaced directory gets, if one is reserved. -/
def StageOutcomes.replaced (o : StageOutcomes τ) : Option FileName :=
  o.reserve.map (replacedPattern ++ ·)

/-- After the first half the path of the Bed is free, and what was there is at the reserved name; or
it failed and the path is as it was. -/
structure SetAside (o : StageOutcomes τ) (bed : FileName) (s : Siblings τ)
    (r : Siblings τ × Except StageError (Option FileName)) : Prop where
  frame : ∀ n, n ≠ bed → some n ≠ o.replaced → r.1 n = s n
  /-- A name that is taken is not the reserved one. -/
  taken : ∀ n, n ≠ bed → s n ≠ none → r.1 n = s n
  failed : ∀ e, r.2 = .error e → r.1 bed = s bed
  free : ∀ old, r.2 = .ok old → r.1 bed = none
  aside : ∀ n, r.2 = .ok (some n) → n ≠ bed ∧ some n = o.replaced ∧ s n = none ∧ r.1 n = s bed
  nothing : r.2 = .ok none → s bed = none

omit [DecidableEq τ] in
theorem SetAside.of_error {e : StageError} (hframe : ∀ n, some n ≠ o.replaced → s' n = s n)
    (htaken : ∀ n, s n ≠ none → s' n = s n) (hbed : s' bed = s bed) :
    SetAside o bed s (s', .error e) where
  frame n _ hn := hframe n hn
  taken n _ hn := htaken n hn
  failed _ _ := hbed
  free _ h := nomatch h
  aside _ h := nomatch h
  nothing h := nomatch h

omit [DecidableEq τ] in
theorem SetAside.unchanged {e : StageError} : SetAside o bed s (s, .error e) :=
  .of_error (fun _ _ => rfl) (fun _ _ => rfl) rfl

omit [DecidableEq τ] in
theorem SetAside.moved {old : FileName} {T : τ} (hbed : s bed = some T) (hfresh : s old = none)
    (hreplaced : some old = o.replaced) :
    SetAside o bed s (update (update s old (s bed)) bed none, .ok (some old)) := by
  have hne : old ≠ bed := by
    rintro rfl
    rw [hbed] at hfresh
    cases hfresh
  have hothers : ∀ n, n ≠ bed → n ≠ old → update (update s old (s bed)) bed none n = s n := by
    intro n hnb hno
    rw [update_of_ne hnb, update_of_ne hno]
  constructor
  · exact fun n hnb hno => hothers n hnb fun h => hno (h ▸ hreplaced)
  · intro n hnb hsome
    refine hothers n hnb ?_
    rintro rfl
    exact hsome hfresh
  · exact fun _ h => nomatch h
  · exact fun _ _ => update_self ..
  · intro n hn
    cases hn
    refine ⟨hne, hreplaced, hfresh, ?_⟩
    exact (update_of_ne hne ..).trans (update_self ..)
  · exact fun h => nomatch h

theorem setAside_spec (empty : τ) (o : StageOutcomes τ) (bed : FileName) (s : Siblings τ) :
    SetAside o bed s (setAside empty o bed s) := by
  unfold setAside
  split
  · split
    · next hnone =>
      constructor
      · exact fun _ _ _ => rfl
      · exact fun _ _ _ => rfl
      · exact fun _ h => nomatch h
      · exact fun _ _ => hnone
      · exact fun _ h => nomatch h
      · exact fun _ => hnone
    · next T hT =>
      split
      · exact .unchanged
      · next old reserved htemp =>
        obtain ⟨x, hx, hname, hfresh, hreserved⟩ := makeTemp_eq htemp
        simp only at hname hfresh hreserved
        have hreplaced : some old = o.replaced := by
          rw [StageOutcomes.replaced, hx, hname, map_some]
        split
        · -- the reservation is released again
          have hback : update reserved old none = s := by
            rw [hreserved, update_idem, ← hfresh, update_eq_self]
          rw [hback]
          split
          · exact .unchanged
          · next moved hmoved =>
            rw [rename_eq hmoved]
            exact .moved hT hfresh hreplaced
        · have hothers : ∀ n, n ≠ old → reserved n = s n := fun n hno => by
            rw [hreserved, update_of_ne hno]
          have htaken : ∀ n, s n ≠ none → reserved n = s n := by
            intro n hsome
            refine hothers n ?_
            rintro rfl
            exact hsome hfresh
          exact .of_error (fun n hno => hothers n fun h => hno (h ▸ hreplaced)) htaken
            (htaken bed (by simp [hT]))
  · exact .unchanged

/-- **Publication is all or nothing**, if the system lets the rename be undone. -/
structure Published (o : StageOutcomes τ) (bed staging : FileName) (tree : τ) (s : Siblings τ)
    (r : Siblings τ × Except StageError Unit) : Prop where
  frame : ∀ n, n ≠ bed → n ≠ staging → some n ≠ o.replaced → r.1 n = s n
  failed : ∀ e, r.2 = .error e → o.moveBack = true → r.1 bed = s bed
  done : r.2 = .ok () → r.1 bed = some tree

theorem Published.undone {tree : τ} {old : Option FileName}
    (spec : SetAside o bed s (s', .ok old)) : Published o bed staging tree s
      (old.elim s' fun n => (rename empty o.moveBack n bed s').getD s', .error .publish) := by
  have hfree : s' bed = none := spec.free old rfl
  cases old with
  | none =>
    refine ⟨fun n hb _ hr => spec.frame n hb hr, fun _ _ _ => ?_, (fun h => nomatch h)⟩
    exact hfree.trans (spec.nothing rfl).symm
  | some old =>
    obtain ⟨hold, hreplaced, -, haside⟩ := spec.aside old rfl
    simp only [elim_some]
    cases hback : rename empty o.moveBack old bed s' with
    | none =>
      refine ⟨fun n hb _ hr => spec.frame n hb hr, fun _ _ hmove => ?_, (fun h => nomatch h)⟩
      -- there is a directory to move back, and a free path
      cases hsome : s bed with
      | none => exact hfree
      | some T =>
        simp [rename, hmove, hfree] at hback
        cases hback.symm.trans (haside.trans hsome)
    | some back =>
      rw [rename_eq hback]
      refine ⟨fun n hb _ hr => ?_, fun _ _ _ => ?_, (fun h => nomatch h)⟩
      · have hno : n ≠ old := fun h => hr (h ▸ hreplaced)
        refine (update_of_ne hno ..).trans ((update_of_ne hb ..).trans ?_)
        exact spec.frame n hb hr
      · exact (update_of_ne hold.symm ..).trans ((update_self ..).trans haside)

theorem publishStagedBed_spec (empty : τ) {tree : τ} (hne : staging ≠ bed)
    (hstaging : s staging = some tree) :
    Published o bed staging tree s (publishStagedBed empty o bed staging s) := by
  have spec := setAside_spec empty o bed s
  have hkept : (setAside empty o bed s).1 staging = some tree := by
    rw [spec.taken staging hne (by simp [hstaging]), hstaging]
  unfold publishStagedBed
  split
  · next s' e hs =>
    rw [hs] at spec
    exact ⟨fun n hb _ hr => spec.frame n hb hr, fun _ _ _ => spec.failed e rfl,
      (fun h => nomatch h)⟩
  · next s' old hs =>
    rw [hs] at spec hkept
    split
    · next published hpublished =>
      have heq := rename_eq hpublished
      have hbed : published bed = some tree := by
        rw [heq, update_of_ne hne.symm, update_self]
        exact hkept
      have hothers : ∀ n, n ≠ bed → n ≠ staging → published n = s' n := by
        intro n hb hstg
        rw [heq, update_of_ne hstg, update_of_ne hb]
      cases old with
      | none =>
        exact ⟨fun n hb hstg hr => (hothers n hb hstg).trans (spec.frame n hb hr),
          (fun _ h => nomatch h), fun _ => hbed⟩
      | some old =>
        obtain ⟨hold, hreplaced, -⟩ := spec.aside old rfl
        refine ⟨fun n hb hstg hr => ?_, (fun _ h => nomatch h), fun _ => ?_⟩
        · have hno : n ≠ old := fun h => hr (h ▸ hreplaced)
          exact (update_of_ne hno ..).trans ((hothers n hb hstg).trans (spec.frame n hb hr))
        · exact (update_of_ne hold.symm ..).trans hbed
    · exact .undone spec

theorem restoreStaged_spec (empty : τ) (validate : τ → Bool) (hne : staging ≠ bed) :
    Published o bed staging o.restore.1 s (restoreStaged empty validate o bed staging s) ∧
      ((restoreStaged empty validate o bed staging s).2 = .ok () →
        o.restore.2 = true ∧ validate o.restore.1 = true) := by
  have hothers : ∀ n, n ≠ staging → update s staging (some o.restore.1) n = s n := fun n hn =>
    update_of_ne hn ..
  have hfail :
      ∀ e, Published o bed staging o.restore.1 s (update s staging (some o.restore.1), .error e) :=
    fun e => ⟨fun n _ hn _ => hothers n hn, fun _ _ _ => hothers bed hne.symm, fun h => nomatch h⟩
  unfold restoreStaged
  simp only
  split
  · next hok =>
    split
    · next hvalid =>
      have spec : Published o bed staging o.restore.1 (update s staging (some o.restore.1)) _ :=
        publishStagedBed_spec empty hne (update_self ..)
      refine ⟨⟨fun n hb hn hr => (spec.frame n hb hn hr).trans (hothers n hn),
        fun e he hback => ?_, spec.done⟩, fun _ => ⟨hok, hvalid⟩⟩
      exact (spec.failed e he hback).trans (hothers bed hne.symm)
    · exact ⟨hfail _, fun h => nomatch h⟩
  · exact ⟨hfail _, fun h => nomatch h⟩

/-! ## The whole of stage-in -/

theorem stagePattern_ne (id x : FileName) : stagePattern id ++ x ≠ id := by
  intro h
  have hlength := congrArg List.length h
  simp [stagePattern] at hlength
  omega

omit [DecidableEq τ] in
theorem stagePattern_ne_replaced {id x : FileName} : some (stagePattern id ++ x) ≠ o.replaced := by
  intro h
  obtain ⟨y, -, hy⟩ := map_eq_some_iff.mp h.symm
  simp [replacedPattern, stagePattern] at hy

theorem selectSource_snapshot {req : StageInRequest} {snapshot : Option Int} :
    selectSource req snapshot = .snapshot ↔
      ∃ g, snapshot = some g ∧ (req.localPresent = false ∨ req.localGeneration < g) := by
  unfold selectSource
  split
  · split <;> simp
  · next g =>
    split
    · next h => simp_all
    · next h =>
      simp only [some.injEq, exists_eq_left', true_iff]
      cases hp : req.localPresent with
      | false => exact .inl rfl
      | true => simpa [hp] using h

variable {id : FileName} {req : StageInRequest} {validate : τ → Bool}

/-- What a success leaves of each source. -/
def Chosen (empty : τ) (id : FileName) (validate : τ → Bool) (o : StageOutcomes τ)
    (s s' : Siblings τ) : StageInSource → Prop
  | .luggage => s' = s
  | .fresh => s' = update s id (some ((s id).getD empty))
  | .snapshot => s' id = some o.restore.1 ∧ o.restore.2 = true ∧ validate o.restore.1 = true

structure Staged (empty : τ) (id : FileName) (req : StageInRequest) (validate : τ → Bool)
    (o : StageOutcomes τ) (s : Siblings τ) (r : Siblings τ × Except StageError StageInResult) :
    Prop where
  frame : ∀ n, n ≠ id → some n ≠ o.replaced → r.1 n = s n
  failed : ∀ e, r.2 = .error e → o.moveBack = true → r.1 id = s id
  done : ∀ result, r.2 = .ok result → o.stat = .ok result.snapshot ∧
    result.source = selectSource req result.snapshot ∧
    (result.restored = true ↔ result.source = .snapshot) ∧
    Chosen empty id validate o s r.1 result.source

omit [DecidableEq τ] in
theorem Staged.unchanged {e : StageError} : Staged empty id req validate o s (s, .error e) :=
  ⟨fun _ _ _ => rfl, fun _ _ _ => rfl, fun _ h => nomatch h⟩

omit [DecidableEq τ] in
/-- The deferred `RemoveAll` finds the staging directory, or nothing at its path. -/
theorem Staged.restored {snapshot : Option Int} {r : Siblings τ × Except StageError Unit}
    (hstat : o.stat = .ok snapshot) (hselect : selectSource req snapshot = .snapshot)
    (hne : staging ≠ id) (hfresh : s staging = none) (hr : Published o id staging o.restore.1 s r)
    (hok : r.2 = .ok () → o.restore.2 = true ∧ validate o.restore.1 = true) :
    Staged empty id req validate o s (update r.1 staging none,
      r.2.map fun _ => { source := .snapshot, snapshot, restored := true }) := by
  have hid : update r.1 staging none id = r.1 id := update_of_ne hne.symm ..
  constructor
  · intro n hn hreplaced
    by_cases hstaging : n = staging
    · subst hstaging
      exact (update_self ..).trans hfresh.symm
    · exact (update_of_ne hstaging ..).trans (hr.frame n hn hstaging hreplaced)
  · intro e he hback
    cases hr2 : r.2 with
    | error e' => exact hid.trans (hr.failed e' hr2 hback)
    | ok u =>
      rw [hr2] at he
      cases he
  · intro result hresult
    cases hr2 : r.2 with
    | error e =>
      rw [hr2] at hresult
      cases hresult
    | ok u =>
      rw [hr2] at hresult
      cases hresult
      exact ⟨hstat, hselect.symm, by simp, hid.trans (hr.done hr2), hok hr2⟩

theorem stageInBedFS_spec (empty : τ) (id : FileName) (req : StageInRequest) (validate : τ → Bool)
    (o : StageOutcomes τ) (s : Siblings τ) :
    Staged empty id req validate o s (stageInBedFS empty id req validate o s) := by
  unfold stageInBedFS
  split
  · exact .unchanged
  · next snapshot hstat =>
    split
    · next hselect =>
      refine ⟨fun _ _ _ => rfl, (fun _ h => nomatch h), fun r hr => ?_⟩
      cases hr
      exact ⟨hstat, hselect.symm, by simp, rfl⟩
    · next hselect =>
      split
      · refine ⟨fun n hn _ => update_of_ne hn .., (fun _ h => nomatch h), fun r hr => ?_⟩
        cases hr
        exact ⟨hstat, hselect.symm, by simp, rfl⟩
      · exact .unchanged
    · next hselect =>
      split
      · exact .unchanged
      · next staging s' htemp =>
        obtain ⟨x, -, hname, hfresh, hs'⟩ := makeTemp_eq htemp
        simp only at hname hfresh hs'
        have hne : staging ≠ id := hname ▸ stagePattern_ne id x
        obtain ⟨spec, hok⟩ := restoreStaged_spec empty validate (o := o) (s := s') hne
        -- so far only the staging directory is new
        have hothers : ∀ n, n ≠ staging → s' n = s n := fun n hn => by rw [hs', update_of_ne hn]
        refine .restored hstat hselect hne hfresh ⟨fun n hid hn hr => ?_, fun e he hback => ?_,
          spec.done⟩ hok
        · exact (spec.frame n hid hn hr).trans (hothers n hn)
        · exact (spec.failed e he hback).trans (hothers id hne.symm)

/-- **Stage-in, whatever the system calls do.** A failure leaves the path of the Bed as it was, if
the rename back works.  A success leaves there what the selected source is: the local copy
untouched, the restored tree after it passed validation, or, with neither, the directory that was
there or a new one.  No staging directory is left, and a snapshot is selected if there is one and
the local copy is absent or older. -/
theorem stageIn_all_or_nothing (empty : τ) (id : FileName) (req : StageInRequest)
    (validate : τ → Bool) (o : StageOutcomes τ) (s : Siblings τ) :
    (∀ e, (stageInBedFS empty id req validate o s).2 = .error e → o.moveBack = true →
      (stageInBedFS empty id req validate o s).1 id = s id) ∧
    (∀ r, (stageInBedFS empty id req validate o s).2 = .ok r →
      o.stat = .ok r.snapshot ∧ r.source = selectSource req r.snapshot ∧
      (r.restored = true ↔ r.source = .snapshot) ∧
      match r.source with
      | .luggage => (stageInBedFS empty id req validate o s).1 = s
      | .fresh =>
        (stageInBedFS empty id req validate o s).1 = update s id (some ((s id).getD empty))
      | .snapshot => (stageInBedFS empty id req validate o s).1 id = some o.restore.1 ∧
        o.restore.2 = true ∧
          validate o.restore.1 = true) ∧
    (∀ n, n ≠ id → some n ≠ o.replaced → (stageInBedFS empty id req validate o s).1 n = s n) ∧
    (∀ x, (stageInBedFS empty id req validate o s).1 (stagePattern id ++ x) =
      s (stagePattern id ++ x)) ∧
    (∀ snapshot, selectSource req snapshot = .snapshot ↔
      ∃ g, snapshot = some g ∧ (req.localPresent = false ∨ req.localGeneration < g)) := by
  have spec := stageInBedFS_spec empty id req validate o s
  refine ⟨spec.failed, fun r hr => ?_, spec.frame, fun x => ?_, fun _ => selectSource_snapshot⟩
  · obtain ⟨hstat, hsource, hrestored, hchosen⟩ := spec.done r hr
    exact ⟨hstat, hsource, hrestored,
      by cases hs : r.source <;> rw [hs] at hchosen <;> exact hchosen⟩
  · exact spec.frame _ (stagePattern_ne id x) stagePattern_ne_replaced

/-- System calls that all succeed, and a snapshot of this generation with this tree. -/
def succeeding (snapshot : Option Int) (tree : Dir) : StageOutcomes Dir where
  stat := .ok snapshot
  makeDir := true
  staging := some ['1']
  restore := (tree, true)
  inspect := true
  reserve := some ['2']
  unreserve := true
  moveAside := true
  publish := true
  moveBack := true
  removeOld := none

/-- The directory of the Bed `b`, without metadata and with one write in it. -/
def unlabelled : Siblings Dir := update (fun _ => none) ['b'] (some { info := none, data := [1] })

/-- A newer snapshot takes the place of a local copy. -/
theorem stageIn_all_or_nothing_restored :
    let o := succeeding (some 3) { info := none, data := [2] }
    let r := stageInBedFS { info := none, data := [] } ['b'] (.of none) (fun _ => true) o unlabelled
    r.2 = .ok { source := .snapshot, snapshot := some 3, restored := true } ∧
      r.1 ['b'] = some { info := none, data := [2] } ∧
      r.1 (stagePattern ['b'] ++ ['1']) = none := by
  intro o r
  have hspec :=
    stageIn_all_or_nothing { info := none, data := [] } ['b'] (.of none)
    (fun _ => true) o unlabelled
  have hok : r.2 = .ok { source := .snapshot, snapshot := some 3, restored := true } := by decide
  exact ⟨hok, (hspec.2.1 _ hok).2.2.2.1, (hspec.2.2.2.1 ['1']).trans (by decide)⟩

/-- Without a snapshot, a directory whose metadata cannot be read counts as absent, and the fresh
directory that stage-in reports is the old one with everything in it. -/
theorem fresh_keeps_contents :
    let r := stageInBedFS { info := none, data := [] } ['b'] (.of none) (fun _ => true)
      (succeeding none { info := none, data := [] }) unlabelled
    r.2 = .ok { source := .fresh, snapshot := none, restored := false } ∧
      r.1 ['b'] = some { info := none, data := [1] } := by
  decide

end Hostel.Store
