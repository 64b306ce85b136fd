/-
# Hostel.Filesystem.MountEntries — the directory entries of mount targets.

`Remove`, `Rename` and `RemoveDir` refuse a client path that is a mount target or above one.  The
guard compares the cleaned text of the path, while the operation follows its links: a path through a
symlinked directory is another text for the same entry.

A call that succeeds in the Bed's own root takes away exactly the entries at the places its paths
name (`named`), so it spares those of the mount targets if and only if no such place is at or above
one (`Clear`).
-/
import Hostel.Filesystem.ReadOnly

namespace Hostel.Filesystem

open Hostel.Logic Hostel.Sync Hostel.Sync.Tar List Bool

/-! ## Entries that stay -/

namespace Env

/-- An entry without the time of a directory, which changes with its entries. -/
def settled : Info → Info
  | .dir mode _ => .dir mode 0
  | .leaf l => .leaf l

def Kept (fs fs' : LocalTree) (q : List Name) : Prop := (fs' q).map settled = (fs q).map settled

variable {q : List Name}

theorem Kept.trans {fs fs' fs'' : LocalTree} (h : Kept fs fs' q) (h' : Kept fs' fs'' q) :
    Kept fs fs'' q := Eq.trans h' h

theorem Kept.isSome {fs fs' : LocalTree} (h : Kept fs fs' q) (hq : (fs q).isSome = true) :
    (fs' q).isSome = true := by
  have hmap := congrArg Option.isSome h
  rw [Option.isSome_map, Option.isSome_map] at hmap
  rw [hmap]
  exact hq

theorem kept_create {fs : LocalTree} {now : Int} {p : List Name} {i : Info} (hq : q ≠ p) :
    Kept fs (create fs now p i) q := by
  unfold Kept create
  rw [if_neg hq]
  split
  · split
    · next h => rw [h]; rfl
    · rfl
  · rfl

theorem kept_modified (env : Env) (fs : LocalTree) (dir q : List Name) :
    Kept fs (modified env fs dir) q := by
  unfold Kept modified
  split
  · split
    · next h => rw [h]; rfl
    · rfl
  · rfl

theorem makeDirs_keeps (clock : List Name → Int) (mode fuel : Nat) (fs : LocalTree)
    (cwd : List Name) (steps : List (PathStep Name)) (hq : (fs q).isSome = true) :
    Kept fs (Root.makeDirs clock mode fuel fs cwd steps).1 q := by
  induction fuel generalizing fs cwd steps with
  | zero => cases steps <;> exact rfl
  | succ fuel ih =>
    cases steps with
    | nil => exact rfl
    | cons x rest =>
      cases x with
      | up =>
        rw [Root.makeDirs]
        split
        · exact rfl
        · exact ih _ _ _ hq
      | down n =>
        rw [Root.makeDirs]
        split
        · next hnone =>
          have hne : q ≠ cwd ++ [n] := by
            rintro rfl
            rw [hnone] at hq
            cases hq
          have hcreate : Kept fs (create fs (clock (cwd ++ [n])) (cwd ++ [n])
              (.dir mode (clock (cwd ++ [n])))) q := kept_create hne
          exact hcreate.trans (ih _ _ _ (hcreate.isSome hq))
        · exact ih _ _ _ hq
        · split
          · exact rfl
          · exact ih _ _ _ hq
        · exact rfl

theorem makeLast_keeps {limit mode : Nat} {clock : List Name → Int} {fs fs' : LocalTree}
    {dir : List Name} {n : Name} (hq : (fs q).isSome = true)
    (h : Root.makeLast limit clock mode fs dir n = .ok fs') : Kept fs fs' q := by
  unfold Root.makeLast at h
  split at h
  · next hnone =>
    cases h
    refine kept_create ?_
    rintro rfl
    rw [hnone] at hq
    cases hq
  · cases h
    exact rfl
  · split at h
    · split at h
      · cases h
        exact rfl
      · cases h
    · cases h
  · cases h

variable {env : Env}

def final {α : Type} : DiskResult α → Disk
  | .ok _ d => d
  | .error _ d => d

/-- Nothing is taken away, and everything that was there stays. -/
structure Quiet (d d' : Disk) : Prop where
  unlinked : d'.unlinked = d.unlinked
  kept : ∀ q, (d.tree q).isSome = true → Kept d.tree d'.tree q

theorem Quiet.refl (d : Disk) : Quiet d d := ⟨rfl, fun _ _ => rfl⟩

theorem mkdirAll_quiet (p : List Name) (d : Disk) : Quiet d (final (env.mkdirAll p d)) := by
  unfold mkdirAll
  split
  · exact .refl d
  · split
    · next fs e hdirs =>
      refine ⟨rfl, fun q hq => ?_⟩
      have := makeDirs_keeps env.clock 0o755 env.limit d.tree [] (descend p.dropLast) hq
      rwa [hdirs] at this
    · next fs dir hdirs =>
      have hmade : ∀ q, (d.tree q).isSome = true → Kept d.tree fs q := by
        intro q hq
        have := makeDirs_keeps env.clock 0o755 env.limit d.tree [] (descend p.dropLast) hq
        rwa [hdirs] at this
      split
      · next fs' hlast =>
        exact ⟨rfl, fun q hq => (hmade q hq).trans (makeLast_keeps ((hmade q hq).isSome hq) hlast)⟩
      · exact ⟨rfl, hmade⟩

theorem mkdirParent_quiet (env : Env) (p : List Name) (d : Disk) :
    Quiet d (final (env.mkdirParent p d)) := by
  unfold mkdirParent
  cases p.getLast? with
  | none => exact .refl d
  | some n => exact mkdirAll_quiet _ d

/-! ## Places -/

/-- Everything on the way to `q` is there. -/
def Reached (fs : LocalTree) (q : List Name) : Prop := ∀ a, a <+: q → a ≠ [] → (fs a).isSome = true

theorem place_reached {fs : LocalTree} {p : List Name} (h : env.place fs p = .ok q)
    (hq : (fs q).isSome = true) : Reached fs q := by
  unfold place at h
  split at h
  · cases h
    intro a ha hne
    exact absurd (prefix_nil.mp ha) hne
  · next n hn =>
    cases hopen : Root.openDir env.limit fs p.dropLast with
    | error e =>
      rw [hopen] at h
      cases h
    | ok dir =>
      rw [hopen] at h
      cases h
      have hdir : ∀ a, a <+: dir → a ≠ [] → (fs a).isSome = true := by
        unfold Root.openDir at hopen
        split at hopen
        · next place hwalk =>
          have hplace : place = dir := by
            split at hopen
            · cases hopen
              rfl
            · cases hopen
          subst hplace
          intro a ha hne
          have hroot : ∀ b, b <+: ([] : List Name) → b ≠ [] → (view fs b).isSome = true :=
            fun b hb hb' =>
            absurd (prefix_nil.mp hb) hb'
          simpa [view] using walk_arrived hroot hwalk a ha hne
        · cases hopen
        · cases hopen
        · cases hopen
        · cases hopen
      intro a ha hne
      rcases prefix_concat_iff.mp ha with rfl | ha
      · exact hq
      · exact hdir a ha hne

end Env

/-! ## Calls that take entries away -/

namespace FS

inductive Removal
  | remove (p : Bytes)
  | rename (src dest : Bytes)
  | removeDir (p : Bytes)
  deriving DecidableEq, Repr

def Removal.op : Removal → FileOp
  | .remove p => .remove p
  | .rename src dest => .rename src dest
  | .removeDir p => .removeDir p

variable (fs : FS) (env : Env)

/-- The call below the root that clients see at `root`. -/
def removalIn (root : Bytes) : Removal → DiskM Unit
  | .remove p => fs.removeIn env root p
  | .rename src dest => fs.renameIn env root src dest
  | .removeDir p => fs.removeDirIn env root p

/-- The places of the entries that one path names: links on the way are followed. -/
def namedBy (root p : Bytes) (tree : LocalTree) : List (List Name) :=
  match fromClient fs.workdir root p with
  | .error _ => []
  | .ok es =>
    match env.lstat tree es with
    | .error _ => []
    | .ok (q, _) => [q]

/-- The places of the entries that the paths of a call name. -/
def named (root : Bytes) (tree : LocalTree) : Removal → List (List Name)
  | .remove p | .removeDir p => fs.namedBy env root p tree
  | .rename src dest =>
    match fromClient fs.workdir root src, fromClient fs.workdir root dest with
    | .ok s, .ok t =>
      -- the directories of the destination are made first
      let made := (Env.final (env.mkdirParent t ⟨tree, []⟩)).tree
      match env.lstat made s, env.place made t with
      -- an entry that is renamed to itself is left alone
      | .ok (q, _), .ok r => if q = r then [] else q :: if (made r).isSome then [r] else []
      | _, _ => []
    | _, _ => []

/-- What a call can do below a root: fail with nothing taken away, or take away what its paths
name. -/
inductive Takes (fs : FS) (env : Env) (root : Bytes) (r : Removal) (tree : LocalTree) :
    DiskResult Unit → Prop
  | failed (e : FsError) (d : Disk) (h : Env.Quiet ⟨tree, []⟩ d) :
    Takes fs env root r tree (.error e d)
  | done (d : Disk) (hunlinked : d.unlinked = fs.named env root tree r)
      (hkept : ∀ q, Env.Reached tree q → q ≠ [] → (∀ u ∈ fs.named env root tree r, ¬u <+: q) →
      Env.Kept tree d.tree q) :
      Takes fs env root r tree (.ok () d)

variable {fs env} {root p : Bytes} {tree : LocalTree}

theorem resolve_error {α : Type} {e : PathError} (h : fromClient fs.workdir root p = .error e)
    (k : List Name → DiskM α) (d : Disk) : (fs.resolve root p >>= k) d = .error (.path e) d := by
  rw [resolve, h]
  rfl

theorem resolve_ok {α : Type} {es : List Name} (h : fromClient fs.workdir root p = .ok es)
    (k : List Name → DiskM α) (d : Disk) : (fs.resolve root p >>= k) d = k es d := by
  rw [resolve, h]
  rfl

/-- A call whose path names at most one entry, by what it does to an entry that is there. -/
theorem takes_entry {r : Removal} {k : List Name → DiskM Unit}
    (hnamed : fs.named env root tree r = fs.namedBy env root p tree)
    (hmissing : ∀ {es e}, env.lstat tree es = .error e → k es ⟨tree, []⟩ =
      match e with
      | .notExist _ => .ok () ⟨tree, []⟩
      | e => .error (.root e) ⟨tree, []⟩)
    (hfound : ∀ {es q i}, env.lstat tree es = .ok (q, i) → fs.named env root tree r = [q] →
      Takes fs env root r tree (k es ⟨tree, []⟩)) :
    Takes fs env root r tree ((fs.resolve root p >>= k) ⟨tree, []⟩) := by
  rw [namedBy] at hnamed
  cases hfrom : fromClient fs.workdir root p with
  | error e =>
    rw [resolve_error hfrom]
    exact .failed _ _ (.refl _)
  | ok es =>
    rw [resolve_ok hfrom]
    cases hl : env.lstat tree es with
    | error e =>
      simp only [hfrom, hl] at hnamed
      rw [hmissing hl]
      cases e with
      | notExist q => exact .done _ hnamed.symm (fun _ _ _ _ => rfl)
      | tar e | pathEscapes | tooManyLinks => exact .failed _ _ (.refl _)
    | ok qi =>
      simp only [hfrom, hl] at hnamed
      exact hfound hl hnamed

theorem removeIn_takes :
    Takes fs env root (.remove p) tree (fs.removeIn env root p ⟨tree, []⟩) := by
  refine takes_entry rfl (fun {es e} hl => ?_) fun {es q i} hl hnamed => ?_
  · simp only [hl]
    cases e <;> rfl
  · cases i with
    | dir mode mtime =>
      simp only [hl]
      exact .failed _ _ (.refl _)
    | leaf l =>
      simp only [Env.unlink, hl]
      refine .done _ hnamed.symm fun r _ _ hnot => ?_
      have hne : r ≠ q := by
        rintro rfl
        exact hnot r (by simp [hnamed]) (prefix_refl r)
      change (Function.update (env.modified tree q.dropLast) q none r).map Env.settled = _
      rw [Function.update_of_ne hne]
      exact Env.kept_modified env tree q.dropLast r

theorem isPrefixOf_eq_false {r : List Name} (h : ¬q <+: r) : q.isPrefixOf r = false := by
  simpa [← List.isPrefixOf_iff_prefix] using h

theorem removeDirIn_takes :
    Takes fs env root (.removeDir p) tree (fs.removeDirIn env root p ⟨tree, []⟩) := by
  refine takes_entry rfl (fun {es e} hl => ?_) fun {es q i} hl hnamed => ?_
  · simp only [hl]
    cases e <;> rfl
  · cases i with
    | leaf l =>
      simp only [hl]
      exact .failed _ _ (.refl _)
    | dir mode mtime =>
      simp only [Env.removeAll, hl]
      split
      · exact .failed _ _ (.refl _)
      · refine .done _ hnamed.symm fun r _ _ hnot => ?_
        unfold Env.Kept
        simp only [isPrefixOf_eq_false (hnot q (by simp [hnamed])), false_eq_true, if_false]
        exact Env.kept_modified env tree q.dropLast r

theorem kept_moved {s t r : List Name} (hs : ¬s <+: r) (ht : ¬t <+: r) :
    Env.Kept tree (env.moved tree s t) r := by
  unfold Env.moved Env.Kept
  simp only [isPrefixOf_eq_false hs, isPrefixOf_eq_false ht, false_eq_true, if_false]
  exact (Env.kept_modified env tree s.dropLast r).trans (Env.kept_modified env _ t.dropLast r)

theorem renameCheck_ne_nil {s t : List Name} {i : Info} {u : Unit}
    (h : env.renameCheck tree s t i = .ok u) : t ≠ [] := by
  rintro rfl
  unfold Env.renameCheck at h
  simp only [isEmpty_nil, Bool.or_true, if_true] at h
  cases h

theorem renameIn_takes {src dest : Bytes} :
    Takes fs env root (.rename src dest) tree (fs.renameIn env root src dest ⟨tree, []⟩) := by
  cases hsrc : fromClient fs.workdir root src with
  | error e =>
    rw [renameIn, resolve_error hsrc]
    exact .failed _ _ (.refl _)
  | ok s =>
    rw [renameIn, resolve_ok hsrc]
    cases hdest : fromClient fs.workdir root dest with
    | error e =>
      rw [resolve_error hdest]
      exact .failed _ _ (.refl _)
    | ok t =>
      rw [resolve_ok hdest]
      have hquiet := Env.mkdirParent_quiet env t ⟨tree, []⟩
      change Takes _ _ _ _ _ (DiskM.bind (env.mkdirParent t) (fun _ => env.rename s t) ⟨tree, []⟩)
      unfold DiskM.bind
      cases hmade : env.mkdirParent t ⟨tree, []⟩ with
      | error e d =>
        rw [hmade] at hquiet
        exact .failed e d hquiet
      | ok u made =>
        rw [hmade] at hquiet
        change Env.Quiet ⟨tree, []⟩ made at hquiet
        have hnamed : fs.named env root tree (.rename src dest) =
            match env.lstat made.tree s, env.place made.tree t with
            | .ok (q, _), .ok r =>
              if q = r then [] else q :: if (made.tree r).isSome then [r] else []
            | _, _ => [] := by
          simp only [named, hsrc, hdest, hmade, Env.final]
        simp only [Env.rename]
        cases hl : env.lstat made.tree s with
        | error e => exact .failed _ _ hquiet
        | ok qi =>
          obtain ⟨q, i⟩ := qi
          cases hp : env.place made.tree t with
          | error e => exact .failed _ _ hquiet
          | ok r =>
            rw [hl, hp] at hnamed
            simp only at hnamed ⊢
            split
            · next hqr =>
              rw [if_pos hqr] at hnamed
              exact .done _ (hquiet.unlinked.trans hnamed.symm) fun x hx hne _ =>
                hquiet.kept x (hx x (prefix_refl x) hne)
            · next hqr =>
              rw [if_neg hqr] at hnamed
              split
              · exact .failed _ _ hquiet
              · next hcheck =>
                refine .done _ ?_ fun x hx hne hnot => ?_
                · change q :: (if (made.tree r).isSome = true then [r] else []) ++ made.unlinked = _
                  rw [hnamed, hquiet.unlinked, append_nil]
                · rw [hnamed] at hnot
                  have hthere := hquiet.kept x (hx x (prefix_refl x) hne)
                  -- what is above an entry is there, so that a destination above it is replaced
                  refine hthere.trans (kept_moved (hnot q mem_cons_self) fun hr => ?_)
                  have hold := hx r hr (renameCheck_ne_nil hcheck)
                  have hnew := (hquiet.kept r hold).isSome hold
                  exact hnot r (by rw [if_pos hnew]; simp) hr

theorem removalIn_takes (fs : FS) (env : Env) (root : Bytes) (r : Removal) (tree : LocalTree) :
    Takes fs env root r tree (fs.removalIn env root r ⟨tree, []⟩) := by
  cases r with
  | remove p => exact removeIn_takes
  | rename src dest => exact renameIn_takes
  | removeDir p => exact removeDirIn_takes

/-! ## What a call can do to a BedFS -/

/-- The root a call runs in, if it is not refused: that of its first path. -/
def Removal.first : Removal → Bytes
  | .remove p => p
  | .rename src _ => src
  | .removeDir p => p

theorem run_removal (fs : FS) (env : Env) (r : Removal) (host : LocalTree) :
    (∃ e, fs.run env r.op host = fail e host) ∨
      fs.run env r.op host =
        inRoot (base (fs.mapped r.first)) (fs.removalIn env (mountedAt (fs.mapped r.first)) r)
        host := by
  cases r with
  | remove p =>
    change (∃ e, fs.remove env [p] host = _) ∨ fs.remove env [p] host = _
    rw [remove_singleton, removeOne]
    split
    · exact .inl ⟨_, rfl⟩
    · split
      · exact .inl ⟨_, rfl⟩
      · next i hroute =>
        obtain ⟨rfl, -⟩ := route_write hroute
        split
        · exact .inl ⟨_, rfl⟩
        · exact .inr rfl
  | rename src dest =>
    change (∃ e, fs.rename env src dest host = _) ∨ fs.rename env src dest host = _
    rw [rename]
    split
    · split
      · exact .inl ⟨_, rfl⟩
      · next i hsrc =>
        obtain ⟨rfl, -⟩ := route_write hsrc
        split
        · exact .inl ⟨_, rfl⟩
        · split
          · exact .inl ⟨_, rfl⟩
          · exact .inr rfl
    · exact .inl ⟨_, rfl⟩
  | removeDir p =>
    change (∃ e, fs.removeDir env p host = _) ∨ fs.removeDir env p host = _
    rw [removeDir]
    split
    · exact .inl ⟨_, rfl⟩
    · cases hroute : fs.route p true with
      | error e => exact .inl ⟨e, rfl⟩
      | ok i =>
        obtain ⟨rfl, -⟩ := route_write hroute
        exact .inr rfl

/-! ## The entries of mount targets -/

/-- `e` is the place, on the carrier, of the entry of a mount target or of a directory above one. -/
def MountEntry (fs : FS) (env : Env) (host : LocalTree) (e : List Name) : Prop :=
  ∃ m ∈ fs.mappings, ∃ p q, p ≠ [] ∧ p <+: elements m.target ∧
    env.place (Env.below host fs.home) p = .ok q ∧ e = fs.home ++ q ∧ (host e).isSome = true

/-- No entry that the paths of the call name is that of a mount target, or above one. -/
def Clear (fs : FS) (env : Env) (host : LocalTree) (r : Removal) : Prop :=
  fs.mapped r.first = none →
    ∀ q ∈ fs.named env [slash] (Env.below host fs.home) r, ∀ e, MountEntry fs env host e →
    ¬fs.home ++ q <+: e

/-- The call has taken away no entry of a mount target, nor one above it. -/
def Spares (fs : FS) (env : Env) (host : LocalTree) (out : Outcome Unit) : Prop :=
  ∀ e, MountEntry fs env host e → ∀ u ∈ out.unlinked, ¬u <+: e

/-- In the Bed's own root: a call that fails takes nothing away, and one that succeeds takes away
what its paths name; the rest stays. -/
theorem inRoot_home (fs : FS) (env : Env) (r : Removal) (host : LocalTree) {out : Outcome Unit}
    (hout : inRoot fs.home (fs.removalIn env [slash] r) host = out) :
    (out.result = .ok () →
      out.unlinked = (fs.named env [slash] (Env.below host fs.home) r).map (fs.home ++ ·)) ∧
      ((∃ e, out.result = .error e) → out.unlinked = []) ∧
      ∀ q, q ≠ [] → Env.Reached (Env.below host fs.home) q →
      (∀ u ∈ out.unlinked, ¬u <+: fs.home ++ q) →
        Env.Kept host out.host (fs.home ++ q) := by
  have hgraft : ∀ tree q, Env.graft host fs.home tree (fs.home ++ q) = tree q := by
    intro tree q
    rw [Env.graft, if_pos (List.isPrefixOf_iff_prefix.mpr (prefix_append _ _)), drop_left]
  have htakes := removalIn_takes fs env [slash] r (Env.below host fs.home)
  subst hout
  unfold inRoot
  generalize fs.removalIn env [slash] r ⟨Env.below host fs.home, []⟩ = res at htakes
  cases htakes with
  | failed e d hquiet =>
    refine ⟨(fun h => by cases h), fun _ => ?_, fun q hne hq hnot => ?_⟩
    · change d.unlinked.map _ = []
      rw [hquiet.unlinked]
      rfl
    · change (Env.graft host fs.home d.tree (fs.home ++ q)).map _ = _
      rw [hgraft]
      exact hquiet.kept q (hq q (prefix_refl q) hne)
  | done d hunlinked hkept =>
    refine ⟨fun _ => ?_, (fun h => by obtain ⟨e, he⟩ := h; cases he), fun q hne hq hnot => ?_⟩
    · change d.unlinked.map _ = _
      rw [hunlinked]
    · change (Env.graft host fs.home d.tree (fs.home ++ q)).map _ = _
      rw [hgraft]
      refine hkept q hq hne fun u hu hbelow => ?_
      refine hnot (fs.home ++ u) ?_ ((prefix_append_right_inj _).mpr hbelow)
      change fs.home ++ u ∈ d.unlinked.map _
      rw [hunlinked]
      exact mem_map_of_mem hu

variable {host : LocalTree}

theorem MountEntry.reached {e : List Name} (h : MountEntry fs env host e) :
    ∃ q, e = fs.home ++ q ∧ q ≠ [] ∧ Env.Reached (Env.below host fs.home) q := by
  obtain ⟨m, -, p, q, hp, -, hplace, rfl, hsome⟩ := h
  refine ⟨q, rfl, ?_, Env.place_reached hplace hsome⟩
  rintro rfl
  obtain ⟨dir, n, rfl⟩ := eq_nil_or_concat' p |>.resolve_left hp
  unfold Env.place at hplace
  rw [getLast?_concat] at hplace
  cases hopen : Root.openDir env.limit (Env.below host fs.home) (dir ++ [n]).dropLast with
  | error e => simp only [hopen] at hplace; cases hplace
  | ok d =>
    simp only [hopen] at hplace
    exact absurd (Except.ok.inj hplace) (by simp)

theorem inRoot_mapping {b : List Name} (hapart : Apart fs.home b) (act : DiskM Unit)
    (host : LocalTree) (q : List Name) : (∀ u ∈ (inRoot b act host).unlinked, ¬u <+: fs.home ++ q) ∧
      (inRoot b act host).host (fs.home ++ q) = host (fs.home ++ q) := by
  have hout : ¬b <+: fs.home ++ q := by
    intro h
    rcases prefix_or_prefix_of_prefix h (prefix_append fs.home q) with h | h
    · exact hapart.2 h
    · exact hapart.1 h
  have hgone : ∀ gone : List (List Name), ∀ u ∈ gone.map (b ++ ·), ¬u <+: fs.home ++ q := by
    intro gone u hu hbelow
    obtain ⟨v, -, rfl⟩ := mem_map.mp hu
    exact hout ((prefix_append b v).trans hbelow)
  unfold inRoot
  split
  · exact ⟨hgone _, Env.graft_of_not_below hout⟩
  · exact ⟨hgone _, Env.graft_of_not_below hout⟩

def oneMount : List Mount := [⟨ascii "/beds/b/volumes/w", ascii "/a/m", false, true⟩]

/-- The home with a directory `b` and a link `s` to `a`, and an empty volume. -/
def linkCarrier : LocalTree := fun q =>
  if q = newFS.home ∨ q = newFS.home ++ [ascii "b"] ∨
    q = [ascii "beds", ascii "b", ascii "volumes", ascii "w"] then
    some (.dir 0o755 0)
  else if q = newFS.home ++ [ascii "s"] then some (.leaf (.symlink 0 (ascii "a")))
  else none

theorem prepared_oneMount :
    Prepared plainCarrier [ascii "beds", ascii "b"] newFS.home oneMount := by
  refine ⟨rfl, by decide, fun m hm _ => ⟨ascii "w", ?_⟩⟩
  rw [mem_singleton.mp hm]
  decide

/-- The mount is the only one, and `/a` and `/a/m` are directories of the Bed. -/
def targetMade (fs : FS) (host : LocalTree) : Bool :=
  decide (fs.mappings.map (·.target) = [ascii "/a/m"] ∧
    plainEnv.place (Env.below host fs.home) [ascii "a"] = .ok [ascii "a"] ∧
    plainEnv.place (Env.below host fs.home) [ascii "a", ascii "m"] = .ok [ascii "a", ascii "m"] ∧
    (host (fs.home ++ [ascii "a", ascii "m"])).isSome = true)

theorem targetMade_entry (h : targetMade fs host = true) :
    MountEntry fs plainEnv host (fs.home ++ [ascii "a", ascii "m"]) := by
  obtain ⟨hmaps, -, hplace, hsome⟩ := of_decide_eq_true h
  have hmem : ascii "/a/m" ∈ fs.mappings.map (·.target) := by rw [hmaps]; exact mem_singleton_self _
  obtain ⟨m, hm, htarget⟩ := mem_map.mp hmem
  refine ⟨m, hm, [ascii "a", ascii "m"], _, by simp, ?_, hplace, rfl, hsome⟩
  rw [htarget]
  decide

theorem targetMade_entries (h : targetMade fs host = true) {e : List Name}
    (he : MountEntry fs plainEnv host e) : fs.home ++ [ascii "a"] <+: e := by
  obtain ⟨hmaps, hplace, hplace', -⟩ := of_decide_eq_true h
  obtain ⟨m, hm, p, q, hp, hbelow, hq, rfl, -⟩ := he
  have htarget : m.target = ascii "/a/m" := by
    have hmem : m.target ∈ fs.mappings.map (·.target) := mem_map_of_mem hm
    rw [hmaps] at hmem
    exact mem_singleton.mp hmem
  rw [htarget, show elements (ascii "/a/m") = [ascii "a", ascii "m"] by decide] at hbelow
  rw [prefix_append_right_inj]
  have hcases : p = [ascii "a"] ∨ p = [ascii "a", ascii "m"] := by
    obtain ⟨n, p, rfl⟩ := exists_cons_of_ne_nil hp
    obtain ⟨rfl, hrest⟩ := cons_prefix_cons.mp hbelow
    cases p with
    | nil => exact .inl rfl
    | cons n' p =>
      obtain ⟨rfl, hnil⟩ := cons_prefix_cons.mp hrest
      rw [prefix_nil.mp hnil]
      exact .inr rfl
  rcases hcases with rfl | rfl
  · rw [hplace] at hq
    cases hq
    exact prefix_refl _
  · rw [hplace'] at hq
    cases hq
    exact ⟨[ascii "m"], rfl⟩

end FS

end Hostel.Filesystem
