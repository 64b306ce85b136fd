/-
# Hostel.Sync.Auto — the routed store.

`Auto` keeps a Bed's snapshots in four layouts at once: a change of the kind writes to another
layout with a higher generation, and the old layouts stay until a delete.  `inspect` asks every
layout, in whatever order the answers arrive, and selects the newest.

To its callers it is one versioned register (`Register`): the layout and generation of the last
persist that committed.  The register is refined as long as every other layout is older than the
selected one (`Refines`); a delete that removes the newest commit and leaves an older one brings
that one back.
-/
import Hostel.Sync.Layouts
import Hostel.Logic.Machine
import Hostel.Bed.Lifecycle

namespace Hostel.Sync.Auto

open Hostel.Logic Hostel.Sync.Tar List KeyStore
open Hostel.Bed (SyncKind)

variable {ι : Type} (B : Backend ι) (bed : Key)

/-! ## `inspect` -/

structure InspectedBackend where
  layout : Layout
  info : SnapshotInfo
  deriving DecidableEq, Repr

/-- `autoState`; `failed` says that some layout could not be inspected. -/
structure AutoState where
  selected : Option InspectedBackend
  byLayout : List InspectedBackend
  failed : Bool

def AutoState.empty : AutoState := ⟨none, [], false⟩

def backends : List Layout := [.cas, .pack, .tar, .restic]

abbrev Arrival := {order : List Layout // order.Perm backends}

/-- One round of the loop of `inspect`: the answer of a layout arrives. -/
def receive (o : Objects) (s : AutoState) (L : Layout) : AutoState :=
  match L.stat B bed o with
  | .error _ => { s with failed := true }
  | .ok none => s
  | .ok (some info) =>
    { s with
      byLayout := s.byLayout ++ [⟨L, info⟩]
      selected :=
        if s.selected.all fun x => decide (x.info.generation < info.generation) then some ⟨L, info⟩
        else s.selected }

/-- `inspect`, when the answers arrive in the given order. -/
def inspect (order : Arrival) (o : Objects) : Except StoreError (Option InspectedBackend) :=
  let s := order.1.foldl (receive B bed o) .empty
  if s.failed then .error .inspect
  else match s.selected with
    | none => .ok none
    | some x =>
      if s.byLayout.any fun y =>
          decide (y.layout ≠ x.layout ∧ y.info.generation = x.info.generation) then
        .error .ambiguous
      else .ok (some x)

/-! ## The operations -/

def stat (order : Arrival) (o : Objects) : Except StoreError (Option SnapshotInfo) :=
  (inspect B bed order o).map fun x => x.map InspectedBackend.info

def restore [DecidableEq ι] (order : Arrival) (clock : List Name → Int) (fs : LocalTree)
    (o : Objects) : Except RestoreError Restored :=
  match inspect B bed order o with
  | .error e => .error (.store e)
  | .ok none => .error (.store .notFound)
  | .ok (some x) => x.layout.restore B bed clock fs o

/-- `exceedsSnapshotFileThreshold`; `fails` says whether the walk breaks off. -/
def exceedsSnapshotFileThreshold (threshold : Int) (d : Directory) (filter : SnapshotFilter)
    (fails : Bool) : Except StoreError Bool :=
  if threshold ≤ 0 then .ok false
  else if fails then .error .staging
  else
    .ok (decide (threshold < (visited (some filter.excluded) [] d.tree).countP
      fun e => e.info.isLeaf))

/-- The layout a persist writes to, given the selected one. -/
def target (kind : SyncKind) (selected : Option Layout) (usePack : Bool) : Layout :=
  match kind with
  | .cas => .cas
  | .pack => .pack
  | .restic => .restic
  | .tar => .tar
  | _ => if usePack then .pack else selected.getD .pack

/-- What goes wrong in one call of `Persist`, besides the faults of the layout it is routed to. -/
structure Faults (ι : Type) (repo : Key → Bool) where
  count : Bool
  layout : LayoutFaults ι repo

/-- `Persist` under a kind. -/
def persist [DecidableEq ι] (threshold : Int) (kind : SyncKind) (order : Arrival) (o : Objects)
    (c : Call) (f : Faults ι (B.repo bed)) : Effects :=
  match newSnapshotFilter c.volumeRoots with
  | .error e => .fail e
  | .ok filter =>
    match inspect B bed order o with
    | .error e => .fail e
    | .ok selected =>
      match selected.filter fun x => decide (c.generation ≤ x.info.generation) with
      | some x => .fail (.conflict x.info.generation c.generation)
      | none =>
        match (if kind = .auto ∧ selected.any fun x => decide (x.layout = .cas) then
            exceedsSnapshotFileThreshold threshold c.dir filter f.count else .ok false) with
        | .error e => .fail e
        | .ok usePack =>
          (target kind (selected.map InspectedBackend.layout) usePack).persist B bed o c f.layout

/-- One round of the loop of `Delete`, after the effects `e` of the rounds before. -/
def deleteLayout (o : Objects) (r : Layout → DeleteReply) (e : Effects) (L : Layout) : Effects :=
  let d := L.delete B bed (o.after e.writes) (r L)
  ⟨e.writes ++ d.writes, e.error.or d.error⟩

/-- `Delete`: every layout, whether or not an earlier one failed. -/
def delete (o : Objects) (r : Layout → DeleteReply) : Effects :=
  backends.foldl (deleteLayout B bed o r) ⟨[], none⟩

/-! ## Histories -/

inductive Request (ι : Type) (repo : Key → Bool)
  | persist (kind : SyncKind) (order : Arrival) (c : Call) (f : Faults ι repo)
  | delete (r : Layout → DeleteReply)

/-- The layout and the generation of the last persist that committed. -/
abbrev Register := Option (Layout × Int)

/-- The layout whose commit object the writes put. -/
def commits (ws : List Write) : Option Layout := backends.find? fun L => puts (L.commitKey B bed) ws

/-- One call: the store after it, and the register. -/
def call [DecidableEq ι] (threshold : Int) (s : Objects × Register) :
    Request ι (B.repo bed) → Objects × Register
  | .persist kind order c f =>
    let ws := (persist B bed threshold kind order s.1 c f).writes
    (s.1.after ws, match commits B bed ws with
      | some L => some (L, c.generation)
      | none => s.2)
  | .delete r =>
    let o' := s.1.after (delete B bed s.1 r).writes
    -- a delete that fails took effect if it removed the commit it is to remove
    (o', s.2.filter fun m => (o' (m.1.commitKey B bed)).isSome)

/-- The store under a writer that makes one call after the other. -/
def machine [DecidableEq ι] (threshold : Int) :
    Machine (Objects × Register) (Request ι (B.repo bed)) :=
  ⟨fun s r => some (call B bed threshold s r)⟩

/-! ## The register -/

/-- The store holds the snapshot the register says, and the other layouts are older. -/
structure Refines (o : Objects) (m : Register) : Prop where
  /-- Every commit carries its generation. -/
  dated : ∀ (L : Layout) x, o (L.commitKey B bed) = some x → ∃ g, x.metadata.generation = some g
  empty : m = none → ∀ L : Layout, o (L.commitKey B bed) = none
  newest : ∀ L g, m = some (L, g) →
    (∃ x, o (L.commitKey B bed) = some x ∧ x.metadata.generation = some g) ∧
    ∀ (L' : Layout) x g', L' ≠ L → o (L'.commitKey B bed) = some x →
      x.metadata.generation = some g' → g' < g

variable {B bed} {o : Objects} {m : Register} {L : Layout}

theorem mem_backends (L : Layout) : L ∈ backends := by
  cases L <;> decide

attribute [local simp] Layout.stat

theorem stat_eq_none (h : o (L.commitKey B bed) = none) : L.stat B bed o = .ok none := by
  cases L with
  | cas => simp [Cas.stat, show o (Cas.indexKey B.pre bed) = none from h]
  | pack => simp [Pack.stat, show o (Pack.headKey B.pre bed) = none from h]
  | tar => simp [Tar.stat, show o (Tar.snapshotKey B.pre bed) = none from h]
  | restic => simp [Restic.stat, show o (Restic.headKey B.pre bed) = none from h]

theorem stat_eq_some {x : Object} {g : Int} (h : o (L.commitKey B bed) = some x)
    (hg : x.metadata.generation = some g) :
    ∃ info, L.stat B bed o = .ok (some info) ∧ info.generation = g := by
  cases L with
  | cas => simp [Cas.stat, show o (Cas.indexKey B.pre bed) = some x from h, hg]
  | pack => simp [Pack.stat, show o (Pack.headKey B.pre bed) = some x from h, hg]
  | tar => simp [Tar.stat, show o (Tar.snapshotKey B.pre bed) = some x from h, hg]
  | restic => simp [Restic.stat, show o (Restic.headKey B.pre bed) = some x from h, hg]

theorem Refines.stat_older (h : Refines B bed o m) {g : Int} (hm : m = some (L, g)) {L' : Layout}
    (hne : L' ≠ L) : L'.stat B bed o = .ok none ∨
      ∃ info, L'.stat B bed o = .ok (some info) ∧ info.generation < g := by
  cases ho : o (L'.commitKey B bed) with
  | none => exact .inl (stat_eq_none ho)
  | some x =>
    obtain ⟨g', hg'⟩ := h.dated L' x ho
    obtain ⟨info, hstat, hinfo⟩ := stat_eq_some ho hg'
    exact .inr ⟨info, hstat, hinfo ▸ (h.newest L g hm).2 L' x g' hne ho hg'⟩

/-- The state of the loop of `inspect` when the newest commit is that of `L` with generation `g`. -/
structure Selecting (L : Layout) (g : Int) (seen : List Layout) (s : AutoState) : Prop where
  sound : s.failed = false
  others : ∀ y ∈ s.byLayout, y.layout ≠ L → y.info.generation < g
  selected : (∃ info, s.selected = some ⟨L, info⟩ ∧ info.generation = g) ∨
    L ∉ seen ∧ ∀ x, s.selected = some x → x.info.generation < g

theorem Refines.selecting (h : Refines B bed o m) {g : Int} (hm : m = some (L, g))
    (seen : List Layout) : Selecting L g seen (seen.foldl (receive B bed o) .empty) := by
  induction seen using reverseRecOn with
  | nil => exact ⟨rfl, by simp [AutoState.empty], .inr ⟨by simp, by simp [AutoState.empty]⟩⟩
  | append_singleton seen L' ih =>
    rw [foldl_append, foldl_cons, foldl_nil]
    generalize seen.foldl (receive B bed o) .empty = s at ih ⊢
    obtain ⟨hsound, hothers, hselected⟩ := ih
    by_cases hL : L' = L
    · subst hL
      obtain ⟨⟨x, ho, hg⟩, -⟩ := h.newest L' g hm
      obtain ⟨info, hstat, hinfo⟩ := stat_eq_some ho hg
      rw [receive, hstat]
      refine ⟨hsound, fun y hy hne => ?_, .inl ?_⟩
      · rcases mem_append.mp hy with hy | hy
        · exact hothers y hy hne
        · rw [mem_singleton.mp hy] at hne
          exact absurd rfl hne
      · rcases hselected with ⟨info', hs, hinfo'⟩ | ⟨-, hold⟩
        · -- the answer of `L` is not newer than itself
          refine ⟨info', ?_, hinfo'⟩
          simp [hs, hinfo, hinfo']
        · refine ⟨info, ?_, hinfo⟩
          cases hs : s.selected with
          | none => simp
          | some x => simp [hinfo, hold x hs]
    · rcases h.stat_older hm hL with hstat | ⟨info, hstat, hlt⟩
      · rw [receive, hstat]
        exact ⟨hsound, hothers, hselected.imp_right fun ⟨hns, hold⟩ =>
          ⟨by simpa [hns] using Ne.symm hL, hold⟩⟩
      · rw [receive, hstat]
        refine ⟨hsound, fun y hy hne => ?_, ?_⟩
        · rcases mem_append.mp hy with hy | hy
          · exact hothers y hy hne
          · rw [mem_singleton.mp hy]
            exact hlt
        · rcases hselected with ⟨info', hs, hinfo'⟩ | ⟨hns, hold⟩
          · left
            refine ⟨info', ?_, hinfo'⟩
            simp [hs, hinfo', not_lt.mpr hlt.le]
          · right
            refine ⟨by simpa [hns] using Ne.symm hL, fun x hx => ?_⟩
            dsimp only at hx
            split_ifs at hx
            · cases hx
              exact hlt
            · exact hold x hx

theorem foldl_receive_none (h : ∀ L : Layout, o (L.commitKey B bed) = none) (order : List Layout) :
    order.foldl (receive B bed o) .empty = .empty := by
  induction order with
  | nil => rfl
  | cons L order ih => rw [foldl_cons, receive, stat_eq_none (h L), ih]

/-- In whatever order the answers arrive, `inspect` finds what the register says. -/
theorem Refines.inspect_eq (h : Refines B bed o m) (order : Arrival) :
    ∃ x, inspect B bed order o = .ok x ∧ x.map (fun x => (x.layout, x.info.generation)) = m := by
  cases hm : m with
  | none =>
    refine ⟨none, ?_, rfl⟩
    rw [inspect, foldl_receive_none (h.empty hm)]
    rfl
  | some p =>
    obtain ⟨L, g⟩ := p
    obtain ⟨hsound, hothers, hselected⟩ := h.selecting hm order.1
    rcases hselected with ⟨info, hs, hinfo⟩ | ⟨hns, -⟩
    · refine ⟨some ⟨L, info⟩, ?_, by simp [hinfo]⟩
      have hclear : ((order.1.foldl (receive B bed o) .empty).byLayout.any fun y =>
          decide (y.layout ≠ L ∧ y.info.generation = info.generation)) = false := by
        rw [any_eq_false]
        intro y hy
        simp only [decide_eq_true_eq, not_and]
        intro hne
        exact (hinfo ▸ hothers y hy hne).ne
      simp only [inspect, hsound, hs, hclear, Bool.false_eq_true, if_false]
    · exact absurd (order.2.mem_iff.mpr (mem_backends L)) hns

/-! ## A persist -/

section
variable [DecidableEq ι] {threshold : Int} {kind : SyncKind} {order : Arrival} {c : Call}
  {f : Faults ι (B.repo bed)}

variable (threshold) in
/-- A persist writes nothing, or it is routed to a layout and is above the register. -/
theorem Refines.persist_cases (h : Refines B bed o m) :
    (persist B bed threshold kind order o c f).writes = [] ∨
      ∃ L : Layout, (persist B bed threshold kind order o c f).writes =
        (L.persist B bed o c f.layout).writes ∧ ∀ L' g, m = some (L', g) → g < c.generation := by
  obtain ⟨x, hx, hm⟩ := h.inspect_eq order
  unfold persist
  split
  · exact .inl rfl
  · rw [hx]
    dsimp only
    split
    · exact .inl rfl
    case h_2 hfilter =>
      split
      · exact .inl rfl
      · refine .inr ⟨_, rfl, fun L' g hg => ?_⟩
        rw [hg] at hm
        obtain ⟨y, rfl, hy⟩ := Option.map_eq_some_iff.mp hm
        cases hy
        simpa using hfilter

theorem Refines.persist_conflict (h : Refines B bed o m) {g : Int} (hm : m = some (L, g))
    (hle : c.generation ≤ g) :
    (persist B bed threshold kind order o c f).writes = [] ∧
      ∀ filter, newSnapshotFilter c.volumeRoots = .ok filter →
        (persist B bed threshold kind order o c f).error = some (.conflict g c.generation) := by
  obtain ⟨x, hx, hxm⟩ := h.inspect_eq order
  rw [hm] at hxm
  obtain ⟨y, rfl, hy⟩ := Option.map_eq_some_iff.mp hxm
  cases hy
  unfold persist
  cases hfilter : newSnapshotFilter c.volumeRoots with
  | error e => exact ⟨rfl, nofun⟩
  | ok filter =>
    have hnewer : (some y).filter (fun x => decide (c.generation ≤ x.info.generation)) =
        some y := by
      simp [Option.filter, hle]
    simp only [hx, hnewer, Effects.fail_writes, Effects.fail_error, true_and]
    exact fun _ _ => trivial

/-- Only the layout a persist is routed to can be the one that commits. -/
theorem puts_other (hbed : Plain bed) (f : LayoutFaults ι (B.repo bed)) {L' : Layout}
    (hne : L ≠ L') : puts (L'.commitKey B bed) (L.persist B bed o c f).writes = false := by
  rw [Bool.eq_false_iff]
  intro hputs
  obtain ⟨x, hx⟩ := puts_iff.mp hputs
  exact Layout.not_reaches_commitKey hbed hne
    ((Layout.proper_persist hbed o c f L _ hx).reaches (decide_eq_true rfl))

theorem commits_persist (hbed : Plain bed) (f : LayoutFaults ι (B.repo bed)) (L : Layout) :
    commits B bed (L.persist B bed o c f).writes =
      if puts (L.commitKey B bed) (L.persist B bed o c f).writes then some L else none := by
  cases hfind : commits B bed (L.persist B bed o c f).writes with
  | none =>
    have := find?_eq_none.mp hfind L (mem_backends L)
    rw [if_neg this]
  | some L' =>
    have hputs := find?_some hfind
    by_cases hL : L = L'
    · rw [hL] at hputs ⊢
      rw [if_pos hputs]
    · rw [puts_other hbed f hL] at hputs
      cases hputs

theorem no_delete_commitKey (hbed : Plain bed) (f : LayoutFaults ι (B.repo bed)) (L' : Layout) :
    ∀ ks, .delete ks ∈ (L.persist B bed o c f).writes → ks (L'.commitKey B bed) = false := by
  intro ks hks
  have hproper := Layout.proper_persist hbed o c f L _ hks
  rw [Bool.eq_false_iff]
  intro htrue
  by_cases hL : L = L'
  · exact (hproper _ htrue).2 (hL ▸ rfl)
  · exact Layout.not_reaches_commitKey hbed hL (hproper _ htrue).1

/-- A persist above the register moves the register to its layout and generation, if it commits. -/
theorem Refines.layout_persist (hbed : Plain bed) (h : Refines B bed o m)
    (hgen : ∀ L' g, m = some (L', g) → g < c.generation) (f : LayoutFaults ι (B.repo bed))
    (L : Layout) :
    Refines B bed (o.after (L.persist B bed o c f).writes)
      (match commits B bed (L.persist B bed o c f).writes with
        | some L' => some (L', c.generation)
        | none => m) := by
  have hdel := no_delete_commitKey (L := L) (o := o) (c := c) hbed f
  have hother (L' : Layout) (hne : L ≠ L') :
      o.after (L.persist B bed o c f).writes (L'.commitKey B bed) = o (L'.commitKey B bed) :=
    after_of_not_puts (puts_other hbed f hne) (hdel L')
  rw [commits_persist hbed f L]
  cases hputs : puts (L.commitKey B bed) (L.persist B bed o c f).writes with
  | false =>
    -- nothing changed under any commit key
    have hsame (L' : Layout) :
        o.after (L.persist B bed o c f).writes (L'.commitKey B bed) = o (L'.commitKey B bed) := by
      by_cases hL : L = L'
      · subst hL
        exact after_of_not_puts hputs (hdel L)
      · exact hother L' hL
    rw [if_neg (by simp)]
    constructor
    · intro L' x hx
      exact h.dated L' x (hsame L' ▸ hx)
    · intro hm L'
      rw [hsame]
      exact h.empty hm L'
    · intro L' g hm
      simp only [hsame]
      exact h.newest L' g hm
  | true =>
    obtain ⟨x, hx, hmem⟩ := after_of_puts (s := o) hputs (hdel L)
    have hdate : x.metadata.generation = some c.generation :=
      (Layout.proper_persist hbed o c f L _ hmem).2 rfl
    rw [if_pos rfl]
    constructor
    · intro L' y hy
      by_cases hL : L = L'
      · subst hL
        rw [hx] at hy
        cases hy
        exact ⟨_, hdate⟩
      · exact h.dated L' y (hother L' hL ▸ hy)
    · intro h
      cases h
    · rintro _ _ ⟨rfl, rfl⟩
      refine ⟨⟨x, hx, hdate⟩, fun L' y g' hne hy hg' => ?_⟩
      rw [hother L' hne.symm] at hy
      -- what another layout holds is at most the register, and that is below
      cases hm : m with
      | none => exact absurd hy (by simp [h.empty hm L'])
      | some p =>
        obtain ⟨L₀, g₀⟩ := p
        obtain ⟨⟨x₀, ho₀, hg₀⟩, hold⟩ := h.newest L₀ g₀ hm
        have hlt := hgen L₀ g₀ hm
        by_cases hL : L' = L₀
        · subst hL
          rw [ho₀] at hy
          cases hy
          rw [hg₀] at hg'
          cases hg'
          exact hlt
        · exact (hold L' y g' hL hy hg').trans hlt

end

/-! ## A delete -/

variable (B bed) in
/-- Whether the requests of a delete remove the commit of a layout. -/
def removes (r : Layout → DeleteReply) (L : Layout) : Bool :=
  (decide (L = .tar) || (r L).lists) && ((r L).deletes || (r L).deleted (L.commitKey B bed))

section

variable {ks deleted : Key → Bool} {lists deletes : Bool}

theorem after_deleteListed {k : Key} (hk : (o k).isSome = true → ks k = true) :
    o.after (deleteListed ks lists deletes deleted).writes k =
      if lists && (deletes || deleted k) then none else o k := by
  cases lists with
  | false => rfl
  | true =>
    cases ho : o k with
    | none => simp [deleteListed, write, ho]
    | some x => simp [deleteListed, write, hk (by simp [ho]), ho]

theorem deleteListed_ok (h : (deleteListed ks lists deletes deleted).error = none) :
    lists = true ∧ deletes = true := by
  cases lists with
  | false => cases h
  | true =>
    cases deletes with
    | false => cases h
    | true => exact ⟨rfl, rfl⟩

end

theorem layout_delete (hbed : Plain bed) (r : Layout → DeleteReply) (L L' : Layout) :
    o.after (L.delete B bed o (r L)).writes (L'.commitKey B bed) =
      if L' = L ∧ removes B bed r L then none else o (L'.commitKey B bed) := by
  by_cases hL : L' = L
  · subst hL
    have hlisted (p q : Key) (h : (o (p ++ q)).isSome = true) : o.lists p (p ++ q) = true := by
      simp [Objects.lists, h]
    cases L' with
    | tar => simp [Layout.delete, Tar.delete, removes, write, Layout.commitKey]
    | cas =>
      simp only [removes, reduceCtorEq, decide_false, Bool.false_or, true_and]
      exact after_deleteListed fun _ => by simp [Layout.commitKey]
    | pack | restic =>
      simp only [removes, reduceCtorEq, decide_false, Bool.false_or, true_and]
      exact after_deleteListed (hlisted _ headName)
  · rw [if_neg fun h => hL h.1]
    refine after_untouched fun w hw => ?_
    rw [Bool.eq_false_iff]
    exact fun htouch => Layout.not_reaches_commitKey hbed (Ne.symm hL)
      (Layout.reaches_delete o (r L) L w hw htouch)

theorem foldl_delete (hbed : Plain bed) (r : Layout → DeleteReply) (L' : Layout) (Ls : List Layout)
    (e : Effects) :
    o.after (Ls.foldl (deleteLayout B bed o r) e).writes (L'.commitKey B bed) =
      if L' ∈ Ls ∧ removes B bed r L' then none else o.after e.writes (L'.commitKey B bed) := by
  induction Ls generalizing e with
  | nil => simp
  | cons L Ls ih =>
    rw [foldl_cons, ih, deleteLayout]
    dsimp only
    rw [after_append, layout_delete hbed]
    by_cases hL : L' = L
    · subst hL
      by_cases hr : removes B bed r L' = true <;> simp [hr]
    · simp [hL]

theorem delete_commit (hbed : Plain bed) (r : Layout → DeleteReply) (L : Layout) :
    o.after (delete B bed o r).writes (L.commitKey B bed) =
      if removes B bed r L then none else o (L.commitKey B bed) := by
  rw [delete, foldl_delete hbed]
  simp [mem_backends]

variable {r : Layout → DeleteReply}

theorem removes_of_delete (h : (delete B bed o r).error = none)
    (L : Layout) : removes B bed r L = true := by
  have hlayout (o : Objects) (L : Layout) (h : (L.delete B bed o (r L)).error = none) :
      removes B bed r L = true := by
    cases L with
    | tar =>
      cases hd : (r .tar).deletes with
      | true => simp [removes, hd]
      | false => simp [Layout.delete, Tar.delete, hd] at h
    | cas | pack | restic =>
      obtain ⟨hl, hd⟩ := deleteListed_ok h
      simp [removes, hl, hd]
  -- the first error is the one that is returned
  have hfold (Ls : List Layout) (e : Effects)
      (h : (Ls.foldl (deleteLayout B bed o r) e).error = none) :
      e.error = none ∧ ∀ L ∈ Ls, removes B bed r L = true := by
    induction Ls generalizing e with
    | nil => exact ⟨h, by simp⟩
    | cons L Ls ih =>
      obtain ⟨herr, hrest⟩ := ih _ h
      simp only [deleteLayout, Option.or_eq_none_iff] at herr
      refine ⟨herr.1, fun L' hL' => ?_⟩
      rcases mem_cons.mp hL' with rfl | hL'
      · exact hlayout _ _ herr.2
      · exact hrest L' hL'
  exact (hfold backends _ h).2 L (mem_backends L)

variable (B bed) in
/-- The delete does not remove the newest commit and leave an older one. -/
def Whole (o : Objects) (r : Layout → DeleteReply) : Prop :=
  ∀ (L : Layout) x g, o (L.commitKey B bed) = some x → x.metadata.generation = some g →
    (∀ (L' : Layout) x' g', o (L'.commitKey B bed) = some x' → x'.metadata.generation = some g' →
      g' ≤ g) →
    removes B bed r L = true →
    ∀ L' : Layout, (o (L'.commitKey B bed)).isSome → removes B bed r L' = true

theorem Refines.delete (hbed : Plain bed) (h : Refines B bed o m) (hwhole : Whole B bed o r) :
    Refines B bed (o.after (delete B bed o r).writes)
      (m.filter fun m => (o.after (delete B bed o r).writes (m.1.commitKey B bed)).isSome) := by
  have hafter (L : Layout) := delete_commit (o := o) (B := B) hbed r L
  have hkept {L : Layout} {x : Object}
      (hx : o.after (Auto.delete B bed o r).writes (L.commitKey B bed) = some x) :
      o (L.commitKey B bed) = some x := by
    rw [hafter] at hx
    split_ifs at hx
    exact hx
  have hdated : ∀ (L : Layout) x, o.after (Auto.delete B bed o r).writes (L.commitKey B bed) =
      some x →
      ∃ g, x.metadata.generation = some g := fun L x hx => h.dated L x (hkept hx)
  cases hm : m with
  | none =>
    refine ⟨hdated, fun _ L => ?_, by simp⟩
    rw [hafter, h.empty hm L, ite_self]
  | some p =>
    obtain ⟨L, g⟩ := p
    obtain ⟨⟨x, ho, hg⟩, hold⟩ := h.newest L g hm
    cases hr : removes B bed r L with
    | true =>
      have hgone : (o.after (Auto.delete B bed o r).writes (L.commitKey B bed)).isSome = false := by
        simp [hafter, hr]
      have hall := hwhole L x g ho hg (fun L' x' g' ho' hg' => by
        by_cases hL : L' = L
        · subst hL
          rw [ho] at ho'
          cases ho'
          rw [hg] at hg'
          exact (Option.some.inj hg').symm.le
        · exact (hold L' x' g' hL ho' hg').le) hr
      simp only [Option.filter_some, hgone]
      refine ⟨hdated, fun _ L' => ?_, by simp⟩
      rw [hafter]
      cases ho' : o (L'.commitKey B bed) with
      | none => rw [ite_self]
      | some x' => rw [if_pos (hall L' (by simp [ho']))]
    | false =>
      have hstays : o.after (Auto.delete B bed o r).writes (L.commitKey B bed) = some x := by
        simp [hafter, hr, ho]
      simp only [Option.filter_some, hstays, Option.isSome_some, if_true]
      refine ⟨hdated, by simp, ?_⟩
      rintro _ _ ⟨rfl, rfl⟩
      exact ⟨⟨x, hstays, hg⟩, fun L' x' g' hne hx' => hold L' x' g' hne (hkept hx')⟩

theorem Refines.whole {L : Layout} {g : Nat} (h : Refines B bed o (some (L, g)))
    (hkeeps : removes B bed r L = false) : Whole B bed o r := by
  intro L' x' g' ho' hg' hnewest hr
  obtain ⟨⟨x, ho, hg⟩, hold⟩ := h.newest L g rfl
  have hne : L' ≠ L := by
    rintro rfl
    rw [hkeeps] at hr
    cases hr
  exact absurd (hnewest L x g ho hg) (hold L' x' g' hne ho' hg').not_ge

/-! ## Histories -/

section
variable [DecidableEq ι] {threshold : Int} {s : Objects × Register}
  {τ : List ((Objects × Register) × Request ι (B.repo bed))}

variable (B bed) in
/-- The condition on one call. -/
def WholeDeletes (e : (Objects × Register) × Request ι (B.repo bed)) : Prop :=
  match e.2 with
  | .persist _ _ _ _ => True
  | .delete r => Whole B bed e.1.1 r

theorem Refines.call (hbed : Plain bed) {q : Request ι (B.repo bed)} (h : Refines B bed s.1 s.2)
    (hq : WholeDeletes B bed (s, q)) :
    Refines B bed (call B bed threshold s q).1 (call B bed threshold s q).2 := by
  cases q with
  | delete r => exact h.delete hbed hq
  | persist kind order c f =>
    simp only [Auto.call]
    rcases h.persist_cases threshold with hnil | ⟨L, hws, hgen⟩
    · rw [hnil]
      exact h
    · rw [hws]
      exact h.layout_persist hbed hgen f.layout L

theorem refines_of_trace (hbed : Plain bed) (hfresh : ∀ L : Layout, o (L.commitKey B bed) = none)
    (h : (machine B bed threshold).Trace (o, none) τ s) (hC : ∀ e ∈ τ, WholeDeletes B bed e) :
    Refines B bed s.1 s.2 := by
  have hinit : Refines B bed o none :=
    ⟨fun L x hx => absurd hx (by simp [hfresh L]), fun _ => hfresh, nofun⟩
  refine h.invariant_state (P := fun s => Refines B bed s.1 s.2) hinit ?_ hC
  intro s q s' hs hq hstep
  cases hstep
  exact hs.call hbed hq

end

/-- Nothing goes wrong, and the restic tool does nothing. -/
def Faults.none {repo : Key → Bool} : Faults ι repo :=
  { count := false
    layout :=
      { cas := .none, pack := .none, tar := .none
        restic :=
          { unavailable := false, head := false, load := false, staging := false
            upload := ⟨[], by simp, .none⟩, commit := .ok } } }

/-- The answers arrive in the order of the requests. -/
def inOrder : Arrival := ⟨backends, .refl _⟩

/-- A persist to the tar layout, and one to the content-addressed layout. -/
def changedKind : List (Request Bytes (Backend.simple.repo plainBed.id)) :=
  [.persist .tar inOrder (emptyCall 1) .none, .persist .cas inOrder (emptyCall 2) .none]

/-- A delete whose request in the tar layout fails. -/
def tarFails : Layout → DeleteReply
  | .tar => ⟨true, false, fun _ => false⟩
  | _ => .ok

/-- A delete whose requests in the content-addressed layout fail. -/
def casFails : Layout → DeleteReply
  | .cas => ⟨true, false, fun _ => false⟩
  | _ => .ok

end Hostel.Sync.Auto
