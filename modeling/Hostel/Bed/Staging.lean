/-
# Hostel.Bed.Staging — the comparison behind every restore.

Stage-in puts a snapshot in place of the local tree only if `Stat` answered a higher generation than
`loadMeta` found when the initialization was accepted.  These are critical sections with everything
else in between; the facts compared still stand when the restore runs.

`persistBed` bumps the generation before it packs, so a local copy without readable metadata, which
counts as generation zero, loses against every snapshot.  This needs metadata to start from that has
no negative generation (`Dir.Counted`).
-/
import Hostel.Bed.Cancellation

namespace Hostel.Bed

open Store Option Slot Write

variable {env : Env} {r : Reply} {s : Slot} {a : Act} {w : Write} {m : Move} {closed : Bool}
  {i j : TaskId} {t : ThreadId}

/-! ## What stage-in has compared -/

/-- A persist carries metadata that was bumped, and a tree that was read. -/
def PersistPc.Counted : PersistPc → Prop
  | .mark info | .read info _ | .stat info _ | .commit info _ _ | .save info => 0 < info.generation
  | .put info _ tree => 0 < info.generation ∧ tree.Counted
  | _ => True

def TaskPc.restores : TaskPc → Bool
  | .report .restore | .prepare .restore => true
  | _ => false

/-- Snapshots have positive generations, and a restore follows a comparison that the local copy
lost. -/
structure Staging (s : Slot) : Prop where
  committed : ∀ sn, s.snapshot = some sn → 0 < sn.generation ∧ sn.tree.Counted
  disk : ∀ dir, s.disk.dir = some dir → dir.Counted
  persists : ∀ t j q, (s.threads t).persisting = some (j, q) → q.Counted
  request : ∀ l, (s.locals l).stageIn.localPresent = false →
    (s.locals l).stageIn.localGeneration = 0
  inspected : ∀ i g, (s.task i).staged.snapshot = some g → 0 < g
  selected : ∀ i, (s.task i).pc.restores = true → ∃ g, (s.task i).staged.snapshot = some g ∧
    (s.locals (s.task i).identity).stageIn.localGeneration < g

theorem Slot.bumped_pos (h : ∀ dir, s.disk.dir = some dir → dir.Counted) (j : TaskId) :
    0 < (s.bumped j).generation :=
  Int.lt_add_one_of_le (Disk.meta_counted h (s.storeKind j))

theorem persistStep_counted {A : Agent} {q q' : PersistPc}
    (hdisk : ∀ dir, s.disk.dir = some dir → dir.Counted) (h : persistStep r s A j q = some (w, q'))
    (hq : q.Counted) : q'.Counted := by
  have hbumped := bumped_pos hdisk j
  revert h
  fun_cases persistStep r s A j q <;> intro h <;> cases h
  all_goals first
    | trivial
    | exact hq
    | exact hbumped
    | exact hq.1
    | exact ⟨hq, hdisk _ ‹_›⟩

theorem Staging.persists_step (h : Staging s) (hd : s.Does env a w m) (t : ThreadId) (j : TaskId)
    (q : PersistPc) (hq : (((s.apply env w).move m).threads t).persisting = some (j, q)) :
    q.Counted := by
  revert hq
  refine hd.forall_threads (P := fun _ th => th.persisting = some (j, q) → q.Counted) ?_ ?_ ?_ ?_ t
  · exact fun t _ hq => h.persists t j q hq
  · intro t r th _ hstep hq
    rcases threadStep_persisting hstep hq with ⟨rfl, -⟩ | ⟨q₀, hq₀, hpersist⟩
    · trivial
    · exact persistStep_counted h.disk hpersist (h.persists t j q₀ hq₀)
  · intro th _ hspawn _ hq
    cases hspawn <;> cases hq
  · intro l root _ _ hq
    cases hq

theorem Staging.disk_step (h : Staging s) (hd : s.Does env a w m) {dir : Dir}
    (hdir : w.dir s = some dir) : dir.Counted := by
  cases w with
  | seed i info persistedAt =>
    obtain ⟨old, -, rfl⟩ := map_eq_some_iff.mp hdir
    rintro _ ⟨⟩
    rw [hd.seeds.2]
    exact Disk.meta_counted h.disk (s.storeKind i)
  | saveMeta info =>
    obtain ⟨old, -, rfl⟩ := map_eq_some_iff.mp hdir
    rintro _ ⟨⟩
    obtain ⟨t, r, th, rfl, rfl, hstep⟩ := hd.by_thread (fun _ _ => id) id rfl
    obtain ⟨j, ⟨-, rfl⟩ | hpc⟩ := threadStep_permit hstep
    · exact (bumped_pos h.disk j).le
    · exact le_of_lt (h.persists t j _ hpc)
  | restoreDir tree =>
    cases hdir
    obtain ⟨i, r, pc, rfl, rfl, hstep⟩ := hd.by_task (fun _ _ => id) id rfl
    obtain ⟨-, sn, hsn, rfl⟩ := taskStep_permit hstep
    exact (h.committed sn hsn).2
  | makeDir =>
    cases hdir
    cases hold : s.disk.dir with
    | none => nofun
    | some old => exact h.disk old hold
  | writeData x =>
    obtain ⟨old, hold, rfl⟩ := map_eq_some_iff.mp hdir
    exact h.disk old hold
  | claimDir => cases hdir
  | _ => exact h.disk dir hdir

theorem selectSource_snapshot {req : StageInRequest} {snapshot : Option Int}
    (h : selectSource req snapshot = .snapshot)
    (habsent : req.localPresent = false → req.localGeneration = 0)
    (hpos : ∀ g, snapshot = some g → 0 < g) : ∃ g, snapshot = some g ∧ req.localGeneration < g := by
  cases snapshot with
  | none =>
    simp only [selectSource] at h
    split_ifs at h
  | some g =>
    refine ⟨g, rfl, ?_⟩
    simp only [selectSource] at h
    split_ifs at h with hif
    cases hp : req.localPresent with
    | false => rw [habsent hp]; exact hpos g rfl
    | true => simpa [hp] using hif

theorem taskStep_restores {pc pc' : TaskPc} (h : taskStep env r s i pc = some (w, pc'))
    (hpc' : pc'.restores = true) :
    (pc = .prepare .select ∧ w = .stage i
        { (s.task i).staged with source := .snapshot, restored := true } ∧
      selectSource (s.locals (s.task i).identity).stageIn (s.task i).staged.snapshot = .snapshot) ∨
    pc.restores = true ∧ (w.task s i).staged = (s.task i).staged := by
  revert h
  fun_cases taskStep env r s i pc <;> intro h
  case case3 stage reason _ =>
    cases h
    refine .inr ⟨?_, by unfold reportWrite; split <;> rfl⟩
    cases stage <;> first | rfl | cases hpc'
  case case4 stage _ =>
    cases h
    refine .inr ⟨?_, rfl⟩
    cases stage <;> first | rfl | cases hpc'
  case case6 stage _ =>
    have h := some.inj h
    cases stage with
    | select =>
      simp only [stageStep] at h
      split at h <;> cases h <;> first | (cases hpc'; done) | exact .inl ⟨rfl, rfl, ‹_›⟩
    | restore | resident =>
      simp only [stageStep] at h
      split at h <;> cases h <;> cases hpc'
    | _ => cases h; cases hpc'
  all_goals first
    | (obtain ⟨_, _, rfl⟩ := lift_eq_some.mp h; cases hpc')
    | (cases h <;> cases hpc')

theorem taskStep_stages {pc pc' : TaskPc} {k : TaskId} {result : StageInResult}
    (h : taskStep env r s i pc = some (.stage k result, pc')) :
    k = i ∧ (result.snapshot = s.statSnapshot (s.storeKind i) ∨
      result.snapshot = (s.task i).staged.snapshot) := by
  obtain ⟨rfl, stage, rfl⟩ := taskStep_permit h
  refine ⟨rfl, ?_⟩
  simp only [taskStep] at h
  split at h
  · cases h
  · have h := some.inj h
    cases stage with
    | inspect => cases h; exact .inl rfl
    | select =>
      simp only [stageStep] at h
      split at h <;> cases h <;> exact .inr rfl
    | restore | resident =>
      simp only [stageStep] at h
      split at h <;> cases h
    | _ => cases h

theorem threadStep_persists {th th' : Thread} {q : PersistPc}
    (h : threadStep env r s t th = some (w, th')) (hq : th.persisting = some (j, q))
    (hret : ∀ err, q ≠ .ret err) : ∃ q', persistStep r s (.thread t) j q = some (w, q') := by
  revert hq
  fun_cases Thread.persisting th <;> intro hq <;> cases hq
  all_goals
    obtain ⟨_, hsub, -⟩ := lift_eq_some.mp h
    cases q <;> first
      | exact absurd rfl (hret _)
      | exact (lift_eq_some.mp hsub).imp fun _ h => h.1

theorem Slot.Does.puts {sn : Snapshot} (hd : s.Does env a (.commitSnapshot sn) m) :
    ∃ t r j at', ∃ info : Meta, a = .thread t r ∧
      (s.threads t).persisting = some (j, .put info at' sn.tree) ∧
      sn.generation = info.generation ∧ r.fault = none := by
  obtain ⟨t, r, th, rfl, rfl, hstep⟩ := hd.by_thread (fun _ _ => id) id rfl
  obtain ⟨j, at', info, hpc, hgen⟩ := threadStep_permit hstep
  refine ⟨t, r, j, at', info, rfl, hpc, hgen, ?_⟩
  obtain ⟨q', hput⟩ := threadStep_persists hstep hpc (by simp)
  simp only [persistStep] at hput
  split at hput
  · cases hput
  · assumption

theorem Write.task_staged (hi : i ≠ s.nTasks) (h : ∀ result, w ≠ .stage i result) :
    (w.task s i).staged = (s.task i).staged := by
  cases w with
  | stage k result =>
    have hne : i ≠ k := fun he => h result (by rw [he])
    simp [task, hne]
  | accept | cancelInitialization | finishInitialization =>
    simp only [task]
    split_ifs <;> first | rfl | contradiction
  | _ => rfl

theorem Slot.Does.stages {k : TaskId} {result : StageInResult}
    (hd : s.Does env a (.stage k result) m) : (∃ pc, m = .task k pc) ∧
      (result.snapshot = s.statSnapshot (s.storeKind k) ∨
        result.snapshot = (s.task k).staged.snapshot) := by
  obtain ⟨i, _, pc, rfl, rfl, hstep⟩ := hd.by_task (fun _ _ => id) id rfl
  obtain ⟨rfl, hresult⟩ := taskStep_stages hstep
  exact ⟨⟨pc, rfl⟩, hresult⟩

theorem Staging.inspected_step (h : Staging s) (hd : s.Does env a w m) (i : TaskId) (g : Int)
    (hg : (w.task s i).staged.snapshot = some g) : 0 < g := by
  cases w with
  | stage k result =>
    simp only [Write.task] at hg
    split_ifs at hg with hik
    · subst hik
      rcases hd.stages.2 with hstat | hsame
      · -- `Stat` answers the generation of a committed snapshot
        rw [hstat, statSnapshot] at hg
        split_ifs at hg
        obtain ⟨sn, hsn, rfl⟩ := map_eq_some_iff.mp hg
        exact (h.committed sn hsn).1
      · exact h.inspected i g (hsame ▸ hg)
    · exact h.inspected i g hg
  | accept | cancelInitialization | finishInitialization =>
    simp only [Write.task] at hg
    split_ifs at hg
    · first | exact h.inspected i g hg | cases hg
    · exact h.inspected i g hg
  | _ => exact h.inspected i g hg

theorem Staging.request_step (h : Staging s) (l : LocalId)
    (hl : (w.stageIn s l).localPresent = false) : (w.stageIn s l).localGeneration = 0 := by
  cases w with
  | accept kind hasMain =>
    simp only [stageIn] at hl ⊢
    split_ifs at hl ⊢
    · simp only [StageInRequest.of, isSome_eq_false_iff, isNone_iff_eq_none] at hl
      simp [StageInRequest.of, hl]
    · exact h.request l hl
  | registerIdentity | claimLuggage =>
    simp only [stageIn] at hl ⊢
    split_ifs at hl ⊢
    · rfl
    · exact h.request l hl
  | _ => exact h.request l hl

theorem Custody.stageIn_eq (hc : Custody env.closed s) (hs : Sound s) (hd : s.Does env a w m)
    (hi : i < s.nTasks) (hlive : (s.task i).pc.role = .live) :
    w.stageIn s (s.task i).identity = (s.locals (s.task i).identity).stageIn := by
  have hl : (s.task i).identity ≠ s.nLocals := (hs.grounded.locals i hi).ne
  have hown := hc.owner_of_live hlive
  cases w with
  | accept kind hasMain =>
    exact absurd hown (hc.unowned_of_admissible hd.accepts.1 i)
  | registerIdentity | claimLuggage => simp [stageIn, hl]
  | _ => rfl

theorem TaskPc.restores_live {pc : TaskPc} (h : pc.restores = true) : pc.role = .live := by
  cases pc <;> first | rfl | cases h

theorem Staging.selected_step (h : Staging s) (hc : Custody env.closed s) (hs : Sound s)
    (hd : s.Does env a w m) (hi : i < s.nTasks)
    (hpc : (((s.apply env w).move m).task i).pc.restores = true) :
    ∃ g, (w.task s i).staged.snapshot = some g ∧
      (w.stageIn s (s.task i).identity).localGeneration < g := by
  by_cases hA : m.agent = some (.task i)
  · cases hd with
    | @task k r _ pc' hstep =>
      cases hA
      have hd : s.Does env (.task i r) w (.task i pc') := .task hstep
      have hpc' : pc'.restores = true := by simpa [Move.pc] using hpc
      rcases taskStep_restores hstep hpc' with ⟨hold, rfl, hsel⟩ | ⟨hold, hstaged⟩
      · obtain ⟨g, hg, hlt⟩ := selectSource_snapshot hsel (h.request _) (h.inspected i)
        exact ⟨g, by simpa [Write.task] using hg, hlt⟩
      · obtain ⟨g, hg, hlt⟩ := h.selected i hold
        rw [hc.stageIn_eq hs hd hi (TaskPc.restores_live hold), hstaged]
        exact ⟨g, hg, hlt⟩
    | _ => cases hA
  · have hold : (s.task i).pc.restores = true := by
      simpa [Move.pc_of_agent hA, task_pc s i w hi.ne] using hpc
    have hstaged : (w.task s i).staged = (s.task i).staged := task_staged hi.ne
      fun result hw => by
        subst hw
        obtain ⟨⟨pc, rfl⟩, -⟩ := hd.stages
        exact hA rfl
    obtain ⟨g, hg, hlt⟩ := h.selected i hold
    rw [hc.stageIn_eq hs hd hi (TaskPc.restores_live hold), hstaged]
    exact ⟨g, hg, hlt⟩

theorem Staging.does (h : Staging s) (hc : Custody env.closed s) (hs : Sound s)
    (hd : s.Does env a w m) : Staging ((s.apply env w).move m) where
  committed sn hsn := by
    simp only [move_snapshot, apply_snapshot] at hsn
    cases w with
    | commitSnapshot sn' =>
      cases hsn
      obtain ⟨t, r, j, at', info, -, hpc, hgen, -⟩ := hd.puts
      rw [hgen]
      exact h.persists t j _ hpc
    | deleteSnapshot => cases hsn
    | _ => exact h.committed sn hsn
  disk dir hdir := h.disk_step hd (by simpa using hdir)
  persists := h.persists_step hd
  request l hl := by
    simp only [move_locals, apply_stageIn] at hl ⊢
    exact h.request_step l hl
  inspected i g hg := h.inspected_step hd i g (by simpa using hg)
  selected i hpc := by
    by_cases hi : i < s.nTasks
    · simpa [task_identity s i w hi.ne] using h.selected_step hc hs hd hi hpc
    · -- an initialization that was just accepted is not about to restore
      exfalso
      revert hpc
      refine hd.forall_tasks (P := fun i pc => ¬i < s.nTasks → pc.restores ≠ true) ?_ ?_ ?_ i hi
      · intro i _ _ hi hpc
        rw [hs.grounded.unborn i (Nat.le_of_not_lt hi)] at hpc
        cases hpc
      · exact fun i r pc _ hstep hi => absurd (hs.grounded.born (taskStep_ne_finished hstep)) hi
      · intro _ _ _ hpc
        cases hpc

theorem staging_boot {disk : Disk} {snapshot : Option Snapshot}
    (hdisk : ∀ dir, disk.dir = some dir → dir.Counted)
    (hgen : ∀ sn, snapshot = some sn → 0 < sn.generation ∧ sn.tree.Counted) :
    Staging (boot env disk snapshot) := by
  constructor
  case disk => exact hdisk
  case committed => exact hgen
  case request => exact fun l _ => rfl
  case persists =>
    intro t j q hq
    cases hq
  case inspected =>
    intro i g hg
    cases hg
  case selected =>
    intro i hi
    cases hi

end Hostel.Bed
