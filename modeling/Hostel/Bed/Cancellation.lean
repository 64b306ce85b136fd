/-
# Hostel.Bed.Cancellation — an eviction that reports success while an initialization is in flight.

`Evict` answers `true` when it finished a retirement, removed a failed entry, or cancelled an
initialization and saw it end.  An allocation that no map holds and whose initialization can no
longer put it there has *departed*; an eviction reports success only when every allocation that was
there before it has.

The third way needs more than the source makes sure of.  An initialization looks at its context
once, before it publishes, and a rollback that fails leaves the allocation in `retirements`; the
eviction then sees an ended initialization all the same (`Revocable` excludes both).
-/
import Hostel.Bed.Entries

namespace Hostel.Bed

open Store Option Slot TaskPc Move

/-! ## Allocations that cannot come back -/

/-- The allocation is not resident, and its initialization will not make it so. -/
structure Slot.Withdrawn (s : Slot) (i : TaskId) : Prop where
  bed : s.bed ≠ some i
  role : (s.task i).pc.role ≠ .live

/-- The allocation is in neither map, and its initialization will not put it there. -/
structure Slot.Departed (s : Slot) (i : TaskId) : Prop extends s.Withdrawn i where
  retirement : s.retirement ≠ some i

/-- The initialization is past its one look at its context. -/
def TaskPc.committed : TaskPc → Bool
  | .announce | .publish => true
  | _ => false

def TeardownPc.failing : TeardownPc → Bool
  | .failed _ | .ret (some _) => true
  | _ => false

/-- The rollback of the initialization failed, which it is about to report. -/
def TaskPc.stranding : TaskPc → Bool
  | .undo _ q => q.failing
  | .strand _ => true
  | .rollback _ q => q.failing
  | .unlock _ (some _) => true
  | _ => false

/-- The initialization calls what a rollback consists of. -/
def TaskPc.undoing : TaskPc → Bool
  | .undo _ _ | .acquire _ | .rollback _ _ => true
  | _ => false

/-- The initialization was cancelled in time: it prepares still, or rolls back without a failure. -/
structure Slot.Revoked (s : Slot) (i : TaskId) : Prop where
  canceled : (s.task i).canceled ≠ none
  working : (s.task i).pc.working = true
  committed : (s.task i).pc.committed = false
  stranding : (s.task i).pc.stranding = false

/-- An eviction cancels no initialization that is past its look at the context or whose rollback
failed, and no rollback of a cancelled initialization fails. -/
def Revocable (_ : Env) (s : Slot) : Act → Prop
  | .thread t _ =>
    match s.threads t, s.initializing with
    | .evict _ .cancel, some i =>
      (s.task i).pc.committed = false ∧ (s.task i).pc.stranding = false ∧
        ((s.task i).pc.role = .closing → s.retirement ≠ some i)
    | _, _ => True
  | .task i r => (s.task i).canceled ≠ none → (s.task i).pc.undoing = true → r.fault = none
  | _ => True

instance (env : Env) (s : Slot) (a : Act) : Decidable (Revocable env s a) := by
  induction a using Act.casesOn <;> dsimp only [Revocable] <;> try infer_instance
  case thread t r =>
    generalize s.threads t = th, s.initializing = o
    induction th using Thread.casesOn <;> try infer_instance
    case evict cutoff pc => induction pc using EvictPc.casesOn <;>
      induction o using Option.casesOn <;> infer_instance

variable {env : Env} {r : Reply} {s : Slot} {a : Act} {w : Write} {m : Move} {closed : Bool}
  {i j : TaskId} {t : ThreadId}

theorem taskStep_role_ne_live {pc pc' : TaskPc} (h : taskStep env r s i pc = some (w, pc'))
    (hrole : pc.role ≠ .live) : pc'.role ≠ .live := by
  revert h
  fun_cases taskStep env r s i pc <;> intro h
  case case28 f =>
    cases h
    cases f <;> simp [Fault.join, role]
  all_goals first
    | exact absurd rfl hrole
    | (obtain ⟨_, _, rfl⟩ := lift_eq_some.mp h; simp [role])
    | (cases h <;> simp [role])

theorem Slot.Does.role_ne_live (hd : s.Does env a w m) (hi : i < s.nTasks)
    (h : (s.task i).pc.role ≠ .live) : (((s.apply env w).move m).task i).pc.role ≠ .live := by
  refine hd.forall_tasks
    (P := fun i pc => i < s.nTasks → (s.task i).pc.role ≠ .live → pc.role ≠ .live) ?_ ?_ ?_ i hi h
  · exact fun i _ _ _ h => h
  · exact fun i r pc _ hstep _ h => taskStep_role_ne_live hstep h
  · exact fun _ _ h => absurd h (Nat.lt_irrefl _)

theorem Slot.Withdrawn.step (h : s.Withdrawn i) (hd : s.Does env a w m) (hi : i < s.nTasks) :
    ((s.apply env w).move m).Withdrawn i := by
  refine ⟨?_, hd.role_ne_live hi h.role⟩
  simp only [move_bed, apply_bed]
  cases w with
  | publish k ready =>
    rintro ⟨⟩
    exact h.role (by rw [hd.publishes.2.1]; rfl)
  | retire k | takeForPurge k => simp [Write.bed]
  | _ => exact h.bed

theorem Slot.Departed.step (h : s.Departed i) (hd : s.Does env a w m) (hi : i < s.nTasks) :
    ((s.apply env w).move m).Departed i := by
  refine ⟨h.toWithdrawn.step hd hi, ?_⟩
  simp only [move_retirement, apply_retirement]
  cases w with
  | insertRetirement k =>
    rintro ⟨⟩
    obtain ⟨-, err, hpc | hpc⟩ := hd.inserts <;> exact h.role (by rw [hpc]; rfl)
  | retire k =>
    rintro ⟨⟩
    exact h.bed hd.retires.2.2.1
  | takeForPurge k =>
    rintro ⟨⟩
    exact h.bed hd.takes.2
  | deleteRetirement => simp [Write.retirement]
  | _ => exact h.retirement

/-! ## What the maps say about an allocation -/

section

variable (hc : Custody closed s)
include hc

theorem Custody.owner_of_live (h : (s.task i).pc.role = .live) : s.Owner i :=
  hc.owner_of_working (by simp [working, h])

theorem Custody.withdrawn_of_retired (h : s.retirement = some i) : s.Withdrawn i := by
  refine ⟨by rw [hc.vacant_of_retired h]; simp, fun hlive => ?_⟩
  rw [(hc.tasks i).live hlive] at h
  cases h

theorem Custody.departed_of_entry (hne : j ≠ i)
    (h : s.bed = some j ∨ s.retirement = some j ∨ s.Owner j) : s.Departed i := by
  have hji : some j ≠ some i := fun he => hne (some.inj he)
  rcases h with hbed | hret | hown
  · refine ⟨⟨by rwa [hbed], fun hlive => ?_⟩, by rw [(hc.bed j hbed).1]; simp⟩
    rw [(hc.owned (hc.owner_of_live hlive)).bed] at hbed
    cases hbed
  · refine ⟨⟨by rw [hc.vacant_of_retired hret]; simp, fun hlive => ?_⟩, by rwa [hret]⟩
    rw [(hc.tasks i).live hlive] at hret
    cases hret
  · refine ⟨⟨by rw [(hc.owned hown).bed]; simp, fun hlive => ?_⟩, ?_⟩
    · exact hne (hc.owner_eq hown (hc.owner_of_live hlive))
    · rcases hc.owner_retirement hown with hnone | hsome
      · simp [hnone]
      · rwa [hsome]

theorem Custody.departed_of_failed {k : TaskId}
    (hk : s.initialization = some k) (hphase : s.phase k ≠ .initializing) : s.Departed i := by
  obtain hown | ⟨-, hbed, hret⟩ := hc.entry k hk
  · exact absurd (hc.owned hown).phase hphase
  · refine ⟨⟨by simp [hbed], fun hlive => ?_⟩, by simp [hret]⟩
    have howned := hc.owned (hc.owner_of_live hlive)
    cases hk.symm.trans howned.initialization
    exact hphase howned.phase

end

theorem Slot.Withdrawn.departed (h : s.Withdrawn i) (hret : s.retirement ≠ some i) :
    s.Departed i := ⟨h, hret⟩

/-! ## A cancelled initialization -/

theorem Write.task_canceled (hi : i ≠ s.nTasks) (h : (s.task i).canceled ≠ none) :
    (w.task s i).canceled ≠ none := by
  cases w with
  | cancelInitialization k err =>
    simp only [Write.task]
    split_ifs
    · obtain ⟨f, hf⟩ := ne_none_iff_exists'.mp h
      simp [hf]
    · exact h
  | accept | finishInitialization | stage => simpa [Write.task, hi, apply_ite] using h
  | _ => exact h

theorem teardownStep_failing {q q' : TeardownPc} (h : teardownStep env r s j q = some (w, q'))
    (hr : r.fault = none) (hq : q.failing = false) : q'.failing = false := by
  revert h
  fun_cases teardownStep env r s j q <;> intro h
  all_goals first
    | (cases h; rfl)
    | (simp_all; done)
    | cases hq

/-- A cancelled initialization rolls back, and its rollback removes what it put into
`retirements`. -/
theorem taskStep_revoked {pc pc' : TaskPc} (h : taskStep env r s i pc = some (w, pc'))
    (hcancel : (s.task i).canceled ≠ none) (hwork : pc.working = true)
    (hcommit : pc.committed = false) (hstrand : pc.stranding = false)
    (hr : pc.undoing = true → r.fault = none) :
    (pc'.working = true ∧ pc'.committed = false ∧ pc'.stranding = false) ∨
      pc'.role = .closing ∧ (pc.role = .live ∧ w = .skip ∨ w = .deleteRetirement) := by
  revert h
  fun_cases taskStep env r s i pc <;> intro h
  case case6 stage _ =>
    rcases stageStep_next (some.inj h) with ⟨_, rfl⟩ | rfl | rfl <;> exact .inl ⟨rfl, rfl, rfl⟩
  case case9 | case22 =>
    obtain ⟨q', hsub, rfl⟩ := lift_eq_some.mp h
    exact .inl ⟨rfl, rfl, teardownStep_failing hsub (hr rfl) hstrand⟩
  case case12 hnone => exact absurd hnone hcancel
  case case18 hfault => rw [hr rfl] at hfault; cases hfault
  case case21 cleanupErr =>
    cases h
    cases cleanupErr with
    | none => exact .inl ⟨rfl, rfl, rfl⟩
    | some f => cases hstrand
  case case30 err _ => cases err <;> cases hwork
  all_goals first
    | (cases hwork; done)
    | (cases hcommit; done)
    | (cases hstrand; done)
    | (cases h; done)
    | (cases h; exact .inl ⟨rfl, rfl, rfl⟩)
    | (cases h; exact .inr ⟨rfl, .inl ⟨rfl, rfl⟩⟩)
    | (cases h; exact .inr ⟨rfl, .inr rfl⟩)

theorem Custody.revoked_step (hc : Custody closed s) (hd : s.Does env a w m)
    (hcond : Revocable env s a) (hi : i < s.nTasks) (h : s.Revoked i) :
    ((s.apply env w).move m).Revoked i ∨ ((s.apply env w).move m).Departed i := by
  have hcancel : (((s.apply env w).move m).task i).canceled ≠ none := by
    simpa using Write.task_canceled hi.ne h.canceled
  by_cases hA : m.agent = some (.task i)
  · cases hd with
    | @task k r _ pc' hstep =>
      cases hA
      rcases taskStep_revoked hstep h.canceled h.working h.committed h.stranding
        (hcond h.canceled) with ⟨hwork, hcommit, hstrand⟩ | ⟨hrole, hend⟩
      · exact .inl ⟨hcancel, by simpa [pc] using hwork, by simpa [pc] using hcommit,
          by simpa [pc] using hstrand⟩
      · -- the allocation was in no map, or the rollback has just removed it from `retirements`
        have hbed := (hc.owned (hc.owner_of_working h.working)).bed
        refine .inr ⟨⟨?_, by simp [pc, hrole]⟩, ?_⟩
        · rcases hend with ⟨-, rfl⟩ | rfl <;> simp [Write.bed, hbed]
        · rcases hend with ⟨hlive, rfl⟩ | rfl
          · simp [Write.retirement, (hc.tasks i).live hlive]
          · simp [Write.retirement]
    | _ => cases hA
  · have hpc : (((s.apply env w).move m).task i).pc = (s.task i).pc := by
      simp [pc_of_agent hA, Write.task_pc s i w hi.ne]
    exact .inl ⟨hcancel, by rw [hpc, h.working], by rw [hpc, h.committed], by rw [hpc, h.stranding]⟩

/-! ## One eviction -/

def RetirePc.succeeded : RetirePc → Bool
  | .release true none | .ret true none => true
  | _ => false

/-- What an eviction knows about allocation `i` where it stands. -/
def EvictPc.Knows (s : Slot) (i : TaskId) : EvictPc → Prop
  | .lookup | .cancel => True
  | .await k => k = i ∧ s.Revoked i ∨ s.Departed i
  | .retire k _ q => k = i ∧ s.Withdrawn i ∧ q.succeeded = false ∨ s.Departed i
  | .handoff k => k = i ∧ s.Withdrawn i ∨ s.Departed i
  | .recover _ x | .restart _ x | .resume _ x | .readiness _ x | .unlock _ x =>
    x.evicted = true → x.err = none → s.Departed i
  | .returned evicted err => evicted = true → err = none → s.Departed i
  | .acquire k | .fence k | .stop k _ | .quiesce k _ | .persist k _ _ | .decide k _ =>
    k = i ∨ s.Departed i

theorem Slot.Departed.knows (h : s.Departed i) (pc : EvictPc) : pc.Knows s i := by
  cases pc <;> first | trivial | exact .inr h | exact fun _ _ => h

theorem EvictPc.Knows.step {pc : EvictPc} (h : pc.Knows s i) (hc : Custody closed s)
    (hd : s.Does env a w m) (hcond : Revocable env s a) (hi : i < s.nTasks) :
    pc.Knows ((s.apply env w).move m) i := by
  cases pc with
  | lookup | cancel => trivial
  | await k =>
    rcases h with ⟨rfl, h⟩ | h
    · exact (hc.revoked_step hd hcond hi h).imp (fun h => ⟨rfl, h⟩) id
    · exact .inr (h.step hd hi)
  | retire k resident q =>
    exact h.imp (fun h => ⟨h.1, h.2.1.step hd hi, h.2.2⟩) fun h => h.step hd hi
  | handoff k => exact h.imp (fun h => ⟨h.1, h.2.step hd hi⟩) fun h => h.step hd hi
  | acquire | fence | stop | quiesce | persist | decide => exact h.imp id fun h => h.step hd hi
  | _ => exact fun hev herr => (h hev herr).step hd hi

variable {cutoff : Option Time}

theorem Custody.knows_lookup (hc : Custody closed s) {pc' : EvictPc}
    (h : evictStep env r s t cutoff .lookup = some (w, pc')) : w = .skip ∧ pc'.Knows s i := by
  simp only [evictStep] at h
  split at h
  · next j hret =>
    cases h
    refine ⟨rfl, ?_⟩
    by_cases hj : j = i
    · subst hj
      exact .inl ⟨rfl, hc.withdrawn_of_retired hret, rfl⟩
    · exact .inr (hc.departed_of_entry hj (.inr (.inl hret)))
  · next j _ hbed =>
    cases h
    refine ⟨rfl, ?_⟩
    by_cases hj : j = i
    · exact .inl hj
    · exact .inr (hc.departed_of_entry hj (.inl hbed))
  · cases h
    exact ⟨rfl, trivial⟩

theorem Custody.knows_cancel (hc : Custody closed s) {pc' : EvictPc}
    (h : evictStep env r s t cutoff .cancel = some (w, pc'))
    (hcond : ∀ k, s.initializing = some k → (s.task k).pc.committed = false ∧
      (s.task k).pc.stranding = false ∧ ((s.task k).pc.role = .closing → s.retirement ≠ some k)) :
    s.Departed i ∨ pc' = .returned false none ∨
      w = .cancelInitialization i .cancel ∧ pc' = .await i ∧
        (s.task i).pc.working = true ∧ (s.task i).pc.committed = false ∧
        (s.task i).pc.stranding = false := by
  simp only [evictStep, cancelTarget] at h
  cases hini : s.initialization with
  | none =>
    rw [hini] at h
    cases h
    exact .inr (.inl rfl)
  | some k =>
    rw [hini] at h
    simp only [map_some] at h
    by_cases hphase : s.phase k = .initializing
    · rw [if_pos hphase] at h
      cases h
      have hk : s.initializing = some k := initializing_eq_some.mpr ⟨hini, hphase⟩
      have hown := hc.owner_of_initializing hk
      by_cases hki : k = i
      · subst hki
        obtain ⟨hcommit, hstrand, hclosing⟩ := hcond k hk
        cases hrole : (s.task k).pc.role with
        | live | rolling =>
          exact .inr (.inr ⟨rfl, rfl, by simp [working, hrole], hcommit, hstrand⟩)
        | closing =>
          exact .inl ⟨⟨by rw [(hc.owned hown).bed]; simp, by simp [hrole]⟩, hclosing hrole⟩
        | out =>
          have hout := hown.1
          rw [role_eq_out hrole] at hout
          cases hout
      · exact .inl (hc.departed_of_entry hki (.inr (.inr hown)))
    · exact .inl (hc.departed_of_failed hini hphase)

theorem retireStep_succeeded {A : Agent} {q q' : RetirePc}
    (h : retireStep env r s A j q = some (w, q')) (hq : q.succeeded = false)
    (hq' : q'.succeeded = true) : w.retirement s ≠ some j := by
  revert h
  fun_cases retireStep env r s A j q <;> intro h
  case case14 evicted err =>
    cases h
    cases evicted <;> cases err <;> first | (cases hq'; done) | cases hq
  all_goals first
    | (obtain ⟨_, _, rfl⟩ := lift_eq_some.mp h; cases hq')
    | (cases h; cases hq'; done)
    | (cases h <;> first | assumption | simp [Write.retirement])

theorem Custody.knows_own {pc pc' : EvictPc} (hc : Custody closed s)
    (hs : Sound s) (hth : s.threads t = .evict cutoff pc)
    (h : evictStep env r s t cutoff pc = some (w, pc')) (hcond : Revocable env s (.thread t r))
    (hi : i < s.nTasks) (hk : pc.Knows s i) :
    pc'.Knows ((s.apply env w).move (.thread t (.evict cutoff pc'))) i := by
  have hd : s.Does env (.thread t r) w (.thread t (.evict cutoff pc')) :=
    .thread (by rw [hth]; exact lift_eq_some.mpr ⟨pc', h, rfl⟩)
  have hgone (hgone : s.Departed i) := (hgone.step hd hi).knows pc'
  -- what the next program counter needs may be shown in the state before the step
  have hstay (hk' : pc'.Knows s i) :
      pc'.Knows ((s.apply env w).move (.thread t (.evict cutoff pc'))) i :=
    hk'.step hc hd hcond hi
  cases pc with
  | lookup => exact hstay (hc.knows_lookup h).2
  | cancel =>
    have hcond' : ∀ k, s.initializing = some k → (s.task k).pc.committed = false ∧
        (s.task k).pc.stranding = false ∧
        ((s.task k).pc.role = .closing → s.retirement ≠ some k) := fun k hk => by
      simpa [Revocable, hth, hk] using hcond
    rcases hc.knows_cancel (i := i) h hcond' with hdep | rfl | ⟨rfl, rfl, hwork, hcommit, hstrand⟩
    · exact hgone hdep
    · exact fun hev => by cases hev
    · refine .inl ⟨rfl, ?_, ?_, ?_, ?_⟩
      · cases hcan : (s.task i).canceled <;> simp [Write.task, hcan]
      all_goals simpa [pc, Write.task]
  | await k =>
    rcases hk with ⟨rfl, hrev⟩ | hdep
    · simp only [evictStep] at h
      split at h
      · cases h
        exact fun hev => by cases hev
      · split_ifs at h with hdone
        cases h
        -- an initialization that is done does not work any more
        have hwork := hrev.working
        rw [hc.done k hdone] at hwork
        cases hwork
    · exact hgone hdep
  | retire k resident q =>
    rcases hk with ⟨rfl, hwd, hq⟩ | hdep
    · by_cases hret : ∃ evicted err, q = .ret evicted err
      · obtain ⟨evicted, err, rfl⟩ := hret
        have hno : evicted = true → err = none → s.Departed k := by
          rintro rfl rfl
          cases hq
        cases resident <;> cases h <;> exact hstay hno
      · obtain ⟨q', hsub, rfl⟩ : ∃ q', retireStep env r s (.thread t) k q = some (w, q') ∧
            pc' = .retire k resident q' := by
          cases q <;> first | exact absurd ⟨_, _, rfl⟩ hret | exact lift_eq_some.mp h
        cases hq' : q'.succeeded with
        | false => exact .inl ⟨rfl, hwd.step hd hi, hq'⟩
        | true =>
          exact .inr ((hwd.step hd hi).departed (by simpa using retireStep_succeeded hsub hq hq'))
    · exact hgone hdep
  | decide k seq =>
    rcases hk with rfl | hdep
    · simp only [evictStep] at h
      split_ifs at h with hrefuse
      · cases h
        exact fun hev => by cases hev
      · cases h
        push Not at hrefuse
        -- a resident allocation was published
        have hout := hs.active.resident k hrefuse.2.1
        refine .inl ⟨rfl, by simp [Write.bed], ?_⟩
        refine hd.role_ne_live hi fun hlive => ?_
        rw [(hc.owner_of_live hlive).1] at hout
        cases hout
    · exact hgone hdep
  | handoff k =>
    cases h
    exact hk.imp (fun hk => ⟨hk.1, hk.2.step hd hi, rfl⟩) fun hk => hk.step hd hi
  | persist k seq q =>
    rcases hk with rfl | hdep
    · cases q with
      | ret err =>
        cases err <;> cases h
        · exact .inl rfl
        · exact fun hev => by cases hev
      | _ =>
        obtain ⟨q', -, rfl⟩ := lift_eq_some.mp h
        exact .inl rfl
    · exact hgone hdep
  | acquire k | fence k | stop k seq | quiesce k seq =>
    rcases hk with rfl | hdep
    · simp only [evictStep] at h
      split at h <;> first
        | (cases h; first | exact .inl rfl | exact fun hev => by cases hev)
        | (split_ifs at h; cases h; exact .inl rfl)
    · exact hgone hdep
  | recover k x | unlock k x =>
    simp only [evictStep] at h
    split_ifs at h <;> cases h <;> exact hstay hk
  | restart k x =>
    cases h
    refine hstay fun hev herr => hk hev ?_
    cases hx : x.err with
    | none => rfl
    | some f =>
      rw [hx] at herr
      cases hr : r.fault <;> rw [hr] at herr <;> cases herr
  | resume k x | readiness k x =>
    cases h
    exact hstay hk
  | returned evicted err => cases h

/-! ## Every run -/

def CancelsInTime (env : Env) (s : Slot) (a : Act) : Prop := NoTakeover env s a ∧ Revocable env s a

instance (env : Env) (s : Slot) (a : Act) : Decidable (CancelsInTime env s a) := by
  unfold CancelsInTime
  infer_instance

namespace Manager

variable {ν : Type} [DecidableEq ν] {config : Config} {now : Time} {disk : ν → Disk}
  {snapshot : ν → Option Snapshot} {τ : List (Manager ν × Event ν)} {d d' : Manager ν}

theorem knows_of_trace {τ₀ : List (Manager ν × Event ν)} {n : ν} {i : TaskId}
    (h₀ : (machine ν).Trace (boot config now disk snapshot) τ₀ d)
    (h₁ : d.step (.act n .evict) = some d') {d'' : Manager ν} (h : (machine ν).Trace d' τ d'')
    (hC : ∀ e ∈ τ₀ ++ (d, .act n .evict) :: τ, Meets CancelsInTime e) (hi : i < (d.slot n).nTasks) :
    i < (d''.slot n).nTasks ∧ ∃ pc, (d''.slot n).threads (d.slot n).nThreads = .evict none pc ∧
      pc.Knows (d''.slot n) i := by
  induction h with
  | nil =>
    obtain ⟨s', e, hact, rfl⟩ := step_act h₁
    obtain ⟨w, m, hplan, -, rfl, -⟩ := step_plan hact
    cases hplan
    exact ⟨by simpa [Write.nTasks] using hi, .lookup, by simp, trivial⟩
  | @snoc τ d₂ d₃ ev hτ hstep ih =>
    have hpre : ∀ e ∈ τ₀ ++ (d, .act n .evict) :: τ, Meets CancelsInTime e := fun e he =>
      hC e (by simp only [List.mem_append, List.mem_cons] at he ⊢; tauto)
    obtain ⟨hi', pc, hth, hk⟩ := ih hpre
    rcases step_slot hstep n with ⟨hsame, -⟩ | ⟨a, e, rfl, hact⟩
    · rw [hsame]
      exact ⟨hi', pc, hth, hk⟩
    · -- an action on the name: the eviction moves, or somebody else does
      have hall := h₀.append ((trace_step h₁).append hτ)
      obtain ⟨hs, hc⟩ := custody_of_trace hall (fun e he => (hpre e he).imp fun _ _ _ h => h.1) n
      have hcond : CancelsInTime (d₂.env n) (d₂.slot n) a := hC (d₂, .act n a) (by simp)
      obtain ⟨w, m, hd, hs', -⟩ := step_does hact
      rw [hs']
      refine ⟨by simpa using hi'.trans_le (w.le_nTasks _), ?_⟩
      rcases hd.thread_cases (t := (d.slot n).nThreads) hs.grounded (by simp [hth]) with
        hkeep | ⟨r, th, rfl, rfl, hown, hnew⟩
      · exact ⟨pc, hkeep.trans hth, hk.step hc hd hcond.2 hi'⟩
      · rw [hth] at hown
        obtain ⟨pc', hsub, rfl⟩ := lift_eq_some.mp hown
        exact ⟨pc', hnew, hc.knows_own hs hth hsub hcond.2 hi' hk⟩

/-- In every run in which no rollback is taken over and cancellation comes in time, an eviction that
reports success leaves no allocation of an initialization accepted before it in `beds` or in
`retirements`. -/
theorem eviction_leaves_nothing {τ₀ : List (Manager ν × Event ν)} {n : ν} {i : TaskId}
    (h : (machine ν).Trace (boot config now disk snapshot) (τ₀ ++ (d, .act n .evict) :: τ) d')
    (hC : ∀ e ∈ τ₀ ++ (d, .act n .evict) :: τ, Meets CancelsInTime e) (hi : i < (d.slot n).nTasks)
    (hret : (d'.slot n).threads (d.slot n).nThreads = .evict none (.returned true none)) :
    (d'.slot n).bed ≠ some i ∧ (d'.slot n).retirement ≠ some i := by
  obtain ⟨d₁, h₀, h₁, hrest⟩ := h.split_cons
  obtain ⟨-, pc, hth, hk⟩ := knows_of_trace h₀ h₁ hrest hC hi
  cases hret.symm.trans hth
  have hdep : (d'.slot n).Departed i := hk rfl rfl
  exact ⟨hdep.bed, hdep.retirement⟩

/-- Initialization 0 is cancelled when it is prepared, and rolls back before the eviction
returns. -/
theorem eviction_leaves_nothing_canceled :
    ∃ d d' : Manager Unit, (d.slot ()).initializing = some 0 ∧
      (d'.slot ()).threads (d.slot ()).nThreads = .evict none (.returned true none) ∧
      (d'.slot ()).bed ≠ some 0 ∧ (d'.slot ()).retirement ≠ some 0 := by
  obtain ⟨d, τ, d', hτ, hlog, hini, hborn, hret⟩ := (machine Unit).trace_through
    (bootEmpty plainConfig 5)
    (.act () (.initializeBed plainRequest) :: threadSteps () 0 3 ++ taskSteps () 0 27)
    (.act () .evict) (threadSteps () 1 2 ++ taskSteps () 0 29 ++ threadSteps () 1 1)
    (fun d _ d' => (d.slot ()).initializing = some 0 ∧ 0 < (d.slot ()).nTasks ∧
      (d'.slot ()).threads (d.slot ()).nThreads = .evict none (.returned true none))
    (by decide +kernel)
  have hC := Logic.Machine.forall_of_log (C := Meets CancelsInTime) hlog (by decide +kernel)
  obtain ⟨hbed, hretired⟩ := eviction_leaves_nothing hτ hC hborn hret
  exact ⟨d, d', hini, hret, hbed, hretired⟩

/-- `Evict` starts while initialization 0 is in flight and returns `(true, nil)`.  In the first run
0 has looked at its context when it is cancelled, and publishes its Bed; in the second its rollback
fails at the first hook, and the allocation is left in `retirements`. -/
theorem eviction_leaves_initialization :
    (∃ (τ₀ τ : List (Manager Unit × Event Unit)) (d d' : Manager Unit),
      (machine Unit).Trace (boot plainConfig 1 (fun _ => ⟨none, none⟩) (fun _ => none))
        (τ₀ ++ (d, .act () .evict) :: τ) d' ∧ (d.slot ()).initializing = some 0 ∧
      (d'.slot ()).threads (d.slot ()).nThreads = .evict none (.returned true none) ∧
      (d'.slot ()).bed = some 0) ∧
    ∃ (τ₀ τ : List (Manager Unit × Event Unit)) (d d' : Manager Unit),
      (machine Unit).Trace (boot plainConfig 1 (fun _ => ⟨none, none⟩) (fun _ => none))
        (τ₀ ++ (d, .act () .evict) :: τ) d' ∧ (d.slot ()).initializing = some 0 ∧
      (d'.slot ()).threads (d.slot ()).nThreads = .evict none (.returned true none) ∧
      (d'.slot ()).retirement = some 0 := by
  constructor
  · exact Logic.Machine.exists_trace_through
      (.act () (.initializeBed plainRequest) :: threadSteps () 0 3 ++ taskSteps () 0 28)
      (threadSteps () 1 2 ++ taskSteps () 0 3 ++ threadSteps () 1 1) (by decide +kernel)
  · exact Logic.Machine.exists_trace_through
      (.act () (.initializeBed plainRequest) :: threadSteps () 0 3 ++ taskSteps () 0 27)
      (threadSteps () 1 2 ++ taskSteps () 0 4 ++
        .act () (.task 0 (.fail .hook)) :: taskSteps () 0 4 ++ threadSteps () 1 1) (by
        decide +kernel)

end Manager

end Hostel.Bed
