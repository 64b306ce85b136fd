/-
# Hostel.Bed.Observation — a declared Bed is observable until its identity is removed.

`ObserveBed` looks for a name in `beds`, `purges`, `retirements` and `initializations`, in one
critical section.  The identity hops between the four in sections of different goroutines, and each
leaves the name in one of them (`Tracked.present_plan`), except the sections that end the identity
(`Removes`), as long as no rollback is taken over.
-/
import Hostel.Bed.Inventory
import Hostel.Bed.LocalData

namespace Hostel.Bed

open Store Logic Option Slot

/-! ## `ObserveBed` -/

/-- `BedStatus`: what a transition shows of a lifecycle. -/
structure BedStatus where
  phase : Phase
  ready : Bool
  reason : String
  deriving DecidableEq, Repr

/-- `BedObservation`: the handle of a resident Bed, or the status of a transition. -/
inductive Observation
  | resident (j : TaskId)
  | transition (status : BedStatus)
  deriving DecidableEq, Repr

def lifecycleView (st : LifecycleStatus) : BedStatus :=
  { phase := st.phase, ready := st.ready, reason := st.reason }

def Slot.initializationStatus (env : Env) (s : Slot) : Option BedStatus :=
  if s.purge.isSome then some { phase := .purging, ready := false, reason := "Purging" }
  else ((s.retirement.or (s.prunedInitialization env)).map fun i => lifecycleView (s.lifecycle i))

def Slot.observeBed (env : Env) (s : Slot) : Option Observation :=
  match s.bed with
  | some j => some (.resident j)
  | none => (s.initializationStatus env).map .transition

/-- The name is in one of the four maps. -/
def Slot.Observable (s : Slot) : Prop :=
  s.bed ≠ none ∨ s.purge ≠ none ∨ s.retirement ≠ none ∨ s.initialization ≠ none

/-- A name in one of the maps is observed, unless the observation itself prunes a failed entry. -/
theorem Slot.Observable.observed {env : Env} {s : Slot} (h : s.Observable)
    (hprune : Act.prune.plan env s = none) :
    ∃ o, s.observeBed env = some o ∧ ∀ j, o = .resident j ↔ s.bed = some j := by
  cases hbed : s.bed with
  | some k => exact ⟨.resident k, by simp [observeBed, hbed], by simp⟩
  | none =>
    have hkeep : s.prunedInitialization env = s.initialization := by
      cases hini : s.initialization with
      | none => simp [prunedInitialization, hini]
      | some i =>
        simpa [prunedInitialization, Act.plan, hini, filter_eq_some_iff, imp_iff_not_or]
          using hprune
    obtain ⟨st, hst⟩ : ∃ st, s.initializationStatus env = some st := by
      unfold initializationStatus
      rw [hkeep, ← isSome_iff_exists]
      rcases h with h | h | h | h
      · exact absurd hbed h
      all_goals
        obtain ⟨x, hx⟩ := ne_none_iff_exists'.mp h
        split <;> simp_all
    exact ⟨.transition st, by simp [observeBed, hbed, hst], by simp⟩

/-! ## The sections that end an identity -/

/-- The write takes an entry of the name out of its map. -/
def Write.drops : Write → Bool
  | .deleteInitialization | .deleteRetirement | .removeFence => true
  | .finishInitialization _ _ delete _ => delete
  | _ => false

/-- Where `Evict` dismisses an entry, an eviction or a purge ends, or a retry request takes the
place of a failed entry. -/
def Thread.removes : Thread → Bool
  | .evict _ .cancel | .evict _ (.retire _ _ .drop) | .close (.retire _ _ .drop)
  | .purge (.finish _) | .create _ (.accept _) => true
  | _ => false

/-- Where a cancelled initialization ends. -/
def TaskPc.removes : TaskPc → Bool
  | .finishFinal (some f) _ => f.canceled
  | _ => false

/-- The action stands where an identity is ended, or prunes a failed entry. -/
def Act.removes (s : Slot) : Act → Bool
  | .prune => true
  | .task i _ => (s.task i).pc.removes
  | .thread t _ => (s.threads t).removes
  | _ => false

/-- The action ends the identity of the name: it stands where that is done, and takes the entry
out. -/
def Removes (env : Env) (s : Slot) (a : Act) : Prop :=
  a.removes s = true ∧ (a.plan env s).any (·.1.drops) = true

instance (env : Env) (s : Slot) (a : Act) : Decidable (Removes env s a) :=
  inferInstanceAs (Decidable (_ ∧ _))

variable {env : Env} {r : Reply} {s : Slot} {a : Act} {w : Write} {m : Move} {closed : Bool}
  {j : TaskId} {t : ThreadId} {th th' : Thread}

theorem retireStep_dismisses {A : Agent} {q q' : RetirePc} :
    retireStep env r s A j q ≠ some (.deleteInitialization, q') := by
  fun_cases retireStep env r s A j q <;> intro h
  all_goals first
    | (obtain ⟨_, hsub, rfl⟩ := lift_eq_some.mp h
       first | exact teardownStep_permit hsub | exact cleanStep_permit hsub)
    | cases h

/-- An entry of `initializations` is deleted by `Evict`, by a retry request, or behind a purge
fence. -/
theorem threadStep_dismisses (h : threadStep env r s t th = some (.deleteInitialization, th')) :
    (∃ cutoff, th = .evict cutoff .cancel) ∨ (∃ req sel, th = .create req (.accept sel)) ∨
      th.fenced = true := by
  cases threadStep_inv h with
  | create req pc _ hsub =>
    revert hsub
    fun_cases createStep env r s req pc <;> intro hsub
    case case8 => exact .inr (.inl ⟨_, _, rfl⟩)
    all_goals cases hsub
  | evict cutoff pc _ hsub =>
    revert hsub
    fun_cases evictStep env r s t cutoff pc <;> intro hsub
    all_goals first
      | exact .inl ⟨_, rfl⟩
      | (obtain ⟨_, hq, rfl⟩ := lift_eq_some.mp hsub
         first | exact (retireStep_dismisses hq).elim | exact (persistStep_permit hq).elim)
      | cases hsub
  | purge pc _ hsub =>
    revert hsub
    fun_cases purgeStep env r s t pc <;> intro hsub
    all_goals first | exact .inr (.inr rfl) | cases hsub
  | close pc _ hsub =>
    revert hsub
    fun_cases closeStep env r s t pc <;> intro hsub
    all_goals first
      | (obtain ⟨_, hq, rfl⟩ := lift_eq_some.mp hsub
         first | exact (retireStep_dismisses hq).elim | exact (teardownStep_permit hq).elim)
      | cases hsub
  | checkpoint k pc _ hsub =>
    revert hsub
    fun_cases checkpointStep env r s t k pc <;> intro hsub
    all_goals first
      | (obtain ⟨_, hq, rfl⟩ := lift_eq_some.mp hsub; exact (persistStep_permit hq).elim)
      | cases hsub
  | sync k pc _ hsub =>
    revert hsub
    fun_cases syncStep r s t k pc <;> intro hsub
    all_goals first
      | (obtain ⟨_, hq, rfl⟩ := lift_eq_some.mp hsub; exact (persistStep_permit hq).elim)
      | cases hsub
  | shell k pc _ hsub => simpa using shellStep_writes hsub
  | collect l pc _ hsub => exact (cleanStep_permit hsub).elim

/-! ## One step -/

/-- The invariant: besides custody, an initialization that published has left its entry. -/
structure Tracked (closed : Bool) (s : Slot) : Prop where
  sound : Sound s
  custody : Custody closed s
  published : ∀ i reason, (s.task i).pc = .finishFinal none reason → s.initialization ≠ some i

theorem Tracked.does (h : Tracked env.closed s) (hd : s.Does env a w m) (hno : NoTakeover env s a) :
    Tracked env.closed ((s.apply env w).move m) := by
  refine ⟨h.sound.does hd, h.custody.does h.sound hd hno, ?_⟩
  have hback : ∀ i, i ≠ s.nTasks → w.initialization s = some i → s.initialization = some i := by
    intro i hi hw
    cases w <;> simp only [Write.initialization] at hw <;> grind
  refine hd.forall_tasks (P := fun i pc => ∀ reason, pc = .finishFinal none reason →
    ((s.apply env w).move m).initialization ≠ some i) ?_ ?_ ?_
  · intro i _ hi reason hpc hini
    simp only [move_initialization, apply_initialization] at hini
    have hlt : i < s.nTasks := h.sound.grounded.born (by rw [hpc]; simp)
    exact h.published i reason hpc (hback i hlt.ne hini)
  · rintro i r pc rfl hstep reason rfl hini
    simp only [move_initialization, apply_initialization] at hini
    have hout : (s.task i).pc.out = false := by
      cases hpc : (s.task i).pc <;> rw [hpc] at hstep <;> first | rfl | cases hstep
    rcases taskStep_out hstep hout rfl with ⟨ready, rfl⟩ | ⟨f, reason', rfl⟩
    · cases hini
    · obtain ⟨-, reason'', hpc, -⟩ := taskStep_permit hstep
      rw [hpc] at hstep
      cases congrArg (Option.map Prod.snd) hstep
  · intro _ _ reason hpc
    cases hpc

theorem plan_dismisses (h : a.plan env s = some (.deleteInitialization, .stay)) : a = .prune := by
  revert h
  fun_cases Act.plan env s a <;> intro h
  all_goals first
    | rfl
    | cases h
    | (obtain ⟨_, _, ⟨⟩⟩ := lift_eq_some.mp h)

section

attribute [local simp] Slot.Observable Write.bed Write.retirement Act.removes Thread.removes

theorem Tracked.present_plan (h : Tracked env.closed s) (hp : s.Observable)
    (hplan : a.plan env s = some (w, m)) (hkeep : ¬Removes env s a) :
    ((s.apply env w).move m).Observable := by
  have hfence : ∀ t, (s.threads t).fenced = true → w.purge s = s.purge →
      ((s.apply env w).move m).Observable := fun t hf hw =>
    .inr (.inl (by simp [hw, (h.custody.threads t).fenced hf]))
  have hends : w.drops = true → a.removes s = true → False := fun hw ha =>
    hkeep ⟨ha, by rw [hplan]; exact hw⟩
  have hd := Act.plan_does hplan
  cases w with
  | accept | publish | insertRetirement | retire | takeForPurge | installFence =>
    simp [Write.purge]
  | deleteRetirement =>
    cases hd with
    | @task i _ _ _ hstep =>
      -- the rollback of an initialization, which is still the entry of its name
      obtain ⟨err, hpc⟩ := taskStep_permit hstep
      have hown : s.Owner i := h.custody.owner_of_pc hpc rfl rfl
      exact .inr (.inr (.inr (by simp [(h.custody.owned hown).initialization])))
    | @thread t _ _ _ hstep =>
      rcases threadStep_permit hstep with ⟨j, hret, -⟩ | ⟨b, hth⟩
      · refine (hends rfl ?_).elim
        show (s.threads t).removes = true
        revert hret
        fun_cases Thread.retiring (s.threads t) <;> intro hret <;> cases hret <;> rfl
      · exact hfence t (by rw [hth]; rfl) rfl
    | call hcall => exact hcall.elim
    | collect hcollect => exact hcollect.elim rfl
  | deleteInitialization =>
    cases hd with
    | task hstep => exact (taskStep_permit hstep).elim
    | @thread t _ _ _ hstep =>
      rcases threadStep_dismisses hstep with ⟨cutoff, hth⟩ | ⟨req, sel, hth⟩ | hf
      · exact (hends rfl (by simp [hth])).elim
      · exact (hends rfl (by simp [hth])).elim
      · exact hfence t hf rfl
    | call _ =>
      cases plan_dismisses hplan
      exact (hends rfl rfl).elim
    | collect hcollect => exact hcollect.elim rfl
  | removeFence =>
    obtain ⟨_, _, _, rfl, rfl, hstep⟩ := hd.by_thread (fun _ _ => id) id rfl
    obtain ⟨err, hth⟩ := threadStep_permit hstep
    exact (hends rfl (by simp [hth])).elim
  | finishInitialization k err delete st =>
    obtain ⟨i, _, _, rfl, rfl, hstep⟩ := hd.by_task (fun _ _ => id) id rfl
    obtain ⟨rfl, reason, hpc, hdec⟩ := taskStep_permit hstep
    have hkept : delete = false ∨ s.retirement ≠ none := by
      unfold finishDecision at hdec
      split at hdec
      · next hini =>
        cases err with
        | none => exact absurd hini (h.published _ reason hpc)
        | some f =>
          cases delete with
          | false => exact .inl rfl
          | true =>
            have hcancel : f.canceled = false := Bool.eq_false_iff.mpr fun hc =>
              hends rfl (by simp [hpc, TaskPc.removes, hc])
            simp only [hcancel] at hdec
            split at hdec
            · exact .inr (isSome_iff_ne_none.mp ‹_›)
            · exact .inl (congrArg Prod.fst hdec)
      · exact .inl (congrArg Prod.fst hdec)
    rcases hkept with rfl | hret
    · simpa [Write.purge] using hp
    · exact .inr (.inr (.inl (by simpa using hret)))
  | _ => simpa [Write.purge] using hp

end

/-! ## Every run -/

namespace Manager

variable {ν : Type} [DecidableEq ν] {config : Config} {now : Time} {disk : ν → Disk}
  {snapshot : ν → Option Snapshot} {τ τ₁ τ₂ : List (Manager ν × Event ν)} {d : Manager ν} {n : ν}
  {f : Manager ν × Event ν}

theorem tracked_at (h : (machine ν).Trace (boot config now disk snapshot) τ d)
    (hC : ∀ e ∈ τ, MeetsAt n NoTakeover e) : Tracked d.closed (d.slot n) := by
  refine slot_invariant_at (C := NoTakeover) (I := Tracked)
    (fun s hs => ⟨hs.sound, hs.custody.stop, hs.published⟩) ?_
    ⟨sound_boot _ _ _, custody_boot _ _ _, fun i reason hpc => by cases hpc⟩ h hC
  intro env s a s' e hs hno hstep
  obtain ⟨w, mv, hd, rfl, -⟩ := step_does hstep
  exact hs.does hd hno

/-- In every run in which no rollback of the name is taken over: from the section that accepts an
initialization until one that ends the identity, `ObserveBed` finds the name, as resident exactly
while it is in `beds`. -/
theorem bed_observed (h : (machine ν).Trace (boot config now disk snapshot) (τ₁ ++ f :: τ₂) d)
    (hC : ∀ e ∈ τ₁ ++ f :: τ₂, MeetsAt n NoTakeover e) (hf : Accepts n f)
    (hkeep : ∀ e ∈ τ₂, MeetsAt n (fun env s a => ¬Removes env s a) e)
    (hprune : Act.prune.plan (d.env n) (d.slot n) = none) :
    ∃ o, (d.slot n).observeBed (d.env n) = some o ∧ ∀ j, o = .resident j ↔
    (d.slot n).bed = some j := by
  obtain ⟨d₁, ev⟩ := f
  obtain ⟨d₂, h₁, hstep, h₂⟩ := h.split_cons
  obtain ⟨d₂', hstep', hborn⟩ := hf
  cases hstep.symm.trans hstep'
  have hstart : (d₂.slot n).Observable := by
    rcases step_slot hstep n with ⟨hsame, -⟩ | ⟨a, e, rfl, hact⟩
    · simp [hsame] at hborn
    · obtain ⟨w, m, -, hs', -⟩ := step_does hact
      rw [hs'] at hborn ⊢
      simp only [move_nTasks, apply_nTasks] at hborn
      refine .inr (.inr (.inr ?_))
      cases w <;> simp [Write.nTasks] at hborn ⊢
  have hbefore : ∀ e ∈ τ₁ ++ [(d₁, ev)], MeetsAt n NoTakeover e := fun e he =>
    hC e (by simp only [List.mem_append, List.mem_cons] at he ⊢; tauto)
  obtain ⟨-, hpresent⟩ := slot_invariant_at
    (C := fun env s a => NoTakeover env s a ∧ ¬Removes env s a)
    (I := fun closed s => Tracked closed s ∧ s.Observable)
    (fun s hs => ⟨⟨hs.1.sound, hs.1.custody.stop, hs.1.published⟩, hs.2⟩)
    (fun env s a s' e hs hc hact => by
      obtain ⟨w, mv, hplan, hd, rfl, -⟩ := step_plan hact
      exact ⟨hs.1.does hd hc.1, hs.1.present_plan hs.2 hplan hc.2⟩)
    ⟨tracked_at (h₁.snoc hstep) hbefore, hstart⟩ h₂
    (fun e he a ha => ⟨hC e (by simp [he]) a ha, hkeep e he a ha⟩)
  exact hpresent.observed hprune

/-- A Bed is evicted: while its retirement is torn down it is observed in a transition. -/
theorem bed_observed_retiring :
    ∃ d : Manager Unit, (d.slot ()).retirement = some 0 ∧
      ∃ o, (d.slot ()).observeBed (d.env ()) = some o ∧ ∀ j, o ≠ .resident j := by
  obtain ⟨d₀, τ, d, hτ, hlog, hacc, hkeep, hprune, hret, hbed⟩ := (machine Unit).trace_through
    (bootEmpty plainConfig 5)
    (.act () (.initializeBed plainRequest) :: threadSteps () 0 2) (.act () (.thread 0 .ok))
    (taskSteps () 0 31 ++ .act () .evict :: threadSteps () 1 22)
    (fun d₀ τ d => Accepts () (d₀, .act () (.thread 0 .ok)) ∧
      (∀ e ∈ τ, Meets (fun env s a => ¬Removes env s a) e) ∧
      Act.prune.plan (d.env ()) (d.slot ()) = none ∧
      (d.slot ()).retirement = some 0 ∧ (d.slot ()).bed = none)
    (by decide +kernel)
  have hC := Logic.Machine.forall_of_log (C := Meets NoTakeover) hlog (by decide +kernel)
  obtain ⟨o, ho, hres⟩ := bed_observed hτ (fun e he => (hC e he).at ()) hacc
    (fun e he => (hkeep e he).at ()) hprune
  refine ⟨d, hret, o, ho, fun j hj => ?_⟩
  rw [hres, hbed] at hj
  cases hj

/-- As in `leakSteps`, an eviction finishes the retirement of initialization 0 before 0 removes it.
The Bed of 1 is published and evicted; while it is torn down, 0 removes its retirement. -/
theorem takeover_hides :
    ∃ τ₁ f τ₂ d, (machine Unit).Trace (boot plainConfig 1 (fun _ => ⟨none, none⟩) (fun _ => none))
        (τ₁ ++ f :: τ₂) d ∧ Accepts () f ∧
      (∀ e ∈ τ₂, MeetsAt () (fun env s a => ¬Removes env s a) e) ∧
      (d.slot ()).initialization = none ∧ ((d.slot ()).alloc 1).runtimeClosed = false ∧
      (d.slot ()).observeBed (d.env ()) = none := by
  obtain ⟨d₀, τ, d, hτ, -, hacc, hkeep, hini, hopen, hgone⟩ := (machine Unit).trace_through
    (bootEmpty plainConfig 1)
    (.act () (.initializeBed plainRequest) :: threadSteps () 0 3 ++ taskSteps () 0 27 ++
      .act () (.expire 0) :: taskSteps () 0 21 ++ .act () .evict :: threadSteps () 1 17 ++
      .act () (.initializeBed plainRequest) :: threadSteps () 2 2) (.act () (.thread 2 .ok))
    (taskSteps () 1 31 ++ .act () .evict :: threadSteps () 3 22 ++ taskSteps () 0 1)
    (fun d₀ τ d => Accepts () (d₀, .act () (.thread 2 .ok)) ∧
      (∀ e ∈ τ, Meets (fun env s a => ¬Removes env s a) e) ∧
      (d.slot ()).initialization = none ∧ ((d.slot ()).alloc 1).runtimeClosed = false ∧
      (d.slot ()).observeBed (d.env ()) = none)
    (by decide +kernel)
  exact ⟨_, _, τ, d, hτ, hacc, fun e he => (hkeep e he).at (), hini, hopen, hgone⟩

end Manager

end Hostel.Bed
