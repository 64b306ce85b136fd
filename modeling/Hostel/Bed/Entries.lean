/-
# Hostel.Bed.Entries — what the manager's maps say, in every run.

The entries of a name exclude each other, the occupied names stay within `maxBeds`, an allocation
whose resources are not released is reachable from one of the maps, and one goroutine at a time
cleans a name.

Each is violated by a run in which an eviction takes over the retirement of an initialization that
is still rolling back: both finish it, and the second removes whatever entry the name has by then.
-/
import Hostel.Bed.Reliance
import Hostel.Logic.Tally

namespace Hostel.Bed

open Store Logic Slot List

variable {env : Env} {r : Reply} {s : Slot} {a : Act} {w : Write} {m : Move} {closed : Bool}
  {i j : TaskId} {t : ThreadId}

/-! ## Occupied names -/

/-- The name is resident, retiring or initializing. -/
def Slot.isOccupied (s : Slot) : Bool :=
  s.bed.isSome || s.retirement.isSome || s.initializing.isSome

theorem Slot.isOccupied_iff : s.isOccupied = true ↔
    (∃ j, s.bed = some j) ∨ (∃ j, s.retirement = some j) ∨ ∃ i, s.initializing = some i := by
  simp [isOccupied, Option.isSome_iff_exists, or_assoc]

theorem Slot.isOccupied_pos (h : s.isOccupied = true) : 1 ≤ s.occupied := by
  unfold occupied
  rcases isOccupied_iff.mp h with ⟨j, hj⟩ | ⟨j, hj⟩ | ⟨i, hi⟩
  · simp [hj]
    omega
  · simp [hj]
  · cases hret : s.retirement <;> simp [hi]

theorem Custody.occupied_eq (hc : Custody closed s) :
    s.occupied = if s.isOccupied then 1 else 0 := by
  unfold occupied isOccupied
  cases hbed : s.bed with
  | some j =>
    obtain ⟨hret, hini, -⟩ := hc.bed j hbed
    simp [hret, initializing, hini]
  | none =>
    cases hret : s.retirement <;> cases hinit : s.initializing <;> rfl

theorem Custody.occupied_back (hc : Custody env.closed s) (hs : Sound s) (hd : s.Does env a w m)
    (hc' : Custody env.closed ((s.apply env w).move m)) (hadm : w.nTasks s = s.nTasks)
    (h : ((s.apply env w).move m).isOccupied = true) : s.isOccupied = true := by
  have hG := hc.guarantee hd
  have howner : ∀ {k}, s.Owner k → s.isOccupied = true := fun hk =>
    isOccupied_iff.mpr
      (.inr (.inr ⟨_,
        initializing_eq_some.mpr ⟨(hc.owned hk).initialization, (hc.owned hk).phase⟩⟩))
  have hbedded : ∀ {k}, s.bed = some k → s.isOccupied = true := fun hk =>
    isOccupied_iff.mpr (.inl ⟨_, hk⟩)
  rcases isOccupied_iff.mp h with ⟨j, hj⟩ | ⟨j, hj⟩ | ⟨k, hk⟩
  · simp only [move_bed, apply_bed] at hj
    cases w <;> simp only [Write.bed] at hj <;>
      first | exact hbedded hj | exact howner hG.2.1 | cases hj
  · simp only [move_retirement, apply_retirement] at hj
    cases w <;> simp only [Write.retirement] at hj <;>
      first
        | exact isOccupied_iff.mpr (.inr (.inl ⟨_, hj⟩))
        | exact howner hG.2.1
        | exact hbedded hG
        | cases hj
  · -- an initialization in progress owns its name, and it did before
    have hown := hc'.owner_of_initializing hk
    rcases hd.owner hs.grounded hown with hold | ⟨-, rfl⟩
    · exact howner hold
    · have hlt := (hd.grounded hs.grounded).born (i := s.nTasks) fun hfin => by
        have := hown.1
        rw [hfin] at this
        cases this
      simp [hadm] at hlt

/-! ## Live allocations -/

/-- The initialization holds a prepared allocation that no map has an entry for yet. -/
def TaskPc.built : TaskPc → Bool
  | .check | .announce | .publish | .insert _ => true
  | _ => false

/-- The initialization prepares, publishes or rolls back. -/
def TaskPc.working (pc : TaskPc) : Bool := pc.role == .live || pc.role == .rolling

/-- Allocation `j` is released, or some map leads to it. -/
def Slot.Kept (s : Slot) (j : TaskId) : Prop :=
  (s.alloc j).runtimeClosed = true ∨ s.bed = some j ∨ s.retirement = some j ∨
    (s.task j).pc.built = true

theorem taskStep_built {pc pc' : TaskPc} (h : taskStep env r s i pc = some (w, pc'))
    (hpc : pc.built = true) : pc'.built = true ∨ w.bed s = some i ∨ w.retirement s = some i := by
  revert h
  fun_cases taskStep env r s i pc <;> intro h
  all_goals first
    | (cases hpc; done)
    | (cases h; first | exact .inl rfl | exact .inr (.inl rfl) | exact .inr (.inr rfl))

theorem Slot.Kept.step (hk : s.Kept j) (hc : Custody env.closed s) (hj : j < s.nTasks)
    (hd : s.Does env a w m) : ((s.apply env w).move m).Kept j := by
  have hG := hc.guarantee hd
  simp only [Slot.Kept, move_alloc, apply_alloc, move_bed, apply_bed,
    move_retirement, apply_retirement]
  rcases hk with hclosed | hbed | hret | hbuilt
  · exact .inl (Write.runtimeClosed hj hclosed)
  · exact .inr ((hc.resident_stable hG hbed).imp id .inl)
  · -- only a released allocation leaves `retirements`
    have hno : ∀ k, s.bed ≠ some k := fun k hk => by
      rw [(hc.bed k hk).1] at hret
      cases hret
    cases w with
    | deleteRetirement => exact .inl (hG.2 j hret).1
    | insertRetirement k =>
      rw [hG.2.2] at hret
      cases hret
    | retire k | takeForPurge k => exact absurd hG (hno k)
    | _ => exact .inr (.inr (.inl hret))
  · by_cases hA : m.agent = some (.task j)
    · cases hd with
      | task hstep =>
        cases hA
        rcases taskStep_built hstep hbuilt with hpc | hbed | hret
        · exact .inr (.inr (.inr (by simpa [Move.pc] using hpc)))
        · exact .inr (.inl hbed)
        · exact .inr (.inr (.inl hret))
      | _ => cases hA
    · refine .inr (.inr (.inr ?_))
      simpa [Move.pc_of_agent hA, Write.task_pc s j w hj.ne] using hbuilt

theorem TaskPc.working_owner {pc : TaskPc} (h : pc.working = true) :
    pc.forgetful = false ∧ pc.out = false := by
  cases pc with
  | finishFinal err reason => cases err <;> cases h
  | finishClean | finished | finishCheck => cases h
  | _ => exact ⟨rfl, rfl⟩

theorem Custody.owner_of_working (hc : Custody closed s) (h : (s.task i).pc.working = true) :
    s.Owner i :=
  hc.owner_of_pc rfl (TaskPc.working_owner h).1 (TaskPc.working_owner h).2

theorem TaskPc.built_working {pc : TaskPc} (h : pc.built = true) : pc.working = true := by
  cases pc <;> first | rfl | cases h

/-! ## Attempts to clean a name -/

section

variable {A : Agent} {l : LocalId} {q : CleanPc} {c : AttemptId}

def Slot.cleaning (s : Slot) : Agent → Option (LocalId × CleanPc)
  | .task i => (s.task i).pc.cleaning.map ((s.task i).identity, ·)
  | .thread t => (s.threads t).cleaning s

def CleanPc.attempt : CleanPc → Option AttemptId
  | .sweep c | .claim c | .remove c | .inspect c | .inspectGc c | .forget c | .unlink c
  | .unregister c => some c
  | _ => none

theorem CleanPc.Claim.attempt {want : Option Bool} (h : q.Claim s A l want)
    (hq : q.attempt = some c) : s.Attempt A l want c := by
  cases q <;> cases hq <;> first | exact h | exact h.1

theorem TaskPc.closing_of_cleaning {pc : TaskPc} (h : pc.cleaning = some q) :
    pc.out = false ∧ pc.working = false := by
  revert h
  fun_cases TaskPc.cleaning pc <;> intro h <;> cases h
  exact ⟨rfl, rfl⟩

theorem Custody.attempt (hc : Custody closed s) (h : s.cleaning A = some (l, q))
    (hq : q.attempt = some c) :
    (∃ want, s.Attempt A l want c) ∧ s.bed = none ∧ ∀ i, (s.task i).pc.working = false := by
  cases A with
  | task i =>
    obtain ⟨p, hp, hpair⟩ := Option.map_eq_some_iff.mp h
    cases hpair
    have hatt := ((hc.tasks i).cleaning _ hp).attempt hq
    obtain ⟨hout, hidle⟩ := TaskPc.closing_of_cleaning hp
    have hown : s.Owner i := ⟨hout, hatt.identity⟩
    refine ⟨⟨_, hatt⟩, (hc.owned hown).bed, fun k => eq_false_of_ne_true fun hk => ?_⟩
    -- the owner of the name is the initialization that cleans
    rw [hc.owner_eq (hc.owner_of_working hk) hown, hidle] at hk
    cases hk
  | thread t =>
    have hatt := ((hc.threads t).cleaning l q h).attempt hq
    have hno : ∀ err, q ≠ .ret err := by
      rintro err rfl
      cases hq
    obtain ⟨hfree, hbed⟩ := hc.vacant_of_cleaning h hno hatt.identity
    exact ⟨⟨_, hatt⟩, hbed, fun i => eq_false_of_ne_true fun hi => hfree i (hc.owner_of_working hi)⟩

end

namespace Manager

variable {ν : Type} [DecidableEq ν] {config : Config} {now : Time} {disk : ν → Disk}
  {snapshot : ν → Option Snapshot} {τ : List (Manager ν × Event ν)} {d d' : Manager ν}
  {ev : Event ν}

def occupiedNames (d : Manager ν) : Finset ν := d.names.filter fun n => (d.slot n).isOccupied

/-- The names nobody mentioned are free, and the others fit into the capacity. -/
structure Fits (d : Manager ν) : Prop where
  unmentioned : ∀ n, n ∉ d.names → (d.slot n).isOccupied = false
  capacity : 0 < d.config.maxBeds → d.occupiedBeds ≤ d.config.maxBeds

theorem step_accepts {n : ν} (h : d.step ev = some d')
    (hn : (d'.slot n).nTasks ≠ (d.slot n).nTasks) : (d.slot n).Admissible (d.env n) := by
  rcases step_slot h n with ⟨hsame, -⟩ | ⟨a, e, rfl, hact⟩
  · rw [hsame] at hn
    exact absurd rfl hn
  · obtain ⟨w, m, hd, hs', -⟩ := step_does hact
    rw [hs', move_nTasks, apply_nTasks] at hn
    cases w <;> simp only [Write.nTasks, ne_eq, not_true] at hn
    exact hd.accepts.1

theorem Fits.step (h : Fits d) (hI : ∀ n, Sound (d.slot n) ∧ Custody d.closed (d.slot n))
    (hno : Meets NoTakeover (d, ev)) (hstep : d.step ev = some d') : Fits d' := by
  cases ev with
  | tick t | stop =>
    cases hstep
    exact ⟨h.unmentioned, h.capacity⟩
  | act n a =>
    have hacc : ∀ k, ((d'.slot k).nTasks ≠ (d.slot k).nTasks) → (d.slot k).Admissible (d.env k) :=
      fun k => step_accepts hstep
    obtain ⟨s', e, hact, rfl⟩ := step_act hstep
    obtain ⟨w, m, hd, rfl, rfl⟩ := step_does hact
    obtain ⟨hs, hc⟩ := hI n
    have hc' : Custody (d.env n).closed (((d.slot n).apply (d.env n) w).move m) :=
      Custody.does hc hs hd hno
    constructor
    · intro k hk
      simp only [Finset.mem_insert, not_or] at hk
      simpa [hk.1] using h.unmentioned k hk.2
    · intro hpos
      have hold := h.capacity hpos
      have htotal := sum_erase_add_unlisted (S := d.names) (g := d.slot) (f := occupied) (i := n)
        (fun hn => by simp [(hI n).2.occupied_eq, h.unmentioned n hn])
      simp only [occupiedBeds] at hold ⊢
      rw [sum_insert_update_erase]
      by_cases hn : w.nTasks (d.slot n) = (d.slot n).nTasks
      · -- no admission: the name does not become occupied
        have hback := Custody.occupied_back hc hs hd hc' hn
        have hle : (((d.slot n).apply (d.env n) w).move m).occupied ≤ (d.slot n).occupied := by
          rw [hc'.occupied_eq, hc.occupied_eq]
          split_ifs with hocc' hocc
          · exact le_rfl
          · exact absurd (hback hocc') hocc
          all_goals exact Nat.zero_le _
        omega
      · -- an admission has counted the other names, and the new one counts once
        have hadm : (d.slot n).Admissible (d.env n) := hacc n (by simpa using hn)
        have hroom : ∑ k ∈ d.names.erase n, (d.slot k).occupied < d.config.maxBeds :=
          hadm.capacity.resolve_left hpos.ne'
        have hone : (((d.slot n).apply (d.env n) w).move m).occupied ≤ 1 := by
          rw [hc'.occupied_eq]
          split_ifs <;> decide
        omega

theorem config_of_trace (h : (machine ν).Trace (boot config now disk snapshot) τ d) :
    d.config = config := by
  refine h.always (P := fun _ d => d.config = config) rfl fun {τ d ev d'} _ hd hstep => ?_
  cases ev with
  | tick t | stop =>
    cases hstep
    exact hd
  | act n a =>
    obtain ⟨s', e, -, rfl⟩ := step_act hstep
    exact hd

theorem fits_of_trace (h : (machine ν).Trace (boot config now disk snapshot) τ d)
    (hC : ∀ e ∈ τ, Meets NoTakeover e) : Fits d := by
  induction h with
  | nil => exact ⟨fun _ _ => rfl, fun _ => by simp [occupiedBeds, boot]⟩
  | @snoc τ d d' ev hτ hstep ih =>
    have hpre : ∀ e ∈ τ, Meets NoTakeover e := fun e he => hC e (mem_append_left _ he)
    exact (ih hpre).step (fun n => custody_of_trace hτ hpre n) (hC (d, ev) (by simp)) hstep

/-- In every run in which no rollback is taken over, the entries of a name exclude each other, an
initialization is accepted only for a free name, and the occupied names fit into `maxBeds`. -/
theorem entries_exclusive (h : (machine ν).Trace (boot config now disk snapshot) τ d)
    (hC : ∀ e ∈ τ, Meets NoTakeover e) :
    (∀ n, (d.slot n).bed = none ∨ (d.slot n).retirement = none) ∧
      (∀ n, (d.slot n).bed = none ∨ (d.slot n).initializing = none) ∧
      (∀ ev d' n, d.step ev = some d' → (d'.slot n).nTasks ≠ (d.slot n).nTasks →
        (d.slot n).bed = none ∧ (d.slot n).retirement = none ∧ (d.slot n).purge = none ∧
          (d.slot n).pendingCleanup = none) ∧
      (∀ n, (d.slot n).isOccupied = true → n ∈ d.occupiedNames) ∧
      (0 < config.maxBeds → d.occupiedNames.card ≤ config.maxBeds) := by
  have hfits := fits_of_trace h hC
  refine ⟨fun n => ?_, fun n => ?_, fun ev d' n hstep hn => ?_, fun n hn => ?_, fun hpos => ?_⟩
  · have hc := (custody_of_trace h hC n).2
    cases hbed : (d.slot n).bed with
    | none => exact .inl rfl
    | some j => exact .inr (hc.bed j hbed).1
  · have hc := (custody_of_trace h hC n).2
    cases hbed : (d.slot n).bed with
    | none => exact .inl rfl
    | some j => exact .inr (by simp [initializing, (hc.bed j hbed).2.1])
  · have hadm := step_accepts hstep hn
    exact ⟨hadm.bed, hadm.retirement, hadm.purge, hadm.cleanup⟩
  · refine Finset.mem_filter.mpr ⟨?_, hn⟩
    by_contra hnot
    rw [hfits.unmentioned n hnot] at hn
    cases hn
  · calc d.occupiedNames.card
        = ∑ n ∈ d.occupiedNames, 1 := by simp
      _ ≤ ∑ n ∈ d.occupiedNames, (d.slot n).occupied :=
          Finset.sum_le_sum fun n hn => isOccupied_pos (Finset.mem_filter.mp hn).2
      _ ≤ d.occupiedBeds := Finset.sum_le_sum_of_subset (Finset.filter_subset _ _)
      _ ≤ config.maxBeds := by
          have hcap := hfits.capacity
          rw [config_of_trace h] at hcap
          exact hcap hpos

/-- A Bed is evicted under a limit of one: while its retirement is torn down the name has no Bed,
and the limit is met. -/
theorem entries_exclusive_retiring :
    ∃ d : Manager Unit, (d.slot ()).retirement = some 0 ∧ (d.slot ()).bed = none ∧
      d.occupiedNames.card ≤ 1 := by
  obtain ⟨d, hτ, hret⟩ := (machine Unit).trace_of_any
    (bootEmpty { plainConfig with maxBeds := 1 } 5)
    (createSteps () 0 0 ++ .act () .evict :: threadSteps () 1 22)
    (fun d => (d.slot ()).retirement = some 0) (by decide +kernel)
  have hC := hτ.forall_steps (C := Meets NoTakeover) (by decide +kernel)
  obtain ⟨hbed, -, -, -, hcap⟩ := entries_exclusive hτ hC
  exact ⟨d, hret, (hbed ()).resolve_right (by simp [hret]), hcap Nat.one_pos⟩

/-- An eviction takes the rollback of initialization 0 over. -/
def takeoverSteps : List (Event Unit) :=
  -- 0 is cancelled and has rolled back, and has not removed its retirement when the eviction starts
  .act () (.initializeBed plainRequest) :: threadSteps () 0 3 ++ taskSteps () 0 27 ++
    .act () (.expire 0) :: taskSteps () 0 21 ++ .act () .evict :: threadSteps () 1 5 ++
    -- 0 ends, 1 is accepted on the same identity, and the eviction forgets it: the phase of 1 ends
    taskSteps () 0 8 ++ .act () (.initializeBed plainRequest) :: threadSteps () 2 3 ++
    taskSteps () 1 27 ++ threadSteps () 1 13 ++
    -- so 2 is accepted beside 1, and when 2 publishes the Bed, 1 retires its own
    .act () (.initializeBed plainRequest) :: threadSteps () 3 3 ++ taskSteps () 2 29 ++
    taskSteps () 1 4 ++ taskSteps () 2 1

/-- A run that ends with a name in `beds` and in `retirements`. -/
theorem takeover_two_entries :
    ∃ (τ : List (Manager Unit × Event Unit)) (d : Manager Unit),
      (machine Unit).Trace (boot plainConfig 1 (fun _ => ⟨none, none⟩) (fun _ => none)) τ d ∧
        (d.slot ()).bed = some 2 ∧ (d.slot ()).retirement = some 1 := by
  exact Logic.Machine.exists_trace takeoverSteps (by decide +kernel)

/-! ## No allocation is lost -/

/-- Somewhere in the run, the preparation of allocation `j` of name `n` finished. -/
def Prepared (τ : List (Manager ν × Event ν)) (d : Manager ν) (n : ν) (j : TaskId) : Prop :=
  ((d.slot n).task j).pc = .check ∨ ∃ e ∈ τ, ((e.1.slot n).task j).pc = .check

theorem kept_of_trace (h : (machine ν).Trace (boot config now disk snapshot) τ d)
    (hC : ∀ e ∈ τ, Meets NoTakeover e) (n : ν) (j : TaskId) (hj : Prepared τ d n j) :
    j < (d.slot n).nTasks ∧ (d.slot n).Kept j := by
  induction h with
  | nil =>
    rcases hj with hpc | ⟨e, he, -⟩
    · cases hpc
    · cases he
  | @snoc τ d d' ev hτ hstep ih =>
    have hpre : ∀ e ∈ τ, Meets NoTakeover e := fun e he => hC e (mem_append_left _ he)
    obtain ⟨hs, hc⟩ := custody_of_trace hτ hpre n
    rcases hj with hpc | ⟨e, he, hpc⟩
    · have hs' := (custody_of_trace (hτ.snoc hstep) hC n).1
      exact ⟨hs'.grounded.born (by simp [hpc]), .inr (.inr (.inr (by rw [hpc]; rfl)))⟩
    · -- it was prepared before this step, which keeps it within reach
      have hold : Prepared τ d n j := by
        rcases mem_append.mp he with he | he
        · exact .inr ⟨e, he, hpc⟩
        · cases mem_singleton.mp he
          exact .inl hpc
      obtain ⟨hlt, hkept⟩ := ih hpre hold
      rcases step_slot hstep n with ⟨hsame, -⟩ | ⟨a, e, rfl, hact⟩
      · rw [hsame]
        exact ⟨hlt, hkept⟩
      · obtain ⟨w, m, hd, hs', -⟩ := step_does hact
        rw [hs']
        exact ⟨by simpa using hlt.trans_le (w.le_nTasks _), hkept.step hc hlt hd⟩

/-- In every run in which no rollback is taken over, one initialization at a time works on a name,
and an allocation that was prepared and is not released is the Bed or the retirement of the name, or
in the hands of the unfinished initialization it records. -/
theorem allocation_within_reach (h : (machine ν).Trace (boot config now disk snapshot) τ d)
    (hC : ∀ e ∈ τ, Meets NoTakeover e) (n : ν) :
    (∀ i k, ((d.slot n).task i).pc.working = true → ((d.slot n).task k).pc.working = true → i = k) ∧
      ∀ j, Prepared τ d n j → ((d.slot n).alloc j).runtimeClosed = false →
        (d.slot n).bed = some j ∨ (d.slot n).retirement = some j ∨
          (d.slot n).initialization = some j ∧ ((d.slot n).task j).done = false := by
  have hc := (custody_of_trace h hC n).2
  refine ⟨fun i k hi hk => hc.owner_eq (hc.owner_of_working hi) (hc.owner_of_working hk),
    fun j hj hopen => ?_⟩
  rcases (kept_of_trace h hC n j hj).2 with hclosed | hbed | hret | hbuilt
  · rw [hopen] at hclosed
    cases hclosed
  · exact .inl hbed
  · exact .inr (.inl hret)
  · -- it owns the name, and an initialization that is done has finished
    have hown := hc.owner_of_working (TaskPc.built_working hbuilt)
    refine .inr (.inr ⟨(hc.owned hown).initialization, ?_⟩)
    by_contra hdone
    rw [hc.done j (Bool.eq_true_of_not_eq_false hdone)] at hbuilt
    cases hbuilt

/-- Initialization 0 is prepared and cancelled, and its rollback fails at the first hook. -/
def failedRollbackSteps : List (Event Unit) :=
  .act () (.initializeBed plainRequest) :: threadSteps () 0 3 ++ taskSteps () 0 27 ++
    .act () (.expire 0) :: taskSteps () 0 4 ++ .act () (.task 0 (.fail .hook)) :: taskSteps () 0 4

/-- A cancelled initialization whose rollback failed: its allocation is in `retirements`. -/
theorem allocation_within_reach_failed :
    ∃ d : Manager Unit, ((d.slot ()).alloc 0).runtimeClosed = false ∧
      ((d.slot ()).bed = some 0 ∨ (d.slot ()).retirement = some 0 ∨
        (d.slot ()).initialization = some 0 ∧ ((d.slot ()).task 0).done = false) := by
  obtain ⟨d, hτ, hopen⟩ := (machine Unit).trace_of_any
    (bootEmpty plainConfig 5) failedRollbackSteps
    (fun d => ((d.slot ()).alloc 0).runtimeClosed = false) (by decide +kernel)
  have hC := hτ.forall_steps (C := Meets NoTakeover) (by decide +kernel)
  have hprep : ∃ e ∈ (machine Unit).log (bootEmpty plainConfig 5) failedRollbackSteps,
      ((e.1.slot ()).task 0).pc = .check := by
    decide +kernel
  exact ⟨d, hopen, (allocation_within_reach hτ hC ()).2 0 (.inr hprep) hopen⟩

/-- As in `takeoverSteps`, but the eviction finishes the retirement of 0 before 0 removes it. -/
def leakSteps : List (Event Unit) :=
  .act () (.initializeBed plainRequest) :: threadSteps () 0 3 ++ taskSteps () 0 27 ++
    .act () (.expire 0) :: taskSteps () 0 21 ++ .act () .evict :: threadSteps () 1 17 ++
    -- 1 is accepted and cancelled, 0 removes the retirement of 1, and the rollback of 1 fails
    .act () (.initializeBed plainRequest) :: threadSteps () 2 3 ++ taskSteps () 1 27 ++
    .act () (.expire 1) :: taskSteps () 1 2 ++ taskSteps () 0 1 ++ taskSteps () 1 2 ++
    .act () (.task 1 (.fail .hook)) :: taskSteps () 1 9

/-- A run that ends with a prepared allocation that is not released and that no map leads to. -/
theorem takeover_leaks :
    ∃ (τ : List (Manager Unit × Event Unit)) (d : Manager Unit),
      (machine Unit).Trace (boot plainConfig 1 (fun _ => ⟨none, none⟩) (fun _ => none)) τ d ∧
        Prepared τ d () 1 ∧ ((d.slot ()).alloc 1).runtimeClosed = false ∧
        (d.slot ()).bed = none ∧ (d.slot ()).retirement = none ∧
        ((d.slot ()).task 1).done = true := by
  unfold Prepared
  exact Logic.Machine.exists_trace leakSteps (by decide +kernel)

/-! ## Cleanups and purges -/

/-- In every run in which no rollback is taken over, one attempt at a time cleans a name, which then
has no Bed and no initialization at work, and an identity is forgotten only when both trees are
gone. -/
theorem cleanups_alone (h : (machine ν).Trace (boot config now disk snapshot) τ d)
    (hC : ∀ e ∈ τ, Meets NoTakeover e) (n : ν) :
    (∀ A l q c, (d.slot n).cleaning A = some (l, q) → q.attempt = some c →
      (d.slot n).identity = some l ∧ (d.slot n).bed = none ∧
        (∀ i, ((d.slot n).task i).pc.working = false) ∧
        ∀ B k p c', (d.slot n).cleaning B = some (k, p) → p.attempt = some c' → A = B) ∧
      ((d.slot n).identity = none → (d.slot n).disk.dir = none ∧ (d.slot n).disk.gc = none) := by
  have hc := (custody_of_trace h hC n).2
  refine ⟨fun A l q c hA hq => ?_, hc.forgotten⟩
  obtain ⟨⟨want, hatt⟩, hbed, hidle⟩ := hc.attempt hA hq
  refine ⟨hatt.identity, hbed, hidle, fun B k p c' hB hp => ?_⟩
  obtain ⟨⟨want', hatt'⟩, -⟩ := hc.attempt hB hp
  exact hatt.agent_eq hatt'

/-- An evicted Bed, while its root directory is removed. -/
theorem cleanups_alone_evicting : ∃ d : Manager Unit,
    (d.slot ()).cleaning (.thread 1) = some (1, .claim 1) ∧ (d.slot ()).bed = none := by
  obtain ⟨d, hτ, hclean⟩ := (machine Unit).trace_of_any (bootEmpty plainConfig 5)
    (createSteps () 0 0 ++ .act () .evict :: threadSteps () 1 42)
    (fun d => (d.slot ()).cleaning (.thread 1) = some (1, .claim 1)) (by decide +kernel)
  obtain ⟨hall, -⟩ := cleanups_alone hτ (hτ.forall_steps (by decide +kernel)) ()
  exact ⟨d, hclean, (hall _ _ _ _ hclean rfl).2.1⟩

/-- When `Purge` is about to succeed, still behind its fence, the name has no Bed, no retirement and
no initialization at work, and its identity and both trees are gone. -/
theorem purge_leaves_nothing (h : (machine ν).Trace (boot config now disk snapshot) τ d)
    (hC : ∀ e ∈ τ, Meets NoTakeover e) {n : ν} {t : ThreadId}
    (ht : (d.slot n).threads t = .purge (.finish none)) :
    (d.slot n).purge = some t ∧ (d.slot n).isOccupied = false ∧
      (∀ i, ((d.slot n).task i).pc.working = false) ∧ (d.slot n).identity = none ∧
      (d.slot n).disk.dir = none ∧ (d.slot n).disk.gc = none := by
  have hc := (custody_of_trace h hC n).2
  have hclaim := hc.threads t
  rw [ht] at hclaim
  have hid := hclaim.erased rfl
  have hfree : (d.slot n).Unowned := hclaim.sealed rfl
  obtain ⟨hbed, hret⟩ := hclaim.took none rfl
  have hini : (d.slot n).initializing = none :=
    Option.eq_none_iff_forall_ne_some.mpr fun i hi => hfree i (hc.owner_of_initializing hi)
  refine ⟨hclaim.fenced rfl, ?_, fun i => ?_, hid, hc.forgotten hid⟩
  · simp [isOccupied, hbed, or_self_iff.mp hret, hini]
  · exact eq_false_of_ne_true fun hi => hfree i (hc.owner_of_working hi)

theorem purge_leaves_nothing_resident : ∃ d : Manager Unit,
    (d.slot ()).threads 1 = .purge (.finish none) ∧ (d.slot ()).isOccupied = false := by
  obtain ⟨d, hτ, hpc⟩ := (machine Unit).trace_of_any (bootEmpty plainConfig 5)
    (createSteps () 0 0 ++ .act () .purge :: threadSteps () 1 43)
    (fun d => (d.slot ()).threads 1 = .purge (.finish none)) (by decide +kernel)
  exact ⟨d, hpc, (purge_leaves_nothing hτ (hτ.forall_steps (by decide +kernel)) hpc).2.1⟩

end Manager

end Hostel.Bed
