/-
# Hostel.Bed.Fence — a Bed on which something happened after the fence stays where it is.

Here the name is `Calm`: operations, checkpoints, background syncs and evictions are at work on it,
and no initialization, purge, shutdown or collection.  Then only the attempt that holds `cleanupMu`
can take the Bed out of `beds`, after a quiet time since its fence, and nobody cleans its directory
before.  A shell registered past the fence is lost with the Bed (`shell_evicted`).
-/
import Hostel.Bed.Eviction
import Hostel.Bed.Claims

namespace Hostel.Bed

open Store Logic List Slot EvictPc

/-! ## Calm names -/

/-- Operations, sessions, checkpoints, syncs and evictions, and the steps of goroutines. -/
def Act.everyday : Act → Bool
  | .initializeBed _ | .purge | .close | .retryCleanup | .collectLuggage => false
  | _ => true

/-- A goroutine that has ended, or is an eviction, a checkpoint or a background sync. -/
def Thread.calm : Thread → Bool
  | .create _ (.returned _) => true
  | .create _ _ => false
  | .purge (.returned _) => true
  | .purge _ => false
  | .close .returned => true
  | .close _ => false
  | .collect _ (.ret _) => true
  | .collect _ _ => false
  | _ => true

/-- The goroutine is in a `finishRetirement` that has found its allocation in `retirements`. -/
def Thread.retires (th : Thread) : Bool := th.retiring.any fun q => q.2.passed

/-- No initialization, purge, shutdown or collection is at work on the name, and while a Bed is
resident nothing is retired. -/
structure Calm (s : Slot) : Prop where
  tasks : ∀ i, (s.task i).pc = .finished
  threads : ∀ t, (s.threads t).calm = true
  resident : s.bed ≠ none → s.retirement = none ∧ ∀ t, (s.threads t).retires = false

/-- `Calm`, read off the goroutines that have started. -/
def Slot.calm (s : Slot) : Bool :=
  (range s.nTasks).all (fun i => (s.task i).pc = .finished) && s.retirement.isNone &&
    (range s.nThreads).all fun t => (s.threads t).calm && !(s.threads t).retires

variable {env : Env} {r : Reply} {s : Slot} {a : Act} {w : Write} {m : Move} {j : TaskId}
  {t : ThreadId}

theorem Slot.calm_of_grounded (hg : Grounded s) (h : s.calm = true) : Calm s := by
  simp only [calm, Bool.and_eq_true, all_eq_true, mem_range, decide_eq_true_eq,
    Option.isNone_iff_eq_none, Bool.not_eq_true'] at h
  obtain ⟨⟨htasks, hret⟩, hthreads⟩ := h
  have hall : ∀ t, (s.threads t).calm = true ∧ (s.threads t).retires = false := by
    intro t
    by_cases ht : t < s.nThreads
    · exact hthreads t ht
    · rw [hg.idle t (Nat.le_of_not_lt ht)]
      exact ⟨rfl, rfl⟩
  refine ⟨fun i => ?_, fun t => (hall t).1, fun _ => ⟨hret, fun t => (hall t).2⟩⟩
  by_cases hi : i < s.nTasks
  · exact htasks i hi
  · exact hg.unborn i (Nat.le_of_not_lt hi)

theorem threadStep_calm {th th' : Thread} (h : threadStep env r s t th = some (w, th'))
    (hc : th.calm = true) : th'.calm = true := by
  cases th with
  | idle => cases h
  | create req pc | purge pc | close pc | collect l pc => cases pc <;> cases hc; cases h
  | _ =>
    obtain ⟨_, _, rfl⟩ := lift_eq_some.mp h
    rfl

theorem threadStep_retires {th th' : Thread} (h : threadStep env r s t th = some (w, th'))
    (hp : th'.retires = true) : th.retires = true ∨ s.retirement ≠ none := by
  obtain ⟨⟨j, q'⟩, hq', hpassed⟩ := (Option.any_eq_true _ _).mp hp
  obtain rfl | ⟨q, hq, hstep⟩ := threadStep_retiring h hq'
  · cases hpassed
  · refine (retireStep_passed hstep hpassed).2.imp (fun hold => ?_) fun ⟨_, hret⟩ => by simp [hret]
    rw [Thread.retires, hq]
    exact hold

theorem plan_everyday (hplan : a.plan env s = some (w, m)) (he : a.everyday = true) :
    (∀ th, m = .spawn th → th.calm = true ∧ th.retires = false) ∧ ∀ th, m ≠ .spawnCollector th := by
  revert hplan
  fun_cases Act.plan env s a <;> intro hplan
  all_goals first
    | (obtain ⟨_, _, rfl⟩ := lift_eq_some.mp hplan; simp)
    | (cases he; done)
    | (cases hplan <;> simp [Thread.calm, Thread.retires, Thread.retiring])

theorem Calm.not_task (hc : Calm s) {i : TaskId} {pc : TaskPc} : ¬s.Does env a w (.task i pc) := by
  rintro (hstep | _)
  exact taskStep_ne_finished hstep (hc.tasks i)

theorem Calm.not_accept (hc : Calm s) {kind : SyncKind} {hasMain : Bool} :
    ¬s.Does env a (.accept kind hasMain) m := by
  intro hd
  obtain ⟨t, _, _, rfl, rfl, hstep⟩ := hd.by_thread (fun _ _ => id) id rfl
  obtain ⟨-, req, selected, hth⟩ := threadStep_permit hstep
  have := hc.threads t
  rw [hth] at this
  cases this

theorem Calm.bed (hc : Calm s) (hd : s.Does env a w m) (hbed : s.bed = some j) :
    w.bed s = some j ∨ w = .retire j := by
  cases w with
  | publish i ready =>
    have := hd.publishes.2.2.2.2.2
    rw [hbed] at this
    cases this
  | retire k =>
    have := hd.retires.2.2.1
    rw [hbed] at this
    cases this
    exact .inr rfl
  | takeForPurge k =>
    obtain ⟨⟨t, _, l, kind, -, hth⟩, -⟩ := hd.takes
    have := hc.threads t
    rw [hth] at this
    cases this
  | _ => exact .inl hbed

theorem Calm.step (hc : Calm s) (hplan : a.plan env s = some (w, m)) (he : a.everyday = true) :
    Calm ((s.apply env w).move m) := by
  have hd := Act.plan_does hplan
  obtain ⟨hspawn, hcollect⟩ := plan_everyday hplan he
  constructor
  case tasks =>
    refine hd.forall_tasks (P := fun _ pc => pc = .finished) ?_ ?_ ?_
    · exact fun i _ _ => hc.tasks i
    · exact fun i r pc _ hstep => absurd (hc.tasks i) (taskStep_ne_finished hstep)
    · intro _ hnew
      cases w <;> simp only [Write.nTasks, Nat.left_eq_add, one_ne_zero] at hnew
      exact absurd hd hc.not_accept
  case threads =>
    refine hd.forall_threads (P := fun _ th => th.calm = true) ?_ ?_ ?_ ?_
    · exact fun t _ => hc.threads t
    · exact fun t r th _ hstep => threadStep_calm hstep (hc.threads t)
    · exact fun th hm _ _ => (hspawn th hm).1
    · exact fun l removeRoot hm _ => absurd hm (hcollect _)
  case resident =>
    simp only [move_bed, apply_bed, move_retirement, apply_retirement]
    intro hbed
    have hbed' : s.bed = w.bed s := by
      cases w <;> simp only [Write.bed] at hbed ⊢ <;> try exact absurd rfl hbed
      exact absurd (hd.publishes.1 ▸ hd) hc.not_task
    obtain ⟨hret, hthreads⟩ := hc.resident (hbed' ▸ hbed)
    refine ⟨?_, ?_⟩
    · cases w <;> simp only [Write.retirement] <;> try first | exact hret | exact absurd rfl hbed
      obtain ⟨⟨pc, rfl⟩, -⟩ := hd.inserts
      exact absurd hd hc.not_task
    · refine hd.forall_threads (P := fun _ th => th.retires = false) ?_ ?_ ?_ ?_
      · exact fun t _ => hthreads t
      · intro t r th _ hstep
        by_contra hp
        rcases threadStep_retires hstep (Bool.eq_true_of_not_eq_false hp) with h | h
        · rw [hthreads t] at h
          cases h
        · exact h hret
      · exact fun th hm _ _ => (hspawn th hm).2
      · exact fun l removeRoot hm _ => absurd hm (hcollect _)

/-! ## After the fence -/

/-- The attempt on `j` has failed and still holds `cleanupMu`. -/
def EvictPc.leaving : EvictPc → Option TaskId
  | .persist j _ pc => whenHeld pc.progress.isNone j
  | .recover j x | .restart j x | .resume j x | .readiness j x | .unlock j x => whenHeld x.locked j
  | _ => none

def EvictPc.over : EvictPc → Bool
  | .returned _ _ => true
  | _ => false

variable {cutoff : Option Time} {pc pc' : EvictPc} {seq : Nat} {p : Progress}

theorem persistStep_failed {A : Agent} {q q' : PersistPc}
    (h : persistStep r s A j q = some (w, q')) (hq : q.progress = none) : q'.progress = none := by
  revert h
  fun_cases persistStep r s A j q <;> intro h <;> cases h <;> try cases hq
  rename_i err
  cases err <;> first | rfl | cases hq

/-- What a step of `evict` makes of an attempt, of one that gives up, and of one that has moved the
Bed. -/
theorem evictStep_stands (h : evictStep env r s t cutoff pc = some (w, pc')) :
    (∀ seq p, pc.attempt = some (j, seq, p) → (∃ p', pc'.attempt = some (j, seq, p')) ∨
      pc'.leaving = some j ∨
      pc'.moved = some j ∧ w = .retire j) ∧
    (pc.leaving = some j → pc'.leaving = some j ∨ pc'.over = true) ∧
    (pc.moved = some j → pc'.moved = some j ∨ pc'.over = true) := by
  revert h
  fun_cases evictStep env r s t cutoff pc <;> intro h
  case case24 q _ _ =>
    obtain ⟨q', hpersist, rfl⟩ := lift_eq_some.mp h
    refine ⟨fun seq p hp => ?_, fun hp => ?_, by simp [moved]⟩
    · obtain ⟨rfl, rfl, -⟩ := persist_attempt hp
      cases hq : q'.progress with
      | none => exact .inr (.inl (by simp [leaving, hq]))
      | some p' => exact .inl ⟨p', by simp [attempt, hq]⟩
    · simp only [leaving, whenHeld_eq_some, Option.isNone_iff_eq_none] at hp ⊢
      obtain ⟨hq, rfl⟩ := hp
      exact .inl ⟨persistStep_failed hpersist hq, rfl⟩
  case case12 resident q _ =>
    obtain ⟨q', -, rfl⟩ := lift_eq_some.mp h
    refine ⟨by simp [attempt], by simp [leaving], fun hp => ?_⟩
    cases resident <;> exact .inl hp
  all_goals cases h <;> simp_all [attempt, leaving, moved, EvictPc.over, PersistPc.progress]

theorem cleanupHeld_of_attempt (h : pc.attempt = some (j, seq, p)) : pc.cleanupHeld = some j := by
  cases pc with
  | persist k sq q =>
    obtain ⟨rfl, -⟩ := persist_attempt h
    rfl
  | _ => cases h <;> rfl

theorem cleanupHeld_of_leaving (h : pc.leaving = some j) : pc.cleanupHeld = some j := by
  cases pc <;> simp_all [leaving, cleanupHeld]

/-- In a calm name only the goroutine that holds `cleanupMu` takes the Bed out of `beds`. -/
theorem Calm.bed_of_held (hc : Calm s) (hg : Grounded s) (hd : s.Does env a w m)
    (hbed : s.bed = some j) (hheld : (s.threads t).cleanupHeld = some j) :
    w.bed s = some j ∨ w = .retire j ∧ (∃ th, m = .thread t th) ∧
      ∃ cutoff, s.threads t = .evict cutoff (.decide j (s.alloc j).activitySeq) := by
  rcases hc.bed hd hbed with h | rfl
  · exact .inl h
  · obtain ⟨⟨u, th, cutoff, rfl, hth⟩, -⟩ := hd.retires
    have hother : s.holds .cleanup (.thread u) = some j := by
      simp [holds, LockKind.held, hth, Thread.cleanupHeld, cleanupHeld]
    cases hg.exclusive hother (show s.holds .cleanup (.thread t) = some j from hheld)
    exact .inr ⟨rfl, ⟨th, rfl⟩, cutoff, hth⟩

theorem Sound.quiet_of_gone (h : Sound s) (hd : s.Does env a w m) (hbed : s.bed ≠ some j)
    (hflight : (s.alloc j).inflight = 0) (hshell : w ≠ .registerShell j) : w.activity ≠ some j := by
  intro hact
  cases w <;> simp only [Write.activity, Option.some.injEq, reduceCtorEq] at hact <;> subst hact
  case beginOperation => exact hbed hd.begins_bed
  case touch => exact hbed hd.touches_bed
  case openSession => exact hbed hd.opens_bed
  case registerShell => exact hshell rfl
  case finishOperation kind =>
    have hmem := h.operations.finishes h.grounded hd
    rw [h.operations.total, countP_eq_zero] at hflight
    exact hflight _ hmem (by simp)

theorem Write.alloc_inflight (hj : j < s.nTasks) (hact : w.activity ≠ some j) :
    (w.alloc env s j).inflight = (s.alloc j).inflight := by
  have hne : j ≠ s.nTasks := hj.ne
  cases w <;> try rfl
  all_goals
    simp only [Write.alloc, Write.activity] at hact ⊢
    split_ifs <;> simp_all

/-! ## The directory -/

/-- The directory is there and contains the given writes. -/
def Slot.Keeps (s : Slot) (data : List Nat) : Prop :=
  ∃ dir, s.disk.dir = some dir ∧ ∀ x ∈ data, x ∈ dir.data

theorem calm_cleaning {th : Thread} {l : LocalId} {q : CleanPc} (hc : th.calm = true)
    (hr : th.retires = false) (h : th.cleaning s = some (l, q)) : ∃ err, q = .ret err := by
  cases th with
  | evict cutoff pc =>
    cases pc with
    | retire k resident pc => cases pc <;> cases h; cases hr
    | _ => cases h
  | purge pc => cases pc <;> cases h; cases hc
  | close pc => cases pc <;> cases hc; cases h
  | collect k pc =>
    cases pc <;> cases hc
    cases h
    exact ⟨_, rfl⟩
  | _ => cases h

theorem Calm.keeps {data : List Nat} (hc : Calm s) (hd : s.Does env a w m) (hbed : s.bed ≠ none)
    (h : s.Keeps data) : ((s.apply env w).move m).Keeps data := by
  obtain ⟨dir, hdir, hdata⟩ := h
  have hno := (hc.resident hbed).2
  simp only [Slot.Keeps, move_disk, apply_dir]
  cases w with
  | saveMeta info => exact ⟨{ dir with info := some info }, by simp [hdir], hdata⟩
  | writeData x =>
    exact ⟨{ dir with data := x :: dir.data }, by simp [hdir],
      fun y hy => mem_cons_of_mem _ (hdata y hy)⟩
  | claimDir =>
    cases hd with
    | task hstep => exact absurd (hc.tasks _) (taskStep_ne_finished hstep)
    | @thread t _ _ _ hstep =>
      obtain ⟨l, c, hclean⟩ := threadStep_permit hstep
      obtain ⟨err, herr⟩ := calm_cleaning (hc.threads t) (hno t) hclean
      cases herr
    | call hcall => exact hcall.elim
    | collect hcollect => exact hcollect.elim rfl
  | seed | makeDir | restoreDir =>
    obtain ⟨_, _, _, rfl, rfl, hstep⟩ := hd.by_task (fun _ _ => id) id rfl
    exact absurd (hc.tasks _) (taskStep_ne_finished hstep)
  | _ => exact ⟨dir, hdir, hdata⟩

namespace Manager

variable {ν : Type} {n : ν} {ρ τ : List (Manager ν × Event ν)} {d d' : Manager ν}

variable {ev : Event ν}

theorem not_returns {f : Fault} {p : Progress}
    (hp : ((d.slot n).threads t).attempt = some (j, seq, p)) : ¬Returns n t j (some f) (d, ev) := by
  rintro ⟨-, hret⟩
  cases (attempt_progress hp hret).2

variable [DecidableEq ν]

/-- Something happened that forbids the attempt of goroutine `t` to evict `j`: an activity on the
allocation, or the failure of the attempt's own persist. -/
def Disturbs (n : ν) (t : ThreadId) (j : TaskId) (e : Manager ν × Event ν) : Prop :=
  Activity n j e ∨ ∃ f, Returns n t j (some f) e

/-- Where goroutine `t` stands with the attempt on `j` whose fence read `seq`, `ρ` being the steps
since the fence. -/
inductive Standing (n : ν) (t : ThreadId) (j : TaskId) (seq : Nat) (ρ : List (Manager ν × Event ν))
    (s : Slot) : Prop
  | attempting {cutoff : Option Time} {pc : EvictPc} {p : Progress} :
      s.threads t = .evict cutoff pc → pc.attempt = some (j, seq, p) → s.bed = some j →
      ((s.alloc j).activitySeq = seq → ∀ e ∈ ρ, ¬Disturbs n t j e) → Standing n t j seq ρ s
  | leaving {cutoff : Option Time} {pc : EvictPc} :
      s.threads t = .evict cutoff pc → pc.leaving = some j → s.bed = some j →
      Standing n t j seq ρ s
  | moved {cutoff : Option Time} {pc : EvictPc} :
      s.threads t = .evict cutoff pc → pc.moved = some j → s.bed ≠ some j →
      (s.task j).pc.out = true → j < s.nTasks → (s.alloc j).inflight = 0 →
      (∀ e ∈ ρ, ¬Disturbs n t j e) → Standing n t j seq ρ s
  | ended {cutoff : Option Time} {pc : EvictPc} :
      s.threads t = .evict cutoff pc → pc.over = true → Standing n t j seq ρ s

theorem Standing.stays {s : Slot} (h : Standing n t j seq ρ s)
    (hheld : (s.threads t).cleanupHeld = some j) (hdist : ∃ e ∈ ρ, Disturbs n t j e) :
    s.bed = some j := by
  obtain ⟨e, he, hd⟩ := hdist
  cases h with
  | attempting _ _ hbed _ | leaving _ _ hbed => exact hbed
  | moved _ _ _ _ _ _ hquiet => exact absurd hd (hquiet e he)
  | @ended cutoff pc hth hover =>
    rw [hth] at hheld
    cases pc <;> cases hover
    cases hheld

theorem Standing.step (h : Standing n t j seq ρ (d.slot n))
    (hsound : Sound (d.slot n)) (hc : Calm (d.slot n)) (hmeet : Meets Unfenced (d, ev))
    (hstep : d.step ev = some d') : Standing n t j seq (ρ ++ [(d, ev)]) (d'.slot n) := by
  rcases step_slot hstep n with ⟨hsame, hev⟩ | ⟨a, e, rfl, hact⟩
  · have hquiet : ¬Disturbs n t j (d, ev) := by
      rintro (⟨w, ⟨a, -, ha, -⟩, -⟩ | ⟨f, ⟨r, hr⟩, -⟩)
      · exact hev a ha
      · exact hev _ hr
    rw [hsame]
    cases h with
    | attempting hth hp hbed hseq =>
      exact .attempting hth hp hbed fun h => forall_mem_append.mpr ⟨hseq h, by simpa using hquiet⟩
    | leaving hth hp hbed => exact .leaving hth hp hbed
    | moved hth hp hbed hout hj hflight hρ =>
      exact .moved hth hp hbed hout hj hflight
        (forall_mem_append.mpr ⟨hρ, by simpa using hquiet⟩)
    | ended hth hp => exact .ended hth hp
  obtain ⟨w, m, hplan, hd, hs', -⟩ := step_plan hact
  have hg := hsound.grounded
  rw [hs']
  cases h with
  | @attempting cutoff pc p hth hp hbed hseq =>
    have hatt : ((d.slot n).threads t).attempt = some (j, seq, p) := by rw [hth]; exact hp
    have hheld : ((d.slot n).threads t).cleanupHeld = some j := by
      rw [hth]
      exact cleanupHeld_of_attempt hp
    rcases hc.bed_of_held hg hd hbed hheld with hbed' | ⟨rfl, ⟨th, rfl⟩, cutoff', hdecide⟩
    · have hbed'' : (((d.slot n).apply (d.env n) w).move m).bed = some j := by simpa using hbed'
      have hquiet : ((((d.slot n).apply (d.env n) w).move m).alloc j).activitySeq = seq →
          ∀ e ∈ ρ ++ [(d, .act n a)], ¬Disturbs n t j e := by
        intro hseq'
        obtain ⟨hstill, hno⟩ := not_activity hsound hmeet hplan hatt (by simpa using hseq')
        refine forall_mem_append.mpr ⟨hseq hstill, ?_⟩
        simpa [Disturbs, hno] using fun f => not_returns hatt
      rcases hd.thread_cases (t := t) hg (by simp [hth]) with hkeep | ⟨r, th, -, -, hown, hnew⟩
      · exact .attempting (hkeep.trans hth) hp hbed'' hquiet
      · rw [hth] at hown
        obtain ⟨pc', hsub, rfl⟩ := lift_eq_some.mp hown
        rcases (evictStep_stands hsub).1 _ _ hp with ⟨p', hp'⟩ | hleave | ⟨-, rfl⟩
        · exact .attempting hnew hp' hbed'' hquiet
        · exact .leaving hnew hleave hbed''
        · cases hbed'
    · -- the attempt itself moves the Bed, so its sequence stood still since the fence
      obtain ⟨r, rfl, hown⟩ := hd.act_thread
      have hpc : pc = .decide j ((d.slot n).alloc j).activitySeq := by
        rw [hth] at hdecide
        cases hdecide
        rfl
      subst hpc
      cases hp
      obtain ⟨hout, -⟩ := hsound.active.attempts t j _ _ hatt
      have hj := hg.entries j (.inl hbed)
      have hth' : th = .evict cutoff (.handoff j) := by
        rw [hth] at hown
        obtain ⟨pc', hsub, rfl⟩ := lift_eq_some.mp hown
        simp only [evictStep] at hsub
        split_ifs at hsub <;> cases hsub
        rfl
      have hnew : (((d.slot n).apply (d.env n) (.retire j)).move (.thread t th)).threads t =
          .evict cutoff (.handoff j) := by simp [hth']
      refine .moved hnew rfl ?_ (hd.out hj hout) ?_ ?_ ?_
      · simp [Write.bed]
      · simpa [Write.nTasks] using hj
      · simpa [Write.alloc] using hd.retires.2.2.2
      · refine forall_mem_append.mpr ⟨hseq rfl, ?_⟩
        rw [forall_mem_singleton]
        rintro (⟨w', ⟨a', m', ha, hplan'⟩, hact'⟩ | ⟨f, hf⟩)
        · cases ha
          cases hplan.symm.trans hplan'
          cases hact'
        · exact not_returns hatt hf
  | @leaving cutoff pc hth hp hbed =>
    have hheld : ((d.slot n).threads t).cleanupHeld = some j := by
      rw [hth]
      exact cleanupHeld_of_leaving hp
    rcases hc.bed_of_held hg hd hbed hheld with hbed' | ⟨rfl, -, cutoff', hdecide⟩
    · have hbed'' : (((d.slot n).apply (d.env n) w).move m).bed = some j := by simpa using hbed'
      rcases hd.thread_cases (t := t) hg (by simp [hth]) with hkeep | ⟨r, th, -, -, hown, hnew⟩
      · exact .leaving (hkeep.trans hth) hp hbed''
      · rw [hth] at hown
        obtain ⟨pc', hsub, rfl⟩ := lift_eq_some.mp hown
        rcases (evictStep_stands hsub).2.1 hp with hleave | hover
        · exact .leaving hnew hleave hbed''
        · exact .ended hnew hover
    · rw [hth] at hdecide
      cases hdecide
      cases hp
  | @moved cutoff pc hth hp hbed hout hj hflight hρ =>
    have hshell : w ≠ .registerShell j := hmeet.not_registers hg hplan (t := t) (by
      simp [hth, Thread.evicts, hp])
    have hno := hsound.quiet_of_gone hd hbed hflight hshell
    have hbed' : (((d.slot n).apply (d.env n) w).move m).bed ≠ some j := fun h =>
      hbed (hd.bed_back hout (by simpa using h))
    have hj' : j < (((d.slot n).apply (d.env n) w).move m).nTasks := by
      simpa using hj.trans_le (w.le_nTasks (d.slot n))
    have hflight' : ((((d.slot n).apply (d.env n) w).move m).alloc j).inflight = 0 := by
      simpa [Write.alloc_inflight hj hno] using hflight
    have hρ' : ∀ e ∈ ρ ++ [(d, .act n a)], ¬Disturbs n t j e := by
      refine forall_mem_append.mpr ⟨hρ, ?_⟩
      rw [forall_mem_singleton]
      rintro (⟨w', ⟨a', m', ha, hplan'⟩, hact'⟩ | ⟨f, -, hf⟩)
      · cases ha
        cases hplan.symm.trans hplan'
        exact hno hact'
      · rw [hth] at hf
        cases pc <;> cases hf
        cases hp
    rcases hd.thread_cases (t := t) hg (by simp [hth]) with hkeep | ⟨r, th, -, -, hown, hnew⟩
    · exact .moved (hkeep.trans hth) hp hbed' (hd.out hj hout) hj' hflight' hρ'
    · rw [hth] at hown
      obtain ⟨pc', hsub, rfl⟩ := lift_eq_some.mp hown
      rcases (evictStep_stands hsub).2.2 hp with hmoved | hover
      · exact .moved hnew hmoved hbed' (hd.out hj hout) hj' hflight' hρ'
      · exact .ended hnew hover
  | @ended cutoff pc hth hp =>
    rcases hd.thread_cases (t := t) hg (by simp [hth]) with hkeep | ⟨r, th, -, -, hown, -⟩
    · exact .ended (hkeep.trans hth) hp
    · rw [hth] at hown
      cases pc <;> cases hp
      cases hown

/-! ## The two halves of a sound eviction -/

/-- The step is not a request that starts an initialization, a purge, shutdown or a collection on
name `n`. -/
def Everyday (n : ν) (e : Manager ν × Event ν) : Prop := ∀ a, e.2 = .act n a → a.everyday = true

omit [DecidableEq ν] in
theorem everyday_of_act {a : Act} (ha : a.everyday = true) : Everyday n (d, .act n a) := by
  rintro _ ⟨⟩
  exact ha

variable {config : Config} {now : Time} {disk : ν → Disk} {snapshot : ν → Option Snapshot}

theorem Calm_of_step (hc : Calm (d.slot n)) (hstep : d.step ev = some d')
    (hev : Everyday n (d, ev)) : Calm (d'.slot n) := by
  rcases step_slot hstep n with ⟨hsame, -⟩ | ⟨a, e, rfl, hact⟩
  · rwa [hsame]
  · obtain ⟨w, m, hplan, -, hs', -⟩ := step_plan hact
    rw [hs']
    exact hc.step hplan (hev a rfl)

/-- What holds since goroutine `t` passed its fence on `j`; `old` is the directory at that time. -/
structure Fenced (n : ν) (t : ThreadId) (j : TaskId) (seq : Nat) (old : Option Dir)
    (ρ : List (Manager ν × Event ν)) (s : Slot) : Prop where
  calm : Calm s
  standing : Standing n t j seq ρ s
  out : (s.task j).pc.out = true
  born : j < s.nTasks
  keeps : ∀ dir, old = some dir → s.bed = some j → s.Keeps dir.data

theorem Fenced.step {old : Option Dir} (h : Fenced n t j seq old ρ (d.slot n))
    (hsound : Sound (d.slot n)) (hev : Everyday n (d, ev)) (hmeet : Meets Unfenced (d, ev))
    (hstep : d.step ev = some d') : Fenced n t j seq old (ρ ++ [(d, ev)]) (d'.slot n) := by
  have hcalm := Calm_of_step h.calm hstep hev
  have hstand := h.standing.step hsound h.calm hmeet hstep
  rcases step_slot hstep n with ⟨hsame, -⟩ | ⟨a, e, rfl, hact⟩
  · rw [hsame] at hcalm hstand ⊢
    exact ⟨hcalm, hstand, h.out, h.born, h.keeps⟩
  · obtain ⟨w, m, hd, hs', -⟩ := step_does hact
    rw [hs'] at hcalm hstand ⊢
    refine ⟨hcalm, hstand, hd.out h.born h.out, ?_, ?_⟩
    · simpa using h.born.trans_le (w.le_nTasks (d.slot n))
    · intro dir hdir hbed
      have hold := hd.bed_back h.out (by simpa using hbed)
      exact h.calm.keeps hd (by simp [hold]) (h.keeps dir hdir hold)

theorem Fences.fenced (hf : Fences n t j (d, ev)) (hsound : Sound (d.slot n))
    (hc : Calm (d.slot n)) (hstep : d.step ev = some d') (hev : Everyday n (d, ev)) :
    Fenced n t j ((d.slot n).alloc j).activitySeq (d.slot n).disk.dir [] (d'.slot n) := by
  obtain ⟨⟨r, rfl⟩, cutoff, hth, hpass⟩ := hf
  have hbed := (evictionRefused_none hpass).1
  have hcalm := Calm_of_step hc hstep hev
  rcases step_slot hstep n with ⟨-, hne⟩ | ⟨a, e, ha, hact⟩
  · exact absurd rfl (hne _)
  cases ha
  obtain ⟨w, m, hplan, hd, hs', -⟩ := step_plan hact
  have hj := hsound.grounded.entries j (.inl hbed)
  obtain ⟨th, hown, rfl⟩ := lift_eq_some.mp hplan
  rw [hth] at hown
  obtain ⟨pc', hsub, rfl⟩ := lift_eq_some.mp hown
  simp only [evictStep, hpass] at hsub
  cases hsub
  have hnew : (d'.slot n).threads t =
      .evict cutoff (.stop j ((d.slot n).alloc j).activitySeq) := by simp [hs']
  rw [hs'] at hcalm hnew ⊢
  refine ⟨hcalm, ?_, hd.out hj (hsound.active.resident j hbed), ?_, ?_⟩
  · exact .attempting hnew rfl (by simpa [Write.bed] using hbed) (by simp)
  · simpa [Write.nTasks] using hj
  · intro dir hdir _
    exact ⟨dir, by simpa using hdir, fun x hx => hx⟩

/-- An eviction that takes a durable Bed out of `beds` finds nothing in flight, and its history
shows a persist with a watermark after everything admitted on the allocation. -/
theorem evicted_persisted (h : (machine ν).Trace (boot config now disk snapshot) τ d)
    (hC : ∀ e ∈ τ, Meets Unfenced e) {r : Reply} {cutoff : Option Time} {pc : EvictPc}
    (hth : (d.slot n).threads t = .evict cutoff pc)
    (hstep : d.step (.act n (.thread t r)) = some d') (hbed : (d.slot n).bed = some j)
    (hgone : (d'.slot n).bed = none) (hdurable : ((d.slot n).storeKind j).durable = true) :
    (d'.slot n).retirement = some j ∧ (∀ o ∈ (d.slot n).operations, o.1 ≠ j) ∧
      ∃ τ₁ c τ₂, τ = τ₁ ++ c :: τ₂ ∧ Captures n t j c ∧ (∀ e ∈ τ₂, ¬Captures n t j e) ∧
        (∀ e ∈ τ₂, ¬Activity n j e) ∧ (∃ e ∈ τ₂, Stores n t j e) ∧
        ∃ e ∈ τ₂, Returns n t j none e := by
  have hsound := sound_of_trace h n
  rcases step_slot hstep n with ⟨hsame, hev⟩ | ⟨a, e, ha, hact⟩
  · exact absurd rfl (hev _)
  cases ha
  obtain ⟨w, m, hd, hs', -⟩ := step_does hact
  rw [hs'] at hgone ⊢
  simp only [move_bed, apply_bed] at hgone
  have hw : w = .retire j := by
    cases w <;> simp only [Write.bed] at hgone <;> try rw [hbed] at hgone; cases hgone
    case retire k =>
      rw [Option.some.inj (hd.retires.2.2.1.symm.trans hbed)]
    case takeForPurge k =>
      obtain ⟨⟨u, th, l, kind, rfl, hu⟩, -⟩ := hd.takes
      obtain ⟨_, ha, _⟩ := hd.act_thread
      cases ha
      rw [hth] at hu
      cases hu
    all_goals cases hgone
  subst hw
  obtain ⟨⟨u, th, cutoff', rfl, hu⟩, -, -, hflight⟩ := hd.retires
  obtain ⟨_, ha, _⟩ := hd.act_thread
  cases ha
  refine ⟨by simp [Write.retirement], ?_, ?_⟩
  · rw [hsound.operations.total, countP_eq_zero] at hflight
    exact fun o ho => by simpa using hflight o ho
  · obtain ⟨τ₁, f, τ₂, rfl, -, hquiet, hshown⟩ :=
      attempted_of_trace h hC n t j _ .returned (by rw [hu]; rfl) rfl
    rcases hshown with hfenced | ⟨ρ₁, c, ρ₂, rfl, hc, hlast, hstored, hreturned⟩
    · cases hfenced
    · exact ⟨τ₁ ++ f :: ρ₁, c, ρ₂, by simp, hc, hlast, fun e he => hquiet e (by simp [he]),
        hstored rfl hbed hdurable, hreturned rfl⟩

/-- A Bed on which something happened after the fence stays in `beds`, with its directory untouched,
as long as the attempt holds `cleanupMu`. -/
theorem disturbed_stays (h : (machine ν).Trace (boot config now disk snapshot) τ d)
    {ρ₁ ρ₂ : List (Manager ν × Event ν)} {f : Manager ν × Event ν} (hc : Calm (d.slot n))
    (hρ : (machine ν).Trace d (ρ₁ ++ f :: ρ₂) d')
    (hev : ∀ e ∈ ρ₁ ++ f :: ρ₂, Everyday n e ∧ Meets Unfenced e) (hf : Fences n t j f)
    (hdist : ∃ e ∈ ρ₂, Disturbs n t j e) (hheld : ((d'.slot n).threads t).cleanupHeld = some j) :
    (d'.slot n).bed = some j ∧
      ∀ dir, (f.1.slot n).disk.dir = some dir → (d'.slot n).Keeps dir.data := by
  obtain ⟨d₁, h₁, hrest⟩ := hρ.split
  obtain ⟨d₂, hfence, h₂⟩ := Machine.Trace.split (τ := [f]) hrest
  obtain ⟨f₁, ev⟩ := f
  obtain rfl : f₁ = d₁ := hrest.head_eq
  obtain ⟨-, hstep⟩ := Machine.Trace.of_concat (τ := []) hfence
  have hcalm : Calm (f₁.slot n) :=
    h₁.invariant_state (C := Everyday n) (P := fun d => Calm (d.slot n)) hc
      (fun d ev d' hc hev hstep => Calm_of_step hc hstep hev) (fun e he => (hev e (by simp [he])).1)
  have hstart := hf.fenced (sound_of_trace (h.append h₁) n) hcalm hstep (hev _ (by simp)).1
  have hend := h₂.invariant (C := fun e => Everyday n e ∧ Meets Unfenced e)
    (P := fun ρ d =>
    Fenced n t j ((f₁.slot n).alloc j).activitySeq (f₁.slot n).disk.dir ρ (d.slot n))
    hstart
    (fun ρ d ev d' hρ hfen hev hstep =>
      hfen.step (sound_of_trace (((h.append h₁).append hfence).append hρ) n) hev.1 hev.2 hstep)
    (fun e he => hev e (by simp [he]))
  have hbed := hend.standing.stays hheld hdist
  exact ⟨hbed, fun dir hdir => hend.keeps dir hdir hbed⟩

/-- Evictions are sound, as long as no shell is registered past a fence.  One that takes a durable
Bed out of `beds` persisted it after everything ever admitted on it, with nothing in flight; when
something is admitted after the fence, or the persist fails, the Bed stays in `beds` with its
directory untouched until the attempt is over. -/
theorem eviction_sound (h : (machine ν).Trace (boot config now disk snapshot) τ d)
    (hC : ∀ e ∈ τ, Meets Unfenced e) (n : ν) (t : ThreadId) (j : TaskId) :
    (∀ r cutoff pc d', (d.slot n).threads t = .evict cutoff pc →
      d.step (.act n (.thread t r)) = some d' → (d.slot n).bed = some j → (d'.slot n).bed = none →
      ((d.slot n).storeKind j).durable = true →
      (d'.slot n).retirement = some j ∧ (∀ o ∈ (d.slot n).operations, o.1 ≠ j) ∧
        ∃ τ₁ c τ₂, τ = τ₁ ++ c :: τ₂ ∧ Captures n t j c ∧ (∀ e ∈ τ₂, ¬Captures n t j e) ∧
          (∀ e ∈ τ₂, ¬Activity n j e) ∧ (∃ e ∈ τ₂, Stores n t j e) ∧
          ∃ e ∈ τ₂, Returns n t j none e) ∧
    ∀ ρ₁ f ρ₂ d', Calm (d.slot n) → (machine ν).Trace d (ρ₁ ++ f :: ρ₂) d' →
      (∀ e ∈ ρ₁ ++ f :: ρ₂, Everyday n e ∧ Meets Unfenced e) → Fences n t j f →
      (∃ e ∈ ρ₂, Disturbs n t j e) → ((d'.slot n).threads t).cleanupHeld = some j →
      (d'.slot n).bed = some j ∧
        ∀ dir, (f.1.slot n).disk.dir = some dir → (d'.slot n).Keeps dir.data :=
  ⟨fun _ _ _ _ hth hstep hbed hgone hdurable =>
    evicted_persisted h hC hth hstep hbed hgone hdurable, fun _ _ _ _ hc hρ hev hf hdist hheld =>
    disturbed_stays h hc hρ hev hf hdist hheld⟩

/-- After an operation on a new Bed, an eviction persists it and takes it out of `beds`; when a
request touches it right after the fence instead, the Bed stays. -/
theorem eviction_sound_touched :
    (∃ (τ : List (Manager Unit × Event Unit)) (d d' : Manager Unit),
      (machine Unit).Trace (boot plainConfig 5 (fun _ => ⟨none, none⟩) fun _ => none) τ d ∧
      d.step (.act () (.thread 1 .ok)) = some d' ∧ (d'.slot ()).bed = none ∧
        (d'.slot ()).retirement = some 0 ∧ ∃ τ₁ c τ₂, τ = τ₁ ++ c :: τ₂ ∧ Captures () 1 0 c ∧
          (∀ e ∈ τ₂, ¬Activity () 0 e) ∧ ∃ e ∈ τ₂, Stores () 1 0 e) ∧
      ∃ d : Manager Unit, ((d.slot ()).threads 1).cleanupHeld = some 0 ∧
        (d.slot ()).bed = some 0 ∧ (d.slot ()).Keeps [7] := by
  constructor
  · obtain ⟨d, hτ, hth, hbed, hdurable, d', hstep, hgone⟩ := (machine Unit).trace_of_any
      (bootEmpty plainConfig 5)
      (createSteps () 0 0 ++ [.act () (.beginOperation 0 .exec 0 .ok),
        .act () (.finishOperation 0 .exec), .act () .evict] ++ threadSteps () 1 16)
      (fun d => (d.slot ()).threads 1 = .evict none (.decide 0 2) ∧ (d.slot ()).bed = some 0 ∧
        ((d.slot ()).storeKind 0).durable = true ∧
        ∃ d', d.step (.act () (.thread 1 .ok)) = some d' ∧ (d'.slot ()).bed = none)
      (by decide +kernel)
    obtain ⟨hret, -, τ₁, c, τ₂, hsplit, hcap, -, hquiet, hstored, -⟩ :=
      (eviction_sound hτ (hτ.forall_steps (by decide +kernel)) () 1 0).1 .ok none _ d'
        hth hstep hbed
        hgone hdurable
    exact ⟨_, d, d', hτ, hstep, hgone, hret, τ₁, c, τ₂, hsplit, hcap, hquiet, hstored⟩
  · obtain ⟨d, ρ, d', hrun, hlog, hd⟩ := (machine Unit).trace_through
      (bootEmpty plainConfig 5)
      (createSteps () 0 0 ++ [.act () (.writeData 7), .act () .evict] ++ threadSteps () 1 2)
      (.act () (.thread 1 .ok)) (.act () (.touch 0) :: threadSteps () 1 14)
      (fun d ρ d' =>
        decide ((d.slot ()).calm = true ∧ (d.slot ()).threads 1 = .evict none (.fence 0) ∧
        evictionRefused (d.env ()) (d.slot ()) none 0 = none ∧
        (d.slot ()).disk.dir.map Dir.data = some [7] ∧
        (∀ e ∈ ρ, e.2 = .act () (.touch 0) ∨ e.2 = .act () (.thread 1 .ok)) ∧
        (∃ e ∈ ρ, e.2 = .act () (.touch 0) ∧ (e.1.slot ()).bed = some 0) ∧
        ((d'.slot ()).threads 1).cleanupHeld = some 0))
      (by decide +kernel)
    obtain ⟨hcalm, hth, hpass, hdata, hacts, ⟨⟨c, _⟩, hmem, rfl, hbed⟩, hheld⟩ :=
      of_decide_eq_true hd
    obtain ⟨dir, hdir, hseven⟩ := Option.map_eq_some_iff.mp hdata
    obtain ⟨d₁, hτ, hstep, hrest⟩ := hrun.split_cons
    have hmeets := Machine.forall_of_log (C := Meets Unfenced) hlog (by decide +kernel)
    have hevery : ∀ e ∈ (d, .act () (.thread 1 .ok)) :: ρ, Everyday () e ∧ Meets Unfenced e := by
      rintro ⟨_, ev⟩ he
      refine ⟨?_, hmeets _ (mem_append_right _ he)⟩
      rcases mem_cons.mp he with he | he
      · cases he
        exact everyday_of_act rfl
      · obtain rfl | rfl := hacts _ he <;> exact everyday_of_act rfl
    have hdist : Disturbs () 1 0 (c, .act () (.touch 0)) :=
      .inl ⟨.touch 0, ⟨.touch 0, .stay, rfl, if_pos hbed⟩, rfl⟩
    obtain ⟨hstays, hkeeps⟩ := (eviction_sound hτ
      (fun e he => hmeets e (mem_append_left _ he)) () 1 0).2 [] _ ρ d'
      (calm_of_grounded (sound_of_trace hτ ()).grounded hcalm)
        ((Machine.Trace.single hstep).append hrest) hevery
      ⟨⟨_, rfl⟩, none, hth, hpass⟩ ⟨_, hmem, hdist⟩ hheld
    exact ⟨d', hheld, hstays, hseven ▸ hkeeps dir hdir⟩

/-- A shell whose call touched the Bed before the fence is registered after the Bed was persisted,
and the eviction takes the Bed out of `beds` all the same. -/
theorem shell_evicted :
    ∃ (τ : List (Manager Unit × Event Unit)) (e : Manager Unit × Event Unit) (d d' : Manager Unit),
      (machine Unit).Trace (boot plainConfig 5 (fun _ => ⟨none, none⟩) fun _ => none) (τ ++ [e]) d ∧
      Activity () 0 e ∧ (d.slot ()).threads 2 = .evict none (.decide 0 1) ∧
      d.step (.act () (.thread 2 .ok)) = some d' ∧ (d.slot ()).bed = some 0 ∧
      ((d.slot ()).storeKind 0).durable = true ∧ ((d.slot ()).alloc 0).shells = 1 ∧
      (d'.slot ()).bed = none ∧ (d'.slot ()).retirement = some 0 := by
  obtain ⟨d, hτ, hplan, d₁, hreg, hth, d', hstep, hrest⟩ := (machine Unit).trace_of_any
    (bootEmpty plainConfig 5)
    (createSteps () 0 0 ++ .act () .openShell :: threadSteps () 1 2 ++
      .act () .evict :: threadSteps () 2 16)
    (fun d => (Act.thread 1 .ok).plan (d.env ()) (d.slot ()) =
        some (.registerShell 0, .thread 1 (.shell 0 (.returned none))) ∧
      ∃ d₁, d.step (.act () (.thread 1 .ok)) = some d₁ ∧
        (d₁.slot ()).threads 2 = .evict none (.decide 0 1) ∧
        ∃ d', d₁.step (.act () (.thread 2 .ok)) = some d' ∧ (d₁.slot ()).bed = some 0 ∧
          ((d₁.slot ()).storeKind 0).durable = true ∧ ((d₁.slot ()).alloc 0).shells = 1 ∧
          (d'.slot ()).bed = none ∧ (d'.slot ()).retirement = some 0)
    (by decide +kernel)
  exact ⟨_, (d, .act () (.thread 1 .ok)), d₁, d', hτ.append (Machine.Trace.single hreg),
    ⟨_, ⟨_, _, rfl, hplan⟩, rfl⟩, hth, hstep, hrest⟩

end Manager

end Hostel.Bed
