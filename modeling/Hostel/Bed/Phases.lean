/-
# Hostel.Bed.Phases — the phase each entry of the maps can have.

Whoever reads the maps learns the state of a name from the phase of its local identity, which the
entry merely points to.  In every run without a takeover the phase of a resident Bed is `Resident`
or `Evicting` until shutdown, and that of a recorded initialization is `Initializing`, `Failed` or,
once its identity has been forgotten, `Dormant`.
-/
import Hostel.Bed.Reliance

namespace Hostel.Bed

open Store Logic Option Slot Thread

variable {env : Env} {r : Reply} {s : Slot} {a : Act} {w : Write} {m : Move} {closed : Bool}
  {i j k : TaskId} {t : ThreadId} {l : LocalId} {th th' : Thread} {next : LifecycleStatus}

/-- A resident Bed is reported as resident or evicting. -/
def Phase.residential (p : Phase) : Prop := p = .resident ∨ p = .evicting

/-- A recorded initialization is reported as running, failed or forgotten. -/
def Phase.preparatory (p : Phase) : Prop := p = .initializing ∨ p = .failed ∨ p = .dormant

/-- The phases of the entries, until shutdown.  A purge that has taken an allocation over has seen
the last of the name's initializations. -/
structure Phased (closed : Bool) (s : Slot) : Prop where
  bed : closed = false → ∀ j, s.bed = some j → Phase.residential (s.phase j)
  entry : closed = false → ∀ k, s.initialization = some k → Phase.preparatory (s.phase k)
  taken : ∀ t j, (s.threads t).took = some (some j) → s.initialization = none

/-! ## Who reports a phase -/

theorem threadStep_reports (h : threadStep env r s t th = some (.setLifecycle l next, th')) :
    (∃ j q, th.tearing = some (j, q)) ∨ Phase.residential next.phase := by
  obtain ⟨-, j, -, ⟨q, htear, -⟩ | ⟨cutoff, rfl, hpass⟩ | ⟨cutoff, x, rfl⟩⟩ := threadStep_permit h
  · exact .inl ⟨j, q, htear⟩
  · obtain ⟨_, hsub, rfl⟩ := lift_eq_some.mp h
    simp only [evictStep, hpass] at hsub
    cases hsub
    exact .inr (.inr rfl)
  · obtain ⟨_, hsub, rfl⟩ := lift_eq_some.mp h
    cases hsub
    exact .inr (.inl rfl)

/-- A teardown that is not shutdown's works on an allocation that has left `beds`, and when the name
records an initialization, on none. -/
theorem Custody.tearing (hc : Custody closed s) {q : TeardownPc}
    (h : (s.threads t).tearing = some (j, q)) :
    closed = true ∨ s.bed = none ∧
      (s.retirement = some j ∨ (s.threads t).took = some (some j)) := by
  have hclaim := hc.threads t
  cases hth : s.threads t with
  | evict cutoff pc =>
    rw [hth] at h hclaim
    cases pc with
    | retire k resident p =>
      cases p <;> cases h
      obtain ⟨-, hret⟩ := hclaim.retired j rfl
      refine .inr ⟨eq_none_iff_forall_ne_some.mpr fun b hbed => ?_, .inl hret⟩
      rw [(hc.bed b hbed).1] at hret
      cases hret
    | _ => cases h
  | close pc =>
    rw [hth] at h hclaim
    cases pc <;> first | exact .inl (hclaim.shuts rfl) | cases h
  | purge pc =>
    rw [hth] at h hclaim
    cases pc <;> cases h
    exact .inr ⟨(hclaim.took _ rfl).1, .inr rfl⟩
  | _ =>
    rw [hth] at h
    cases h

/-- Every report of a phase: by the initialization that owns the name, by a teardown, or by an
eviction of an entry. -/
theorem Custody.reports (hc : Custody closed s) (hd : s.Does env a (.setLifecycle l next) m) :
    (∃ i, s.Owner i ∧ next.phase = .initializing) ∨
      (∃ t j q, (s.threads t).tearing = some (j, q)) ∨
      Phase.residential next.phase ∧ ∃ j, s.bed = some j ∨ s.retirement = some j := by
  have hG := hc.guarantee hd
  cases hd with
  | task hstep =>
    obtain ⟨-, ⟨hnext, hpc⟩ | ⟨-, q, hq, hreports⟩⟩ := taskStep_permit hstep
    · rcases hG with ⟨-, hne⟩ | ⟨i, -, hi, -, hinit⟩
      · exact absurd hnext hne
      · exact .inl ⟨i, hi, hinit⟩
    · have hsilent := (hc.tasks _).silent q hq
      cases q <;> simp_all [TeardownPc.silent, TeardownPc.reports]
  | @thread u _ _ _ hstep =>
    rcases threadStep_reports hstep with ⟨j, q, htear⟩ | hnext
    · exact .inr (.inl ⟨u, j, q, htear⟩)
    · obtain ⟨-, j, -, ⟨q, htear, -⟩ | ⟨cutoff, hth, hpass⟩ | ⟨cutoff, x, hth⟩⟩ :=
        threadStep_permit hstep
      · exact .inr (.inl ⟨u, j, q, htear⟩)
      · exact .inr (.inr ⟨hnext, j, .inl (evictionRefused_none hpass).1⟩)
      · have hclaim := hc.threads u
        rw [hth] at hclaim
        have hlocked : x.locked = true := by
          simpa [stray, EvictPc.stray] using hclaim.steady
        exact .inr (.inr ⟨hnext, j, (hclaim.entered j (whenHeld_eq_some.mpr ⟨hlocked, rfl⟩)).2⟩)
  | call hcall => exact hcall.elim
  | collect hcollect => exact hcollect.elim rfl

/-! ## One step -/

theorem finishDecision_entry {err : Option Fault} {reason : String} {st : Option LifecycleStatus}
    (h : (false, st) = finishDecision env s i err reason) : ∀ x ∈ st, x.phase = .failed := by
  unfold finishDecision at h
  split at h
  · split at h
    · cases h
    · split_ifs at h <;> cases h
      rintro x ⟨⟩
      rfl
  · cases h
    exact nofun

theorem Phased.bed_phase (hp : Phased closed s) (hc : Custody closed s) (hs : Sound s)
    (hd : s.Does env a w m) (hopen : closed = false) (hj : w.bed s = some j) :
    Phase.residential (w.phase s (w.task s j).identity) := by
  have hG := hc.guarantee hd
  by_cases hbed : s.bed = some j
  · have hold := hp.bed hopen j hbed
    rw [Write.task_identity s j w (hs.grounded.entries j (.inl hbed)).ne]
    rcases hc.phase_of_bed hG hbed with hsame | ⟨next, rfl⟩
    · rw [hsame]
      exact hold
    · rw [Write.phase, if_pos rfl]
      rcases hc.reports hd with ⟨i, hi, -⟩ | ⟨t, k, q, htear⟩ | ⟨hnext, -⟩
      · exact absurd hi (hc.unowned_of_bed hbed i)
      · rcases hc.tearing htear with hclosed | ⟨hnone, -⟩
        · rw [hopen] at hclosed
          cases hclosed
        · rw [hnone] at hbed
          cases hbed
      · exact hnext
  · -- the only write that makes an allocation resident is its publication
    cases w <;> simp only [Write.bed] at hj <;> first | exact absurd hj hbed | skip
    all_goals first | (cases hj; done) | skip
    cases hj
    exact .inl (by simp [Write.phase, Write.task])

/-- The phase of a recorded initialization after a write that leaves it recorded; it becomes
`Dormant` when a cleanup forgets the identity. -/
theorem Phased.entry_phase (hp : Phased closed s) (hc : Custody closed s) (hs : Sound s)
    (hd : s.Does env a w m) (hopen : closed = false) (hk : w.initialization s = some k) {P : Prop}
    (hdormant : s.initialization = some k → s.phase k = .dormant → P)
    (hforgotten : s.initialization = some k → w = .unregisterIdentity (s.task k).identity → P) :
    w.phase s (w.task s k).identity = .initializing ∨ w.phase s (w.task s k).identity = .failed ∨
      w.phase s (w.task s k).identity = .dormant ∧ P := by
  have hG := hc.guarantee hd
  by_cases hini : s.initialization = some k
  · have hold : s.phase k = .initializing ∨ s.phase k = .failed ∨ s.phase k = .dormant ∧ P :=
      (hp.entry hopen k hini).imp_right (Or.imp_right fun h => ⟨h, hdormant hini h⟩)
    have hlt := hs.grounded.entries k (.inr (.inr hini))
    have hlocal : (s.task k).identity ≠ s.nLocals := (hs.grounded.locals k hlt).ne
    rw [Write.task_identity s k w hlt.ne]
    cases w with
    | accept kind hasMain => exact absurd (some.inj hk) hlt.ne'
    | publish i ready => cases hk
    | finishInitialization i err delete st =>
      simp only [Write.phase]
      split_ifs with hl
      · cases st with
        | none => exact hold
        | some x =>
          -- the entry stays, so the initialization is reported to have failed
          obtain rfl : delete = false := by
            cases delete with
            | false => rfl
            | true => cases hk
          obtain ⟨_, _, _, rfl, rfl, hstep⟩ := hd.by_task (fun _ _ => id) id rfl
          obtain ⟨rfl, reason, -, hdecision⟩ := taskStep_permit hstep
          exact .inr (.inl (finishDecision_entry hdecision x rfl))
      · exact hold
    | setLifecycle l next =>
      simp only [Write.phase]
      split_ifs with hl
      · -- nobody else reports while the name records an initialization
        rcases hc.reports hd with ⟨i, -, hinit⟩ | ⟨t, j, q, htear⟩ | ⟨hnext, j, hentry⟩
        · exact .inl hinit
        · rcases hc.tearing htear with hclosed | ⟨-, hret | htook⟩
          · rw [hopen] at hclosed
            cases hclosed
          · rcases hc.entry k hini with hown | ⟨-, -, hnone⟩
            · exact absurd hown (hc.unowned_of_tearing htear k)
            · rw [hnone] at hret
              cases hret
          · rw [hp.taken t j htook] at hini
            cases hini
        · rcases hc.entry k hini with hown | ⟨-, hbed, hret⟩
          · rcases hG with ⟨hun, -⟩ | ⟨i, -, -, -, hinit⟩
            · exact absurd hown (hun k)
            · exact .inl hinit
          · rcases hentry with hj | hj
            · rw [hbed] at hj
              cases hj
            · rw [hret] at hj
              cases hj
      · exact hold
    | unregisterIdentity l =>
      simp only [Write.phase]
      split_ifs with hl
      · exact .inr (.inr ⟨rfl, hforgotten hini (by rw [hl.2])⟩)
      · exact hold
    | registerIdentity | claimLuggage =>
      simp only [Write.phase, hlocal, and_false, if_false]
      exact hold
    | _ => exact hold
  · cases w <;> simp only [Write.initialization] at hk <;> first | exact absurd hk hini | skip
    case finishInitialization =>
      split_ifs at hk
      exact absurd hk hini
    all_goals first | (cases hk; done) | skip
    cases hk
    exact .inl (by simp [Write.phase, Write.task, Initialization.fresh])

theorem Write.initialization_none (h : s.initialization = none)
    (hw : ∀ kind hasMain, w ≠ .accept kind hasMain) : w.initialization s = none := by
  cases w <;> simp only [Write.initialization] <;> first | exact h | rfl | skip
  case accept kind hasMain => exact absurd rfl (hw kind hasMain)
  case finishInitialization => split_ifs <;> first | rfl | exact h

theorem purgeStep_taken {q q' : PurgePc} (h : purgeStep env r s t q = some (w, q'))
    (hj : (purge q').took = some (some j)) :
    (purge q).took = some (some j) ∨
      (purge q).sealed = true ∧ (s.bed = some j ∨ s.retirement = some j) := by
  revert h
  fun_cases purgeStep env r s t q <;> intro h
  case case17 =>
    cases h
    cases hj
    exact .inr ⟨rfl, .inl ‹_›⟩
  case case18 =>
    cases h
    cases hj
    exact .inr ⟨rfl, .inr ‹_›⟩
  case case28 | case32 | case34 =>
    cases h
    unfold purgeExit at hj
    split at hj <;> cases hj
  case case35 err | case36 err =>
    cases h
    cases err <;> cases hj
  all_goals first
    | (obtain ⟨_, hsub, rfl⟩ := lift_eq_some.mp h; exact .inl hj)
    | (cases h <;> first | exact .inl hj | cases hj)

theorem Phased.taken_step (hp : Phased closed s) (hc : Custody env.closed s)
    (h : threadStep env r s t (s.threads t) = some (w, th))
    (hj : th.took = some (some j)) : w.initialization s = none := by
  have hclaim := hc.threads t
  have htaken := hp.taken t j
  have hperm := threadStep_permit h
  cases hth : s.threads t with
  | purge q =>
    rw [hth] at h hclaim htaken hperm
    obtain ⟨q', hsub, rfl⟩ := lift_eq_some.mp h
    have hini : s.initialization = none := by
      rcases purgeStep_taken hsub hj with hold | ⟨hsealed, hentry⟩
      · exact htaken hold
      · refine eq_none_iff_forall_ne_some.mpr fun k hk => ?_
        rcases hentry with hbed | hret
        · rw [(hc.bed j hbed).2.1] at hk
          cases hk
        · rcases hc.entry k hk with hown | ⟨-, -, hnone⟩
          · exact hclaim.sealed hsealed k hown
          · rw [hnone] at hret
            cases hret
    refine Write.initialization_none hini fun kind hasMain hw => ?_
    subst hw
    obtain ⟨-, _, _, hcreate⟩ := hperm
    cases hcreate
  | idle =>
    rw [hth] at h
    cases h
  | _ =>
    rw [hth] at h
    obtain ⟨_, _, rfl⟩ := lift_eq_some.mp h
    cases hj

/-! ## Every run -/

theorem Phased.does (hp : Phased env.closed s) (hc : Custody env.closed s) (hs : Sound s)
    (hd : s.Does env a w m) : Phased env.closed ((s.apply env w).move m) where
  bed hopen j hj := by
    have := hp.bed_phase hc hs hd hopen (by simpa using hj)
    simpa [phase, lifecycle] using this
  entry hopen k hk := by
    have := hp.entry_phase hc hs hd hopen (by simpa using hk) (P := True) (fun _ _ => trivial)
      fun _ _ => trivial
    simpa [phase, lifecycle, Phase.preparatory] using this
  taken := by
    suffices h : ∀ t j, (((s.apply env w).move m).threads t).took = some (some j) →
        w.initialization s = none by simpa using h
    intro t
    refine hd.forall_threads (P := fun _ th => ∀ j, th.took = some (some j) →
      w.initialization s = none) ?_ ?_ ?_ ?_ t
    · -- a purge under way keeps admissions out
      intro t _ j htook
      refine Write.initialization_none (hp.taken t j htook) fun kind hasMain hw => ?_
      subst hw
      exact (hc.threads t).inadmissible (.inl (took_sealed htook).2) hd.accepts.1
    · rintro t r th rfl hstep j htook
      exact hp.taken_step hc hstep htook
    · rintro th - hspawn - j htook
      cases hspawn <;> cases htook
    · rintro l root - - j htook
      cases htook

theorem phased_boot (env : Env) (disk : Disk) (snapshot : Option Snapshot) :
    Phased closed (boot env disk snapshot) where
  bed := nofun
  entry := nofun
  taken := nofun

theorem Manager.phased_of_trace {ν : Type} [DecidableEq ν] {config : Config} {now : Time}
    {disk : ν → Disk} {snapshot : ν → Option Snapshot} {τ : List (Manager ν × Event ν)}
    {m : Manager ν} (h : (machine ν).Trace (boot config now disk snapshot) τ m)
    (hC : ∀ e ∈ τ, Meets NoTakeover e) (n : ν) : Phased m.closed (m.slot n) := by
  refine (slot_invariant (C := NoTakeover)
    (I := fun closed s => (Sound s ∧ Custody closed s) ∧ Phased closed s) ?_ ?_
    (fun k => ⟨⟨sound_boot _ _ _, custody_boot _ _ _⟩, phased_boot _ _ _⟩) h hC n).2
  · exact fun s hI => ⟨⟨hI.1.1, hI.1.2.stop⟩, nofun, nofun, hI.2.taken⟩
  · intro env s a s' e hI hno hstep
    obtain ⟨w, mv, hd, rfl, -⟩ := step_does hstep
    obtain ⟨⟨hs, hc⟩, hp⟩ := hI
    exact ⟨⟨hs.does hd, hc.does hs hd hno⟩, hp.does hc hs hd⟩

/-! ## Entries of initializations that have ended

A failed initialization stays recorded for its retention time, with the phase `Failed` of its
identity.  When its own cleanup failed too, a later retry may succeed and forget that identity under
the entry, whose phase is then `Dormant`: no pruning finds it. -/

/-- The initialization is in `finishInitialization`, with an error. -/
def TaskPc.finishing : TaskPc → Bool
  | .finishClean _ _ _ | .finishFinal (some _) _ => true
  | _ => false

/-- No cleanup forgets the identity of a recorded initialization that has ended. -/
def SparesRecords (_ : Env) (s : Slot) : Act → Prop
  | .thread t _ =>
    match s.initialization, (s.threads t).cleaning s with
    | some k, some (l, .unregister _) => (s.task k).pc.out = true → l ≠ (s.task k).identity
    | _, _ => True
  | _ => True

instance (env : Env) (s : Slot) (a : Act) : Decidable (SparesRecords env s a) := by
  induction a using Act.casesOn <;> dsimp only [SparesRecords] <;> try infer_instance
  case thread t r =>
    generalize s.initialization = i, (s.threads t).cleaning s = o
    induction i using Option.casesOn <;> induction o using Option.casesOn <;> try infer_instance
    case some.some k x =>
      induction x using Prod.casesOn with | mk l pc => induction pc using CleanPc.casesOn <;>
        infer_instance

/-- Until shutdown a recorded initialization has a forgotten identity only while it finishes. -/
def Recorded (closed : Bool) (s : Slot) : Prop :=
  closed = false → ∀ k, s.initialization = some k → s.phase k = .dormant →
    (s.task k).pc.finishing = true

theorem Custody.finishing_of_forgotten (hc : Custody closed s)
    (hd : s.Does env a (.unregisterIdentity (s.task k).identity) m)
    (hini : s.initialization = some k) (hspare : SparesRecords env s a) :
    (s.task k).pc.finishing = true := by
  obtain ⟨hsole, -, -, -, B, want, c, -, hattempt⟩ := hc.guarantee hd
  cases hd with
  | @task i _ _ _ hstep =>
    obtain ⟨hl, c, hcleaning⟩ := taskStep_permit hstep
    have hpc : (s.task i).pc.finishing = true ∧ (s.task i).pc.out = false := by
      revert hcleaning
      cases (s.task i).pc <;> intro h <;> cases h
      exact ⟨rfl, rfl⟩
    have hown : s.Owner i := ⟨hpc.2, hl ▸ hattempt.identity⟩
    cases hini.symm.trans (hc.owned hown).initialization
    exact hpc.1
  | thread hstep =>
    obtain ⟨c, hcleaning⟩ := threadStep_permit hstep
    have hout : (s.task k).pc.out = true := by
      by_contra hno
      cases hsole k ⟨Bool.eq_false_of_not_eq_true hno, hattempt.identity⟩
    simp [SparesRecords, hini, hcleaning, hout] at hspare
  | call hcall => exact hcall.elim
  | collect hcollect => exact hcollect.elim rfl

theorem taskStep_finishing {pc pc' : TaskPc} (h : taskStep env r s i pc = some (w, pc'))
    (hpc : pc.finishing = true) : pc'.finishing = true ∨ ∃ err reason,
      w = .finishInitialization i (some err) (finishDecision env s i (some err) reason).1
        (finishDecision env s i (some err) reason).2 := by
  cases pc with
  | finishClean err reason q =>
    cases q with
    | ret f =>
      cases h
      cases f <;> exact .inl rfl
    | _ =>
      obtain ⟨_, -, rfl⟩ := lift_eq_some.mp h
      exact .inl rfl
  | finishFinal err reason =>
    cases err with
    | none => cases hpc
    | some err =>
      cases h
      exact .inr ⟨err, reason, rfl⟩
  | _ => cases hpc

theorem Recorded.does (hr : Recorded env.closed s) (hp : Phased env.closed s)
    (hc : Custody env.closed s) (hs : Sound s) (hd : s.Does env a w m)
    (hspare : SparesRecords env s a) : Recorded env.closed ((s.apply env w).move m) := by
  intro hopen k hk hphase
  have hk : w.initialization s = some k := by simpa using hk
  have hphase : w.phase s (w.task s k).identity = .dormant := by
    simpa [phase, lifecycle] using hphase
  obtain h | h | ⟨-, hini, hfinishing⟩ := hp.entry_phase hc hs hd hopen hk
    (P := s.initialization = some k ∧ (s.task k).pc.finishing = true)
    (fun hini h => ⟨hini, hr hopen k hini h⟩)
    (fun hini hw => ⟨hini, hc.finishing_of_forgotten (hw ▸ hd) hini hspare⟩)
  · rw [hphase] at h
    cases h
  · rw [hphase] at h
    cases h
  · refine hd.forall_tasks (P := fun i pc => i = k → pc.finishing = true) ?_ ?_ ?_ k rfl
    · rintro i - - rfl
      exact hfinishing
    · rintro i r pc - hstep rfl
      rcases taskStep_finishing hstep hfinishing with h | ⟨err, reason, rfl⟩
      · exact h
      · -- the end of the task deletes the entry or reports the failure
        simp only [Write.initialization, Write.phase, Write.task, finishDecision, hini, if_true]
          at hk hphase
        split_ifs at hk hphase <;> simp_all [status]
    · rintro - - rfl
      exact absurd (hs.grounded.entries _ (.inr (.inr hini))) (lt_irrefl _)

namespace Manager

variable {ν : Type} [DecidableEq ν] {config : Config} {now : Time} {disk : ν → Disk}
  {snapshot : ν → Option Snapshot} {τ : List (Manager ν × Event ν)} {d : Manager ν} {n : ν}

/-- In every run without a takeover in which no cleanup forgets the identity of an ended
initialization that is still recorded: a recorded initialization is running or failed, except while
its own task finishes, and one that has ended is removed by the first pruning after its retention
time. -/
theorem failed_entries_pruned (h : (machine ν).Trace (boot config now disk snapshot) τ d)
    (hC : ∀ e ∈ τ, MeetsAt n (fun env s a => NoTakeover env s a ∧ SparesRecords env s a) e)
    (hopen : d.closed = false) (hk : (d.slot n).initialization = some k) :
    (((d.slot n).task k).pc.finishing = false →
      (d.slot n).phase k = .initializing ∨ (d.slot n).phase k = .failed) ∧
    (((d.slot n).task k).pc.out = true →
      ((d.slot n).lifecycle k).updatedAt + failedInitializationRetention ≤ d.now →
      Act.prune.plan (d.env n) (d.slot n) = some (.deleteInitialization, .stay)) := by
  obtain ⟨⟨⟨-, hc⟩, hp⟩, hr⟩ := slot_invariant_at
    (C := fun env s a => NoTakeover env s a ∧ SparesRecords env s a)
    (I := fun closed s => ((Sound s ∧ Custody closed s) ∧ Phased closed s) ∧ Recorded closed s)
    (fun s hI => ⟨⟨⟨hI.1.1.1, hI.1.1.2.stop⟩, nofun, nofun, hI.1.2.taken⟩, nofun⟩)
    (fun env s a s' e hI hcond hstep => by
      obtain ⟨w, mv, hd, rfl, -⟩ := step_does hstep
      obtain ⟨⟨⟨hs, hc⟩, hp⟩, hr⟩ := hI
      exact ⟨⟨⟨hs.does hd, hc.does hs hd hcond.1⟩, hp.does hc hs hd⟩, hr.does hp hc hs hd hcond.2⟩)
    ⟨⟨⟨sound_boot _ _ _, custody_boot _ _ _⟩, phased_boot _ _ _⟩, fun _ _ h => by cases h⟩ h hC
  have hphase : ((d.slot n).task k).pc.finishing = false →
      (d.slot n).phase k = .initializing ∨ (d.slot n).phase k = .failed := by
    intro hpc
    rcases hp.entry hopen k hk with h | h | h
    · exact .inl h
    · exact .inr h
    · rw [hr hopen k hk h] at hpc
      cases hpc
  refine ⟨hphase, fun hout hage => ?_⟩
  have hfailed : (d.slot n).phase k = .failed := by
    refine (hphase ?_).resolve_left fun h => ?_
    · revert hout
      fun_cases TaskPc.out ((d.slot n).task k).pc <;> intro hout <;> first | rfl | cases hout
    · rcases hc.entry k hk with hown | ⟨hne, -⟩
      · rw [hown.1] at hout
        cases hout
      · exact hne h
  simp only [Act.plan, hk, hfailed, true_and]
  exact if_pos hage

/-- An initialization fails; its entry is pruned after ten minutes. -/
theorem failed_entries_pruned_once :
    ∃ d : Manager Unit, (d.slot ()).initialization = some 0 ∧ (d.slot ()).phase 0 = .failed ∧
      Act.prune.plan (d.env ()) (d.slot ()) = some (.deleteInitialization, .stay) := by
  obtain ⟨d, hτ, hopen, hini, hpc, hage⟩ := (machine Unit).trace_of_any
    (bootEmpty plainConfig 5)
    (.act () (.initializeBed plainRequest) :: threadSteps () 0 3 ++
      .act () (.task 0 (.fail .hook)) :: taskSteps () 0 11 ++ [.tick failedInitializationRetention])
    (fun d => d.closed = false ∧ (d.slot ()).initialization = some 0 ∧
      ((d.slot ()).task 0).pc = .finished ∧
      ((d.slot ()).lifecycle 0).updatedAt + failedInitializationRetention ≤ d.now)
    (by decide +kernel)
  have hC := hτ.forall_steps
    (C := Meets (fun env s a => NoTakeover env s a ∧ SparesRecords env s a)) (by decide +kernel)
  obtain ⟨hphase, hprune⟩ := failed_entries_pruned hτ (fun e he => (hC e he).at ()) hopen hini
  have hfailed := hprune (by rw [hpc]; rfl) hage
  refine ⟨d, hini, ?_, hfailed⟩
  simp only [Act.plan, hini, ite_none_right_eq_some] at hfailed
  exact hfailed.1.1

/-- The cleanup of a failed initialization fails and is retried: its identity is forgotten while the
entry stands, and no pruning removes it. -/
theorem retried_cleanup_keeps_entry :
    ∃ τ, ∃ d : Manager Unit,
      (machine Unit).Trace (boot plainConfig 5 (fun _ => ⟨none, none⟩) (fun _ => none)) τ d ∧
      (∀ e ∈ τ, Meets NoTakeover e) ∧ d.closed = false ∧ (d.slot ()).initialization = some 0 ∧
      ((d.slot ()).task 0).pc = .finished ∧ (d.slot ()).phase 0 = .dormant ∧
      ∀ now, Act.prune.plan { d.env () with now := now } (d.slot ()) = none := by
  obtain ⟨d, hτ, hopen, hini, hpc, hphase⟩ := (machine Unit).trace_of_any
    (bootEmpty plainConfig 5)
    (.act () (.initializeBed plainRequest) :: threadSteps () 0 3 ++
      .act () (.task 0 (.fail .hook)) ::
      taskSteps () 0 2 ++ .act () (.task 0 (.fail .hook)) :: taskSteps () 0 3 ++
      .act () .retryCleanup :: threadSteps () 1 7)
    (fun d => d.closed = false ∧ (d.slot ()).initialization = some 0 ∧
      ((d.slot ()).task 0).pc = .finished ∧ (d.slot ()).phase 0 = .dormant)
    (by decide +kernel)
  refine ⟨_, d, hτ, ?_, hopen, hini, hpc, hphase, fun now => by simp [Act.plan, hini, hphase]⟩
  decide +kernel

end Manager

end Hostel.Bed
