/-
# Hostel.Bed.Admission — what the eviction fence keeps out.

`beginEvictionLocked` turns a resident Bed to `Evicting`, and the Bed stays in `m.beds` while the
attempt stops, persists and decides.  Of the four entry points that admit work, `BeginOperation` and
`RenewExpiration` refuse every phase but `Resident`, `OpenSession` looks at the phase only where the
Bed declares main processes, and a shell is registered without a check.  So the fence holds for the
first two, and for sessions on a resident Bed or on one with main processes
(`no_admission_past_fence`); other sessions and shells pass it (`session_past_fence`).
-/
import Hostel.Bed.Reliance
import Hostel.Bed.Eviction

namespace Hostel.Bed

open Store Logic List Option Slot EvictPc

variable {env : Env} {r : Reply} {s : Slot} {a : Act} {w : Write} {m : Move} {closed : Bool}
  {j : TaskId} {t : ThreadId} {th th' : Thread}

/-! ## The window of an attempt -/

/-- The allocation on which a write admits an operation, a session or a renewal. -/
def Write.admits : Write → Option TaskId
  | .beginOperation j _ _ | .openSession j | .registerShell j | .renew j _ => some j
  | _ => none

/-- The attempt is past its fence, and has neither retired the Bed nor restored its phase. -/
def EvictPc.fencing : EvictPc → Option TaskId
  | .stop j _ | .quiesce j _ | .persist j _ _ | .decide j _ => some j
  | .recover j x | .restart j x | .resume j x => whenHeld x.locked j
  | _ => none

@[inherit_doc EvictPc.fencing]
def Thread.fencing : Thread → Option TaskId
  | .evict _ pc => pc.fencing
  | _ => none

def Thread.resuming (j : TaskId) : Thread → Bool
  | .evict _ (.resume k _) => k == j
  | _ => false

/-- Between the fence and the end of the attempt: shutdown has begun, or the Bed is not an entry of
`m.beds`, or its phase is not `Resident`. -/
structure Slot.Window (closed : Bool) (s : Slot) (t : ThreadId) (j : TaskId) : Prop where
  born : j < s.nTasks
  out : (s.task j).pc.out = true
  shut : closed = true ∨ s.bed ≠ some j ∨
    (s.threads t).fencing = some j ∧ s.phase j ≠ .resident

theorem Thread.fencing_held (h : th.fencing = some j) : th.cleanupHeld = some j := by
  cases th with
  | evict cutoff pc => cases pc <;> first | exact h | cases h
  | _ => cases h

theorem evictStep_fencing {cutoff : Option Time} {pc pc' : EvictPc}
    (h : evictStep env r s t cutoff pc = some (w, pc')) (hj : pc.fencing = some j) :
    pc'.fencing = some j ∨ w = .retire j ∨ (∃ x, pc = .resume j x) ∨ env.closed = true ∨
      s.bed ≠ some j := by
  revert h
  fun_cases evictStep env r s t cutoff pc <;> intro h
  all_goals first
    | (cases hj; done)
    | (obtain ⟨q, -, rfl⟩ := lift_eq_some.mp h; exact .inl hj)
    | (cases h; simp_all [fencing])

/-! ## Who restores the phase -/

def Write.revives : Write → Bool
  | .setLifecycle _ next => next.phase == .resident
  | _ => false

theorem teardownStep_revives {k : TaskId} {q q' : TeardownPc}
    (h : teardownStep env r s k q = some (w, q')) : w.revives = false := by
  revert h
  fun_cases teardownStep env r s k q <;> intro h <;> cases h <;> try rfl
  -- the phase after a teardown depends on whether the Bed is still retiring
  rename_i retiring
  cases retiring <;> rfl

theorem threadStep_tearing {k : TaskId} {q : TeardownPc}
    (h : threadStep env r s t th = some (w, th')) (htear : th.tearing = some (k, q))
    (hq : q.reports = true) : ∃ q', teardownStep env r s k q = some (w, q') := by
  revert htear
  fun_cases Thread.tearing th <;> intro htear <;> cases htear
  all_goals
    obtain ⟨_, h, -⟩ := lift_eq_some.mp h
    cases q <;> cases hq
  all_goals
    obtain ⟨_, h, -⟩ := lift_eq_some.mp h
    first
      | exact ⟨_, h⟩
      | (obtain ⟨_, h, -⟩ := lift_eq_some.mp h; exact ⟨_, h⟩)

theorem threadStep_revives (h : threadStep env r s t th = some (w, th')) (hw : w.revives = true) :
    ∃ cutoff k x, th = .evict cutoff (.resume k x) := by
  cases w with
  | setLifecycle l next =>
    obtain ⟨-, k, rfl, ⟨q, htear, hq⟩ | ⟨cutoff, rfl, hpass⟩ | hresume⟩ := threadStep_permit h
    · obtain ⟨q', hsub⟩ := threadStep_tearing h htear hq
      rw [teardownStep_revives hsub] at hw
      cases hw
    · -- the fence reports `Evicting`
      obtain ⟨_, hsub, -⟩ := lift_eq_some.mp h
      rw [evictStep, hpass] at hsub
      cases hsub
      cases hw
    · obtain ⟨cutoff, x, hth⟩ := hresume
      exact ⟨cutoff, k, x, hth⟩
  | _ => cases hw

/-! ## The fence holds -/

/-- Nobody but the attempt itself restores the phase of a resident Bed that it fences. -/
theorem Custody.phase_fenced (hc : Custody env.closed s) (hs : Sound s) (hd : s.Does env a w m)
    (hbed : s.bed = some j) (hfence : (s.threads t).fencing = some j)
    (hphase : s.phase j ≠ .resident)
    (hown : ∀ r, a = .thread t r → (s.threads t).resuming j = false) :
    w.phase s (s.task j).identity ≠ .resident := by
  rcases hc.phase_of_bed (hc.guarantee hd) hbed with hsame | ⟨next, rfl⟩
  · rw [hsame]
    exact hphase
  rw [Write.phase, if_pos rfl]
  intro hnext
  have hw : (Write.setLifecycle (s.task j).identity next).revives = true := by
    simp [Write.revives, hnext]
  cases hd with
  | task hstep =>
    rcases (taskStep_permit hstep).2 with ⟨hinit, -⟩ | ⟨-, q, hq, hreports⟩
    · rw [hinit] at hnext
      cases hnext
    · have := (hc.tasks _).silent q hq
      cases q <;> simp_all [TeardownPc.silent, TeardownPc.reports]
  | @thread u _ _ th hstep =>
    obtain ⟨cutoff, k, x, hth⟩ := threadStep_revives hstep hw
    have hclaim := hc.threads u
    rw [hth] at hclaim
    have hlocked : x.locked = true := by simpa [Thread.stray, stray] using hclaim.steady
    -- what it recovers is an entry of the name, so it is the Bed
    obtain rfl : k = j := by
      rcases (hclaim.entered k (whenHeld_eq_some.mpr ⟨hlocked, rfl⟩)).2 with hk | hk
      · exact some.inj (hk.symm.trans hbed)
      · rw [(hc.bed j hbed).1] at hk
        cases hk
    have hheld : s.holds .cleanup (.thread u) = some k := by
      simp [holds, LockKind.held, hth, Thread.cleanupHeld, cleanupHeld, hlocked]
    have hut : Agent.thread u = .thread t := hs.grounded.exclusive hheld
      (show s.holds .cleanup (.thread t) = some k from Thread.fencing_held hfence)
    cases hut
    have := hown _ rfl
    simp [hth, Thread.resuming] at this
  | call hcall => exact hcall.elim
  | collect hcollect => exact hcollect.elim rfl

theorem Slot.Window.step (hw : s.Window env.closed t j) (hc : Custody env.closed s) (hs : Sound s)
    (hd : s.Does env a w m)
    (hown : ∀ r, a = .thread t r → w ≠ .retire j ∧ (s.threads t).resuming j = false) :
    ((s.apply env w).move m).Window env.closed t j := by
  refine ⟨by simpa using hw.born.trans_le (w.le_nTasks s), hd.out hw.born hw.out, ?_⟩
  rcases hw.shut with hclosed | hgone | ⟨hfence, hphase⟩
  · exact .inl hclosed
  · exact .inr (.inl fun h => hgone (hd.bed_back hw.out (by simpa using h)))
  · by_cases hbed' : w.bed s = some j
    swap
    · exact .inr (.inl (by simpa using hbed'))
    have hbed : s.bed = some j := hd.bed_back hw.out hbed'
    have hphase' : ((s.apply env w).move m).phase j ≠ .resident := by
      have := hc.phase_fenced hs hd hbed hfence hphase fun r hr => (hown r hr).2
      simpa [phase, lifecycle, Write.task_identity s j w hw.born.ne] using this
    have hbusy : s.threads t ≠ .idle := fun h => by
      rw [h] at hfence
      cases hfence
    rcases hd.thread_cases hs.grounded hbusy with hsame | ⟨r, th, rfl, rfl, hstep, hth⟩
    · exact .inr (.inr ⟨by rw [hsame]; exact hfence, hphase'⟩)
    · -- a step of the attempt itself
      obtain ⟨hretire, hresume⟩ := hown r rfl
      cases hpc : s.threads t with
      | evict cutoff pc =>
        rw [hpc] at hstep hfence hresume
        obtain ⟨pc', hsub, rfl⟩ := lift_eq_some.mp hstep
        rcases evictStep_fencing hsub hfence with h | h | ⟨x, rfl⟩ | h | h
        · exact .inr (.inr ⟨by rw [hth]; exact h, hphase'⟩)
        · exact absurd h hretire
        · simp [Thread.resuming] at hresume
        · exact .inl h
        · exact absurd hbed h
      | _ =>
        rw [hpc] at hfence
        cases hfence

/-- What a session open and the registration of a shell do not check: the Bed has main processes or
is `Resident`; the Bed is resident and the manager not shut down. -/
def Write.Checked (env : Env) (s : Slot) : Write → Prop
  | .openSession j => s.phase j = .resident ∨ (s.locals (s.task j).identity).hasMainProcesses = true
  | .registerShell j => env.closed = false ∧ s.bed = some j ∧ s.phase j = .resident
  | _ => True

instance (env : Env) (s : Slot) (w : Write) : Decidable (w.Checked env s) := by
  unfold Write.Checked
  split <;> infer_instance

/-- No rollback is taken over, and sessions and shells are opened where the phase allows it. -/
def Guarded (env : Env) (s : Slot) (a : Act) : Prop :=
  NoTakeover env s a ∧ ∀ p ∈ a.plan env s, p.1.Checked env s

instance (env : Env) (s : Slot) (a : Act) : Decidable (Guarded env s a) :=
  inferInstanceAs (Decidable (_ ∧ _))

theorem Slot.Window.refuses (hw : s.Window env.closed t j) (hcheck : w.Checked env s)
    (hd : s.Does env a w m) : w.admits ≠ some j := by
  intro hadm
  have hshut : env.closed = false → s.bed = some j → s.phase j = .resident → False := by
    intro hopen hbed hphase
    rcases hw.shut with hclosed | hgone | ⟨-, hne⟩
    · rw [hopen] at hclosed
      cases hclosed
    · exact hgone hbed
    · exact hne hphase
  cases w <;> simp only [Write.admits, some.injEq, reduceCtorEq] at hadm <;> subst hadm
  case beginOperation k kind timeout =>
    cases hd with
    | task hstep => exact (taskStep_permit hstep).elim
    | thread hstep =>
      obtain ⟨-, -, hbed, hphase, hopen⟩ := threadStep_permit hstep
      exact hshut hopen hbed hphase
    | call hcall => exact hshut hcall.2.2.2 hcall.2.1 hcall.2.2.1
    | collect hcollect => exact hcollect.elim rfl
  case openSession k =>
    obtain ⟨hbed, hopen, hmain⟩ := hd.by_call (fun _ _ => id) (fun _ _ => id) rfl
    exact hshut hopen hbed (hcheck.elim id hmain)
  case registerShell k => exact hshut hcheck.1 hcheck.2.1 hcheck.2.2
  case renew k base =>
    obtain ⟨hbed, hphase, hopen⟩ := hd.by_call (fun _ _ => id) (fun _ _ => id) rfl
    exact hshut hopen hbed hphase

namespace Manager

variable {ν : Type} [DecidableEq ν] {config : Config} {now : Time} {disk : ν → Disk}
  {snapshot : ν → Option Snapshot} {τ : List (Manager ν × Event ν)} {d d' : Manager ν} {n : ν}
  {ev : Event ν}

/-- The attempt of goroutine `t` on `j` retires the Bed, or restores the phase `Resident`. -/
def Leaves (n : ν) (t : ThreadId) (j : TaskId) (e : Manager ν × Event ν) : Prop :=
  By n t e ∧ (Performs n (.retire j) e ∨ ((e.1.slot n).threads t).resuming j = true)

/-- An operation, a session or a renewal is admitted on allocation `j`. -/
def Admits (n : ν) (j : TaskId) (e : Manager ν × Event ν) : Prop :=
  ∃ w, Performs n w e ∧ w.admits = some j

theorem Fences.window (hs : Sound (d.slot n)) (hf : Fences n t j (d, ev))
    (hstep : d.step ev = some d') : (d'.slot n).Window d'.closed t j := by
  obtain ⟨⟨r, rfl⟩, cutoff, hth, hpass⟩ := hf
  obtain ⟨hbed, -, -, -⟩ := evictionRefused_none hpass
  have hborn := hs.grounded.entries j (.inl hbed)
  obtain ⟨s', e, hact, rfl⟩ := step_act hstep
  obtain ⟨w, m, hplan, hd, rfl, -⟩ := step_plan hact
  simp only at hth hpass
  simp only [Act.plan, hth, threadStep, evictStep, hpass, lift, map_some,
    some.injEq, Prod.mk.injEq] at hplan
  obtain ⟨rfl, rfl⟩ := hplan
  refine ⟨by simpa [Write.nTasks] using hborn, ?_, .inr (.inr ⟨?_, ?_⟩)⟩
  · simpa using hd.out hborn (hs.active.resident j hbed)
  · simp [Thread.fencing, fencing]
  · simp [phase, lifecycle, Write.task, Write.phase]

theorem Window.run (hw : (d.slot n).Window d.closed t j) (hc : Custody d.closed (d.slot n))
    (hs : Sound (d.slot n)) (hno : ¬Leaves n t j (d, ev)) (hstep : d.step ev = some d') :
    (d'.slot n).Window d'.closed t j := by
  have hkeep : (d'.slot n).Window d.closed t j := by
    rcases step_slot hstep n with ⟨hsame, -⟩ | ⟨a, e, rfl, hact⟩
    · rwa [hsame]
    · obtain ⟨w, m, hplan, hd, hs', -⟩ := step_plan hact
      rw [hs']
      refine Slot.Window.step hw hc hs hd ?_
      rintro r rfl
      refine ⟨?_, ?_⟩
      · rintro rfl
        exact hno ⟨⟨r, rfl⟩, .inl ⟨_, _, rfl, hplan⟩⟩
      · by_contra h
        exact hno ⟨⟨r, rfl⟩, .inr (Bool.eq_true_of_not_eq_false h)⟩
  rcases step_closed hstep with hsame | hclosed
  · rwa [hsame]
  · exact ⟨hkeep.born, hkeep.out, .inl hclosed⟩

/-- Nothing is admitted on the Bed between the fence and the end of the attempt, in every run in
which no rollback is taken over and sessions and shells are opened where the phase allows it. -/
theorem no_admission_past_fence (h : (machine ν).Trace (boot config now disk snapshot) τ d)
    (hC : ∀ e ∈ τ, Meets Guarded e) (n : ν) (t : ThreadId) (j : TaskId)
    (τ₁ τ₂ τ₃ : List (Manager ν × Event ν)) (f e : Manager ν × Event ν)
    (hτ : τ = τ₁ ++ f :: (τ₂ ++ e :: τ₃)) (hf : Fences n t j f)
    (hleave : ∀ x ∈ τ₂, ¬Leaves n t j x) : ¬Admits n j e := by
  subst hτ
  obtain ⟨d₁, ev₁⟩ := f
  obtain ⟨d₃, ev₃⟩ := e
  obtain ⟨d₂, h₁, hfence, hrest⟩ := h.split_cons
  obtain ⟨-, h₂, -, -⟩ := hrest.split_cons
  have hpre : ∀ x ∈ τ₁ ++ [(d₁, ev₁)], Meets NoTakeover x := fun x hx =>
    (hC x (by simp only [mem_append, mem_cons] at hx ⊢; tauto)).imp fun _ _ _ h => h.1
  have hwin : (d₂.slot n).Window d₂.closed t j := hf.window (sound_of_trace h₁ n) hfence
  -- the window stays shut along the steps between the fence and `e`
  have hshut : (d₃.slot n).Window d₃.closed t j := by
    refine h₂.invariant (C := fun x => Meets Guarded x ∧ ¬Leaves n t j x)
      (P := fun ρ d => (∀ x ∈ ρ, Meets Guarded x) ∧ (d.slot n).Window d.closed t j)
      ⟨by simp, hwin⟩ ?_ ?_ |>.2
    · rintro ρ d ev d' hρ ⟨hmet, hw⟩ ⟨hev, hno⟩ hstep
      refine ⟨forall_mem_append.mpr ⟨hmet, forall_mem_singleton.mpr hev⟩, ?_⟩
      obtain ⟨hs, hc⟩ := custody_of_trace ((h₁.snoc hfence).append hρ) (forall_mem_append.mpr
        ⟨hpre, fun x hx => (hmet x hx).imp fun _ _ _ h => h.1⟩) n
      exact Window.run hw hc hs hno hstep
    · exact fun x hx => ⟨hC x (by simp [hx]), hleave x hx⟩
  rintro ⟨w, ⟨a, m, rfl, hplan⟩, hadm⟩
  have hmeets : Guarded (d₃.env n) (d₃.slot n) a := hC (d₃, .act n a) (by simp)
  exact hshut.refuses (hmeets.2 _ hplan) (Act.plan_does hplan) hadm

/-- A Bed is created, and evicted up to its fence by goroutine `t` after some steps of others. -/
def fenceSteps (hasMain : Bool) (others : List (Event Unit)) (t : ThreadId) : List (Event Unit) :=
  .act () (.initializeBed { sync := none, hasMainProcesses := hasMain }) :: threadSteps () 0 3 ++
    taskSteps () 0 31 ++ others ++ .act () .evict :: threadSteps () t 2

/-- The theorem at a Bed that is touched right after the fence. -/
theorem no_admission_past_fence_touched :
    ∃ (τ₁ : List (Manager Unit × Event Unit)) (f e : Manager Unit × Event Unit) (d : Manager Unit),
      (machine Unit).Trace (boot plainConfig 5 (fun _ => ⟨none, none⟩) (fun _ => none))
        (τ₁ ++ f :: ([] ++ e :: [])) d ∧ Fences () 1 0 f ∧ ¬Admits () 0 e := by
  obtain ⟨d₁, h₁, hth, hpass, hmeets₁, d₂, hstep, hmeets₂, d₃, htouch, -⟩ :=
    (machine Unit).trace_of_any
    (bootEmpty plainConfig 5) (fenceSteps true [] 1)
    (fun d₁ => (d₁.slot ()).threads 1 = .evict none (.fence 0) ∧
      evictionRefused (d₁.env ()) (d₁.slot ()) none 0 = none ∧
      Meets Guarded (d₁, .act () (.thread 1 .ok)) ∧
      ∃ d₂, d₁.step (.act () (.thread 1 .ok)) = some d₂ ∧ Meets Guarded (d₂, .act () (.touch 0)) ∧
        ∃ d₃, d₂.step (.act () (.touch 0)) = some d₃ ∧ True) (by decide +kernel)
  have hC := h₁.forall_steps (C := Meets Guarded) (by decide +kernel)
  have htrace := h₁.append ((trace_step hstep).append (trace_step htouch))
  have hf : Fences () 1 0 (d₁, .act () (.thread 1 .ok)) := ⟨⟨_, rfl⟩, none, hth, hpass⟩
  refine ⟨_, _, _, d₃, htrace, hf, ?_⟩
  refine no_admission_past_fence htrace ?_ () 1 0 _ [] [] _ _ rfl hf (by simp)
  intro x hx
  simp only [mem_append, mem_cons, not_mem_nil, or_false] at hx
  rcases hx with hx | rfl | rfl
  · exact hC x hx
  · exact hmeets₁
  · exact hmeets₂

/-- Right after the fence of goroutine `t` on a Bed something is admitted on it. -/
def PassesFence (hasMain : Bool) (t : ThreadId) : Prop :=
  ∃ (τ₁ : List (Manager Unit × Event Unit)) (f e : Manager Unit × Event Unit) (d : Manager Unit),
    (machine Unit).Trace (boot plainConfig 5 (fun _ => ⟨none, none⟩) (fun _ => none))
      (τ₁ ++ f :: ([] ++ e :: [])) d ∧ Fences () t 0 f ∧ Admits () 0 e ∧
      ((d.slot ()).locals ((d.slot ()).task 0).identity).hasMainProcesses = hasMain

theorem passesFence_of_run {hasMain : Bool} (others : List (Event Unit)) (hw : w.admits = some 0)
    (h : ((machine Unit).run (bootEmpty plainConfig 5) (fenceSteps hasMain others t)).any (fun d₁ =>
      (d₁.slot ()).threads t = .evict none (.fence 0) ∧
      evictionRefused (d₁.env ()) (d₁.slot ()) none 0 = none ∧
      ∃ d₂, d₁.step (.act () (.thread t .ok)) = some d₂ ∧
        a.plan (d₂.env ()) (d₂.slot ()) = some (w, m) ∧ ∃ d₃, d₂.step (.act () a) = some d₃ ∧
        ((d₃.slot ()).locals ((d₃.slot ()).task 0).identity).hasMainProcesses = hasMain) = true) :
    PassesFence hasMain t := by
  obtain ⟨d₁, h₁, hth, hpass, d₂, hstep, hplan, d₃, hopen, hmain⟩ :=
    (machine Unit).trace_of_any _ _ _ h
  have htrace := h₁.append ((trace_step hstep).append (trace_step hopen))
  exact ⟨_, _, _, d₃, htrace, ⟨⟨_, rfl⟩, none, hth, hpass⟩, ⟨w, ⟨_, _, rfl, hplan⟩, hw⟩, hmain⟩

/-- On a Bed without main processes a session is admitted right after the fence; on one with main
processes a shell is, whose call touched the Bed before the fence. -/
theorem session_past_fence : PassesFence false 1 ∧ PassesFence true 2 :=
  ⟨passesFence_of_run (a := .openSession 0 .ok) (w := .openSession 0) (m := .stay) [] rfl
      (by decide +kernel),
    passesFence_of_run (a := .thread 1 .ok) (w := .registerShell 0)
      (m := .thread 1 (.shell 0 (.returned none))) (.act () .openShell :: threadSteps () 1 2) rfl
      (by decide +kernel)⟩

end Manager

end Hostel.Bed
