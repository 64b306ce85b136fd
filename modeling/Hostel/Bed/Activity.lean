/-
# Hostel.Bed.Activity — the eviction fence, the activity sequence and the persist watermark.

`evictResidentBed` reads `activitySeq` at its fence and gives up if it moved; in between it persists
up to the `lastActiveAt` it read on the way.  `Active` says what the attempt may conclude while the
sequence stands still.  In the end that is `Settled`: the allocation is persisted up to its last
activity, and will be after any persist still running, since `persistMu` lets one run at a time.
-/
import Hostel.Bed.Operations

namespace Hostel.Bed

open Store Slot Nat

variable {env : Env} {r : Reply} {s s' : Slot} {a : Act} {w : Write} {m : Move} {j : TaskId}

/-! ## Attempts -/

inductive Progress
  | fenced
  | captured (w : Time)
  | stored (w : Time)
  | committed
  | returned
  deriving DecidableEq

def Progress.isStored : Progress → Bool
  | .fenced | .captured _ => false
  | _ => true

def PersistPc.progress : PersistPc → Option Progress
  | .read _ w | .put _ w _ => some (.captured w)
  | .stat _ w | .commit _ w _ => some (.stored w)
  | .save _ | .unlock none => some .committed
  | .unlock (some _) => none
  | .ret none => some .returned
  | .ret (some _) => none
  | _ => some .fenced

/-- The watermark a persist has captured and not yet committed. -/
def PersistPc.watermark : PersistPc → Option Time
  | .read _ w | .put _ w _ | .stat _ w | .commit _ w _ => some w
  | _ => none

/-- The attempt of `evictResidentBed` on `j` that passed its fence at `seq` and has not failed. -/
def EvictPc.attempt : EvictPc → Option (TaskId × Nat × Progress)
  | .stop j seq | .quiesce j seq => some (j, seq, .fenced)
  | .persist j seq pc => pc.progress.map fun p => (j, seq, p)
  | .decide j seq => some (j, seq, .returned)
  | _ => none

@[inherit_doc EvictPc.attempt]
def Thread.attempt : Thread → Option (TaskId × Nat × Progress)
  | .evict _ pc => pc.attempt
  | _ => none

/-- The attempt has moved `j` into `retirements`. -/
def EvictPc.moved : EvictPc → Option TaskId
  | .handoff j | .retire j true _ => some j
  | .recover j x | .restart j x | .resume j x | .readiness j x | .unlock j x =>
    whenHeld (!x.locked) j
  | _ => none

/-- Allocation `j` is persisted up to its last activity, whatever persist of it commits next. -/
structure Slot.Settled (s : Slot) (j : TaskId) : Prop where
  persisted : (s.alloc j).persistedAt = (s.alloc j).lastActiveAt
  pending : ∀ t pc w, (s.threads t).persisting = some (j, pc) → pc.watermark = some w →
    w = (s.alloc j).lastActiveAt

/-- What an attempt on `j` may conclude while the activity sequence stands still. -/
def Slot.Concludes (s : Slot) (j : TaskId) : Progress → Prop
  | .fenced => True
  | .captured w | .stored w => w = (s.alloc j).lastActiveAt
  | .committed | .returned => s.Settled j

/-- An initialization that published its allocation, or has ended. -/
def TaskPc.out : TaskPc → Bool
  | .finishFinal none _ | .finished => true
  | _ => false

/-- The invariant: resident allocations are published, and attempts are sound. -/
structure Active (s : Slot) : Prop where
  resident : ∀ j, s.bed = some j → (s.task j).pc.out = true
  attempts : ∀ t j seq p, (s.threads t).attempt = some (j, seq, p) →
    (s.task j).pc.out = true ∧ seq ≤ (s.alloc j).activitySeq ∧
      ((s.alloc j).activitySeq = seq → (s.alloc j).inflight = 0 ∧ s.Concludes j p)

/-! ## What one step does -/

theorem Slot.Does.out (hd : s.Does env a w m) (hj : j < s.nTasks) (h : (s.task j).pc.out = true) :
    (((s.apply env w).move m).task j).pc.out = true := by
  refine hd.forall_tasks
    (P := fun i pc => i < s.nTasks → (s.task i).pc.out = true → pc.out = true) ?_ ?_ ?_ j hj h
  · exact fun i _ _ _ h => h
  · intro i r pc _ hstep _ h
    cases hpc : (s.task i).pc with
    | finishFinal err reason =>
      rw [hpc] at hstep
      cases hstep
      rfl
    | finished => exact absurd hpc (taskStep_ne_finished hstep)
    | _ => simp [hpc, TaskPc.out] at h
  · exact fun _ _ h => absurd h (lt_irrefl _)

theorem Slot.Does.bed_back (hd : s.Does env a w m) (hout : (s.task j).pc.out = true)
    (h : w.bed s = some j) : s.bed = some j := by
  cases w <;> simp only [Write.bed] at h <;> first | exact h | cases h
  rw [hd.publishes.2.1] at hout
  cases hout

theorem Slot.Does.seeds {info : Meta} {persistedAt : Time}
    (hd : s.Does env a (.seed j info persistedAt) m) :
    (s.task j).pc = .prepare .resident ∧ info = s.residentInfo j := by
  obtain ⟨_, _, _, rfl, rfl, hstep⟩ := hd.by_task (fun _ _ => id) id rfl
  obtain ⟨rfl, hpc⟩ := taskStep_permit hstep
  exact hpc

/-- `lastActiveAt` moves only together with the activity sequence, and so does `inflight`
upwards. -/
theorem Slot.Does.activity (hd : s.Does env a w m) (hj : j < s.nTasks)
    (hout : (s.task j).pc.out = true) :
    (s.alloc j).activitySeq ≤ (w.alloc env s j).activitySeq ∧
      ((w.alloc env s j).activitySeq = (s.alloc j).activitySeq →
        (w.alloc env s j).lastActiveAt = (s.alloc j).lastActiveAt ∧
          (w.alloc env s j).inflight ≤ (s.alloc j).inflight) := by
  have hne : j ≠ s.nTasks := hj.ne
  cases w <;> try exact ⟨le_rfl, fun _ => ⟨rfl, le_rfl⟩⟩
  all_goals simp only [Write.alloc]
  case seed k info persistedAt =>
    have hk : j ≠ k := by
      rintro rfl
      rw [hd.seeds.1] at hout
      cases hout
    simp [hk]
  case finishOperation k kind =>
    simp only [ManagedBed.finish, ManagedBed.touch]
    split_ifs <;> simp
  all_goals split_ifs <;> simp_all [ManagedBed.begin, ManagedBed.touch]

/-- `persistedAt` of an allocation that is out changes only by the commit of a persist. -/
theorem Slot.Does.persistedAt (hd : s.Does env a w m) (hj : j < s.nTasks)
    (hout : (s.task j).pc.out = true) :
    (w.alloc env s j).persistedAt = (s.alloc j).persistedAt ∨
      ∃ x, w = .commitWatermark j x ∧ (w.alloc env s j).persistedAt = x := by
  have hne : j ≠ s.nTasks := hj.ne
  cases w <;> try exact .inl rfl
  all_goals simp only [Write.alloc]
  case seed k info persistedAt =>
    have hk : j ≠ k := by
      rintro rfl
      rw [hd.seeds.1] at hout
      cases hout
    simp [hk]
  case commitWatermark k x =>
    by_cases hk : j = k
    · exact .inr ⟨x, by rw [hk], by simp [hk]⟩
    · simp [hk]
  all_goals split_ifs <;> simp_all [ManagedBed.begin, ManagedBed.touch]

variable {x : Time}

theorem persistStep_watermark {A : Agent} {k : TaskId} {pc pc' : PersistPc}
    (h : persistStep r s A k pc = some (w, pc')) (hx : pc'.watermark = some x) :
    pc.watermark = some x ∨ x = (s.alloc k).lastActiveAt := by
  revert h
  fun_cases persistStep r s A k pc <;> intro h <;> cases h
  all_goals simp_all [PersistPc.watermark]

variable {t : ThreadId}

variable {th th' : Thread}

theorem threadStep_persisting {pc' : PersistPc}
    (h : threadStep env r s t th = some (w, th')) (hth : th'.persisting = some (j, pc')) :
    pc' = .lock ∧ th.persisting = none ∨
      ∃ pc, th.persisting = some (j, pc) ∧ persistStep r s (.thread t) j pc = some (w, pc') := by
  cases threadStep_inv h with
  | evict cutoff pc _ hsub =>
    revert hsub
    fun_cases evictStep env r s t cutoff pc <;> intro hsub
    all_goals first
      | (obtain ⟨pc', hpersist, rfl⟩ := lift_eq_some.mp hsub
         cases hth <;> exact .inr ⟨_, rfl, hpersist⟩)
      | (cases hsub <;> cases hth <;> exact .inl ⟨rfl, rfl⟩)
  | checkpoint k pc _ hsub =>
    revert hsub
    fun_cases checkpointStep env r s t k pc <;> intro hsub
    all_goals first
      | (obtain ⟨pc', hpersist, rfl⟩ := lift_eq_some.mp hsub
         cases hth
         exact .inr ⟨_, rfl, hpersist⟩)
      | (cases hsub <;> cases hth <;> exact .inl ⟨rfl, rfl⟩)
  | sync k pc _ hsub =>
    revert hsub
    fun_cases syncStep r s t k pc <;> intro hsub
    all_goals first
      | (obtain ⟨pc', hpersist, rfl⟩ := lift_eq_some.mp hsub
         cases hth
         exact .inr ⟨_, rfl, hpersist⟩)
      | (cases hsub <;> cases hth <;> exact .inl ⟨rfl, rfl⟩)
  | _ => cases hth

theorem threadStep_watermark {pc' : PersistPc}
    (h : threadStep env r s t th = some (w, th')) (hth : th'.persisting = some (j, pc'))
    (hx : pc'.watermark = some x) :
    (∃ pc, th.persisting = some (j, pc) ∧ pc.watermark = some x) ∨
      x = (s.alloc j).lastActiveAt := by
  rcases threadStep_persisting h hth with ⟨rfl, _⟩ | ⟨pc, hpc, hstep⟩
  · cases hx
  · exact (persistStep_watermark hstep hx).imp (fun hold => ⟨pc, hpc, hold⟩) id

/-- What a step of an eviction attempt can do: pass the fence, capture, store, commit, return, or
stay where it is.  A step that fails ends the attempt. -/
inductive Advances (env : Env) (s : Slot) (j : TaskId) (seq : Nat) (th : Thread) (w : Write) :
    Progress → Prop
  | fence {cutoff : Option Time} :
      th = .evict cutoff (.fence j) → evictionRefused env s cutoff j = none →
      seq = (s.alloc j).activitySeq → Advances env s j seq th w .fenced
  | stay {p : Progress} : th.attempt = some (j, seq, p) → Advances env s j seq th w p
  | capture {p : Progress} {info : Meta} : th.attempt = some (j, seq, p) →
      th.persisting = some (j, .mark info) →
      Advances env s j seq th w (.captured (s.alloc j).lastActiveAt)
  | store {x : Time} : th.attempt = some (j, seq, .captured x) →
      ((s.storeKind j).durable = true → ∃ sn, w = .commitSnapshot sn) →
      Advances env s j seq th w (.stored x)
  | commit {x : Time} : th.attempt = some (j, seq, .stored x) → w = .commitWatermark j x →
      th.persistHeld = some j → Advances env s j seq th w .committed
  | ret : th.attempt = some (j, seq, .committed) → th.persisting = some (j, .unlock none) →
      Advances env s j seq th w .returned

variable {p : Progress} {seq : Nat}

theorem persistStep_advances {cutoff : Option Time} {pc pc' : PersistPc}
    (h : persistStep r s (.thread t) j pc = some (w, pc')) (hp : pc'.progress = some p) :
    Advances env s j seq (.evict cutoff (.persist j seq pc)) w p := by
  revert h
  fun_cases persistStep r s (.thread t) j pc <;> intro h <;> cases h
  case case8 =>
    cases hp
    exact .capture rfl rfl
  case case13 hnoop =>
    cases hp
    exact .store rfl fun hdurable => absurd hdurable hnoop
  case case15 =>
    cases hp
    exact .store rfl fun _ => ⟨_, rfl⟩
  case case17 =>
    cases hp
    exact .commit rfl rfl rfl
  case case20 err =>
    cases err with
    | none =>
      cases hp
      exact .ret rfl rfl
    | some f => cases hp
  all_goals
    cases hp <;> exact .stay rfl

variable {pc : PersistPc}

theorem persist_attempt {k : TaskId} {seq seq' : Nat}
    (h : (EvictPc.persist k seq' pc).attempt = some (j, seq, p)) :
    k = j ∧ seq' = seq ∧ pc.progress = some p := by
  simp only [EvictPc.attempt, Option.map_eq_some_iff, Prod.mk.injEq] at h
  obtain ⟨p', hp', rfl, rfl, rfl⟩ := h
  exact ⟨rfl, rfl, hp'⟩

theorem threadStep_attempt
    (h : threadStep env r s t th = some (w, th')) (hp : th'.attempt = some (j, seq, p)) :
    Advances env s j seq th w p := by
  cases threadStep_inv h with
  | evict cutoff pc _ hsub =>
    revert hsub
    fun_cases evictStep env r s t cutoff pc <;> intro hsub
    case case17 hpass =>
      cases hsub
      cases hp
      exact .fence rfl hpass rfl
    all_goals first
      | (obtain ⟨pc', hpersist, rfl⟩ := lift_eq_some.mp hsub
         obtain ⟨rfl, rfl, hprogress⟩ := persist_attempt hp
         exact persistStep_advances hpersist hprogress)
      | (obtain ⟨pc', _, rfl⟩ := lift_eq_some.mp hsub
         cases hp)
      | (cases hsub <;> cases hp <;> exact .stay rfl)
  | _ => cases hp

/-! ## The invariant -/

theorem Slot.Does.commits (hd : s.Does env a (.commitWatermark j x) m) :
    ∃ t pc, (s.threads t).persisting = some (j, pc) ∧ pc.watermark = some x := by
  obtain ⟨t, _, _, rfl, rfl, hstep⟩ := hd.by_thread (fun _ _ => id) id rfl
  obtain ⟨info, sg, hpc⟩ := threadStep_permit hstep
  exact ⟨t, _, hpc, rfl⟩

theorem Slot.Settled.step (hset : s.Settled j) (hd : s.Does env a w m) (hj : j < s.nTasks)
    (hout : (s.task j).pc.out = true)
    (hseq : (w.alloc env s j).activitySeq = (s.alloc j).activitySeq) :
    ((s.apply env w).move m).Settled j := by
  obtain ⟨hlast, -⟩ := (hd.activity hj hout).2 hseq
  constructor
  · simp only [move_alloc, apply_alloc, hlast]
    rcases hd.persistedAt hj hout with hsame | ⟨x, rfl, hx⟩
    · rw [hsame, hset.persisted]
    · obtain ⟨t, pc, hpc, hw⟩ := hd.commits
      rw [hx, hset.pending t pc x hpc hw]
  · simp only [move_alloc, apply_alloc, hlast]
    refine hd.forall_threads (P := fun _ th => ∀ pc x, th.persisting = some (j, pc) →
      pc.watermark = some x → x = (s.alloc j).lastActiveAt) ?_ ?_ ?_ ?_
    · exact fun t _ => hset.pending t
    · intro t r th _ hstep pc x hpc hx
      rcases threadStep_watermark hstep hpc hx with ⟨pc, hpc, hx⟩ | hx
      · exact hset.pending t pc x hpc hx
      · exact hx
    · intro th _ hspawn _ pc x hpc
      cases hspawn <;> cases hpc
    · intro l removeRoot _ _ pc x hpc
      cases hpc

variable {th : Thread}

theorem persistHeld_of_persisting (h : th.persisting = some (j, pc)) :
    th.persistHeld = whenHeld pc.holds j := by
  cases th with
  | evict cutoff q | checkpoint k q | sync k q => cases q <;> cases h; rfl
  | _ => cases h

theorem persistHeld_of_watermark (hpc : th.persisting = some (j, pc)) (hx : pc.watermark = some x) :
    th.persistHeld = some j := by
  have hholds : pc.holds = true := by
    cases pc with
    | lock => cases hx
    | ret err => cases err <;> cases hx
    | _ => rfl
  rw [persistHeld_of_persisting hpc, hholds]
  rfl

theorem Slot.Concludes.step (h : s.Concludes j p) (hd : s.Does env a w m)
    (hj : j < s.nTasks) (hout : (s.task j).pc.out = true)
    (hseq : (w.alloc env s j).activitySeq = (s.alloc j).activitySeq) :
    ((s.apply env w).move m).Concludes j p := by
  obtain ⟨hlast, -⟩ := (hd.activity hj hout).2 hseq
  cases p with
  | fenced => trivial
  | captured x | stored x => simpa [Slot.Concludes, hlast] using h
  | committed | returned => exact Slot.Settled.step h hd hj hout hseq

theorem attempt_progress {k : TaskId}
    (h : th.attempt = some (j, seq, p)) (hpc : th.persisting = some (k, pc)) :
    k = j ∧ pc.progress = some p := by
  cases th with
  | evict cutoff q =>
    cases q with
    | persist i sq pc' =>
      cases hpc
      obtain ⟨hk, -, hp⟩ := persist_attempt h
      exact ⟨hk, hp⟩
    | _ => cases hpc
  | _ => cases h

theorem attempt_captured (h : th.attempt = some (j, seq, .captured x)) :
    ∃ pc, th.persisting = some (j, pc) := by
  cases th with
  | evict cutoff q =>
    cases q with
    | persist k sq pc =>
      obtain ⟨rfl, -⟩ := persist_attempt h
      exact ⟨pc, rfl⟩
    | _ => cases h
  | _ => cases h

theorem attempt_refs (h : th.attempt = some (j, seq, p)) : j ∈ th.refs := by
  cases th with
  | evict cutoff q =>
    cases q with
    | persist k sq pc =>
      obtain ⟨rfl, -⟩ := persist_attempt h
      exact List.mem_singleton_self _
    | _ => cases h <;> exact List.mem_singleton_self _
  | _ => cases h

theorem Slot.settles (hg : Grounded s) (hheld : (s.threads t).persistHeld = some j)
    (hx : x = (s.alloc j).lastActiveAt) (hth : th.attempt = some (j, seq, .committed)) :
    ((s.apply env (.commitWatermark j x)).move (.thread t th)).Settled j := by
  constructor
  · simp [Write.alloc, hx]
  · intro u pc y hpc hy
    simp only [move_thread, Move.threads] at hpc
    split_ifs at hpc with hu
    · -- the attempt itself is past its commit
      have hdone := (attempt_progress hth hpc).2
      cases pc <;> cases hy <;> cases hdone
    · -- any other persist of `j` would hold the lock the attempt holds
      have hother : s.holds .persist (.thread u) = some j := persistHeld_of_watermark hpc hy
      cases hg.exclusive hother (show s.holds .persist (.thread t) = some j from hheld)
      exact absurd rfl hu

theorem evictionRefused_none {cutoff : Option Time} (h : evictionRefused env s cutoff j = none) :
    s.bed = some j ∧ (s.alloc j).purging = false ∧ s.phase j = .resident ∧
      (s.alloc j).inflight = 0 := by
  unfold evictionRefused at h
  split_ifs at h with h1 h2
  simp only [Bool.or_eq_true, decide_eq_true_eq, not_or, Bool.not_eq_true, not_not] at h1
  simp only [not_or, not_not, not_lt, le_zero] at h2
  exact ⟨h1.1.2, h1.2, h2⟩

theorem Active.keep (ha : Active s) (hg : Grounded s)
    (hd : s.Does env a w m) (h : (s.threads t).attempt = some (j, seq, p)) :
    j < s.nTasks ∧ (((s.apply env w).move m).task j).pc.out = true ∧
      seq ≤ (w.alloc env s j).activitySeq ∧
      ((w.alloc env s j).activitySeq = seq →
        (w.alloc env s j).activitySeq = (s.alloc j).activitySeq ∧
          (w.alloc env s j).inflight = 0 ∧ s.Concludes j p) := by
  have hj : j < s.nTasks := hg.refs t j (attempt_refs h)
  obtain ⟨hout, hle, hconc⟩ := ha.attempts t j seq p h
  obtain ⟨hmono, hsame⟩ := hd.activity hj hout
  refine ⟨hj, hd.out hj hout, hle.trans hmono, fun hseq => ?_⟩
  have hstill : (s.alloc j).activitySeq = seq := le_antisymm (hseq ▸ hmono) hle
  obtain ⟨hflight, hconc⟩ := hconc hstill
  have hfixed : (w.alloc env s j).activitySeq = (s.alloc j).activitySeq := hseq.trans hstill.symm
  exact ⟨hfixed, le_zero.mp (hflight ▸ (hsame hfixed).2), hconc⟩

theorem Slot.Does.active (hd : s.Does env a w m) (hg : Grounded s) (ha : Active s) :
    Active ((s.apply env w).move m) := by
  constructor
  case resident =>
    intro j hbed
    simp only [move_bed, apply_bed] at hbed
    by_cases hpub : ∃ ready, w = .publish j ready
    · obtain ⟨ready, rfl⟩ := hpub
      simp [hd.publishes.1, Move.pc, TaskPc.out]
    · have hold : s.bed = some j := by
        cases w <;> simp only [Write.bed] at hbed <;> first | exact hbed | cases hbed
        exact absurd ⟨_, rfl⟩ hpub
      exact hd.out (hg.entries j (.inl hold)) (ha.resident j hold)
  case attempts =>
    have hstays {t : ThreadId} {j : TaskId} {seq : Nat} {p : Progress}
        (hp : (s.threads t).attempt = some (j, seq, p)) :
        (((s.apply env w).move m).task j).pc.out = true ∧ seq ≤ (w.alloc env s j).activitySeq ∧
          ((w.alloc env s j).activitySeq = seq →
            (w.alloc env s j).inflight = 0 ∧ ((s.apply env w).move m).Concludes j p) := by
      obtain ⟨hj, hout, hle, hconc⟩ := ha.keep hg hd hp
      refine ⟨hout, hle, fun hseq => ?_⟩
      obtain ⟨hfixed, hflight, hconc⟩ := hconc hseq
      exact ⟨hflight, hconc.step hd hj (ha.attempts t j seq p hp).1 hfixed⟩
    simp only [move_alloc, apply_alloc]
    refine hd.forall_threads (P := fun _ th => ∀ j seq p, th.attempt = some (j, seq, p) →
      (((s.apply env w).move m).task j).pc.out = true ∧ seq ≤ (w.alloc env s j).activitySeq ∧
        ((w.alloc env s j).activitySeq = seq →
          (w.alloc env s j).inflight = 0 ∧ ((s.apply env w).move m).Concludes j p)) ?_ ?_ ?_ ?_
    · exact fun t _ j seq p hp => hstays hp
    · rintro t r th rfl hstep j seq p hp
      cases threadStep_attempt hstep hp with
      | @fence cutoff hth hpass hseq =>
        obtain ⟨hbed, -, -, hflight⟩ := evictionRefused_none hpass
        have hj : j < s.nTasks := hg.entries j (.inl hbed)
        have hout : (s.task j).pc.out = true := ha.resident j hbed
        obtain ⟨hmono, hsame⟩ := hd.activity hj hout
        subst hseq
        exact ⟨hd.out hj hout, hmono, fun hseq => ⟨le_zero.mp (hflight ▸ (hsame hseq).2), trivial⟩⟩
      | stay hold => exact hstays hold
      | capture hold _ =>
        obtain ⟨hj, hout, hle, hconc⟩ := ha.keep hg hd hold
        refine ⟨hout, hle, fun hseq => ⟨(hconc hseq).2.1, ?_⟩⟩
        have hlast := ((hd.activity hj (ha.attempts t j seq _ hold).1).2 (hconc hseq).1).1
        simpa [Slot.Concludes] using hlast.symm
      | store hold _ | ret hold _ => exact (hstays hold :)
      | commit hold hw hheld =>
        subst hw
        obtain ⟨hj, hout, hle, hconc⟩ := ha.keep hg hd hold
        refine ⟨hout, hle, fun hseq => ?_⟩
        obtain ⟨hfixed, hflight, hconc⟩ := hconc hseq
        exact ⟨hflight, settles hg hheld hconc hp⟩
    · intro th _ hspawn _ j seq p hp
      cases hspawn <;> cases hp
    · intro l removeRoot _ _ j seq p hp
      cases hp

theorem active_boot (env : Env) (disk : Disk) (snapshot : Option Snapshot) :
    Active (boot env disk snapshot) := by
  constructor <;> simp [boot, Thread.attempt]

/-- An eviction that moves a resident Bed out of `beds` finds it unpinned. -/
theorem Active.retire_unpinned (ha : Active s) (hd : s.Does env a (.retire j) m) :
    s.pinned j = false := by
  obtain ⟨⟨t, th, cutoff, -, hth⟩, -, -, hflight⟩ := hd.retires
  obtain ⟨-, -, hconc⟩ := ha.attempts t j _ .returned (by rw [hth]; rfl)
  have hset : s.Settled j := (hconc rfl).2
  simp [pinned, hflight, dataSynced, hset.persisted]

end Hostel.Bed
