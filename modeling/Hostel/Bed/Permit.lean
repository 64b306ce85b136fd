/-
# Hostel.Bed.Permit — which goroutine may perform which write, and what it knows then.

The guarantee side of a rely/guarantee argument.  `Thread.permit` and `TaskPc.permit` list for each
write where a goroutine must stand to perform it and what its guard has established.  Each program
is checked against the list once (`threadStep_permit`, `taskStep_permit`); invariants are then
proved per write, never per program.
-/
import Hostel.Bed.Locks

namespace Hostel.Bed

open Store Thread

/-! ## The procedure a goroutine is in -/

def Thread.retiring : Thread → Option (TaskId × RetirePc)
  | .evict _ (.retire j _ pc) | .close (.retire j _ pc) => some (j, pc)
  | _ => none

def Thread.tearing : Thread → Option (TaskId × TeardownPc)
  | .evict _ (.retire j _ (.teardown pc)) | .close (.retire j _ (.teardown pc))
  | .close (.teardown j _ pc) | .purge (.teardown j _ _ pc) => some (j, pc)
  | _ => none

def Thread.persisting : Thread → Option (TaskId × PersistPc)
  | .evict _ (.persist j _ pc) | .checkpoint j (.persist pc) | .sync j (.persist pc) => some (j, pc)
  | _ => none

def Thread.cleaning (s : Slot) : Thread → Option (LocalId × CleanPc)
  | .evict _ (.retire j _ (.clean pc)) | .close (.retire j _ (.clean pc)) =>
    some ((s.task j).identity, pc)
  | .purge (.clean _ l pc) | .collect l pc => some (l, pc)
  | _ => none

def TaskPc.tearing : TaskPc → Option TeardownPc
  | .undo _ pc | .rollback _ pc => some pc
  | _ => none

def TaskPc.cleaning : TaskPc → Option CleanPc
  | .finishClean _ _ pc => some pc
  | _ => none

/-! ## Writes of the shared procedures -/

/-- What `teardown` of `j` knows at its writes. -/
def TeardownPc.permit (s : Slot) (j : TaskId) (pc : TeardownPc) : Write → Prop
  | .skip => True
  | .setLifecycle l next =>
    -- only when it did not start on an initializing Bed
    l = (s.task j).identity ∧ next.phase ≠ .initializing ∧
      (pc = .mark ∨ (∃ b, pc = .announce b) ∨ ∃ f, pc = .failed f)
  | .stopHook k | .releaseHook k => k = j
  | .closeRuntime k => k = j ∧ ∃ b, pc = .close b
  | _ => False

def CleanPc.permit (s : Slot) (A : Agent) (l : LocalId) (pc : CleanPc) : Write → Prop
  | .skip => True
  | .beginCleanup k removeRoot B =>
    k = l ∧ B = A ∧ s.identity = some l ∧ (∀ c, (s.locals l).cleanup = some c →
      (s.cleanups c).running = false) ∧ ∃ rr, pc = .entry rr ∧ (rr = true → removeRoot = true)
  | .removeGc => ∃ c, pc = .sweep c ∨ pc = .remove c
  | .claimDir => ∃ c, pc = .claim c
  | .unregisterIdentity k => k = l ∧ ∃ c, pc = .unregister c
  | .settleCleanup k c err => k = l ∧ pc = .settle c err
  | _ => False

def PersistPc.permit (s : Slot) (j : TaskId) (pc : PersistPc) : Write → Prop
  | .skip | .lockPersist _ _ | .unlockPersist _ => True
  | .saveMeta info => pc = .bump ∧ info = s.bumped j ∨ pc = .save info
  | .captureGeneration k _ => k = j ∧ ∃ info, pc = .mark info
  | .commitSnapshot sn => ∃ w, ∃ info : Meta, pc = .put info w sn.tree ∧
    sn.generation = info.generation
  | .commitWatermark k w => k = j ∧ ∃ info sg, pc = .commit info w sg
  | _ => False

variable {env : Env} {r : Reply} {s : Slot} {w : Write} {A : Agent} {j : TaskId} {t : ThreadId}

theorem teardownStep_permit {pc pc' : TeardownPc} (h : teardownStep env r s j pc = some (w, pc')) :
    pc.permit s j w := by
  revert h
  fun_cases teardownStep env r s j pc <;> intro h <;> cases h <;> simp [TeardownPc.permit]
  split <;> simp

theorem cleanStep_permit {l : LocalId} {pc pc' : CleanPc}
    (h : cleanStep r s A l pc = some (w, pc')) : pc.permit s A l w := by
  revert h
  fun_cases cleanStep r s A l pc <;> intro h <;> cases h <;> simp_all [CleanPc.permit]

theorem persistStep_permit {pc pc' : PersistPc} (h : persistStep r s A j pc = some (w, pc')) :
    pc.permit s j w := by
  revert h
  fun_cases persistStep r s A j pc <;> intro h <;> cases h <;> simp [PersistPc.permit]

/-! ## Writes of the goroutines -/

/-- What the critical section that accepts an initialization has checked. -/
structure Slot.Admissible (s : Slot) (env : Env) : Prop where
  opened : env.closed = false
  bed : s.bed = none
  retirement : s.retirement = none
  purge : s.purge = none
  initializing : s.initializing = none
  cleanup : s.pendingCleanup = none
  capacity : env.maxBeds = 0 ∨ env.occupied < env.maxBeds

def TeardownPc.reports : TeardownPc → Bool
  | .mark | .announce _ | .failed _ => true
  | _ => false

/-- What a goroutine other than an initialization knows at its writes. -/
def Thread.permit (env : Env) (s : Slot) (t : ThreadId) (th : Thread) : Write → Prop
  | .skip => True
  | .accept _ _ => s.Admissible env ∧ ∃ req selected, th = .create req (.accept selected)
  | .deleteRetirement =>
    (∃ j, th.retiring = some (j, .drop) ∧ s.retirement = some j) ∨ ∃ b, th = .purge (.drop b)
  | .deleteInitialization => ∀ i, s.initialization = some i → s.phase i ≠ .initializing
  | .retire j =>
    ∃ cutoff, th = .evict cutoff (.decide j (s.alloc j).activitySeq) ∧ env.closed = false ∧
      s.bed = some j ∧ (s.alloc j).inflight = 0
  | .takeForPurge j => s.bed = some j ∧ ∃ l kind, th = .purge (.take l kind)
  | .installFence u => u = t ∧ s.purge = none ∧ th = .purge .begin
  | .removeFence => ∃ err, th = .purge (.finish err)
  | .cancelInitialization i _ => s.initialization = some i ∧ s.phase i = .initializing
  | .setLifecycle l next =>
    next.phase ≠ .initializing ∧ ∃ j, l = (s.task j).identity ∧
      ((∃ pc : TeardownPc, th.tearing = some (j, pc) ∧ pc.reports = true) ∨
        (∃ cutoff, th = .evict cutoff (.fence j) ∧ evictionRefused env s cutoff j = none) ∨
        ∃ cutoff x, th = .evict cutoff (.resume j x))
  | .setReadiness _ _ => True
  | .registerIdentity => th = .purge .identify
  | .unregisterIdentity l => ∃ c, th.cleaning s = some (l, .unregister c)
  | .beginCleanup l removeRoot A =>
    A = .thread t ∧ s.identity = some l ∧
      (∀ c, (s.locals l).cleanup = some c → (s.cleanups c).running = false) ∧
      ∃ q, th.cleaning s = some (l, .entry q) ∧ (q = true → removeRoot = true)
  | .settleCleanup l c err => th.cleaning s = some (l, .settle c err)
  | .removeGc => ∃ l c, th.cleaning s = some (l, .sweep c) ∨ th.cleaning s = some (l, .remove c)
  | .claimDir => ∃ l c, th.cleaning s = some (l, .claim c)
  | .saveMeta info =>
    ∃ j, th.persisting = some (j, .bump) ∧ info = s.bumped j ∨
      th.persisting = some (j, .save info)
  | .commitSnapshot sn =>
    ∃ j w, ∃ info : Meta, th.persisting = some (j, .put info w sn.tree) ∧
      sn.generation = info.generation
  | .deleteSnapshot => ∃ b l kind, th = .purge (.delete b l kind) ∧ kind.durable = true
  | .lockCleanup _ _ | .unlockCleanup _ | .lockPersist _ _ | .unlockPersist _ => True
  | .stopHook j | .releaseHook j => ∃ pc, th.tearing = some (j, pc)
  | .closeRuntime j => ∃ b, th.tearing = some (j, .close b)
  | .beginOperation j kind _ =>
    th = .checkpoint j .begin ∧ kind = .checkpoint ∧ s.bed = some j ∧ s.phase j = .resident ∧
      env.closed = false
  | .finishOperation j kind => kind = .checkpoint ∧ ∃ err, th = .checkpoint j (.finish err)
  | .touch j => s.bed = some j
  | .registerShell j => th = .shell j .register
  | .captureGeneration j _ => ∃ info, th.persisting = some (j, .mark info)
  | .commitWatermark j w => ∃ info sg, th.persisting = some (j, .commit info w sg)
  | _ => False

variable {th : Thread}

theorem TeardownPc.permit.thread {pc : TeardownPc} (h : pc.permit s j w)
    (hth : th.tearing = some (j, pc)) : th.permit env s t w := by
  cases w <;> simp only [TeardownPc.permit] at h <;> try exact h.elim
  case skip => trivial
  case setLifecycle l next =>
    obtain ⟨rfl, hphase, hpc⟩ := h
    refine ⟨hphase, j, rfl, .inl ⟨pc, hth, ?_⟩⟩
    rcases hpc with rfl | ⟨b, rfl⟩ | ⟨f, rfl⟩ <;> rfl
  case stopHook => exact ⟨pc, h ▸ hth⟩
  case releaseHook => exact ⟨pc, h ▸ hth⟩
  case closeRuntime =>
    obtain ⟨rfl, b, rfl⟩ := h
    exact ⟨b, hth⟩

theorem CleanPc.permit.thread {l : LocalId} {pc : CleanPc}
    (h : pc.permit s (.thread t) l w) (hth : th.cleaning s = some (l, pc)) :
    th.permit env s t w := by
  cases w <;> simp only [CleanPc.permit] at h <;> try exact h.elim
  case skip => trivial
  case unregisterIdentity k =>
    obtain ⟨rfl, c, rfl⟩ := h
    exact ⟨c, hth⟩
  case beginCleanup k rr B =>
    obtain ⟨rfl, rfl, hid, hrun, q, rfl, hq⟩ := h
    exact ⟨rfl, hid, hrun, q, hth, hq⟩
  case settleCleanup k c err =>
    obtain ⟨rfl, rfl⟩ := h
    exact hth
  case removeGc =>
    obtain ⟨c, rfl | rfl⟩ := h
    · exact ⟨l, c, .inl hth⟩
    · exact ⟨l, c, .inr hth⟩
  case claimDir =>
    obtain ⟨c, rfl⟩ := h
    exact ⟨l, c, hth⟩

theorem PersistPc.permit.thread {pc : PersistPc} (h : pc.permit s j w)
    (hth : th.persisting = some (j, pc)) : th.permit env s t w := by
  cases w <;> simp only [PersistPc.permit] at h <;> try exact h.elim
  case skip => trivial
  case lockPersist => trivial
  case unlockPersist => trivial
  case saveMeta info =>
    rcases h with ⟨rfl, rfl⟩ | rfl
    · exact ⟨j, .inl ⟨hth, rfl⟩⟩
    · exact ⟨j, .inr hth⟩
  case commitSnapshot sn =>
    obtain ⟨w, info, rfl, hgen⟩ := h
    exact ⟨j, w, info, hth, hgen⟩
  case captureGeneration k g =>
    obtain ⟨rfl, info, rfl⟩ := h
    exact ⟨info, hth⟩
  case commitWatermark k w =>
    obtain ⟨rfl, info, sg, rfl⟩ := h
    exact ⟨info, sg, hth⟩

theorem retireStep_permit {pc pc' : RetirePc} (hret : th.retiring = some (j, pc))
    (htear : ∀ q, pc = .teardown q → th.tearing = some (j, q))
    (hclean : ∀ q, pc = .clean q → th.cleaning s = some ((s.task j).identity, q))
    (h : retireStep env r s (.thread t) j pc = some (w, pc')) : th.permit env s t w := by
  revert h
  fun_cases retireStep env r s (.thread t) j pc <;> intro h
  case case8 q _ _ =>
    obtain ⟨_, hsub, rfl⟩ := lift_eq_some.mp h
    exact (teardownStep_permit hsub).thread (htear q rfl)
  case case11 q _ _ =>
    obtain ⟨_, hsub, rfl⟩ := lift_eq_some.mp h
    exact (cleanStep_permit hsub).thread (hclean q rfl)
  case case12 hcur =>
    cases h
    exact .inl ⟨j, hret, hcur⟩
  all_goals
    cases h <;> trivial

theorem cancelTarget_inl_phase {u : Unit} (h : s.cancelTarget = some (.inl u)) :
    ∀ i, s.initialization = some i → s.phase i ≠ .initializing := by
  obtain ⟨k, hk, hphase⟩ := cancelTarget_inl h
  intro i hi
  rw [hk] at hi
  cases hi
  exact hphase

theorem evictStep_permit {cutoff : Option Time} {pc pc' : EvictPc}
    (h : evictStep env r s t cutoff pc = some (w, pc')) : (evict cutoff pc).permit env s t w := by
  revert h
  fun_cases evictStep env r s t cutoff pc <;> intro h
  case case5 hinl =>
    cases h
    exact cancelTarget_inl_phase hinl
  case case17 j hpass =>
    cases h
    exact ⟨by simp, j, rfl, .inr (.inl ⟨cutoff, rfl, hpass⟩)⟩
  case case32 j x =>
    cases h
    exact ⟨by simp, j, rfl, .inr (.inr ⟨cutoff, x, rfl⟩)⟩
  all_goals first
    | (obtain ⟨_, hsub, rfl⟩ := lift_eq_some.mp h
       first
         | (refine retireStep_permit rfl ?_ ?_ hsub <;> (rintro q rfl; rfl))
         | exact (persistStep_permit hsub).thread rfl)
    | (cases h <;> trivial)
    | (cases h; simp_all [permit, cancelTarget_inr])

theorem purgeStep_permit {pc pc' : PurgePc} (h : purgeStep env r s t pc = some (w, pc')) :
    (purge pc).permit env s t w := by
  revert h
  fun_cases purgeStep env r s t pc <;> intro h
  case case12 hinl =>
    cases h
    exact cancelTarget_inl_phase hinl
  all_goals first
    | (obtain ⟨_, hsub, rfl⟩ := lift_eq_some.mp h
       first
         | exact (teardownStep_permit hsub).thread rfl
         | exact (cleanStep_permit hsub).thread rfl)
    | (cases h <;> trivial)
    | (cases h; simp_all [permit, cancelTarget_inr])

theorem closeStep_permit {pc pc' : ClosePc} (h : closeStep env r s t pc = some (w, pc')) :
    (close pc).permit env s t w := by
  revert h
  fun_cases closeStep env r s t pc <;> intro h
  all_goals first
    | (obtain ⟨_, hsub, rfl⟩ := lift_eq_some.mp h
       first
         | (refine retireStep_permit rfl ?_ ?_ hsub <;> (rintro q rfl; rfl))
         | exact (teardownStep_permit hsub).thread rfl)
    | (cases h <;> trivial)
    | (cases h; simp_all [permit, initializing_eq_some])

theorem admits_iff {kind : OperationKind} : s.admits env r j kind = true ↔
    s.bed = some j ∧ env.closed = false ∧ s.phase j = .resident ∧
      ((s.locals (s.task j).identity).hasMainProcesses = true →
        (s.lifecycle j).ready = true ∨ kind = .control) ∧
      (s.pinned j = true ∨ r.allowed = true) := by
  simp only [Slot.admits, Bool.and_eq_true, Bool.or_eq_true, decide_eq_true_eq,
    Bool.not_eq_true', and_assoc, or_assoc]
  cases (s.locals (s.task j).identity).hasMainProcesses <;> simp

theorem checkpointStep_permit {pc pc' : CheckpointPc}
    (h : checkpointStep env r s t j pc = some (w, pc')) : (checkpoint j pc).permit env s t w := by
  revert h
  fun_cases checkpointStep env r s t j pc <;> intro h
  case case1 hadmit =>
    cases h
    obtain ⟨hbed, hopen, hphase, -⟩ := admits_iff.mp hadmit
    exact ⟨rfl, rfl, hbed, hphase, hopen⟩
  all_goals first
    | (obtain ⟨_, hsub, rfl⟩ := lift_eq_some.mp h
       exact (persistStep_permit hsub).thread rfl)
    | (cases h <;> trivial)
    | (cases h; simp [permit])

theorem syncStep_permit {pc pc' : SyncPc} (h : syncStep r s t j pc = some (w, pc')) :
    (sync j pc).permit env s t w := by
  revert h
  fun_cases syncStep r s t j pc <;> intro h
  all_goals first
    | (obtain ⟨_, hsub, rfl⟩ := lift_eq_some.mp h
       exact (persistStep_permit hsub).thread rfl)
    | (cases h <;> trivial)

theorem shellStep_permit {pc pc' : ShellPc} (h : shellStep r s j pc = some (w, pc')) :
    (shell j pc).permit env s t w := by
  rcases shellStep_writes h with rfl | ⟨rfl, hbed⟩ | ⟨rfl, rfl⟩
  · trivial
  · exact hbed
  · rfl

theorem admission_permit {req : CreateRequest} {selected : Option SyncKind} {pc' : CreatePc}
    (h : admission env r s req selected = (w, pc')) :
    (create req (.accept selected)).permit env s t w := by
  revert h
  fun_cases admission env r s req selected <;> intro h <;> cases h <;> try trivial
  case case7.refl hclean hfence hentry hret _ _ _ =>
    intro i hi hphase
    have hini : s.initializing = some i := initializing_eq_some.mpr ⟨hi, hphase⟩
    simp [hini] at hentry
  case case8.refl hclean hfence hentry hret _ _ hcap =>
    simp only [Bool.not_eq_true, Bool.or_eq_false_iff, Option.isSome_eq_false_iff,
      Option.isNone_iff_eq_none] at hclean hfence hentry hret
    refine ⟨⟨hfence.1, hentry.1, hret, hfence.2, hentry.2, hclean, ?_⟩, _, _, rfl⟩
    simp only [Bool.not_eq_true, Bool.or_eq_false_iff, Bool.and_eq_false_iff,
      decide_eq_false_iff_not, not_lt, not_le] at hcap
    exact hcap.1.imp Nat.le_zero.mp id

theorem createStep_permit {req : CreateRequest} {pc pc' : CreatePc}
    (h : createStep env r s req pc = some (w, pc')) : (create req pc).permit env s t w := by
  revert h
  fun_cases createStep env r s req pc <;> intro h
  case case8 => exact admission_permit (Option.some.inj h)
  all_goals cases h <;> trivial

theorem threadStep_permit {th th' : Thread} (h : threadStep env r s t th = some (w, th')) :
    th.permit env s t w := by
  cases threadStep_inv h with
  | create req pc pc' hsub => exact createStep_permit hsub
  | evict cutoff pc pc' hsub => exact evictStep_permit hsub
  | purge pc pc' hsub => exact purgeStep_permit hsub
  | close pc pc' hsub => exact closeStep_permit hsub
  | checkpoint j pc pc' hsub => exact checkpointStep_permit hsub
  | sync j pc pc' hsub => exact syncStep_permit hsub
  | shell j pc pc' hsub => exact shellStep_permit hsub
  | collect l pc pc' hsub => exact (cleanStep_permit hsub).thread rfl

/-! ## Writes of the initializations -/

def TaskPc.progresses : TaskPc → Bool
  | .report _ | .announce => true
  | _ => false

def TaskPc.permit (env : Env) (s : Slot) (i : TaskId) (pc : TaskPc) : Write → Prop
  | .skip => True
  | .publish k _ =>
    k = i ∧ pc = .publish ∧ env.closed = false ∧ s.initialization = some i ∧
      s.phase i = .initializing ∧ s.bed = none
  | .insertRetirement k => k = i ∧ ∃ err, pc = .strand err ∨ pc = .insert err
  | .deleteRetirement => ∃ err, pc = .drop err
  | .finishInitialization k err delete st =>
    k = i ∧ ∃ reason, pc = .finishFinal err reason ∧
      (delete, st) = finishDecision env s i err reason
  | .stage k _ => k = i ∧ ∃ stage, pc = .prepare stage
  | .seed k info _ => k = i ∧ pc = .prepare .resident ∧ info = s.residentInfo i
  | .makeDir => pc = .prepare .select
  | .restoreDir tree => pc = .prepare .restore ∧ ∃ sn, s.snapshot = some sn ∧ sn.tree = tree
  | .setLifecycle l next =>
    l = (s.task i).identity ∧
      (next.phase = .initializing ∧ pc.progresses = true ∨
        next.phase ≠ .initializing ∧ ∃ q : TeardownPc, pc.tearing = some q ∧ q.reports = true)
  | .unregisterIdentity l => l = (s.task i).identity ∧ ∃ c, pc.cleaning = some (.unregister c)
  | .beginCleanup l removeRoot A =>
    A = .task i ∧ l = (s.task i).identity ∧ s.identity = some l ∧
      (∀ c, (s.locals l).cleanup = some c → (s.cleanups c).running = false) ∧
      ∃ q, pc.cleaning = some (.entry q) ∧ (q = true → removeRoot = true)
  | .settleCleanup l c err => l = (s.task i).identity ∧ pc.cleaning = some (.settle c err)
  | .removeGc => ∃ c, pc.cleaning = some (.sweep c) ∨ pc.cleaning = some (.remove c)
  | .claimDir => ∃ c, pc.cleaning = some (.claim c)
  | .lockCleanup k _ | .unlockCleanup k => k = i
  | .stopHook k | .releaseHook k => k = i ∧ ∃ q, pc.tearing = some q
  | .closeRuntime k => k = i ∧ ∃ b, pc.tearing = some (.close b)
  | _ => False

variable {i : TaskId}

theorem TeardownPc.permit.task {pc : TeardownPc} {tpc : TaskPc}
    (h : pc.permit s i w) (hpc : tpc.tearing = some pc) : tpc.permit env s i w := by
  cases w <;> simp only [TeardownPc.permit] at h <;> try exact h.elim
  case skip => trivial
  case setLifecycle l next =>
    obtain ⟨rfl, hphase, hq⟩ := h
    refine ⟨rfl, .inr ⟨hphase, pc, hpc, ?_⟩⟩
    rcases hq with rfl | ⟨b, rfl⟩ | ⟨f, rfl⟩ <;> rfl
  case stopHook => exact ⟨h, pc, hpc⟩
  case releaseHook => exact ⟨h, pc, hpc⟩
  case closeRuntime =>
    obtain ⟨rfl, b, rfl⟩ := h
    exact ⟨rfl, b, hpc⟩

theorem CleanPc.permit.task {pc : CleanPc} {tpc : TaskPc}
    (h : pc.permit s (.task i) (s.task i).identity w) (hpc : tpc.cleaning = some pc) :
    tpc.permit env s i w := by
  cases w <;> simp only [CleanPc.permit] at h <;> try exact h.elim
  case skip => trivial
  case unregisterIdentity k =>
    obtain ⟨rfl, c, rfl⟩ := h
    exact ⟨rfl, c, hpc⟩
  case beginCleanup k rr B =>
    obtain ⟨rfl, rfl, hid, hrun, q, rfl, hq⟩ := h
    exact ⟨rfl, rfl, hid, hrun, q, hpc, hq⟩
  case settleCleanup k c err =>
    obtain ⟨rfl, rfl⟩ := h
    exact ⟨rfl, hpc⟩
  case removeGc =>
    obtain ⟨c, rfl | rfl⟩ := h
    · exact ⟨c, .inl hpc⟩
    · exact ⟨c, .inr hpc⟩
  case claimDir =>
    obtain ⟨c, rfl⟩ := h
    exact ⟨c, hpc⟩

theorem reportWrite_permit {reason : String} {pc : TaskPc}
    (hpc : pc.progresses = true) : pc.permit env s i (reportWrite env s i reason) := by
  unfold reportWrite
  split
  · exact ⟨rfl, .inl ⟨rfl, hpc⟩⟩
  · trivial

theorem stageStep_permit {stage : Stage} {pc' : TaskPc} (h : stageStep env s i stage = (w, pc')) :
    (TaskPc.prepare stage).permit env s i w := by
  revert h
  fun_cases stageStep env s i stage <;> intro h <;> cases h <;> simp_all [TaskPc.permit]

theorem taskStep_permit {pc pc' : TaskPc} (h : taskStep env r s i pc = some (w, pc')) :
    pc.permit env s i w := by
  revert h
  fun_cases taskStep env r s i pc <;> intro h
  case case6 => exact stageStep_permit (Option.some.inj h)
  all_goals first
    | (obtain ⟨_, hsub, rfl⟩ := lift_eq_some.mp h
       first | exact (teardownStep_permit hsub).task rfl | exact (cleanStep_permit hsub).task rfl)
    | (cases h; exact reportWrite_permit rfl)
    | (cases h <;> trivial)
    | (cases h; simp_all [TaskPc.permit])

/-! ## Writes of the callers, and new goroutines -/

/-- What a caller that is not modelled as a goroutine knows at its one write. -/
def Act.permit (env : Env) (s : Slot) : Write → Prop
  | .cancelInitialization _ _ => True
  | .deleteInitialization => ∃ i, s.initialization = some i ∧ s.phase i = .failed
  | .beginOperation j kind _ =>
    kind ≠ .checkpoint ∧ s.bed = some j ∧ s.phase j = .resident ∧ env.closed = false
  | .finishOperation j kind => kind ≠ .checkpoint ∧ (j, kind) ∈ s.operations
  | .touch j => s.bed = some j
  | .openSession j => s.bed = some j ∧ env.closed = false ∧
    ((s.locals (s.task j).identity).hasMainProcesses = true → s.phase j = .resident)
  | .closeSession _ | .closeShell _ => True
  | .renew j _ => s.bed = some j ∧ s.phase j = .resident ∧ env.closed = false
  | .writeData _ | .setReadiness _ _ => True
  | _ => False

/-- The goroutines a request or a loop starts without writing anything. -/
inductive Slot.Spawns (env : Env) (s : Slot) : Thread → Prop
  | create (req : CreateRequest) : Spawns env s (.create req .wait)
  | evict (cutoff : Option Time) : Spawns env s (.evict cutoff .lookup)
  | purge : Spawns env s (.purge .begin)
  | close : env.closed = true → Spawns env s (.close .cancel)
  | checkpoint {j : TaskId} : s.bed = some j → Spawns env s (.checkpoint j .begin)
  | sync {j : TaskId} : s.bed = some j → (s.storeKind j).durable = true →
      Spawns env s (.sync j .select)
  | shell {j : TaskId} : s.bed = some j → Spawns env s (.shell j .touch)

/-- The collection goroutine turns to this name: to retry a pending cleanup, or to remove
luggage. -/
structure Slot.Collects (s : Slot) (w : Write) (l : LocalId) (removeRoot : Bool) : Prop where
  free : s.collecting = false
  unused : s.inUse = false
  claim : w = .skip ∧ removeRoot = false ∧ s.identity = some l ∧ (s.locals l).cleanup ≠ none ∨
    w = .claimLuggage ∧ removeRoot = true ∧ l = s.registered ∧ s.pendingCleanup = none

/-- Luggage is all that the collection goroutine claims. -/
def Write.claims : Write → Bool
  | .skip | .claimLuggage => true
  | _ => false

theorem Slot.Collects.elim {P : Prop} {l : LocalId} {removeRoot : Bool}
    (h : s.Collects w l removeRoot) (hw : w.claims = false) : P := by
  rcases h.claim with ⟨rfl, -⟩ | ⟨rfl, -⟩ <;> cases hw

/-- What an action can do: step an initialization, step another goroutine, perform one permitted
write, or start a goroutine. -/
inductive Slot.Does (env : Env) (s : Slot) : Act → Write → Move → Prop
  | task {i : TaskId} {r : Reply} {w : Write} {pc : TaskPc} :
      taskStep env r s i (s.task i).pc = some (w, pc) → Does env s (.task i r) w (.task i pc)
  | thread {t : ThreadId} {r : Reply} {w : Write} {th : Thread} :
      threadStep env r s t (s.threads t) = some (w, th) →
      Does env s (.thread t r) w (.thread t th)
  | call {a : Act} {w : Write} : Act.permit env s w → Does env s a w .stay
  | spawn {a : Act} {th : Thread} : s.Spawns env th → Does env s a .skip (.spawn th)
  | collect {a : Act} {w : Write} {l : LocalId} {removeRoot : Bool} :
      s.Collects w l removeRoot →
      Does env s a w (.spawnCollector (.collect l (.entry removeRoot)))

theorem admitsSession_spec (h : s.admitsSession env r j = true) :
    s.bed = some j ∧ env.closed = false ∧
      ((s.locals (s.task j).identity).hasMainProcesses = true → s.phase j = .resident) := by
  simp only [Slot.admitsSession, Bool.and_eq_true, Bool.or_eq_true, decide_eq_true_eq,
    Bool.not_eq_true', and_assoc] at h
  exact ⟨h.1, h.2.1, fun hmain => (h.2.2.1.resolve_left (by simp [hmain])).1⟩

theorem Act.plan_does {a : Act} {m : Move} (h : a.plan env s = some (w, m)) : s.Does env a w m := by
  revert h
  fun_cases Act.plan env s a <;> intro h
  case case14 l hid hguard =>
    cases h
    simp only [Bool.and_eq_true, Bool.not_eq_true', Option.isSome_iff_ne_none] at hguard
    exact .collect ⟨hguard.2, hguard.1.2, .inl ⟨rfl, rfl, hid, hguard.1.1⟩⟩
  case case17 hguard =>
    cases h
    simp only [Bool.and_eq_true, Bool.not_eq_true', Option.isNone_iff_eq_none] at hguard
    exact .collect ⟨hguard.2, hguard.1.2, .inr ⟨rfl, rfl, rfl, hguard.1.1⟩⟩
  case case19 i r =>
    obtain ⟨pc, hstep, rfl⟩ := lift_eq_some.mp h
    exact .task hstep
  case case20 t r =>
    obtain ⟨th, hstep, rfl⟩ := lift_eq_some.mp h
    exact .thread hstep
  case case22 i hi hfailed =>
    cases h
    exact .call ⟨i, hi, hfailed.1⟩
  case case25 hguard =>
    cases h
    obtain ⟨hbed, hopen, hphase, -⟩ := admits_iff.mp hguard.2
    exact .call ⟨hguard.1, hbed, hphase, hopen⟩
  case case31 hguard =>
    cases h
    exact .call (admitsSession_spec hguard)
  all_goals first
    | (cases h; exact .spawn (by constructor <;> assumption))
    | (cases h <;> exact .call (by simp_all [Act.permit]))

variable {a : Act} {m : Move}

theorem Slot.Does.by_task (hd : s.Does env a w m) (hthread : ∀ t th, ¬permit env s t th w)
    (hcall : ¬Act.permit env s w) (hw : w.claims = false) :
    ∃ i r pc, a = .task i r ∧ m = .task i pc ∧ taskStep env r s i (s.task i).pc = some (w, pc) := by
  cases hd with
  | @task i r _ pc hstep => exact ⟨i, r, pc, rfl, rfl, hstep⟩
  | thread hstep => exact absurd (threadStep_permit hstep) (hthread _ _)
  | call hpermit => exact absurd hpermit hcall
  | spawn _ => cases hw
  | collect hcollect => exact hcollect.elim hw

theorem Slot.Does.by_call (hd : s.Does env a w m) (htask : ∀ i pc, ¬TaskPc.permit env s i pc w)
    (hthread : ∀ t th, ¬permit env s t th w) (hw : w.claims = false) : Act.permit env s w := by
  cases hd with
  | task hstep => exact absurd (taskStep_permit hstep) (htask _ _)
  | thread hstep => exact absurd (threadStep_permit hstep) (hthread _ _)
  | call hpermit => exact hpermit
  | spawn _ => cases hw
  | collect hcollect => exact hcollect.elim hw

theorem Slot.Does.by_thread (hd : s.Does env a w m) (htask : ∀ i pc, ¬TaskPc.permit env s i pc w)
    (hcall : ¬Act.permit env s w) (hw : w.claims = false) :
    ∃ t r th, a = .thread t r ∧ m = .thread t th ∧
    threadStep env r s t (s.threads t) = some (w, th) := by
  cases hd with
  | task hstep => exact absurd (taskStep_permit hstep) (htask _ _)
  | @thread t r _ th hstep => exact ⟨t, r, th, rfl, rfl, hstep⟩
  | call hpermit => exact absurd hpermit hcall
  | spawn _ => cases hw
  | collect hcollect => exact hcollect.elim hw

end Hostel.Bed
