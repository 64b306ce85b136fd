/-
# Hostel.Bed.Locks — which goroutine holds `cleanupMu` and `persistMu`, read off its counter.

`LockUse` says what one step may do to one lock of one allocation, and every program obeys it; a
program takes pointers only from the entries of the name (`threadStep_refs`).  None of this depends
on how hooks fail or on how the goroutines interleave.
-/
import Hostel.Bed.Frame

namespace Hostel.Bed

open Store Thread Option Slot

/-! ## What the program counters hold -/

/-- `persistBed` between its lock and its unlock. -/
def PersistPc.holds : PersistPc → Bool
  | .lock | .ret _ => false
  | _ => true

/-- `finishRetirement` between its acquire and its release. -/
def RetirePc.holds : RetirePc → Bool
  | .acquire | .ret _ _ => false
  | _ => true

/-- The rollback of `runInitialization` between its acquire and its release. -/
def TaskPc.holds : TaskPc → Bool
  | .rollback _ _ | .unlock _ _ => true
  | _ => false

def whenHeld (b : Bool) (j : TaskId) : Option TaskId := if b then some j else none

@[simp] theorem whenHeld_eq_some {b : Bool} {j k : TaskId} :
    whenHeld b j = some k ↔ b = true ∧ j = k := by
  unfold whenHeld
  split <;> simp_all

def EvictPc.cleanupHeld : EvictPc → Option TaskId
  | .retire j _ pc => whenHeld pc.holds j
  | .fence j | .stop j _ | .quiesce j _ | .persist j _ _ | .decide j _ | .handoff j => some j
  | .recover j x | .restart j x | .resume j x | .readiness j x | .unlock j x => whenHeld x.locked j
  | _ => none

def PurgePc.persistHeld : PurgePc → Option TaskId
  | .teardown j _ _ _ => some j
  | .delete b _ _ | .clean b _ _ | .drop b => b
  | .unlockPersist j _ => some j
  | _ => none

def PurgePc.cleanupHeld : PurgePc → Option TaskId
  | .lockPersist j _ _ | .unlockCleanup j _ => some j
  | pc => pc.persistHeld

theorem purgeExit_persistHeld (b : Option TaskId) (err : Option Fault) :
    (purgeExit b err).persistHeld = b := by
  cases b <;> rfl

theorem purgeExit_cleanupHeld (b : Option TaskId) (err : Option Fault) :
    (purgeExit b err).cleanupHeld = b := by
  cases b <;> rfl

def ClosePc.cleanupHeld : ClosePc → Option TaskId
  | .retire j _ pc => whenHeld pc.holds j
  | .teardown j _ _ | .release j _ => some j
  | _ => none

def Thread.persistHeld : Thread → Option TaskId
  | .evict _ (.persist j _ pc) | .checkpoint j (.persist pc) | .sync j (.persist pc) =>
    whenHeld pc.holds j
  | .purge pc => pc.persistHeld
  | _ => none

def Thread.cleanupHeld : Thread → Option TaskId
  | .evict _ pc | .purge pc | .close pc => pc.cleanupHeld
  | _ => none

/-! ## The discipline of one step -/

inductive LockKind
  | cleanup | persist

namespace LockKind

def holder (s : Slot) (j : TaskId) : LockKind → Option Agent
  | .cleanup => (s.alloc j).cleanupMu
  | .persist => (s.alloc j).persistMu

def lock (j : TaskId) (A : Agent) : LockKind → Write
  | .cleanup => .lockCleanup j A
  | .persist => .lockPersist j A

def unlock (j : TaskId) : LockKind → Write
  | .cleanup => .unlockCleanup j
  | .persist => .unlockPersist j

def held : LockKind → Thread → Option TaskId
  | .cleanup => cleanupHeld
  | .persist => persistHeld

/-- What is held of each of the two locks. -/
def pick (cleanup persist : Option TaskId) : LockKind → Option TaskId
  | .cleanup => cleanup
  | .persist => persist

end LockKind

/-- What a step of `A` may do to a lock: what it holds afterwards it held before or took just now,
and it takes only free locks and releases only its own. -/
structure LockUse (kind : LockKind) (s : Slot) (A : Agent)
    (held held' : Option TaskId) (w : Write) : Prop where
  keep : ∀ j, held' = some j → held = some j ∧ w ≠ kind.unlock j ∨ w = kind.lock j A
  unlock : ∀ j, w = kind.unlock j → held = some j
  lock : ∀ j B, w = kind.lock j B → B = A ∧ kind.holder s j = none

variable {env : Env} {r : Reply} {s : Slot} {w : Write} {A : Agent} {j : TaskId} {t : ThreadId}
  {kind : LockKind} {held : Option TaskId}

attribute [local simp] LockKind.lock LockKind.unlock LockKind.holder LockKind.held LockKind.pick
  PersistPc.holds
  RetirePc.holds persistHeld cleanupHeld

theorem LockUse.idle (h : ∀ j, w ≠ kind.unlock j) (h' : ∀ j B, w ≠ kind.lock j B) :
    LockUse kind s A held held w :=
  ⟨fun j hj => .inl ⟨hj, h j⟩, fun j hj => absurd hj (h j), fun j B hj => absurd hj (h' j B)⟩

theorem teardownStep_locks {pc pc' : TeardownPc} (h : teardownStep env r s j pc = some (w, pc')) :
    LockUse kind s A held held w := by
  revert h
  fun_cases teardownStep env r s j pc <;> intro h <;> cases h <;> apply LockUse.idle <;>
    cases kind <;> simp

theorem cleanStep_locks {l : LocalId} {pc pc' : CleanPc}
    (h : cleanStep r s A l pc = some (w, pc')) : LockUse kind s A held held w := by
  revert h
  fun_cases cleanStep r s A l pc <;> intro h <;> cases h <;> apply LockUse.idle <;>
    cases kind <;> simp

theorem persistStep_locks (held : Option TaskId) {pc pc' : PersistPc}
    (h : persistStep r s A j pc = some (w, pc')) :
    LockUse kind s A (kind.pick held (whenHeld pc.holds j))
    (kind.pick held (whenHeld pc'.holds j)) w := by
  revert h
  fun_cases persistStep r s A j pc <;> intro h <;> cases h <;> cases kind <;> constructor <;>
    simp_all

theorem retireStep_locks (held : Option TaskId) {pc pc' : RetirePc}
    (h : retireStep env r s A j pc = some (w, pc')) :
    LockUse kind s A (kind.pick (whenHeld pc.holds j) held)
    (kind.pick (whenHeld pc'.holds j) held) w := by
  revert h
  fun_cases retireStep env r s A j pc <;> intro h
  case case8 =>
    obtain ⟨pc', hsub, rfl⟩ := lift_eq_some.mp h
    exact teardownStep_locks hsub
  case case11 =>
    obtain ⟨pc', hsub, rfl⟩ := lift_eq_some.mp h
    exact cleanStep_locks hsub
  all_goals
    cases h <;> cases kind <;> constructor <;> simp_all

variable {cutoff : Option Time}

theorem evictStep_locks {pc pc' : EvictPc} (h : evictStep env r s t cutoff pc = some (w, pc')) :
    LockUse kind s (.thread t) (kind.held (.evict cutoff pc))
    (kind.held (.evict cutoff pc')) w := by
  revert h
  fun_cases evictStep env r s t cutoff pc <;> intro h
  all_goals first
    | (obtain ⟨pc', hsub, rfl⟩ := lift_eq_some.mp h
       cases kind <;> first
         | exact retireStep_locks none hsub
         | exact persistStep_locks _ hsub | exact persistStep_locks none hsub)
    | (cases h <;> cases kind <;> constructor <;> simp_all [EvictPc.cleanupHeld])

theorem purgeStep_locks {pc pc' : PurgePc} (h : purgeStep env r s t pc = some (w, pc')) :
    LockUse kind s (.thread t) (kind.held (.purge pc)) (kind.held (.purge pc')) w := by
  revert h
  fun_cases purgeStep env r s t pc <;> intro h
  all_goals first
    | (obtain ⟨pc', hsub, rfl⟩ := lift_eq_some.mp h
       cases kind <;> first | exact teardownStep_locks hsub | exact cleanStep_locks hsub)
    | (cases h <;> cases kind <;> simp only [LockKind.held, cleanupHeld, persistHeld] <;>
        constructor <;> (try simp only [purgeExit_cleanupHeld, purgeExit_persistHeld]) <;>
        simp_all [PurgePc.cleanupHeld, PurgePc.persistHeld])

theorem closeStep_locks {pc pc' : ClosePc} (h : closeStep env r s t pc = some (w, pc')) :
    LockUse kind s (.thread t) (kind.held (.close pc)) (kind.held (.close pc')) w := by
  revert h
  fun_cases closeStep env r s t pc <;> intro h
  all_goals first
    | (obtain ⟨pc', hsub, rfl⟩ := lift_eq_some.mp h
       cases kind <;> first | exact retireStep_locks none hsub | exact teardownStep_locks hsub)
    | (cases h <;> cases kind <;> constructor <;> simp_all [ClosePc.cleanupHeld])

theorem checkpointStep_locks {pc pc' : CheckpointPc}
    (h : checkpointStep env r s t j pc = some (w, pc')) :
    LockUse kind s (.thread t) (kind.held (.checkpoint j pc))
    (kind.held (.checkpoint j pc')) w := by
  revert h
  fun_cases checkpointStep env r s t j pc <;> intro h
  case case4 =>
    obtain ⟨pc', hsub, rfl⟩ := lift_eq_some.mp h
    cases kind <;> exact persistStep_locks none hsub
  all_goals
    cases h <;> cases kind <;> constructor <;> simp_all

theorem syncStep_locks {pc pc' : SyncPc} (h : syncStep r s t j pc = some (w, pc')) :
    LockUse kind s (.thread t) (kind.held (.sync j pc)) (kind.held (.sync j pc')) w := by
  revert h
  fun_cases syncStep r s t j pc <;> intro h
  case case4 =>
    obtain ⟨pc', hsub, rfl⟩ := lift_eq_some.mp h
    cases kind <;> exact persistStep_locks none hsub
  all_goals
    cases h <;> cases kind <;> constructor <;> simp_all

theorem shellStep_locks {pc pc' : ShellPc} (h : shellStep r s j pc = some (w, pc')) :
    LockUse kind s A held held w := by
  rcases shellStep_writes h with rfl | ⟨rfl, -⟩ | ⟨rfl, -⟩ <;> apply LockUse.idle <;>
    cases kind <;> simp

theorem admission_locks {req : CreateRequest} {selected : Option SyncKind} {pc' : CreatePc}
    (h : admission env r s req selected = (w, pc')) : LockUse kind s A held held w := by
  revert h
  fun_cases admission env r s req selected <;> intro h <;> cases h <;> apply LockUse.idle <;>
    cases kind <;> simp

theorem createStep_locks {req : CreateRequest} {pc pc' : CreatePc}
    (h : createStep env r s req pc = some (w, pc')) : LockUse kind s A held held w := by
  revert h
  fun_cases createStep env r s req pc <;> intro h
  case case8 => exact admission_locks (some.inj h)
  all_goals
    cases h <;> apply LockUse.idle <;> cases kind <;> simp

theorem threadStep_locks {th th' : Thread} (h : threadStep env r s t th = some (w, th')) :
    LockUse kind s (.thread t) (kind.held th) (kind.held th') w := by
  cases threadStep_inv h with
  | create req pc pc' hsub => cases kind <;> exact createStep_locks hsub
  | evict cutoff pc pc' hsub => exact evictStep_locks hsub
  | purge pc pc' hsub => exact purgeStep_locks hsub
  | close pc pc' hsub => exact closeStep_locks hsub
  | checkpoint j pc pc' hsub => exact checkpointStep_locks hsub
  | sync j pc pc' hsub => exact syncStep_locks hsub
  | shell j pc pc' hsub => cases kind <;> exact shellStep_locks hsub
  | collect l pc pc' hsub => cases kind <;> exact cleanStep_locks hsub

variable {i : TaskId}

theorem reportWrite_locks {reason : String} :
    LockUse kind s A held held (reportWrite env s i reason) := by
  unfold reportWrite
  split <;> apply LockUse.idle <;> cases kind <;> simp

theorem stageStep_locks {stage : Stage} {pc' : TaskPc} (h : stageStep env s i stage = (w, pc')) :
    LockUse kind s A held held w := by
  revert h
  fun_cases stageStep env s i stage <;> intro h <;> cases h <;> apply LockUse.idle <;>
    cases kind <;>
    simp

theorem stageStep_next {stage : Stage} {pc' : TaskPc} (h : stageStep env s i stage = (w, pc')) :
    (∃ next, pc' = .report next) ∨ pc' = .check ∨ pc' = .undo .hook .start := by
  revert h
  fun_cases stageStep env s i stage <;> intro h <;> cases h <;> try simp
  all_goals
    unfold afterStage
    split <;> simp

theorem taskStep_locks (held : Option TaskId) {pc pc' : TaskPc}
    (h : taskStep env r s i pc = some (w, pc')) :
    LockUse kind s (.task i) (kind.pick (whenHeld pc.holds i) held)
      (kind.pick (whenHeld pc'.holds i) held) w := by
  revert h
  fun_cases taskStep env r s i pc <;> intro h
  case case6 stage _ =>
    rcases stageStep_next (some.inj h) with ⟨_, rfl⟩ | rfl | rfl <;>
      exact stageStep_locks (some.inj h)
  all_goals first
    | (obtain ⟨pc', hsub, rfl⟩ := lift_eq_some.mp h
       first | exact teardownStep_locks hsub | exact cleanStep_locks hsub)
    | (cases h; exact reportWrite_locks)
    | (cases h <;> cases kind <;> constructor <;> simp_all [TaskPc.holds])

/-! ## What the goroutines mention -/

def EvictPc.refs : EvictPc → List TaskId
  | .await i => [i]
  | .retire j _ _ | .acquire j | .fence j | .stop j _ | .quiesce j _ | .persist j _ _
  | .decide j _ | .handoff j | .recover j _ | .restart j _ | .resume j _ | .readiness j _
  | .unlock j _ => [j]
  | _ => []

def PurgePc.refs : PurgePc → List TaskId
  | .await i _ _ => [i]
  | .acquire j _ _ | .lockPersist j _ _ | .teardown j _ _ _ => [j]
  | .delete b _ _ | .clean b _ _ | .drop b => b.toList
  | .unlockPersist j _ | .unlockCleanup j _ => [j]
  | _ => []

def ClosePc.refs : ClosePc → List TaskId
  | .await i => [i]
  | .listRetirements todo | .next todo => todo
  | .retire j todo _ | .acquire j todo | .teardown j todo _ | .release j todo => j :: todo
  | _ => []

def Thread.refs : Thread → List TaskId
  | .evict _ pc | .purge pc | .close pc => pc.refs
  | .checkpoint j _ | .sync j _ | .shell j _ => [j]
  | _ => []

theorem purgeExit_refs (b : Option TaskId) (err : Option Fault) :
    (purgeExit b err).refs = b.toList := by
  cases b <;> rfl

/-- The entries of the name from which a goroutine takes a pointer. -/
def Slot.entry (s : Slot) (j : TaskId) : Prop :=
  s.bed = some j ∨ s.retirement = some j ∨ s.initialization = some j

theorem initializing_eq_some :
    s.initializing = some i ↔ s.initialization = some i ∧ s.phase i = .initializing := by
  simp [initializing, filter_eq_some_iff]

theorem cancelTarget_inr :
    s.cancelTarget = some (.inr i) ↔ s.initialization = some i ∧ s.phase i = .initializing := by
  simp only [cancelTarget, map_eq_some_iff]
  constructor
  · rintro ⟨k, hk, hif⟩
    split_ifs at hif with hp
    · cases hif
      exact ⟨hk, hp⟩
  · rintro ⟨hi, hp⟩
    exact ⟨i, hi, if_pos hp⟩

theorem cancelTarget_inl {u : Unit} (h : s.cancelTarget = some (.inl u)) :
    ∃ i, s.initialization = some i ∧ s.phase i ≠ .initializing := by
  simp only [cancelTarget, map_eq_some_iff] at h
  obtain ⟨i, hi, hif⟩ := h
  split_ifs at hif with hp
  exact ⟨i, hi, hp⟩

theorem evictStep_refs {pc pc' : EvictPc}
    (h : evictStep env r s t cutoff pc = some (w, pc')) (hj : j ∈ pc'.refs) :
    j ∈ pc.refs ∨ s.entry j := by
  revert h
  fun_cases evictStep env r s t cutoff pc <;> intro h
  all_goals first
    | (obtain ⟨pc', hsub, rfl⟩ := lift_eq_some.mp h; exact .inl hj)
    | (cases h <;> simp_all [EvictPc.refs, entry, cancelTarget_inr])

theorem purgeStep_refs {pc pc' : PurgePc} (h : purgeStep env r s t pc = some (w, pc'))
    (hj : j ∈ pc'.refs) : j ∈ pc.refs ∨ s.entry j := by
  revert h
  fun_cases purgeStep env r s t pc <;> intro h
  all_goals first
    | (obtain ⟨pc', hsub, rfl⟩ := lift_eq_some.mp h; exact .inl hj)
    | (cases h <;> (try simp only [purgeExit_refs] at hj) <;>
        simp_all [PurgePc.refs, entry, cancelTarget_inr])

theorem closeStep_refs {pc pc' : ClosePc} (h : closeStep env r s t pc = some (w, pc'))
    (hj : j ∈ pc'.refs) : j ∈ pc.refs ∨ s.entry j := by
  revert h
  fun_cases closeStep env r s t pc <;> intro h
  all_goals first
    | (obtain ⟨pc', hsub, rfl⟩ := lift_eq_some.mp h; exact .inl hj)
    | (cases h <;> simp_all [ClosePc.refs, entry, initializing_eq_some] <;> tauto)

theorem threadStep_refs {th th' : Thread} (h : threadStep env r s t th = some (w, th'))
    (hj : j ∈ th'.refs) : j ∈ th.refs ∨ s.entry j := by
  cases threadStep_inv h with
  | create req pc pc' _ | checkpoint k pc pc' _ | sync k pc pc' _ | shell k pc pc' _
  | collect l pc pc' _ => exact .inl hj
  | evict cutoff pc pc' hsub => exact evictStep_refs hsub hj
  | purge pc pc' hsub => exact purgeStep_refs hsub hj
  | close pc pc' hsub => exact closeStep_refs hsub hj

end Hostel.Bed
