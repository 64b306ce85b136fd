/-
# Hostel.Bed.Operations — the in-flight counters of every allocation.

`inflight` and `inflightByKind` count the admitted operations whose finish function has not run.  A
checkpoint finishes in a step of its own goroutine, so the goroutines that still owe one count too.
-/
import Hostel.Bed.Exclusion
import Hostel.Logic.Tally
import Mathlib.Algebra.Order.BigOperators.Group.Finset
import Mathlib.Algebra.GroupWithZero.Nat

namespace Hostel.Bed

open Store Logic List Slot Thread Write

variable {env : Env} {r : Reply} {s s' : Slot} {a : Act} {w : Write} {m : Move} {j : TaskId}

/-- The allocation on which a goroutine owes the finish of a checkpoint. -/
def Thread.checkpointing : Thread → Option TaskId
  | .checkpoint j (.persist _) | .checkpoint j (.finish _) => some j
  | _ => none

/-- `1` for a goroutine that owes the finish of a checkpoint on `j`. -/
def Thread.owes (j : TaskId) (th : Thread) : Nat := if th.checkpointing = some j then 1 else 0

/-- The counters agree with the admitted operations, and the admitted checkpoints with the
goroutines that owe their finish. -/
structure Operations (s : Slot) : Prop where
  admitted : ∀ o ∈ s.operations, o.1 < s.nTasks
  kinds : ∀ j kind, (s.alloc j).inflightByKind kind = s.operations.count (j, kind)
  total : ∀ j, (s.alloc j).inflight = s.operations.countP fun o => o.1 = j
  checkpoints : ∀ j, ∑ t ∈ Finset.range s.nThreads, (s.threads t).owes j =
    s.operations.count (j, .checkpoint)

theorem count_kinds (ops : List (TaskId × OperationKind)) (j : TaskId) :
    (OperationKind.all.map fun kind => ops.count (j, kind)).sum = ops.countP fun o => o.1 = j := by
  induction ops with
  | nil => simp [OperationKind.all]
  | cons o ops ih =>
    obtain ⟨k, kind⟩ := o
    simp only [OperationKind.all, map_cons, map_nil, sum_cons, sum_nil,
      count_cons, countP_cons] at ih ⊢
    rw [← ih]
    by_cases hk : k = j
    · cases kind <;> simp [hk] <;> omega
    · simp [hk]

theorem Operations.sum_kinds (h : Operations s) (j : TaskId) :
    (s.alloc j).inflight = (OperationKind.all.map (s.alloc j).inflightByKind).sum := by
  rw [h.total, ← count_kinds, funext (h.kinds j)]

/-! ## One step -/

def Write.begins (j : TaskId) (kind : OperationKind) : Write → Nat
  | .beginOperation k c _ => if k = j ∧ c = kind then 1 else 0
  | _ => 0

def Write.ends (j : TaskId) (kind : OperationKind) : Write → Nat
  | .finishOperation k c => if k = j ∧ c = kind then 1 else 0
  | _ => 0

theorem Write.count_operations (j : TaskId) (kind : OperationKind)
    (hmem : ∀ k c, w = .finishOperation k c → (k, c) ∈ s.operations) :
    (w.operations s).count (j, kind) + w.ends j kind =
      s.operations.count (j, kind) + w.begins j kind := by
  cases w with
  | beginOperation k c timeout =>
    simp [operations, begins, ends, count_cons]
  | finishOperation k c =>
    have hkc : 0 < s.operations.count (k, c) := count_pos_iff.mpr (hmem k c rfl)
    simp only [operations, begins, ends, count_erase]
    by_cases h : k = j ∧ c = kind
    · obtain ⟨rfl, rfl⟩ := h
      simp
      omega
    · simp [h]
  | _ => rfl

variable {k : TaskId}

theorem persistStep_begins {A : Agent} {pc pc' : PersistPc} {kind : OperationKind}
    (h : persistStep r s A k pc = some (w, pc')) : w.begins j kind = 0 ∧ w.ends j kind = 0 := by
  revert h
  fun_cases persistStep r s A k pc <;> intro h <;> cases h <;> exact ⟨rfl, rfl⟩

theorem checkpointStep_owes {t : ThreadId} {pc pc' : CheckpointPc}
    (h : checkpointStep env r s t k pc = some (w, pc')) :
    (checkpoint k pc').owes j + w.ends j .checkpoint =
      (checkpoint k pc).owes j + w.begins j .checkpoint := by
  revert h
  fun_cases checkpointStep env r s t k pc <;> intro h
  case case4 =>
    obtain ⟨pc', hsub, rfl⟩ := lift_eq_some.mp h
    simp [persistStep_begins hsub, owes, checkpointing]
  all_goals
    cases h <;> simp [owes, checkpointing, begins, ends]

theorem threadStep_owes {t : ThreadId} {th th' : Thread}
    (h : threadStep env r s t th = some (w, th')) :
    th'.owes j + w.ends j .checkpoint = th.owes j + w.begins j .checkpoint := by
  have hpermit := threadStep_permit h
  have hother : (∀ k pc, th ≠ .checkpoint k pc) → w.begins j .checkpoint = 0 ∧
      w.ends j .checkpoint = 0 := by
    intro hth
    cases w <;> try exact ⟨rfl, rfl⟩
    · exact absurd hpermit.1 (hth _ _)
    · obtain ⟨_, err, hck⟩ := hpermit
      exact absurd hck (hth _ _)
  cases threadStep_inv h with
  | checkpoint k pc pc' hsub => exact checkpointStep_owes hsub
  | _ => simp [hother (by simp), owes, checkpointing]

theorem owes_spawned {th : Thread} (h : s.Spawns env th) : th.owes j = 0 := by
  cases h <;> rfl

theorem sum_owes_spawn {th : Thread} (hth : th.owes j = 0) :
    ∑ t ∈ Finset.range (s.nThreads + 1), (if t = s.nThreads then th else s.threads t).owes j =
      ∑ t ∈ Finset.range s.nThreads, (s.threads t).owes j := by
  rw [Finset.sum_range_succ, if_pos rfl, hth, add_zero]
  exact Finset.sum_congr rfl fun t ht => by rw [if_neg (Finset.mem_range.mp ht).ne]

theorem Slot.Does.sum_owes (hd : s.Does env a w m) (hg : Grounded s) (j : TaskId) :
    ∑ t ∈ Finset.range (m.nThreads s), (m.threads s t).owes j + w.ends j .checkpoint =
      ∑ t ∈ Finset.range s.nThreads, (s.threads t).owes j + w.begins j .checkpoint := by
  cases hd with
  | task hstep =>
    have hpermit := taskStep_permit hstep
    cases w <;> first | rfl | exact hpermit.elim
  | @thread t _ _ th hstep =>
    have ht : t < s.nThreads := Nat.lt_of_not_le fun hle => by
      rw [hg.idle t hle] at hstep
      cases hstep
    have hsum := sum_insert_update (S := Finset.range s.nThreads) (g := s.threads)
      (f := owes j) (i := t) th (fun h => absurd (Finset.mem_range.mpr ht) h)
    rw [Finset.insert_eq_of_mem (Finset.mem_range.mpr ht)] at hsum
    simp only [Function.update_apply] at hsum
    have hown := threadStep_owes (j := j) hstep
    simp only [Move.nThreads, Move.threads]
    omega
  | call hcall =>
    cases w <;> try rfl
    all_goals
      have hne := hcall.1
      simp [begins, ends, hne]
  | spawn hspawn => exact sum_owes_spawn (owes_spawned hspawn)
  | collect hcollect =>
    rcases hcollect.claim with ⟨rfl, _⟩ | ⟨rfl, _⟩ <;> exact sum_owes_spawn rfl

theorem Operations.finishes {c : OperationKind} (h : Operations s) (hg : Grounded s)
    (hd : s.Does env a (.finishOperation k c) m) : (k, c) ∈ s.operations := by
  cases hd with
  | task hstep => exact (taskStep_permit hstep).elim
  | @thread t _ _ th hstep =>
    obtain ⟨rfl, err, hth⟩ := threadStep_permit hstep
    have ht : t < s.nThreads := Nat.lt_of_not_le fun hle => by
      rw [hg.idle t hle] at hth
      cases hth
    have hle := Finset.single_le_sum (f := fun u => (s.threads u).owes k) (fun _ _ => Nat.zero_le _)
      (Finset.mem_range.mpr ht)
    rw [h.checkpoints k] at hle
    simp only [hth, owes, checkpointing, if_true] at hle
    exact count_pos_iff.mp hle
  | call hcall => exact hcall.2
  | collect hcollect => exact hcollect.elim rfl

theorem Slot.Does.begins_bed {c : OperationKind} {timeout : Time}
    (hd : s.Does env a (.beginOperation k c timeout) m) : s.bed = some k := by
  cases hd with
  | task hstep => exact (taskStep_permit hstep).elim
  | thread hstep => exact (threadStep_permit hstep).2.2.1
  | call hcall => exact hcall.2.1
  | collect hcollect => exact hcollect.elim rfl

theorem Slot.Does.touches_bed (hd : s.Does env a (.touch j) m) : s.bed = some j := by
  cases hd with
  | task hstep => exact (taskStep_permit hstep).elim
  | thread hstep => exact threadStep_permit hstep
  | call hcall => exact hcall
  | collect hcollect => exact hcollect.elim rfl

theorem Slot.Does.opens_bed (hd : s.Does env a (.openSession j) m) : s.bed = some j :=
  (hd.by_call (fun _ _ => id) (fun _ _ => id) rfl).1

attribute [local simp] Write.alloc ManagedBed.fresh

theorem Slot.Does.operations (hd : s.Does env a w m) (hg : Grounded s) (h : Operations s) :
    Operations ((s.apply env w).move m) := by
  have hmem : ∀ k c, w = .finishOperation k c → (k, c) ∈ s.operations := by
    rintro k c rfl
    exact h.finishes hg hd
  have hn : s.nTasks ≤ w.nTasks s := by cases w <;> simp [Write.nTasks]
  constructor
  case admitted =>
    simp only [move_operations, apply_operations, move_nTasks, apply_nTasks]
    intro o ho
    cases w with
    | beginOperation k c timeout =>
      rcases mem_cons.mp ho with rfl | hold
      · exact hg.entries k (.inl hd.begins_bed)
      · exact h.admitted o hold
    | finishOperation k c => exact h.admitted o (mem_of_mem_erase ho)
    | _ => exact (h.admitted o ho).trans_le hn
  case kinds =>
    intro j kind
    have hcount := count_operations j kind hmem
    have hold := h.kinds j kind
    simp only [move_alloc, apply_alloc, move_operations, apply_operations]
    cases w with
    | accept =>
      by_cases hj : j = s.nTasks
      · have hnone : (j, kind) ∉ s.operations := fun hin => (h.admitted _ hin).ne hj
        simp [hj, count_eq_zero.mpr (hj ▸ hnone)]
      · simpa [hj] using hold
    | beginOperation k c timeout =>
      simp only [Write.alloc, Write.begins, Write.ends] at hcount ⊢
      grind [ManagedBed.begin_inflightByKind]
    | finishOperation k c =>
      simp only [Write.alloc, Write.begins, Write.ends] at hcount ⊢
      grind [ManagedBed.finish_inflightByKind]
    | _ =>
      simp only [Write.alloc, Write.operations]
      first | exact hold | (split_ifs <;> exact hold)
  case total =>
    intro j
    have hold := h.total j
    simp only [move_alloc, apply_alloc, move_operations, apply_operations]
    cases w with
    | accept =>
      by_cases hj : j = s.nTasks
      · have hnone : s.operations.countP (fun o => o.1 = s.nTasks) = 0 := by
          simpa using fun k c hin => (h.admitted (k, c) hin).ne
        simp [hj, hnone]
      · simpa [hj] using hold
    | beginOperation k c timeout =>
      simp only [Write.alloc, Write.operations, countP_cons]
      grind [ManagedBed.begin]
    | finishOperation k c =>
      simp only [Write.alloc, Write.operations, countP_erase]
      grind [ManagedBed.finish]
    | _ =>
      simp only [Write.alloc, Write.operations]
      first | exact hold | (split_ifs <;> exact hold)
  case checkpoints =>
    intro j
    have hown := hd.sum_owes hg j
    have hcount := count_operations j .checkpoint hmem
    have hold := h.checkpoints j
    simp only [move_nThreads, move_thread, nThreads_apply, threads_apply,
      move_operations, apply_operations]
    omega

theorem operations_boot (env : Env) (disk : Disk) (snapshot : Option Snapshot) :
    Operations (boot env disk snapshot) := by
  constructor <;> simp [boot]

end Hostel.Bed
