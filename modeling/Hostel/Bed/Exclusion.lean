/-
# Hostel.Bed.Exclusion — steps of a slot, pointers that exist, and mutual exclusion.

`Slot.step_does` reads a step off its plan; `Does.forall_threads` and `Does.forall_tasks` carry a
property of every goroutine over a step.  `Grounded` is the invariant everything later stands on:
every pointer is to an object that exists, and a lock is held by the goroutine whose program counter
says so, hence by at most one.
-/
import Hostel.Bed.Permit

namespace Hostel.Bed

open Store LockKind Slot Thread Nat

variable {env : Env} {r : Reply} {s s' : Slot} {a : Act} {w : Write} {m : Move}

/-! ## Steps -/

theorem Slot.step_plan {e : Effect} (h : s.step env a = some (s', e)) :
    ∃ w m, a.plan env s = some (w, m) ∧ s.Does env a w m ∧ s' = (s.apply env w).move m ∧
    e = w.effect env s := by
  simp only [step, Option.map_eq_some_iff, Prod.exists, Prod.mk.injEq] at h
  obtain ⟨w, m, hplan, rfl, rfl⟩ := h
  exact ⟨w, m, hplan, Act.plan_does hplan, rfl, rfl⟩

theorem Slot.step_does {e : Effect} (h : s.step env a = some (s', e)) :
    ∃ w m, s.Does env a w m ∧ s' = (s.apply env w).move m ∧ e = w.effect env s := by
  obtain ⟨w, m, -, hstep⟩ := step_plan h
  exact ⟨w, m, hstep⟩

theorem Slot.Does.act_thread {t : ThreadId} {th : Thread} (hd : s.Does env a w (.thread t th)) :
    ∃ r, a = .thread t r ∧ threadStep env r s t (s.threads t) = some (w, th) := by
  cases hd with
  | thread hstep => exact ⟨_, rfl, hstep⟩

theorem Slot.Does.forall_threads {P : ThreadId → Thread → Prop} (hd : s.Does env a w m)
    (other : ∀ t, (∀ th, m ≠ .thread t th) → P t (s.threads t))
    (own : ∀ t r th, m = .thread t th → threadStep env r s t (s.threads t) = some (w, th) → P t th)
    (spawn : ∀ th, m = .spawn th → s.Spawns env th → w = .skip → P s.nThreads th)
    (collect : ∀ l removeRoot, m = .spawnCollector (.collect l (.entry removeRoot)) →
      s.Collects w l removeRoot → P s.nThreads (.collect l (.entry removeRoot))) :
    ∀ t, P t (((s.apply env w).move m).threads t) := by
  intro t
  cases hd with
  | task _ | call _ => simpa using other t (by simp)
  | @thread u _ _ th hstep =>
    by_cases ht : t = u
    · subst ht
      simpa using own t _ th rfl hstep
    · simpa [ht] using other t (by simp [Ne.symm ht])
  | @spawn _ th hspawn =>
    by_cases ht : t = s.nThreads
    · subst ht
      simpa using spawn th rfl hspawn rfl
    · simpa [ht] using other t (by simp)
  | @collect _ _ l removeRoot hcollect =>
    by_cases ht : t = s.nThreads
    · subst ht
      simpa using collect l removeRoot rfl hcollect
    · simpa [ht] using other t (by simp)

theorem Slot.Does.accepts {kind : SyncKind} {hasMain : Bool}
    (hd : s.Does env a (.accept kind hasMain) m) : s.Admissible env ∧ ∀ i pc, m ≠ .task i pc := by
  obtain ⟨_, _, _, rfl, rfl, hstep⟩ := hd.by_thread (fun _ _ => id) id rfl
  exact ⟨(threadStep_permit hstep).1, by simp⟩

theorem Slot.Does.forall_tasks {P : TaskId → TaskPc → Prop} (hd : s.Does env a w m)
    (other : ∀ i, (∀ pc, m ≠ .task i pc) → w.nTasks s = s.nTasks ∨ i ≠ s.nTasks → P i (s.task i).pc)
    (own : ∀ i r pc, m = .task i pc → taskStep env r s i (s.task i).pc = some (w, pc) → P i pc)
    (fresh : s.Admissible env → w.nTasks s = s.nTasks + 1 → P s.nTasks .save) :
    ∀ i, P i (((s.apply env w).move m).task i).pc := by
  intro i
  by_cases hacc : ∃ kind hasMain, w = .accept kind hasMain
  · obtain ⟨kind, hasMain, rfl⟩ := hacc
    obtain ⟨hadm, hm⟩ := hd.accepts
    have hpc : m.pc (s.apply env (.accept kind hasMain)) i =
        if i = s.nTasks then .save else (s.task i).pc := by
      cases m with
      | task k pc => exact absurd rfl (hm k pc)
      | _ => simp only [Move.pc, apply_task, Write.task, apply_ite Initialization.pc]; rfl
    by_cases hi : i = s.nTasks
    · subst hi
      simpa [hpc] using fresh hadm rfl
    · simpa [hpc, hi] using other i (fun pc => hm i pc) (.inr hi)
  · have hn : w.nTasks s = s.nTasks := by
      cases w <;> first | rfl | exact absurd ⟨_, _, rfl⟩ hacc
    have hpc : (w.task s i).pc = (s.task i).pc := by
      cases w <;> simp only [Write.task] <;>
        first | rfl | exact absurd ⟨_, _, rfl⟩ hacc | (split_ifs <;> rfl)
    cases hd with
    | @task k _ _ pc hstep =>
      by_cases hik : i = k
      · subst hik
        simpa [Move.pc] using own i _ pc rfl hstep
      · simpa [Move.pc, hik, hpc] using other i (by simp [Ne.symm hik]) (.inl hn)
    | _ => simpa [Move.pc, hpc] using other i (by simp) (.inl hn)

/-! ## Who writes the maps -/

variable {i : TaskId}

theorem Slot.Does.publishes {ready : Bool} (hd : s.Does env a (.publish i ready) m) :
    m = .task i (.finishFinal none "") ∧ (s.task i).pc = .publish ∧ env.closed = false ∧
      s.initialization = some i ∧ s.phase i = .initializing ∧ s.bed = none := by
  obtain ⟨k, r, pc, rfl, rfl, hstep⟩ := hd.by_task (fun _ _ => id) id rfl
  obtain ⟨rfl, hpc, hrest⟩ := taskStep_permit hstep
  rw [hpc] at hstep
  simp only [taskStep] at hstep
  split_ifs at hstep <;> cases hstep
  exact ⟨rfl, hpc, hrest⟩

theorem Slot.Does.inserts (hd : s.Does env a (.insertRetirement i) m) :
    (∃ pc, m = .task i pc) ∧ ∃ err, (s.task i).pc = .strand err ∨ (s.task i).pc = .insert err := by
  obtain ⟨k, _, pc, rfl, rfl, hstep⟩ := hd.by_task (fun _ _ => id) id rfl
  obtain ⟨rfl, hpc⟩ := taskStep_permit hstep
  exact ⟨⟨pc, rfl⟩, hpc⟩

variable {j : TaskId}

theorem Slot.Does.retires (hd : s.Does env a (.retire j) m) :
    (∃ t th cutoff, m = .thread t th ∧
      s.threads t = .evict cutoff (.decide j (s.alloc j).activitySeq)) ∧
      env.closed = false ∧ s.bed = some j ∧ (s.alloc j).inflight = 0 := by
  obtain ⟨t, _, th, rfl, rfl, hstep⟩ := hd.by_thread (fun _ _ => id) id rfl
  obtain ⟨cutoff, hth, hrest⟩ := threadStep_permit hstep
  exact ⟨⟨t, th, cutoff, rfl, hth⟩, hrest⟩

theorem Slot.Does.takes (hd : s.Does env a (.takeForPurge j) m) :
    (∃ t th l kind, m = .thread t th ∧ s.threads t = .purge (.take l kind)) ∧ s.bed = some j := by
  obtain ⟨t, _, th, rfl, rfl, hstep⟩ := hd.by_thread (fun _ _ => id) id rfl
  obtain ⟨hbed, l, kind, hth⟩ := threadStep_permit hstep
  exact ⟨⟨t, th, l, kind, rfl, hth⟩, hbed⟩

theorem Slot.Does.entry (hd : s.Does env a w m) (h : (s.apply env w).entry j) :
    s.entry j ∨ (∃ pc, m = .task j pc) ∨ j = s.nTasks ∧ w.nTasks s = s.nTasks + 1 := by
  simp only [Slot.entry, apply_bed, apply_retirement, apply_initialization] at h ⊢
  cases w <;> simp only [Write.bed, Write.retirement, Write.initialization] at h <;>
    try exact .inl h
  case accept => grind [Write.nTasks]
  case publish => grind [hd.publishes]
  case insertRetirement => grind [hd.inserts]
  case retire => grind [hd.retires]
  case takeForPurge => grind [hd.takes]
  all_goals grind

/-! ## Pointers and locks -/

/-- The lock that a goroutine holds, as its program counter says. -/
def Slot.holds (s : Slot) (kind : LockKind) : Agent → Option TaskId
  | .thread t => kind.held (s.threads t)
  | .task i =>
    match kind with
    | .cleanup => whenHeld (s.task i).pc.holds i
    | .persist => none

/-- Every pointer is to an object that exists, and every lock is held by the goroutine whose program
counter says so. -/
structure Grounded (s : Slot) : Prop where
  unborn : ∀ i, s.nTasks ≤ i → (s.task i).pc = .finished
  idle : ∀ t, s.nThreads ≤ t → s.threads t = .idle
  entries : ∀ j, s.entry j → j < s.nTasks
  refs : ∀ t, ∀ j ∈ (s.threads t).refs, j < s.nTasks
  locals : ∀ i < s.nTasks, (s.task i).identity < s.nLocals
  registered : ∀ l, s.identity = some l → l < s.nLocals
  held : ∀ kind A j, s.holds kind A = some j → kind.holder s j = some A

theorem Slot.Does.thread_cases {t : ThreadId} (hd : s.Does env a w m) (hg : Grounded s)
    (ht : s.threads t ≠ .idle) :
    ((s.apply env w).move m).threads t = s.threads t ∨
      ∃ r th, a = .thread t r ∧ m = .thread t th ∧
      threadStep env r s t (s.threads t) = some (w, th) ∧
        ((s.apply env w).move m).threads t = th := by
  have hlt : t ≠ s.nThreads := fun h => ht (hg.idle t h.ge)
  cases hd with
  | @thread u r _ th hstep =>
    by_cases hu : t = u
    · subst hu
      exact .inr ⟨r, th, rfl, rfl, hstep, by simp⟩
    · exact .inl (by simp [hu])
  | _ => exact .inl (by simp [hlt])

variable {kind : LockKind}

theorem Grounded.exclusive {A B : Agent} (hg : Grounded s)
    (hA : s.holds kind A = some j) (hB : s.holds kind B = some j) : A = B :=
  Option.some.inj ((hg.held kind A j hA).symm.trans (hg.held kind B j hB))

theorem Grounded.born (hg : Grounded s) (h : (s.task i).pc ≠ .finished) : i < s.nTasks :=
  Nat.lt_of_not_le fun hi => h (hg.unborn i hi)

theorem taskStep_ne_finished {pc : TaskPc}
    (h : taskStep env r s i (s.task i).pc = some (w, pc)) : (s.task i).pc ≠ .finished := by
  intro hpc
  rw [hpc] at h
  cases h

attribute [local simp] cleanupHeld persistHeld refs

theorem LockKind.held_refs {th : Thread} (h : kind.held th = some j) : j ∈ th.refs := by
  cases kind with
  | cleanup =>
    cases th with
    | evict cutoff pc => cases pc <;> simp_all [held, EvictPc.cleanupHeld, EvictPc.refs]
    | purge pc =>
      cases pc <;> simp_all [held, PurgePc.cleanupHeld, PurgePc.persistHeld, PurgePc.refs]
    | close pc => cases pc <;> simp_all [held, ClosePc.cleanupHeld, ClosePc.refs]
    | _ => cases h
  | persist =>
    cases th with
    | evict cutoff pc => cases pc <;> simp_all [held, EvictPc.refs]
    | purge pc => cases pc <;> simp_all [held, PurgePc.persistHeld, PurgePc.refs]
    | checkpoint k pc | sync k pc => cases pc <;> simp_all [held]
    | _ => cases h

theorem Grounded.holds_lt {A : Agent} (hg : Grounded s)
    (h : s.holds kind A = some j) : j < s.nTasks := by
  cases A with
  | thread t => exact hg.refs t j (kind.held_refs h)
  | task i =>
    cases kind with
    | persist => cases h
    | cleanup =>
      obtain ⟨hpc, rfl⟩ := whenHeld_eq_some.mp h
      exact hg.born fun hfin => by simp [hfin, TaskPc.holds] at hpc

/-- A lock of an existing allocation changes only by the writes that take and release it. -/
theorem LockKind.holder_apply (hj : j < s.nTasks)
    (hlock : ∀ A, w ≠ kind.lock j A) (hunlock : w ≠ kind.unlock j) :
    kind.holder (s.apply env w) j = kind.holder s j := by
  have hne : j ≠ s.nTasks := hj.ne
  cases kind <;> cases w <;>
    simp_all [holder, lock, unlock, Write.alloc] <;>
    split_ifs <;> simp_all [ManagedBed.begin, ManagedBed.touch]

theorem Write.task_holds (h : (w.task s i).pc.holds = true) : (s.task i).pc.holds = true := by
  by_cases hi : i = s.nTasks
  · cases w <;> simp only [Write.task] at h <;> try exact h
    all_goals
      split_ifs at h <;> first | exact h | cases h
  · rwa [Write.task_pc s i w hi] at h

theorem Slot.Spawns.held {th : Thread} (h : s.Spawns env th) : kind.held th = none := by
  cases h <;> cases kind <;> rfl

theorem Act.permit.unlocked (h : Act.permit env s w) :
    (∀ j, w ≠ kind.unlock j) ∧ ∀ j A, w ≠ kind.lock j A := by
  constructor
  · rintro j rfl
    cases kind <;> exact h
  · rintro j A rfl
    cases kind <;> exact h

theorem Slot.Collects.unlocked {l : LocalId} {removeRoot : Bool}
    (h : s.Collects w l removeRoot) : (∀ j, w ≠ kind.unlock j) ∧ ∀ j A, w ≠ kind.lock j A := by
  rcases h.claim with ⟨rfl, _⟩ | ⟨rfl, _⟩ <;> cases kind <;> simp [lock, unlock]

/-- What a step does to the locks: one goroutine obeys the discipline, the others keep what they
hold. -/
theorem Slot.Does.locks (hd : s.Does env a w m) (kind : LockKind) :
    ∃ A, LockUse kind s A (s.holds kind A) (((s.apply env w).move m).holds kind A) w ∧
      ∀ B ≠ A, ∀ j, ((s.apply env w).move m).holds kind B = some j → s.holds kind B = some j := by
  have htask : ∀ k j, (∀ pc, m ≠ .task k pc) →
      ((s.apply env w).move m).holds kind (.task k) = some j → s.holds kind (.task k) = some j := by
    intro k j hk h
    cases kind with
    | persist => exact h
    | cleanup =>
      simp only [holds, move_task, whenHeld_eq_some] at h ⊢
      refine ⟨?_, h.2⟩
      have hpc : m.pc (s.apply env w) k = (w.task s k).pc := by
        cases m with
        | task i pc =>
          have hki : k ≠ i := fun e => hk pc (by rw [e])
          simp [Move.pc, hki]
        | _ => simp [Move.pc]
      rw [hpc] at h
      exact Write.task_holds h.1
  -- a step that moves one goroutine leaves what the others hold
  have hrest (t : ThreadId) (hm : ∀ k pc, m ≠ .task k pc)
      (ht : ∀ u ≠ t, ((s.apply env w).move m).threads u = s.threads u) (B : Agent)
      (hB : B ≠ .thread t) (j : TaskId)
      (h : ((s.apply env w).move m).holds kind B = some j) : s.holds kind B = some j := by
    cases B with
    | task k => exact htask k j (hm k) h
    | thread u =>
      simp only [holds, ht u fun e => hB (by rw [e])] at h
      exact h
  cases hd with
  | @task i _ _ pc hstep =>
    refine ⟨.task i, ?_, fun B hB j h => ?_⟩
    · cases kind with
      | cleanup => simpa [holds, Move.pc, pick] using taskStep_locks none hstep
      | persist => exact taskStep_locks none hstep
    · cases B with
      | task k => exact htask k j (by simpa using fun e => hB (by rw [e])) h
      | thread u => simpa [holds] using h
  | @thread t _ _ th hstep =>
    refine ⟨.thread t, ?_, hrest t (by simp) (by simp +contextual)⟩
    simpa [holds] using threadStep_locks hstep
  | call hcall =>
    refine ⟨.thread 0, ?_, hrest 0 (by simp) (by simp)⟩
    simp only [holds, move_thread, Move.threads, apply_threads]
    exact LockUse.idle hcall.unlocked.1 hcall.unlocked.2
  | @spawn _ th hspawn =>
    refine ⟨.thread s.nThreads, ?_, hrest _ (by simp) (by simp +contextual)⟩
    constructor
    · simp [holds, hspawn.held]
    · cases kind <;> simp [unlock]
    · cases kind <;> simp [lock]
  | @collect _ _ l removeRoot hcollect =>
    refine ⟨.thread s.nThreads, ?_, hrest _ (by simp) (by simp +contextual)⟩
    constructor
    · cases kind <;> simp [holds, held]
    · exact fun j h => absurd h (hcollect.unlocked.1 j)
    · exact fun j A h => absurd h (hcollect.unlocked.2 j A)

theorem Slot.Does.held (hd : s.Does env a w m) (hg : Grounded s) (kind : LockKind) (A : Agent)
    (j : TaskId) (h : ((s.apply env w).move m).holds kind A = some j) :
    kind.holder ((s.apply env w).move m) j = some A := by
  have hmove : kind.holder ((s.apply env w).move m) j = kind.holder (s.apply env w) j := by
    cases kind <;> simp [holder]
  rw [hmove]
  obtain ⟨B, huse, hothers⟩ := hd.locks kind
  by_cases hAB : A = B
  · subst hAB
    rcases huse.keep j h with ⟨hheld, hun⟩ | rfl
    · -- a lock that is held is not taken again
      have hnone : ∀ C, w ≠ kind.lock j C := fun C hC => by
        have := (huse.lock j C hC).2
        rw [hg.held kind A j hheld] at this
        cases this
      rw [holder_apply (hg.holds_lt hheld) hnone hun]
      exact hg.held kind A j hheld
    · cases kind <;> simp [holder, lock, Write.alloc]
  · have hheld : s.holds kind A = some j := hothers A hAB j h
    have hholder : kind.holder s j = some A := hg.held kind A j hheld
    rw [holder_apply (hg.holds_lt hheld) ?_ ?_]
    · exact hholder
    · intro C hC
      rw [(huse.lock j C hC).2] at hholder
      cases hholder
    · intro hun
      exact hAB (hg.exclusive hheld (huse.unlock j hun))

theorem Grounded.registered_lt (hg : Grounded s) :
    s.registered < if s.identity = none then s.nLocals + 1 else s.nLocals := by
  cases hid : s.identity with
  | none => simp [Slot.registered, hid]
  | some l => simpa [Slot.registered, hid] using hg.registered l hid

theorem Slot.Does.grounded (hd : s.Does env a w m) (hg : Grounded s) :
    Grounded ((s.apply env w).move m) := by
  have hn := w.le_nTasks s
  have hl := w.le_nLocals s
  have hentries : ∀ j, (s.apply env w).entry j → j < w.nTasks s := by
    intro j hj
    rcases hd.entry hj with hold | ⟨pc, rfl⟩ | ⟨rfl, hnew⟩
    · exact (hg.entries j hold).trans_le hn
    · cases hd with
      | task hstep => exact (hg.born (taskStep_ne_finished hstep)).trans_le hn
    · rw [hnew]
      exact lt_succ_self _
  constructor
  case unborn =>
    rw [move_nTasks, apply_nTasks]
    refine hd.forall_tasks (P := fun i pc => w.nTasks s ≤ i → pc = .finished) ?_ ?_ ?_
    · exact fun i _ _ hi => hg.unborn i (hn.trans hi)
    · intro i r pc _ hstep hi
      exact absurd (hn.trans hi) (hg.born (taskStep_ne_finished hstep)).not_ge
    · intro _ hnew hi
      rw [hnew] at hi
      exact absurd hi (not_succ_le_self _)
  case idle =>
    intro t ht
    cases hd with
    | @thread u _ _ th hstep =>
      have hu : u ≠ t := by
        rintro rfl
        rw [hg.idle u (by simpa using ht)] at hstep
        cases hstep
      simpa [hu.symm] using hg.idle t (by simpa using ht)
    | task | call => simpa using hg.idle t (by simpa using ht)
    | spawn | collect =>
      simp only [move_nThreads, Move.nThreads, apply_nThreads] at ht
      have hne : t ≠ s.nThreads := ne_of_gt ht
      simpa [hne] using hg.idle t (le_of_succ_le ht)
  case entries => simpa [Slot.entry] using hentries
  case refs =>
    rw [move_nTasks, apply_nTasks]
    refine hd.forall_threads (P := fun _ th => ∀ j ∈ th.refs, j < w.nTasks s) ?_ ?_ ?_ ?_
    · exact fun t _ j hj => (hg.refs t j hj).trans_le hn
    · intro t r th _ hstep j hj
      rcases threadStep_refs hstep hj with hold | hentry
      · exact (hg.refs t j hold).trans_le hn
      · exact (hg.entries j hentry).trans_le hn
    · intro th _ hspawn _ j hj
      cases hspawn with
      | checkpoint hbed | sync hbed | shell hbed =>
        cases List.mem_singleton.mp hj
        exact (hg.entries _ (.inl hbed)).trans_le hn
      | _ => cases hj
    · exact fun l removeRoot _ _ j hj => by cases hj
  case locals =>
    intro i hi
    simp only [move_nTasks, apply_nTasks] at hi
    simp only [move_task, apply_task, move_nLocals, apply_nLocals]
    by_cases hnew : i = s.nTasks
    · cases w <;> simp only [Write.nTasks] at hi <;> try omega
      simpa [Write.task, Write.nLocals, hnew, Initialization.fresh] using hg.registered_lt
    · rw [Write.task_identity s i w hnew]
      have hold : i < s.nTasks := by
        cases w <;> simp only [Write.nTasks] at hi <;> omega
      exact (hg.locals i hold).trans_le hl
  case registered =>
    intro l hid
    simp only [move_identity, apply_identity] at hid
    simp only [move_nLocals, apply_nLocals]
    have hreg := hg.registered_lt
    cases w <;> simp only [Write.identity, Write.nLocals] at hid ⊢ <;> try exact hg.registered l hid
    case unregisterIdentity k =>
      split_ifs at hid
      exact hg.registered l hid
    all_goals
      cases hid
      exact hreg
  case held => exact fun kind A j h => hd.held hg kind A j h

/-- The store kind of an allocation changes only when its identity is initialized again. -/
theorem Grounded.storeKind (hg : Grounded s) (hj : j < s.nTasks)
    (hacc : w.nTasks s = s.nTasks) : ((s.apply env w).move m).storeKind j = s.storeKind j := by
  have hl : (s.task j).identity ≠ s.nLocals := (hg.locals j hj).ne
  simp only [Slot.storeKind, Slot.move_locals, Slot.move_task, Slot.apply_task,
    Write.task_identity s j w hj.ne, Slot.apply_storeKind]
  cases w <;> simp_all [Write.storeKind, Write.nTasks]

theorem grounded_boot (env : Env) (disk : Disk) (snapshot : Option Snapshot) :
    Grounded (boot env disk snapshot) := by
  constructor
  case held =>
    intro kind A j h
    cases A <;> cases kind <;> cases h
  case registered =>
    intro l hid
    simp only [boot] at hid ⊢
    split_ifs at hid
    cases hid
    exact one_pos
  case entries => rintro j (h | h | h) <;> cases h
  all_goals simp [boot]

end Hostel.Bed
