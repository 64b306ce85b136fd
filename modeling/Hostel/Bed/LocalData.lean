/-
# Hostel.Bed.LocalData — what becomes of the data an initialization finds on the local disk.

A local tree ends by a cleanup that removes the root directory or by a restore that replaces it.  An
eviction removes the root only after it persisted the tree, and a restore needs a snapshot of a
higher generation.  Data that was there when an initialization was accepted is *sheltered* until one
of the two has happened.

One way to the removal the source does not close.  A rollback that fails leaves an allocation in
`retirements` that was never published, and the next `Evict` or `Close` removes its root although
nothing was persisted (`RetiresPublished` excludes it).
-/
import Hostel.Bed.Staging

namespace Hostel.Bed

open Store Option List Slot Thread

/-! ## The condition -/

def Initialization.published (x : Initialization) : Bool :=
  match x.pc with
  | .finishFinal none _ => true
  | .finished => x.err.isNone
  | _ => false

/-- `finishRetirement` finishes only retirements of Beds that were published. -/
def RetiresPublished (_ : Env) (s : Slot) : Act → Prop
  | .thread t _ =>
    match (s.threads t).retiring with
    | some (j, .check) => s.retirement = some j → (s.task j).published = true
    | _ => True
  | _ => True

instance (env : Env) (s : Slot) (a : Act) : Decidable (RetiresPublished env s a) := by
  induction a using Act.casesOn <;> dsimp only [RetiresPublished] <;> try infer_instance
  case thread t r =>
    generalize (s.threads t).retiring = o
    induction o using Option.casesOn with
    | none => infer_instance
    | some x => induction x using Prod.casesOn with | mk j pc => induction pc
      using RetirePc.casesOn <;> infer_instance

/-- The name is neither purged nor collected as luggage, and its Beds are durable. -/
def StaysDurable (_ : Env) (s : Slot) : Act → Prop
  | .purge | .collectLuggage => False
  | .thread t _ =>
    match s.threads t with
    | .create _ (.accept (some kind)) => kind.durable = true
    | _ => True
  | _ => True

instance (env : Env) (s : Slot) (a : Act) : Decidable (StaysDurable env s a) := by
  induction a using Act.casesOn <;> dsimp only [StaysDurable] <;> try infer_instance
  case thread t r =>
    generalize s.threads t = th
    induction th using Thread.casesOn <;> try infer_instance
    case create req pc =>
      induction pc using CreatePc.casesOn <;> try infer_instance
      case accept k => induction k using Option.casesOn <;> infer_instance

variable {env : Env} {r : Reply} {s : Slot} {a : Act} {w : Write} {m : Move} {closed : Bool}
  {i j : TaskId} {t : ThreadId} {x : Nat}

theorem Initialization.published_out {t : Initialization} (h : t.published = true) :
    t.pc.out = true := by
  unfold published at h
  split at h
  · next hpc => rw [hpc]; rfl
  · next hpc => rw [hpc]; rfl
  · cases h

theorem RetiresPublished.noTakeover (h : RetiresPublished env s a) : NoTakeover env s a := by
  cases a with
  | thread t r =>
    simp only [NoTakeover]
    split
    · next hret =>
      simp only [RetiresPublished, hret] at h
      exact fun hj => Initialization.published_out (h hj)
    · trivial
  | _ => trivial

/-! ## Actions that the runs leave out -/

theorem Act.plan_purge {pc : PurgePc} (h : a.plan env s = some (w, .spawn (.purge pc))) :
    a = .purge := by
  revert h
  fun_cases Act.plan env s a <;> intro h
  all_goals first
    | rfl
    | cases h
    | (obtain ⟨_, _, hm⟩ := lift_eq_some.mp h; cases hm)

theorem Act.plan_claimLuggage (h : a.plan env s = some (.claimLuggage, m)) :
    a = .collectLuggage := by
  revert h
  fun_cases Act.plan env s a <;> intro h
  case case19 =>
    obtain ⟨_, hstep, -⟩ := lift_eq_some.mp h
    exact (taskStep_permit hstep).elim
  case case20 =>
    obtain ⟨_, hstep, -⟩ := lift_eq_some.mp h
    exact (threadStep_permit hstep).elim
  all_goals first
    | rfl
    | cases h

/-- What `cleanLocalIdentity` was asked to do with the root directory. -/
def CleanPc.asked : CleanPc → Bool
  | .entry removeRoot | .join _ removeRoot => removeRoot
  | _ => false

/-- The goroutine is neither a purge nor the removal of luggage. -/
def Thread.benign : Thread → Bool
  | .purge _ => false
  | .collect _ q => !q.asked
  | _ => true

def Slot.Benign (s : Slot) : Prop := ∀ t, (s.threads t).benign = true

variable {l : LocalId}

theorem cleanStep_asked {A : Agent} {q q' : CleanPc}
    (h : cleanStep r s A l q = some (w, q')) (hq : q.asked = false) : q'.asked = false := by
  revert h
  fun_cases cleanStep r s A l q <;> intro h <;> cases h <;> first | rfl | exact hq

theorem threadStep_benign {th th' : Thread} (h : threadStep env r s t th = some (w, th'))
    (hth : th.benign = true) : th'.benign = true := by
  cases th with
  | idle => cases h
  | purge pc => cases hth
  | collect l q =>
    obtain ⟨q', hsub, rfl⟩ := lift_eq_some.mp h
    have hq : q.asked = false := by simpa [benign] using hth
    simp [benign, cleanStep_asked hsub hq]
  | _ =>
    obtain ⟨_, _, rfl⟩ := lift_eq_some.mp h
    rfl

theorem Slot.Collects.benign {root : Bool} (h : s.Collects w l root)
    (hw : w ≠ .claimLuggage) : (collect l (.entry root)).benign = true := by
  rcases h.claim with ⟨-, rfl, -⟩ | ⟨rfl, -⟩
  · rfl
  · exact absurd rfl hw

theorem benign_step (h : s.Benign) (hplan : a.plan env s = some (w, m))
    (hstay : StaysDurable env s a) : ((s.apply env w).move m).Benign := by
  refine (Act.plan_does hplan).forall_threads (P := fun _ th => th.benign = true) ?_ ?_ ?_ ?_
  · exact fun t _ => h t
  · exact fun t r th _ hstep => threadStep_benign hstep (h t)
  · rintro th rfl hspawn -
    cases hspawn <;> try rfl
    rw [Act.plan_purge hplan] at hstay
    exact hstay.elim
  · intro l root _ hcollect
    refine hcollect.benign ?_
    rintro rfl
    rw [Act.plan_claimLuggage hplan] at hstay
    exact hstay

/-! ## Sheltered data -/

/-- The persist has not stored a tree without `x`. -/
def PersistPc.Spares (x : Nat) : PersistPc → Prop
  | .put _ _ tree => x ∈ tree.data
  | .stat _ _ | .commit _ _ _ | .save _ | .unlock none | .ret none => False
  | _ => True

/-- The eviction is not past a persist. -/
def Thread.Spares (x : Nat) : Thread → Prop
  | .evict _ (.persist _ _ q) => q.Spares x
  | .evict _ (.decide _ _) => False
  | _ => True

/-- The data `x` is in the directory, and nobody is on the way to remove it: no cleanup is to remove
the root, no retirement is of a published Bed, and no eviction has a persist behind it. -/
structure Slot.Sheltered (s : Slot) (x : Nat) : Prop where
  data : ∃ dir, s.disk.dir = some dir ∧ x ∈ dir.data
  cleanup : ∀ l c, s.identity = some l → (s.locals l).cleanup = some c →
    (s.cleanups c).removeRoot = false
  retired : ∀ t, (s.threads t).retired = none
  unpublished : ∀ j, s.retirement = some j → (s.task j).published = false
  spared : ∀ t, (s.threads t).Spares x
  entered : ∀ t j, (s.threads t).entered = some j → s.bed = some j
  kind : ∀ l, s.identity = some l → (s.locals l).storeKind.durable = true

theorem Custody.claims_root (hc : Custody closed s) (hd : s.Does env a .claimDir m) :
    ∃ l c, s.identity = some l ∧ (s.locals l).cleanup = some c ∧
      (s.cleanups c).removeRoot = true := by
  cases hd with
  | @task i _ _ _ hstep =>
    obtain ⟨c, hclean⟩ := taskStep_permit hstep
    obtain ⟨hatt, hroot, -⟩ := (hc.tasks i).cleaning _ hclean
    exact ⟨_, c, hatt.identity, hatt.cleanup, hroot⟩
  | @thread t _ _ _ hstep =>
    obtain ⟨l, c, hclean⟩ := threadStep_permit hstep
    obtain ⟨hatt, hroot, -⟩ := (hc.threads t).cleaning _ _ hclean
    exact ⟨l, c, hatt.identity, hatt.cleanup, hroot⟩
  | call hcall => exact hcall.elim
  | collect hcollect => exact hcollect.elim rfl

theorem Slot.Sheltered.data_step (h : s.Sheltered x) (hc : Custody closed s)
    (hd : s.Does env a w m) (hw : ∀ tree, w ≠ .restoreDir tree) :
    ∃ dir, w.dir s = some dir ∧ x ∈ dir.data := by
  obtain ⟨dir, hdir, hx⟩ := h.data
  cases w with
  | restoreDir tree => exact absurd rfl (hw tree)
  | claimDir =>
    obtain ⟨l, c, hid, hcl, hroot⟩ := hc.claims_root hd
    rw [h.cleanup l c hid hcl] at hroot
    cases hroot
  | makeDir => exact ⟨dir, by simp [hdir], hx⟩
  | seed k info persistedAt | saveMeta info =>
    exact ⟨{ dir with info := some info }, by simp [hdir], hx⟩
  | writeData y =>
    exact ⟨{ dir with data := y :: dir.data }, by simp [hdir], mem_cons_of_mem _ hx⟩
  | _ => exact ⟨dir, hdir, hx⟩

theorem no_register (hben : s.Benign) (hd : s.Does env a .registerIdentity m) : False := by
  obtain ⟨t, _, _, rfl, rfl, hstep⟩ := hd.by_thread (fun _ _ => id) id rfl
  have hth : s.threads t = .purge .identify := threadStep_permit hstep
  have := hben t
  rw [hth] at this
  cases this

theorem no_takeForPurge (hben : s.Benign) (hd : s.Does env a (.takeForPurge j) m) : False := by
  obtain ⟨⟨t, th, l, kind, -, hth⟩, -⟩ := hd.takes
  have := hben t
  rw [hth] at this
  cases this

theorem cleanStep_begins {A B : Agent} {l k : LocalId} {q q' : CleanPc} {root : Bool}
    (h : cleanStep r s A l q = some (.beginCleanup k root B, q')) :
    k = l ∧ s.identity = some l ∧
      (root = q.asked ∨ ∃ c, (s.locals l).cleanup = some c ∧
        root = (q.asked || (s.cleanups c).removeRoot)) := by
  revert h
  fun_cases cleanStep r s A l q <;> intro h <;> cases h
  · exact ⟨rfl, ‹_›, .inl rfl⟩
  · exact ⟨rfl, ‹_›, .inr ⟨_, ‹_›, rfl⟩⟩

theorem threadStep_cleans {th th' : Thread} {q : CleanPc}
    (h : threadStep env r s t th = some (w, th')) (hq : th.cleaning s = some (l, q))
    (hret : ∀ err, q ≠ .ret err) : ∃ q', cleanStep r s (.thread t) l q = some (w, q') := by
  revert hq
  fun_cases cleaning s th <;> intro hq <;> cases hq
  all_goals obtain ⟨_, hsub, -⟩ := lift_eq_some.mp h
  case case4 => exact ⟨_, hsub⟩
  case case3 =>
    cases q <;> first
      | exact absurd rfl (hret _)
      | exact (lift_eq_some.mp hsub).imp fun _ h => h.1
  all_goals
    obtain ⟨_, hretire, -⟩ := lift_eq_some.mp hsub
    cases q <;> first
      | exact absurd rfl (hret _)
      | exact (lift_eq_some.mp hretire).imp fun _ h => h.1

theorem Thread.cleaning_retired {th : Thread} {q : CleanPc}
    (h : th.cleaning s = some (l, q)) (hth : th.benign = true) (hret : th.retired = none) :
    th = .collect l q := by
  cases th with
  | evict cutoff pc =>
    cases pc with
    | retire j resident p => cases p <;> cases h; cases hret
    | _ => cases h
  | close pc =>
    cases pc with
    | retire j todo p => cases p <;> cases h; cases hret
    | _ => cases h
  | purge pc => cases hth
  | collect k pc => cases h; rfl
  | _ => cases h

theorem Slot.Sheltered.begins (h : s.Sheltered x) (hc : Custody closed s)
    (hben : s.Benign) {root : Bool} {B : Agent}
    (hd : s.Does env a (.beginCleanup l root B) m) : s.identity = some l ∧ root = false := by
  have hroot : ∀ {q : CleanPc}, q.asked = false → s.identity = some l →
      (root = q.asked ∨ ∃ c, (s.locals l).cleanup = some c ∧
        root = (q.asked || (s.cleanups c).removeRoot)) → root = false := by
    intro q hq hid hcases
    rcases hcases with rfl | ⟨c, hcl, rfl⟩
    · exact hq
    · simp [hq, h.cleanup l c hid hcl]
  cases hd with
  | @task i r _ pc' hstep =>
    obtain ⟨-, -, -, -, rr, hclean, -⟩ := taskStep_permit hstep
    have hclaim := (hc.tasks i).cleaning _ hclean
    cases hpc : (s.task i).pc with
    | finishClean err reason q =>
      rw [hpc] at hclean hstep
      cases hclean
      obtain ⟨_, hsub, -⟩ := lift_eq_some.mp hstep
      obtain ⟨rfl, hid, hcases⟩ := cleanStep_begins hsub
      have hasked : (CleanPc.entry rr).asked = false := hclaim false rfl
      exact ⟨hid, hroot hasked hid hcases⟩
    | _ =>
      rw [hpc] at hclean
      cases hclean
  | @thread t r _ th hstep =>
    obtain ⟨-, -, -, rr, hclean, -⟩ := threadStep_permit hstep
    obtain ⟨q', hsub⟩ := threadStep_cleans hstep hclean (by simp)
    obtain ⟨-, hid, hcases⟩ := cleanStep_begins hsub
    have hth := cleaning_retired hclean (hben t) (h.retired t)
    have hasked := hben t
    rw [hth] at hasked
    exact ⟨hid, hroot (by simpa [benign] using hasked) hid hcases⟩
  | call hcall => exact hcall.elim
  | collect hcollect => exact hcollect.elim rfl

variable {kind : SyncKind} {hasMain : Bool}

theorem Slot.Admissible.cleanup_none (h : s.Admissible env)
    (hid : (Write.accept kind hasMain).identity s = some l) :
    (Write.accept kind hasMain).cleanup s l = none := by
  simp only [Write.cleanup]
  split_ifs with hnew
  · rfl
  · cases hsid : s.identity with
    | none =>
      have hl : l = s.nLocals := by rw [← some.inj hid, registered_of_none hsid]
      exact absurd ⟨hsid, hl⟩ hnew
    | some k =>
      obtain rfl : k = l := by rw [← some.inj hid, registered_of_some hsid]
      simpa [pendingCleanup, hsid] using h.cleanup

theorem Slot.Sheltered.cleanup_step (h : s.Sheltered x) (hc : Custody closed s)
    (hben : s.Benign) (hd : s.Does env a w m) (hw : w ≠ .claimLuggage)
    {c : AttemptId} (hid : w.identity s = some l) (hcl : w.cleanup s l = some c) :
    (w.attempt s c).removeRoot = false := by
  cases w with
  | claimLuggage => exact absurd rfl hw
  | beginCleanup k root B =>
    obtain ⟨hk, rfl⟩ := h.begins hc hben hd
    obtain rfl : l = k := some.inj (Eq.trans hid.symm hk)
    obtain rfl : s.nCleanups = c := by simpa using hcl
    simp
  | settleCleanup k c' err =>
    simp only [Write.cleanup] at hcl
    split_ifs at hcl
    have hold := h.cleanup l c hid hcl
    simp only [Write.attempt]
    split_ifs
    · exact hold
    · exact hold
  | accept kind hasMain =>
    rw [hd.accepts.1.cleanup_none hid] at hcl
    cases hcl
  | registerIdentity => exact (no_register hben hd).elim
  | unregisterIdentity k =>
    simp only [Write.identity] at hid
    split_ifs at hid
    exact h.cleanup l c hid hcl
  | _ => exact h.cleanup l c hid hcl

theorem Slot.Sheltered.no_retire (h : s.Sheltered x) (hd : s.Does env a (.retire j) m) : False := by
  obtain ⟨⟨t, th, cutoff, -, hth⟩, -⟩ := hd.retires
  have := h.spared t
  rw [hth] at this
  exact this

theorem Slot.Sheltered.retired_step (h : s.Sheltered x) (hd : s.Does env a w m)
    (hpub : RetiresPublished env s a) :
    ∀ t, (((s.apply env w).move m).threads t).retired = none := by
  refine hd.forall_threads (P := fun _ th => th.retired = none) ?_ ?_ ?_ ?_
  · exact fun t _ => h.retired t
  · rintro t r th rfl hstep
    cases hret : th.retired with
    | none => rfl
    | some j =>
      exfalso
      rcases threadStep_retired hstep hret with rfl | ⟨-, hold | ⟨hcheck, hj⟩⟩
      · exact h.no_retire hd
      · rw [h.retired t] at hold
        cases hold
      · obtain ⟨r', rfl, -⟩ := hd.act_thread
        simp only [RetiresPublished, hcheck] at hpub
        have := h.unpublished j hj
        rw [hpub hj] at this
        cases this
  · intro th _ hspawn _
    cases hspawn <;> rfl
  · exact fun l root _ _ => rfl

theorem taskStep_unpublished {pc : TaskPc} (hstep : taskStep env r s i (s.task i).pc = some (w, pc))
    (hrole : (s.task i).pc.role ≠ .live) (h : (s.task i).published = false) :
    ({ w.task s i with pc := pc } : Initialization).published = false := by
  cases hpc : (s.task i).pc with
  | finishFinal err reason =>
    rw [hpc] at hstep
    cases hstep
    cases err with
    | none => simp [Initialization.published, hpc] at h
    | some f => simp [Initialization.published, Write.task]
  | finished => exact absurd hpc (taskStep_ne_finished hstep)
  | finishClean err reason q =>
    rw [hpc] at hstep
    cases q with
    | ret f =>
      cases hstep
      cases f <;> rfl
    | _ =>
      obtain ⟨_, _, rfl⟩ := lift_eq_some.mp hstep
      rfl
  | finishCheck err =>
    rw [hpc] at hstep
    simp only [taskStep] at hstep
    split_ifs at hstep <;> cases hstep <;> rfl
  | acquire err =>
    rw [hpc] at hstep
    simp only [taskStep] at hstep
    split at hstep
    · cases hstep
      rfl
    · split_ifs at hstep
      cases hstep
      rfl
  | rollback err q =>
    rw [hpc] at hstep
    cases q with
    | ret f =>
      cases hstep
      rfl
    | _ =>
      obtain ⟨_, _, rfl⟩ := lift_eq_some.mp hstep
      rfl
  | unlock err f =>
    rw [hpc] at hstep
    cases f <;> cases hstep <;> rfl
  | drop err =>
    rw [hpc] at hstep
    cases hstep
    rfl
  | _ => exact absurd (by rw [hpc]; rfl) hrole

theorem Slot.Does.unpublished (hd : s.Does env a w m) (hc : Custody closed s) (hj : j < s.nTasks)
    (hrole : (s.task j).pc.role ≠ .live) (h : (s.task j).published = false) :
    (((s.apply env w).move m).task j).published = false := by
  have hG := hc.guarantee hd
  by_cases hA : m.agent = some (.task j)
  · cases hd with
    | @task k r _ pc hstep =>
      cases hA
      simpa [Move.pc] using taskStep_unpublished hstep hrole h
    | _ => cases hA
  · have herr : (w.task s j).err = (s.task j).err := by
      cases w with
      | finishInitialization k err delete st =>
        have hjk : j ≠ k := by
          rintro rfl
          exact hA hG.1
        simp [Write.task, hjk]
      | accept | cancelInitialization | stage =>
        simp only [Write.task]
        split_ifs <;> first | rfl | exact absurd ‹_› hj.ne
      | _ => rfl
    have hpc : (((s.apply env w).move m).task j).pc = (s.task j).pc := by
      simp [Move.pc_of_agent hA, Write.task_pc s j w hj.ne]
    unfold Initialization.published at h ⊢
    rw [hpc]
    simpa [herr] using h

theorem Slot.Sheltered.unpublished_step (h : s.Sheltered x) (hc : Custody closed s) (hs : Sound s)
    (hben : s.Benign) (hd : s.Does env a w m)
    (hj : w.retirement s = some j) : (((s.apply env w).move m).task j).published = false := by
  have hkeep (hret : s.retirement = some j) :=
    hd.unpublished hc (hs.grounded.entries j (by simp [entry, hret]))
      (hc.withdrawn_of_retired hret).role (h.unpublished j hret)
  cases w with
  | insertRetirement k =>
    cases hj
    obtain ⟨k', r, pc, rfl, rfl, hstep⟩ := hd.by_task (fun _ _ => id) id rfl
    obtain ⟨rfl, err, hpc | hpc⟩ := taskStep_permit hstep <;>
      (rw [hpc] at hstep; cases hstep; simp [Move.pc, Initialization.published])
  | retire k => exact (h.no_retire hd).elim
  | takeForPurge k => exact (no_takeForPurge hben hd).elim
  | deleteRetirement => cases hj
  | _ => exact hkeep hj

theorem Slot.Sheltered.entered_step (h : s.Sheltered x) (hben : s.Benign)
    (hd : s.Does env a w m) (t : ThreadId) (j : TaskId)
    (hj : (((s.apply env w).move m).threads t).entered = some j) : w.bed s = some j := by
  have hbed (hold : s.bed = some j) : w.bed s = some j := by
    cases w with
    | retire k => exact (h.no_retire hd).elim
    | takeForPurge k => exact (no_takeForPurge hben hd).elim
    | publish k ready =>
      rw [hd.publishes.2.2.2.2.2] at hold
      cases hold
    | _ => exact hold
  revert hj
  refine hd.forall_threads (P := fun _ th => th.entered = some j → w.bed s = some j) ?_ ?_ ?_ ?_ t
  · exact fun t _ hj => hbed (h.entered t j hj)
  · intro t r th _ hstep hj
    obtain ⟨hold | hold, -⟩ := (threadStep_evicts hstep).1 hj
    · exact hbed (h.entered t j hold)
    · exact hbed hold
  · intro th _ hspawn _ hj
    cases hspawn <;> cases hj
  · intro l root _ _ hj
    cases hj

theorem persistStep_spares {A : Agent} {q q' : PersistPc} {dir : Dir}
    (h : persistStep r s A j q = some (w, q')) (hq : q.Spares x) (hdir : s.disk.dir = some dir)
    (hx : x ∈ dir.data) (hkind : (s.storeKind j).durable = true) :
    q'.Spares x ∨ ∃ sn, w = .commitSnapshot sn ∧ x ∈ sn.tree.data := by
  revert h
  fun_cases persistStep r s A j q <;> intro h <;> cases h
  case case10 tree htree _ _ =>
    cases hdir.symm.trans htree
    exact .inl hx
  case case13 hno => exact absurd hkind hno
  case case15 => exact .inr ⟨_, rfl, hq⟩
  case case20 err =>
    cases err with
    | none => exact hq.elim
    | some f => exact .inl trivial
  all_goals first | exact .inl trivial | exact hq.elim

theorem Slot.Sheltered.spared_step (h : s.Sheltered x) (hc : Custody closed s)
    (hd : s.Does env a w m) (hw : ∀ sn, w = .commitSnapshot sn → x ∉ sn.tree.data) :
    ∀ t, (((s.apply env w).move m).threads t).Spares x := by
  obtain ⟨dir, hdir, hx⟩ := h.data
  refine hd.forall_threads (P := fun _ th => th.Spares x) ?_ ?_ ?_ ?_
  · exact fun t _ => h.spared t
  · rintro t r th rfl hstep
    have hold := h.spared t
    cases hth : s.threads t with
    | evict cutoff pc =>
      rw [hth] at hstep hold
      have hent := h.entered t
      rw [hth] at hent
      obtain ⟨pc', hsub, rfl⟩ := lift_eq_some.mp hstep
      revert hsub
      fun_cases evictStep env r s t cutoff pc <;> intro hsub
      case case24 k seq q _ _ =>
        obtain ⟨q', hpersist, rfl⟩ := lift_eq_some.mp hsub
        have hid := (hc.bed k (hent k rfl)).2.2
        rcases persistStep_spares hpersist hold hdir hx (h.kind _ hid) with hspare | ⟨sn, rfl, hsn⟩
        · exact hspare
        · exact absurd hsn (hw sn rfl)
      all_goals first
        | (obtain ⟨_, _, rfl⟩ := lift_eq_some.mp hsub; trivial)
        | (cases hsub <;> trivial)
    | idle =>
      rw [hth] at hstep
      cases hstep
    | _ =>
      rw [hth] at hstep
      obtain ⟨_, _, rfl⟩ := lift_eq_some.mp hstep
      trivial
  · intro th _ hspawn _
    cases hspawn <;> trivial
  · exact fun l root _ _ => trivial

theorem createStep_accepts {req : CreateRequest} {pc pc' : CreatePc}
    (h : createStep env r s req pc = some (.accept kind hasMain, pc')) :
    pc = .accept (some kind) := by
  revert h
  fun_cases createStep env r s req pc <;> intro h
  case case8 selected =>
    have h := some.inj h
    revert h
    fun_cases admission env r s req selected <;> intro h <;> cases h
    rfl
  all_goals cases h

theorem StaysDurable.accepts (h : StaysDurable env s a)
    (hd : s.Does env a (.accept kind hasMain) m) : kind.durable = true := by
  obtain ⟨t, r, th, rfl, rfl, hstep⟩ := hd.by_thread (fun _ _ => id) id rfl
  obtain ⟨-, req, selected, hth⟩ := threadStep_permit hstep
  rw [hth] at hstep
  obtain ⟨_, hsub, -⟩ := lift_eq_some.mp hstep
  cases createStep_accepts hsub
  simpa [StaysDurable, hth] using h

theorem kind_step (h : ∀ l, s.identity = some l → (s.locals l).storeKind.durable = true)
    (hben : s.Benign) (hstay : StaysDurable env s a)
    (hd : s.Does env a w m) (hw : w ≠ .claimLuggage) (hid : w.identity s = some l) :
    (w.storeKind s l).durable = true := by
  cases w with
  | accept kind hasMain =>
    cases hid
    simpa [Write.storeKind] using hstay.accepts hd
  | registerIdentity => exact (no_register hben hd).elim
  | claimLuggage => exact absurd rfl hw
  | unregisterIdentity k =>
    simp only [Write.identity] at hid
    split_ifs at hid
    exact h l hid
  | _ => exact h l hid

/-- A step leaves the data sheltered, captures it, or replaces it. -/
theorem Slot.Sheltered.step (h : s.Sheltered x) (hc : Custody closed s) (hs : Sound s)
    (hben : s.Benign) (hplan : a.plan env s = some (w, m))
    (hpub : RetiresPublished env s a) (hstay : StaysDurable env s a)
    (hcap : ∀ sn, w = .commitSnapshot sn → x ∉ sn.tree.data) (hrep : ∀ tree, w ≠ .restoreDir tree) :
    ((s.apply env w).move m).Sheltered x := by
  have hd := Act.plan_does hplan
  have hclaim : w ≠ .claimLuggage := by
    rintro rfl
    rw [Act.plan_claimLuggage hplan] at hstay
    exact hstay
  constructor
  case data => simpa using h.data_step hc hd hrep
  case cleanup =>
    intro l c hid hcl
    simpa using h.cleanup_step hc hben hd hclaim (by simpa using hid) (by simpa using hcl)
  case retired => exact h.retired_step hd hpub
  case unpublished =>
    intro j hj
    exact h.unpublished_step hc hs hben hd (by simpa using hj)
  case spared => exact h.spared_step hc hd hcap
  case entered =>
    intro t j hj
    simpa using h.entered_step hben hd t j hj
  case kind =>
    intro l hid
    simpa using kind_step h.kind hben hstay hd hclaim (by simpa using hid)

theorem Custody.sheltered (hc : Custody closed s)
    (hd : s.Does env a (.accept kind hasMain) m) (hstay : StaysDurable env s a)
    (hx : ∃ dir, s.disk.dir = some dir ∧ x ∈ dir.data) :
    ((s.apply env (.accept kind hasMain)).move m).Sheltered x := by
  have hadm := hd.accepts.1
  -- nobody works on an allocation of a name without a Bed and without a retirement
  have hvacant : ∀ t, (s.threads t).entered = none ∧ (s.threads t).retired = none := fun t => by
    constructor
    · refine eq_none_iff_forall_ne_some.mpr fun j hj => ?_
      obtain ⟨-, hbed | hret⟩ := (hc.threads t).entered j hj
      · rw [hadm.bed] at hbed
        cases hbed
      · rw [hadm.retirement] at hret
        cases hret
    · refine eq_none_iff_forall_ne_some.mpr fun j hj => ?_
      have hret := ((hc.threads t).retired j hj).2
      rw [hadm.retirement] at hret
      cases hret
  have hthreads : ∀ t, (((s.apply env (.accept kind hasMain)).move m).threads t).entered = none ∧
      (((s.apply env (.accept kind hasMain)).move m).threads t).retired = none := by
    refine hd.forall_threads (P := fun _ th => th.entered = none ∧ th.retired = none) ?_ ?_ ?_ ?_
    · exact fun t _ => hvacant t
    · intro t r th _ hstep
      obtain ⟨-, req, selected, hth⟩ := threadStep_permit hstep
      rw [hth] at hstep
      obtain ⟨_, _, rfl⟩ := lift_eq_some.mp hstep
      exact ⟨rfl, rfl⟩
    · intro th _ _ hw
      cases hw
    · exact fun l root _ _ => ⟨rfl, rfl⟩
  constructor
  case data => simpa using hx
  case cleanup =>
    intro l c hid hcl
    simp only [move_locals, apply_cleanup, hadm.cleanup_none (by simpa using hid)] at hcl
    cases hcl
  case retired => exact fun t => (hthreads t).2
  case unpublished =>
    intro j hj
    simp only [move_retirement, apply_retirement, Write.retirement, hadm.retirement] at hj
    cases hj
  case spared =>
    intro t
    have hent := (hthreads t).1
    generalize ((s.apply env (.accept kind hasMain)).move m).threads t = th at hent
    cases th with
    | evict cutoff pc => cases pc <;> trivial
    | _ => trivial
  case entered =>
    intro t j hj
    rw [(hthreads t).1] at hj
    cases hj
  case kind =>
    intro l hid
    simp only [move_identity, apply_identity, Write.identity, some.injEq] at hid
    subst hid
    simpa [Write.storeKind] using hstay.accepts hd

/-! ## Every run -/

def Sheltering (env : Env) (s : Slot) (a : Act) : Prop :=
  RetiresPublished env s a ∧ StaysDurable env s a

instance (env : Env) (s : Slot) (a : Act) : Decidable (Sheltering env s a) := by
  unfold Sheltering
  infer_instance

namespace Manager

variable {ν : Type} [DecidableEq ν] {config : Config} {now : Time} {disk : ν → Disk}
  {snapshot : ν → Option Snapshot} {τ τ₀ : List (Manager ν × Event ν)} {d d₀ : Manager ν} {n : ν}
  {ev : Event ν}

def Accepts (n : ν) (e : Manager ν × Event ν) : Prop :=
  ∃ d', e.1.step e.2 = some d' ∧ (d'.slot n).nTasks = (e.1.slot n).nTasks + 1

instance (n : ν) (e : Manager ν × Event ν) : Decidable (Accepts n e) := by
  unfold Accepts
  infer_instance

/-- The step is the success of a persist that has read `x`. -/
def Uploads (n : ν) (x : Nat) (e : Manager ν × Event ν) : Prop :=
  ∃ t r j at' tree, ∃ info : Meta, e.2 = .act n (.thread t r) ∧ r.fault = none ∧
    ((e.1.slot n).threads t).persisting = some (j, .put info at' tree) ∧ x ∈ tree.data

/-- The step replaces the local tree by a snapshot that stage-in has found to be of a higher
generation.  A restore that fails leaves the tree where it is. -/
def Replaces (n : ν) (e : Manager ν × Event ν) : Prop :=
  ∃ i r sn g, e.2 = .act n (.task i r) ∧ r.fault = none ∧ (e.1.slot n).snapshot = some sn ∧
    ((e.1.slot n).task i).pc = .prepare .restore ∧ ((e.1.slot n).task i).staged.snapshot = some g ∧
    ((e.1.slot n).locals ((e.1.slot n).task i).identity).stageIn.localGeneration < g

section

variable (hdisk : ∀ dir, (disk n).dir = some dir → dir.Counted)
  (hgen : ∀ sn, snapshot n = some sn → 0 < sn.generation ∧ sn.tree.Counted)
include hdisk hgen

theorem staging_of_trace (h : (machine ν).Trace (boot config now disk snapshot) τ d)
    (hC : ∀ e ∈ τ, MeetsAt n Sheltering e) :
    Sound (d.slot n) ∧ Custody d.closed (d.slot n) ∧ Staging (d.slot n) ∧ (d.slot n).Benign := by
  refine slot_invariant_at (C := Sheltering)
    (I := fun closed s => Sound s ∧ Custody closed s ∧ Staging s ∧ s.Benign)
    (fun s hI => ⟨hI.1, hI.2.1.stop, hI.2.2⟩) ?_ ⟨sound_boot _ _ _, custody_boot _ _ _, ?_, ?_⟩ h hC
  · rintro env s a s' e ⟨hs, hc, hst, hben⟩ hcond hstep
    obtain ⟨w, m, hplan, hd, rfl, -⟩ := step_plan hstep
    exact ⟨hs.does hd, hc.does hs hd hcond.1.noTakeover, hst.does hc hs hd,
      benign_step hben hplan hcond.2⟩
  · exact staging_boot hdisk hgen
  · exact fun t => rfl

/-- The data that an initialization found is sheltered until it is captured or replaced. -/
theorem sheltered_of_trace {d₁ : Manager ν} {x : Nat}
    (h₀ : (machine ν).Trace (boot config now disk snapshot) τ₀ d₁)
    (hx : (d₁.slot n).Sheltered x) (h : (machine ν).Trace d₁ τ d)
    (hC : ∀ e ∈ τ₀ ++ τ, MeetsAt n Sheltering e) :
    (d.slot n).Sheltered x ∨ ∃ e ∈ τ, Uploads n x e ∨ Replaces n e := by
  induction h with
  | nil => exact .inl hx
  | @snoc τ d₂ d₃ ev hτ hstep ih =>
    have hpre : ∀ e ∈ τ₀ ++ τ, MeetsAt n Sheltering e := fun e he =>
      hC e (by simp only [mem_append] at he ⊢; tauto)
    rcases ih hpre with hx | ⟨e, he, hevent⟩
    · rcases step_slot hstep n with ⟨hsame, -⟩ | ⟨a, e, rfl, hact⟩
      · exact .inl (by rwa [hsame])
      · obtain ⟨hs, hc, hst, hben⟩ := staging_of_trace hdisk hgen (h₀.append hτ) hpre
        obtain ⟨hpub, hstay⟩ := hC (d₂, .act n a) (by simp) a rfl
        obtain ⟨w, m, hplan, hd, hs', -⟩ := step_plan hact
        by_cases hcap : ∀ sn, w = .commitSnapshot sn → x ∉ sn.tree.data
        · by_cases hrep : ∀ tree, w ≠ .restoreDir tree
          · rw [hs']
            exact .inl (hx.step hc hs hben hplan hpub hstay hcap hrep)
          · -- the local copy lost the comparison of stage-in
            push Not at hrep
            obtain ⟨tree, rfl⟩ := hrep
            refine .inr ⟨(d₂, .act n a), by simp, .inr ?_⟩
            obtain ⟨i, r, pc, rfl, rfl, hrestore⟩ := hd.by_task (fun _ _ => id) id rfl
            obtain ⟨hpc, sn, hsn, -⟩ := taskStep_permit hrestore
            have hok : r.fault = none := by
              cases hr : r.fault with
              | none => rfl
              | some f => simp [taskStep, hpc, hr] at hrestore
            obtain ⟨g, hg, hlt⟩ := hst.selected i (by rw [hpc]; rfl)
            exact ⟨i, r, sn, g, rfl, hok, hsn, hpc, hg, hlt⟩
        · push Not at hcap
          obtain ⟨sn, rfl, hsn⟩ := hcap
          obtain ⟨t, r, j, at', info, rfl, hpc, -, hr⟩ := hd.puts
          exact .inr ⟨(d₂, .act n (.thread t r)), by simp,
            .inl ⟨t, r, j, at', sn.tree, info, rfl, hr, hpc, hsn⟩⟩
    · exact .inr ⟨e, mem_append_left _ he, hevent⟩

end

/-- A local copy of generation 1, which no store knows of. -/
def luggageDisk : Disk :=
  { dir := some
      { info := some
          { sync := .auto, generation := 1, lastPersistedAt := 0, snapshotGeneration := 0 }
        data := [7] }
    gc := none }

end Manager

end Hostel.Bed
