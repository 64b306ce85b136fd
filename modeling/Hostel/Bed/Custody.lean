/-
# Hostel.Bed.Custody — nobody breaks what another goroutine relies on.

`Guarantee` says in which states a goroutine performs each write, given its own claims, and the
claims of all others are stable under guaranteed writes.

One step of the source is not guaranteed.  `finishRetirement` may find in `retirements` an
allocation whose own initialization is still rolling it back, and then two goroutines tear down and
clean it.  The invariant holds in every run without that (`NoTakeover`).
-/
import Hostel.Bed.Claims

namespace Hostel.Bed

open Store Slot Option Bool

/-! ## The invariant -/

/-- Every goroutine's claim holds, and so does what the maps say about each other. -/
structure Custody (closed : Bool) (s : Slot) : Prop where
  tasks : ∀ i, (s.task i).pc.Claim s i
  threads : ∀ t, (s.threads t).Claim closed s t
  bed : ∀ j, s.bed = some j →
    s.retirement = none ∧ s.initialization = none ∧ s.identity = some (s.task j).identity
  entry : ∀ k, s.initialization = some k →
    s.Owner k ∨ s.phase k ≠ .initializing ∧ s.bed = none ∧ s.retirement = none
  forgotten : s.identity = none → s.disk.dir = none ∧ s.disk.gc = none
  done : ∀ i, (s.task i).done = true → (s.task i).pc = .finished

/-- `finishRetirement` takes over no allocation whose initialization has not ended. -/
def NoTakeover (_ : Env) (s : Slot) : Act → Prop
  | .thread t _ =>
    match (s.threads t).retiring with
    | some (j, .check) => s.retirement = some j → (s.task j).pc.out = true
    | _ => True
  | _ => True

instance (env : Env) (s : Slot) (a : Act) : Decidable (NoTakeover env s a) := by
  unfold NoTakeover
  split
  · split <;> infer_instance
  · infer_instance

variable {env : Env} {r : Reply} {s : Slot} {a : Act} {w : Write} {m : Move} {closed : Bool}
  {i j : TaskId} {t : ThreadId}

/-! ## Owners -/

variable {pc : TaskPc}

theorem TaskPc.role_eq_out (h : pc.role = .out) : pc.out = true := by
  cases pc with
  | finishFinal err reason => cases err <;> first | rfl | cases h
  | finished => rfl
  | _ => cases h

section

variable (hc : Custody closed s)
include hc

theorem Custody.owned (h : s.Owner i) : s.Owned i := (hc.tasks i).owned h.1 h.2

theorem Custody.owner_eq (hi : s.Owner i) (hj : s.Owner j) : i = j :=
  some.inj ((hc.owned hi).initialization.symm.trans (hc.owned hj).initialization)

theorem Custody.owner_retirement (h : s.Owner i) : s.retirement = none ∨ s.retirement = some i := by
  have hclaim := hc.tasks i
  cases hrole : (s.task i).pc.role with
  | live => exact .inl (hclaim.live hrole)
  | rolling => exact .inr (hclaim.rolling hrole)
  | closing => exact (hclaim.closing hrole h.2).imp id And.left
  | out =>
    rw [Slot.Owner, TaskPc.role_eq_out hrole] at h
    cases h.1

theorem Custody.unowned_of_entry (hout : (s.task j).pc.out = true)
    (h : s.bed = some j ∨ s.retirement = some j) : s.Unowned := by
  intro i hi
  rcases h with hbed | hret
  · rw [(hc.owned hi).bed] at hbed
    cases hbed
  · rcases hc.owner_retirement hi with hnone | hsome
    · rw [hnone] at hret
      cases hret
    · cases hsome.symm.trans hret
      rw [hi.1] at hout
      cases hout

theorem Custody.unowned_of_bed (h : s.bed = some j) : s.Unowned := by
  intro i hi
  rw [(hc.owned hi).bed] at h
  cases h

theorem Custody.unowned_of_phase (h : ∀ i, s.initialization = some i → s.phase i ≠ .initializing) :
    s.Unowned := fun i hi =>
  h i (hc.owned hi).initialization (hc.owned hi).phase

theorem Custody.owner_of_initializing (h : s.initializing = some i) : s.Owner i := by
  obtain ⟨hini, hphase⟩ := initializing_eq_some.mp h
  exact (hc.entry i hini).resolve_right fun hno => hno.1 hphase

theorem Custody.unowned_of_admissible (h : s.Admissible env) : s.Unowned := by
  intro i hi
  have hini := initializing_eq_some.mpr ⟨(hc.owned hi).initialization, (hc.owned hi).phase⟩
  rw [h.initializing] at hini
  cases hini

theorem Custody.unowned_of_unused (h : s.inUse = false) : s.Unowned := by
  intro i hi
  have hini := initializing_eq_some.mpr ⟨(hc.owned hi).initialization, (hc.owned hi).phase⟩
  simp [inUse, hini] at h

end

theorem Write.identity_old {l : LocalId} (hl : l < s.nLocals) (h : w.identity s = some l) :
    s.identity = some l := by
  have hreg : some s.registered = some l → s.identity = some l := by
    intro h
    cases hid : s.identity with
    | none => exact absurd (some.inj h) (by rw [registered_of_none hid]; exact hl.ne')
    | some k => rw [← registered_of_some hid, some.inj h]
  cases w <;> simp only [Write.identity] at h <;> try first | exact h | exact hreg h
  split_ifs at h
  exact h

theorem Slot.Does.owner (hd : s.Does env a w m) (hg : Grounded s)
    (h : ((s.apply env w).move m).Owner i) : s.Owner i ∨ s.Admissible env ∧ i = s.nTasks := by
  have hborn : i < w.nTasks s := by
    have hlt := (hd.grounded hg).born (i := i) fun hfin => by
      have := h.1
      rw [hfin] at this
      cases this
    simpa using hlt
  by_cases hi : i < s.nTasks
  · refine .inl ⟨?_, ?_⟩
    · by_contra hout
      have := hd.out hi (eq_true_of_not_eq_false hout)
      rw [h.1] at this
      cases this
    · have hid := h.2
      simp only [move_identity, apply_identity, move_task, apply_task,
        Write.task_identity s i w hi.ne] at hid
      exact Write.identity_old (hg.locals i hi) hid
  · cases w <;> simp only [Write.nTasks] at hborn <;> try exact absurd hborn hi
    exact .inr ⟨hd.accepts.1, Nat.eq_of_lt_succ_of_not_lt hborn hi⟩

theorem Slot.Does.unowned (hd : s.Does env a w m) (hg : Grounded s) (h : s.Unowned)
    (hadm : ¬s.Admissible env) : ((s.apply env w).move m).Unowned := fun i hi =>
  (hd.owner hg hi).elim (h i) fun hnew => hadm hnew.1

/-! ## The guarantee -/

/-- `A` is the owner of the name, if it has one. -/
def Slot.Sole (s : Slot) (A : Option Agent) : Prop := ∀ i, s.Owner i → A = some (.task i)

theorem Slot.Unowned.sole (h : s.Unowned) {A : Option Agent} : s.Sole A := fun i hi =>
  absurd hi (h i)

theorem Custody.sole (hc : Custody closed s) (h : s.Owner i) : s.Sole (some (.task i)) :=
  fun k hk => by rw [hc.owner_eq hk h]

/-- The goroutine that a step moves. -/
def Move.agent : Move → Option Agent
  | .task i _ => some (.task i)
  | .thread t _ => some (.thread t)
  | _ => none

/-- In which states a write is performed, and by whom. -/
def Slot.Guarantee (env : Env) (s : Slot) (A : Option Agent) : Write → Prop
  | .accept _ _ => s.Admissible env
  | .publish i _ | .insertRetirement i => A = some (.task i) ∧ s.Owner i ∧ s.retirement = none
  | .deleteRetirement =>
    s.Sole A ∧ ∀ j, s.retirement = some j → (s.alloc j).runtimeClosed = true ∧
      (A = some (.task j) ∧ (s.task j).pc.out = false ∨
        ∃ t, A = some (.thread t) ∧ (s.threads t).cleanupHeld = some j)
  | .deleteInitialization => s.Unowned
  | .retire j | .takeForPurge j => s.bed = some j
  | .installFence t => A = some (.thread t) ∧ s.purge = none
  | .removeFence => ∃ t, A = some (.thread t) ∧ s.purge = some t
  | .finishInitialization i _ delete st =>
    A = some (.task i) ∧ (delete = true ∨ st ≠ none → s.initialization = some i) ∧
      ∀ x ∈ st, x.phase ≠ .initializing
  | .setLifecycle l next =>
    s.Unowned ∧ next.phase ≠ .initializing ∨
      ∃ i, A = some (.task i) ∧ s.Owner i ∧ l = (s.task i).identity ∧ next.phase = .initializing
  | .registerIdentity => ∃ t, A = some (.thread t) ∧ s.purge = some t
  | .unregisterIdentity l =>
    s.Sole A ∧ s.bed = none ∧ s.disk.dir = none ∧ s.disk.gc = none ∧
      ∃ B want c, A = some B ∧ s.Attempt B l want c
  | .claimLuggage => s.inUse = false ∧ s.pendingCleanup = none
  | .beginCleanup l _ B =>
    A = some B ∧ s.Sole A ∧ s.identity = some l ∧
      ∀ c, (s.locals l).cleanup = some c → (s.cleanups c).running = false
  | .settleCleanup l c err =>
    ∃ B, A = some B ∧ (s.cleanups c).running = true ∧ (s.cleanups c).owner = some B ∧
      (s.identity = some l → s.Sole A ∧ (s.locals l).cleanup = some c ∧ (err = none →
        (∃ i, B = .task i ∧ s.Owner i) ∨ ∃ t, B = .thread t ∧ s.collector = some t))
  | .removeGc | .claimDir => s.Sole A ∧ ∃ B l want c, A = some B ∧ s.Attempt B l want c
  | .makeDir => ∃ i, A = some (.task i) ∧ s.Owner i ∧ (s.locals (s.task i).identity).cleanup = none
  | .restoreDir _ =>
    ∃ i, A = some (.task i) ∧ s.Owner i ∧ (s.locals (s.task i).identity).cleanup = none
  | _ => True

theorem Custody.owner_of_pc (hc : Custody closed s) (hpc : (s.task i).pc = pc)
    (hforget : pc.forgetful = false) (hout : pc.out = false) : s.Owner i := by
  subst hpc
  exact ⟨hout, (hc.tasks i).registered hforget⟩

theorem finishDecision_guarantee {err : Option Fault} {reason : String} {delete : Bool}
    {st : Option LifecycleStatus} (h : (delete, st) = finishDecision env s i err reason) :
    (delete = true ∨ st ≠ none → s.initialization = some i) ∧
      ∀ x ∈ st, x.phase ≠ .initializing := by
  revert h
  fun_cases finishDecision env s i err reason <;> intro h <;> cases h <;> simp_all

section

variable (hc : Custody closed s)
include hc

theorem Custody.task_guarantee (h : taskStep env r s i (s.task i).pc = some (w, pc)) :
    s.Guarantee env (some (.task i)) w := by
  have hclaim := hc.tasks i
  have hp := taskStep_permit h
  have hown : ∀ {q}, (s.task i).pc.cleaning = some q →
      s.identity = some (s.task i).identity → s.Owner i := fun hq hid => by
    refine ⟨?_, hid⟩
    revert hq
    cases (s.task i).pc <;> intro hq <;> cases hq
    rfl
  cases w with
  | publish k ready =>
    obtain ⟨rfl, hpc, -⟩ := hp
    rw [hpc] at hclaim
    exact ⟨rfl, hc.owner_of_pc hpc rfl rfl, hclaim.live rfl⟩
  | insertRetirement k =>
    obtain ⟨rfl, err, hpc | hpc⟩ := hp <;> rw [hpc] at hclaim <;>
      exact ⟨rfl, hc.owner_of_pc hpc rfl rfl, hclaim.live rfl⟩
  | deleteRetirement =>
    obtain ⟨err, hpc⟩ := hp
    have hown := hc.owner_of_pc hpc rfl rfl
    rw [hpc] at hclaim
    refine ⟨hc.sole hown, fun j hj => ?_⟩
    cases (hclaim.rolling rfl).symm.trans hj
    exact ⟨hclaim.torn rfl, .inl ⟨rfl, hown.1⟩⟩
  | finishInitialization k err delete st =>
    obtain ⟨rfl, reason, -, hdecision⟩ := hp
    exact ⟨rfl, finishDecision_guarantee hdecision⟩
  | makeDir =>
    have hown := hc.owner_of_pc hp rfl rfl
    rw [hp] at hclaim
    exact ⟨i, rfl, hown, hclaim.uncleaned rfl⟩
  | restoreDir tree =>
    obtain ⟨hpc, -⟩ := hp
    have hown := hc.owner_of_pc hpc rfl rfl
    rw [hpc] at hclaim
    exact ⟨i, rfl, hown, hclaim.uncleaned rfl⟩
  | setLifecycle l next =>
    obtain ⟨rfl, ⟨hnext, hpc⟩ | ⟨-, q, hq, hreports⟩⟩ := hp
    · refine .inr ⟨i, rfl, hc.owner_of_pc rfl ?_ ?_, rfl, hnext⟩ <;>
        revert hpc <;> cases (s.task i).pc <;> intro hpc <;> cases hpc <;> rfl
    · have hsilent := hclaim.silent q hq
      cases q <;> simp_all [TeardownPc.silent, TeardownPc.reports]
  | unregisterIdentity l =>
    obtain ⟨rfl, c, hclean⟩ := hp
    obtain ⟨hatt, hgc, hdir⟩ := hclaim.cleaning _ hclean
    have hi := hown hclean hatt.identity
    exact ⟨hc.sole hi, (hc.owned hi).bed, hdir, hgc, _, _, c, rfl, hatt⟩
  | beginCleanup l root B =>
    obtain ⟨rfl, rfl, hid, hrun, q, hclean, -⟩ := hp
    exact ⟨rfl, hc.sole (hown hclean hid), hid, hrun⟩
  | settleCleanup l c err =>
    obtain ⟨rfl, hclean⟩ := hp
    have hset := hclaim.cleaning _ hclean
    refine ⟨_, rfl, hset.running, hset.owner, fun hid => ?_⟩
    have hi := hown hclean hid
    exact ⟨hc.sole hi, (hset.registered hid).1, fun _ => .inl ⟨i, rfl, hi⟩⟩
  | removeGc =>
    obtain ⟨c, hclean | hclean⟩ := hp
    · have hatt := hclaim.cleaning _ hclean
      exact ⟨hc.sole (hown hclean hatt.identity), _, _, _, c, rfl, hatt⟩
    · have hatt := (hclaim.cleaning _ hclean).1
      exact ⟨hc.sole (hown hclean hatt.identity), _, _, _, c, rfl, hatt⟩
  | claimDir =>
    obtain ⟨c, hclean⟩ := hp
    have hatt := (hclaim.cleaning _ hclean).1
    exact ⟨hc.sole (hown hclean hatt.identity), _, _, _, c, rfl, hatt⟩
  | _ => trivial

theorem Custody.vacant_of_retired (h : s.retirement = some j) : s.bed = none := by
  cases hbed : s.bed with
  | none => rfl
  | some k =>
    rw [(hc.bed k hbed).1] at h
    cases h

theorem Custody.vacant_of_cleaning {l : LocalId} {q : CleanPc}
    (h : (s.threads t).cleaning s = some (l, q)) (hq : ∀ err, q ≠ .ret err)
    (hid : s.identity = some l) : s.Unowned ∧ s.bed = none := by
  have hclaim := hc.threads t
  have hentry : ∀ {k}, (s.task k).pc.out = true ∧ s.retirement = some k →
      s.Unowned ∧ s.bed = none := fun hk =>
    ⟨hc.unowned_of_entry hk.1 (.inr hk.2), hc.vacant_of_retired hk.2⟩
  cases hth : s.threads t with
  | evict cutoff pc =>
    rw [hth] at h hclaim
    cases pc with
    | retire k resident p =>
      cases p <;> cases h
      exact hentry (hclaim.retired k rfl)
    | _ => cases h
  | close pc =>
    rw [hth] at h hclaim
    cases pc with
    | retire k todo p =>
      cases p <;> cases h
      exact hentry (hclaim.retired k rfl)
    | _ => cases h
  | purge pc =>
    rw [hth] at h hclaim
    cases pc <;> cases h
    exact ⟨hclaim.sealed rfl, (hclaim.took _ rfl).1⟩
  | collect k p =>
    rw [hth] at h hclaim
    cases h
    have hcol : (Thread.collect l q).collects = some l := by
      cases q <;> first | rfl | exact absurd rfl (hq _)
    obtain ⟨hun, hbed, -⟩ := (hclaim.collects l hcol).2.2 hid
    exact ⟨hun, hbed⟩
  | _ =>
    rw [hth] at h
    cases h

theorem Custody.unowned_of_tearing {q : TeardownPc}
    (h : (s.threads t).tearing = some (j, q)) : s.Unowned := by
  have hclaim := hc.threads t
  cases hth : s.threads t with
  | evict cutoff pc =>
    rw [hth] at h hclaim
    cases pc with
    | retire k resident p =>
      cases p <;> cases h
      obtain ⟨hout, hret⟩ := hclaim.retired j rfl
      exact hc.unowned_of_entry hout (.inr hret)
    | _ => cases h
  | close pc | purge pc =>
    rw [hth] at h hclaim
    cases pc <;> first | exact hclaim.sealed rfl | cases h
  | _ =>
    rw [hth] at h
    cases h

end

theorem Thread.retiring_drop {th : Thread} (h : th.retiring = some (j, .drop)) :
    th.retired = some j ∧ th.torn = some j ∧ th.cleanupHeld = some j := by
  cases th with
  | evict cutoff pc | close pc => cases pc <;> cases h; exact ⟨rfl, rfl, rfl⟩
  | _ => cases h

theorem Custody.thread_guarantee {th : Thread} (hc : Custody closed s)
    (h : threadStep env r s t (s.threads t) = some (w, th)) :
    s.Guarantee env (some (.thread t)) w := by
  have hclaim := hc.threads t
  have hp := threadStep_permit h
  cases w with
  | accept kind hasMain | takeForPurge j => exact hp.1
  | deleteRetirement =>
    rcases hp with ⟨j, hth, hret⟩ | ⟨b, hth⟩
    · obtain ⟨hretired, htorn, hheld⟩ := Thread.retiring_drop hth
      obtain ⟨hout, -⟩ := hclaim.retired j hretired
      refine ⟨(hc.unowned_of_entry hout (.inr hret)).sole, fun k hk => ?_⟩
      cases hret.symm.trans hk
      exact ⟨hclaim.torn j htorn, .inr ⟨t, rfl, hheld⟩⟩
    · rw [hth] at hclaim
      refine ⟨(hclaim.sealed rfl).sole, fun k hk => ?_⟩
      obtain ⟨-, hnone | hsome⟩ := hclaim.took b rfl
      · rw [hnone] at hk
        cases hk
      · obtain rfl : b = some k := hsome.symm.trans hk
        exact ⟨hclaim.torn k rfl, .inr ⟨t, rfl, by rw [hth]; rfl⟩⟩
  | deleteInitialization => exact hc.unowned_of_phase hp
  | retire j =>
    obtain ⟨-, -, -, hbed, -⟩ := hp
    exact hbed
  | installFence u => exact ⟨by rw [hp.1], hp.2.1⟩
  | removeFence =>
    obtain ⟨err, hth⟩ := hp
    exact ⟨t, rfl, hclaim.fenced (by rw [hth]; rfl)⟩
  | setLifecycle l next =>
    obtain ⟨hphase, j, rfl, ⟨q, htear, -⟩ | ⟨cutoff, -, hpass⟩ | ⟨cutoff, x, hth⟩⟩ := hp
    · exact .inl ⟨hc.unowned_of_tearing htear, hphase⟩
    · exact .inl ⟨hc.unowned_of_bed (evictionRefused_none hpass).1, hphase⟩
    · rw [hth] at hclaim
      have hlocked : x.locked = true := by
        simpa [Thread.stray, EvictPc.stray] using hclaim.steady
      obtain ⟨hout, hentry⟩ := hclaim.entered j (whenHeld_eq_some.mpr ⟨hlocked, rfl⟩)
      exact .inl ⟨hc.unowned_of_entry hout hentry, hphase⟩
  | registerIdentity => exact ⟨t, rfl, hclaim.fenced (by rw [show s.threads t = _ from hp]; rfl)⟩
  | unregisterIdentity l =>
    obtain ⟨c, hclean⟩ := hp
    obtain ⟨hatt, hgc, hdir⟩ := hclaim.cleaning _ _ hclean
    obtain ⟨hun, hbed⟩ := hc.vacant_of_cleaning hclean (by simp) hatt.identity
    exact ⟨hun.sole, hbed, hdir, hgc, _, _, c, rfl, hatt⟩
  | beginCleanup l root B =>
    obtain ⟨rfl, hid, hrun, q, hclean, -⟩ := hp
    exact ⟨rfl, (hc.vacant_of_cleaning hclean (by simp) hid).1.sole, hid, hrun⟩
  | settleCleanup l c err =>
    have hset := hclaim.cleaning _ _ hp
    refine ⟨_, rfl, hset.running, hset.owner, fun hid => ?_⟩
    refine ⟨(hc.vacant_of_cleaning hp (by simp) hid).1.sole, (hset.registered hid).1,
      fun herr => ?_⟩
    have hkept := (hset.registered hid).2 herr
    -- a purge or a retirement removes the root, and then forgets the identity
    cases hth : s.threads t with
    | collect k q =>
      rw [hth] at hp hclaim
      cases hp
      exact .inr ⟨t, rfl, (hclaim.collects l rfl).1⟩
    | _ =>
      rw [hset.root true (by rw [hth]; rfl)] at hkept
      cases hkept
  | removeGc =>
    obtain ⟨l, c, hclean | hclean⟩ := hp
    · have hatt := hclaim.cleaning _ _ hclean
      exact ⟨(hc.vacant_of_cleaning hclean (by simp) hatt.identity).1.sole, _, _, _, c, rfl, hatt⟩
    · have hatt := (hclaim.cleaning _ _ hclean).1
      exact ⟨(hc.vacant_of_cleaning hclean (by simp) hatt.identity).1.sole, _, _, _, c, rfl, hatt⟩
  | claimDir =>
    obtain ⟨l, c, hclean⟩ := hp
    have hatt := (hclaim.cleaning _ _ hclean).1
    exact ⟨(hc.vacant_of_cleaning hclean (by simp) hatt.identity).1.sole, _, _, _, c, rfl, hatt⟩
  | _ => trivial

theorem Custody.guarantee (hc : Custody closed s) (hd : s.Does env a w m) :
    s.Guarantee env m.agent w := by
  cases hd with
  | task hstep => exact hc.task_guarantee hstep
  | thread hstep => exact hc.thread_guarantee hstep
  | call hcall =>
    cases w with
    | deleteInitialization =>
      obtain ⟨i, hi, hfailed⟩ := hcall
      refine hc.unowned_of_phase fun k hk hphase => ?_
      cases hi.symm.trans hk
      rw [hfailed] at hphase
      cases hphase
    | _ => trivial
  | spawn => trivial
  | collect hcollect =>
    rcases hcollect.claim with ⟨rfl, -⟩ | ⟨rfl, -, -, hpending⟩
    · trivial
    · exact ⟨hcollect.unused, hpending⟩

/-! ## Cleanups of the others -/

variable {A : Option Agent} {B : Agent} {l : LocalId} {want : Option Bool} {c : AttemptId}

/-- The record of a running attempt changes only by the goroutine that runs it. -/
theorem Slot.Guarantee.attempt (hG : s.Guarantee env A w) (hne : A ≠ some B)
    (hborn : c < s.nCleanups) (howner : (s.cleanups c).owner = some B) :
    w.attempt s c = s.cleanups c := by
  cases w with
  | claimLuggage | beginCleanup k root C => simp [hborn.ne]
  | settleCleanup k c' err =>
    obtain ⟨C, rfl, -, hother, -⟩ := hG
    have hcc : c ≠ c' := by
      rintro rfl
      exact hne (by rw [howner.symm.trans hother])
    simp [hcc]
  | _ => rfl

theorem Slot.Runs.stable (h : s.Runs B want c) (hG : s.Guarantee env A w) (hne : A ≠ some B) :
    (s.apply env w).Runs B want c := by
  have hattempt := hG.attempt hne h.born h.owner
  refine ⟨?_, ?_, ?_, ?_⟩
  · rw [apply_attempt, hattempt, h.running]
  · rw [apply_attempt, hattempt, h.owner]
  · rw [apply_nCleanups]
    exact h.born.trans_le (w.le_nCleanups s)
  · rw [apply_attempt, hattempt]
    exact h.root

theorem Slot.Attempt.stable (h : s.Attempt B l want c) (hG : s.Guarantee env A w)
    (hne : A ≠ some B) : (s.apply env w).Attempt B l want c := by
  have hpending : s.pendingCleanup ≠ none := by
    simp [pendingCleanup, h.identity, h.cleanup]
  have hmaps : w.identity s = some l ∧ w.cleanup s l = some c := by
    cases w with
    | accept kind hasMain => exact absurd hG.cleanup hpending
    | claimLuggage => exact absurd hG.2 hpending
    | registerIdentity =>
      simp [Write.identity, registered_of_some h.identity, h.identity, h.cleanup]
    | unregisterIdentity k =>
      obtain ⟨-, -, -, -, C, want', c', rfl, hother⟩ := hG
      exact absurd (by rw [hother.agent_eq h]) hne
    | beginCleanup k root C =>
      obtain ⟨-, -, hid, hrun⟩ := hG
      obtain rfl : l = k := some.inj (h.identity.symm.trans hid)
      have := hrun c h.cleanup
      rw [h.running] at this
      cases this
    | settleCleanup k c' err =>
      refine ⟨h.identity, ?_⟩
      simp only [Write.cleanup]
      split_ifs with hif
      · obtain ⟨-, hid, rfl⟩ := hif
        obtain ⟨C, rfl, -, howner, hreg⟩ := hG
        obtain rfl : c' = c := some.inj ((hreg hid).2.1.symm.trans h.cleanup)
        exact absurd (by rw [h.owner.symm.trans howner]) hne
      · exact h.cleanup
    | _ => exact ⟨h.identity, h.cleanup⟩
  refine ⟨h.toRuns.stable hG hne, ?_, ?_⟩
  · rw [apply_identity, hmaps.1]
  · rw [apply_cleanup, hmaps.2]

theorem Slot.Attempt.trees (h : s.Attempt B l want c) (hG : s.Guarantee env A w)
    (hne : A ≠ some B) :
    (s.disk.dir = none → w.dir s = none) ∧ (s.disk.gc = none → w.gc s = none) := by
  have hno : ∀ {i}, s.Owner i → (s.locals (s.task i).identity).cleanup = none → False := by
    intro i hi hnone
    obtain rfl : l = (s.task i).identity := some.inj (h.identity.symm.trans hi.2)
    rw [h.cleanup] at hnone
    cases hnone
  cases w with
  | claimDir =>
    obtain ⟨-, C, k, want', c', rfl, hother⟩ := hG
    exact absurd (by rw [hother.agent_eq h]) hne
  | makeDir | restoreDir tree =>
    obtain ⟨i, -, hi, hnone⟩ := hG
    exact (hno hi hnone).elim
  | seed | saveMeta | writeData => exact ⟨fun hdir => by simp [hdir], fun hgc => hgc⟩
  | removeGc => exact ⟨fun hdir => hdir, fun _ => rfl⟩
  | _ => exact ⟨fun hdir => hdir, fun hgc => hgc⟩

theorem Slot.Settling.stable {err : Option Fault} (h : s.Settling B l want c err)
    (hG : s.Guarantee env A w) (hne : A ≠ some B) (hl : l < s.nLocals) :
    (s.apply env w).Settling B l want c err := by
  refine ⟨h.toRuns.stable hG hne, fun hid' => ?_⟩
  rw [apply_identity] at hid'
  have hid := Write.identity_old hl hid'
  obtain ⟨hcleanup, hroot⟩ := h.registered hid
  have hatt : s.Attempt B l want c := ⟨h.toRuns, hid, hcleanup⟩
  refine ⟨(hatt.stable hG hne).cleanup, fun herr => ?_⟩
  rw [apply_attempt, hG.attempt hne h.born h.owner, hroot herr]

theorem CleanPc.Claim.stable {q : CleanPc} (h : q.Claim s B l want) (hG : s.Guarantee env A w)
    (hne : A ≠ some B) (hl : l < s.nLocals ∨ want = none ∧ ∃ err, q = .ret err) :
    q.Claim (s.apply env w) B l want := by
  have hroot : ∀ {c}, s.Attempt B l want c →
      ((s.apply env w).cleanups c).removeRoot = (s.cleanups c).removeRoot := fun hatt => by
    rw [apply_attempt, hG.attempt hne hatt.born hatt.owner]
  cases q with
  | entry root | join c root => exact h
  | sweep c => exact Slot.Attempt.stable h hG hne
  | claim c =>
    obtain ⟨hatt, hrm, hgc⟩ := h
    exact ⟨hatt.stable hG hne, (hroot hatt).trans hrm, by rw [apply_gc, (hatt.trees hG hne).2 hgc]⟩
  | remove c =>
    obtain ⟨hatt, hrm, hdir⟩ := h
    exact ⟨hatt.stable hG hne, (hroot hatt).trans hrm,
      by rw [apply_dir, (hatt.trees hG hne).1 hdir]⟩
  | inspect c =>
    obtain ⟨hatt, hgc, hdir⟩ := h
    refine ⟨hatt.stable hG hne, by rw [apply_gc, (hatt.trees hG hne).2 hgc], fun hrm => ?_⟩
    rw [hroot hatt] at hrm
    rw [apply_dir, (hatt.trees hG hne).1 (hdir hrm)]
  | inspectGc c | forget c | unlink c | unregister c =>
    obtain ⟨hatt, hgc, hdir⟩ := h
    obtain ⟨hdir', hgc'⟩ := hatt.trees hG hne
    exact ⟨hatt.stable hG hne, by rw [apply_gc, hgc' hgc], by rw [apply_dir, hdir' hdir]⟩
  | settle c err =>
    rcases hl with hl | ⟨-, err', habs⟩
    · exact Slot.Settling.stable h hG hne hl
    · cases habs
  | ret err =>
    intro herr hwant hid'
    rw [apply_identity] at hid'
    rcases hl with hl | ⟨hnone, -⟩
    · exact h herr hwant (Write.identity_old hl hid')
    · rw [hnone] at hwant
      cases hwant

/-! ## Initializations of the others -/

section

attribute [local simp] Write.identity Write.bed Write.retirement Write.phase

/-- While a name has an owner, nobody else touches its maps, its identity or its trees. -/
theorem Custody.owner_frame (hc : Custody closed s) (hG : s.Guarantee env A w) (hi : s.Owner i)
    (hne : A ≠ some (.task i)) :
    w.bed s = s.bed ∧ w.initialization s = s.initialization ∧ w.retirement s = s.retirement ∧
      w.identity s = s.identity ∧
      w.phase s (s.task i).identity = (s.locals (s.task i).identity).lifecycle.phase ∧
      w.cleanup s (s.task i).identity = (s.locals (s.task i).identity).cleanup := by
  have hid : s.identity = some (s.task i).identity := hi.2
  have hno : ¬s.Sole A := fun h => hne (h i hi)
  have hyes : ¬s.Unowned := fun h => h i hi
  have hother : ∀ {k}, A = some (.task k) → ¬s.Owner k := fun hk hown =>
    hne (by rw [hk, hc.owner_eq hown hi])
  cases w with
  | accept kind hasMain => exact absurd (hc.unowned_of_admissible hG) hyes
  | publish k ready | insertRetirement k => exact absurd hG.2.1 (hother hG.1)
  | deleteRetirement | unregisterIdentity l => exact absurd hG.1 hno
  | deleteInitialization => exact absurd hG hyes
  | retire j | takeForPurge j => exact absurd (hc.unowned_of_bed hG) hyes
  | finishInitialization k err delete st =>
    obtain ⟨hk, hdecision, -⟩ := hG
    have hini : s.initialization ≠ some k := fun h =>
      hne (by rw [hk, ← some.inj (h.symm.trans (hc.owned hi).initialization)])
    obtain rfl : delete = false := by
      by_contra h
      exact hini (hdecision (.inl (eq_true_of_not_eq_false h)))
    obtain rfl : st = none := by
      by_contra h
      exact hini (hdecision (.inr h))
    simp
  | setLifecycle l next =>
    rcases hG with ⟨hun, -⟩ | ⟨k, hk, hown, -⟩
    · exact absurd hun hyes
    · exact absurd hown (hother hk)
  | registerIdentity =>
    simp [hid, registered_of_some hid]
  | claimLuggage => exact absurd (hc.unowned_of_unused hG.1) hyes
  | beginCleanup l root C => exact absurd hG.2.1 hno
  | settleCleanup l c err =>
    obtain ⟨C, rfl, -, -, hreg⟩ := hG
    have hl : s.identity ≠ some l := fun h => hno (hreg h).1
    simp [hl]
  | _ => exact ⟨rfl, rfl, rfl, rfl, rfl, rfl⟩

end

theorem TaskPc.role_of_forgetful (h : pc.forgetful = true) (hout : pc.out = false) :
    pc.role = .closing ∧ pc.uncleaned = false := by
  cases pc with
  | finishClean err reason q => cases q <;> first | exact ⟨rfl, rfl⟩ | cases h
  | finishFinal err reason => cases err <;> first | exact ⟨rfl, rfl⟩ | cases hout
  | finished => cases hout
  | _ => cases h

theorem Slot.Guarantee.retires (hG : s.Guarantee env A w) (ha : Active s)
    (hout : (s.task i).pc.out = false) (hne : A ≠ some (.task i)) (h : w.retirement s = some i) :
    s.retirement = some i := by
  have hbed : s.bed ≠ some i := fun hbed => by
    rw [ha.resident i hbed] at hout
    cases hout
  cases w with
  | insertRetirement k =>
    cases h
    exact absurd hG.1 hne
  | retire j | takeForPurge j =>
    cases h
    exact absurd hG hbed
  | deleteRetirement => cases h
  | _ => exact h

theorem Custody.task_stable (hc : Custody closed s) (hs : Sound s) (hG : s.Guarantee env A w)
    (hi : i < s.nTasks) (hne : A ≠ some (.task i)) : (s.task i).pc.Claim (s.apply env w) i := by
  have hclaim := hc.tasks i
  by_cases hout : (s.task i).pc.out = true
  · exact .of_out hout
  have htask : (w.task s i).identity = (s.task i).identity := Write.task_identity s i w hi.ne
  have hclean : ∀ q, (s.task i).pc.cleaning = some q →
      q.Claim (s.apply env w) (.task i) (s.task i).identity (some false) := fun q hq =>
    (hclaim.cleaning q hq).stable hG hne (.inl (hs.grounded.locals i hi))
  have htorn : (s.task i).pc.torn = true → ((s.apply env w).alloc i).runtimeClosed = true :=
    fun ht => by
      rw [apply_alloc]
      exact Write.runtimeClosed hi (hclaim.torn ht)
  by_cases hid : s.identity = some (s.task i).identity
  · have hown : s.Owner i := ⟨by simpa using hout, hid⟩
    obtain ⟨hbed, hini, hret, hident, hphase, hcleanup⟩ := hc.owner_frame hG hown hne
    have howned := hc.owned hown
    constructor
    case silent => exact hclaim.silent
    case registered => exact fun _ => by rw [apply_identity, apply_task, hident, htask, hid]
    case owned =>
      intro _ _
      refine ⟨?_, ?_, ?_⟩
      · rw [apply_initialization, hini, howned.initialization]
      · simpa [phase, lifecycle, htask, hphase] using howned.phase
      · rw [apply_bed, hbed, howned.bed]
    case live => exact fun h => by rw [apply_retirement, hret, hclaim.live h]
    case rolling => exact fun h => by rw [apply_retirement, hret, hclaim.rolling h]
    case closing => exact fun h _ => by rw [apply_retirement, hret]; exact hclaim.closing h hid
    case gone =>
      intro _ hid'
      rw [apply_identity, apply_task, hident, htask] at hid'
      exact absurd hid hid'
    case uncleaned =>
      intro h
      rw [apply_task, htask, apply_cleanup, hcleanup, hclaim.uncleaned h]
    case cleaning =>
      intro q hq
      rw [apply_task, htask]
      exact hclean q hq
    case torn => exact htorn
  · -- the identity is forgotten, and no later one is the same
    have hforget : (s.task i).pc.forgetful = true := by
      by_contra h
      exact hid (hclaim.registered (eq_false_of_not_eq_true h))
    obtain ⟨hrole, hunclean⟩ := TaskPc.role_of_forgetful hforget (eq_false_of_not_eq_true hout)
    have hid' : (s.apply env w).identity ≠ some ((s.apply env w).task i).identity := by
      rw [apply_identity, apply_task, htask]
      exact fun h => hid (Write.identity_old (hs.grounded.locals i hi) h)
    constructor
    case silent => exact hclaim.silent
    case registered => exact fun h => by rw [hforget] at h; cases h
    case owned | closing => exact fun _ h => absurd h hid'
    case live | rolling => exact fun h => by rw [hrole] at h; cases h
    case gone =>
      intro _ _ h
      rw [apply_retirement] at h
      exact hclaim.gone hrole hid
        (hG.retires hs.active (eq_false_of_not_eq_true hout) hne h)
    case uncleaned => exact fun h => by rw [hunclean] at h; cases h
    case cleaning =>
      intro q hq
      rw [apply_task, htask]
      exact hclean q hq
    case torn => exact htorn

end Hostel.Bed
