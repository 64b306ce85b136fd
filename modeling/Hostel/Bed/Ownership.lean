/-
# Hostel.Bed.Ownership — the initialization that owns a name, and what it may rely on.

The rely side of the argument that `Permit` is the guarantee side of.  A *claim* is a property of
the slot that belongs to a program counter.  Here are the claims of the shared procedures and of the
initializations, each kept by the goroutine's own steps; `Claims` does the same for the others, and
`Custody` shows that nobody else breaks them.

The `Owner` of a name is an initialization that has not ended and whose identity is still the
registered one.  While a name has one, nobody else may touch the maps, the identity or the
directory.
-/
import Hostel.Bed.Runs

namespace Hostel.Bed

open Store Slot Option TaskPc

/-! ## Owners -/

/-- Initialization `i` has not ended, and its local identity is the registered one. -/
def Slot.Owner (s : Slot) (i : TaskId) : Prop :=
  (s.task i).pc.out = false ∧ s.identity = some (s.task i).identity

def Slot.Unowned (s : Slot) : Prop := ∀ i, ¬s.Owner i

/-- What an owner relies on. -/
structure Slot.Owned (s : Slot) (i : TaskId) : Prop where
  initialization : s.initialization = some i
  phase : s.phase i = .initializing
  bed : s.bed = none

inductive Role
  | live | rolling | closing | out
  deriving DecidableEq

def TaskPc.role : TaskPc → Role
  | .acquire _ | .rollback _ _ | .unlock _ _ | .drop _ => .rolling
  | .finishCheck _ | .finishClean _ _ _ | .finishFinal (some _) _ => .closing
  | .finishFinal none _ | .finished => .out
  | _ => .live

/-! ## Claims of the procedures -/

/-- `teardown` that started on an initializing Bed reports no phase. -/
def TeardownPc.silent : TeardownPc → Bool
  | .start => true
  | .stop b | .stopHooks b | .releaseHooks b | .close b => b
  | .ret _ => true
  | _ => false

def TeardownPc.torn : TeardownPc → Bool
  | .look | .announce _ | .ret none => true
  | _ => false

def CleanPc.wanted : CleanPc → Bool
  | .entry _ | .join _ _ => true
  | _ => false

/-- `cleanLocalIdentity` has removed what it was to remove. -/
def CleanPc.ended : CleanPc → Bool
  | .settle _ _ | .ret _ => true
  | _ => false

/-- `A` runs attempt `c`; `want` is what `A` asked of the root directory, where it asked for
something. -/
structure Slot.Runs (s : Slot) (A : Agent) (want : Option Bool) (c : AttemptId) : Prop where
  running : (s.cleanups c).running = true
  owner : (s.cleanups c).owner = some A
  born : c < s.nCleanups
  root : ∀ b ∈ want, (s.cleanups c).removeRoot = b

/-- The attempt that `A` runs is the one of the registered identity `l`. -/
structure Slot.Attempt (s : Slot) (A : Agent) (l : LocalId) (want : Option Bool) (c : AttemptId) :
    Prop extends s.Runs A want c where
  identity : s.identity = some l
  cleanup : (s.locals l).cleanup = some c

/-- `A` is about to publish the result of attempt `c`, which may have forgotten the identity. -/
structure Slot.Settling (s : Slot) (A : Agent) (l : LocalId) (want : Option Bool) (c : AttemptId)
    (err : Option Fault) : Prop extends s.Runs A want c where
  registered : s.identity = some l →
    (s.locals l).cleanup = some c ∧ (err = none → (s.cleanups c).removeRoot = false)

/-- What `cleanLocalIdentity` of `l`, run by `A`, claims. -/
def CleanPc.Claim (s : Slot) (A : Agent) (l : LocalId) (want : Option Bool) : CleanPc → Prop
  -- a purge or a retirement wants the root removed, an initialization wants it kept; the
  -- collection goroutine takes what it finds
  | .entry root | .join _ root => ∀ b ∈ want, root = b
  | .sweep c => s.Attempt A l want c
  | .claim c => s.Attempt A l want c ∧ (s.cleanups c).removeRoot = true ∧ s.disk.gc = none
  | .remove c => s.Attempt A l want c ∧ (s.cleanups c).removeRoot = true ∧ s.disk.dir = none
  | .inspect c =>
    s.Attempt A l want c ∧ s.disk.gc = none ∧
      ((s.cleanups c).removeRoot = true → s.disk.dir = none)
  | .inspectGc c | .forget c | .unlink c | .unregister c =>
    s.Attempt A l want c ∧ s.disk.gc = none ∧ s.disk.dir = none
  | .settle c err => s.Settling A l want c err
  | .ret err => err = none → want = some true → s.identity ≠ some l

variable {env : Env} {r : Reply} {s : Slot} {w : Write} {A B : Agent} {j : TaskId} {t : ThreadId}

theorem Slot.Attempt.agent_eq {l k : LocalId} {want want' : Option Bool} {c c' : AttemptId}
    (h : s.Attempt A l want c) (h' : s.Attempt B k want' c') : A = B := by
  obtain rfl : l = k := some.inj (h.identity.symm.trans h'.identity)
  obtain rfl : c = c' := some.inj (h.cleanup.symm.trans h'.cleanup)
  exact some.inj (h.owner.symm.trans h'.owner)

variable {l : LocalId} {want : Option Bool} {c : AttemptId}

theorem Slot.Runs.congr {s' : Slot} (h : s.Runs A want c) (hcleanups : s'.cleanups = s.cleanups)
    (hn : s'.nCleanups = s.nCleanups) : s'.Runs A want c := by
  obtain ⟨hrunning, howner, hborn, hroot⟩ := h
  rw [← hcleanups] at hrunning howner hroot
  rw [← hn] at hborn
  exact ⟨hrunning, howner, hborn, hroot⟩

theorem Slot.Attempt.settling {err : Option Fault} (h : s.Attempt A l want c)
    (herr : err = none → (s.cleanups c).removeRoot = false) : s.Settling A l want c err :=
  ⟨h.toRuns, fun _ => ⟨h.cleanup, herr⟩⟩

theorem Slot.attempt_begin {root : Bool}
    (hid : s.identity = some l) (hroot : ∀ b ∈ want, root = b) :
    (s.apply env (.beginCleanup l root A)).Attempt A l want s.nCleanups := by
  refine ⟨⟨by simp, by simp, by simp [Write.nCleanups], fun b hb => ?_⟩, hid, by simp⟩
  simpa using hroot b hb

/-- `cleanLocalIdentity` keeps its claim.  An initialization must find no earlier attempt, since it
would inherit the root removal. -/
theorem cleanStep_claim {pc pc' : CleanPc}
    (h : cleanStep r s A l pc = some (w, pc')) (hc : pc.Claim s A l want)
    (hfresh : want = some false → pc.wanted = true → (s.locals l).cleanup = none) :
    pc'.Claim (s.apply env w) A l want := by
  revert h
  fun_cases cleanStep r s A l pc <;> intro h <;> cases h
  case case1.refl hid _ _ => exact attempt_begin hid hc
  case case4.refl root hid c hcleanup _ _ =>
    refine attempt_begin hid fun b hb => ?_
    cases b with
    | true => simp [show root = true from hc true hb]
    | false => rw [hfresh hb rfl] at hcleanup; cases hcleanup
  case case6.refl hid => exact fun _ _ => hid
  case case12.refl hroot =>
    exact ⟨⟨hc.toRuns.congr rfl rfl, hc.identity, hc.cleanup⟩, hroot, rfl⟩
  case case13.refl hroot =>
    exact ⟨⟨hc.toRuns.congr rfl rfl, hc.identity, hc.cleanup⟩, rfl, fun h => absurd h hroot⟩
  case case15.refl =>
    obtain ⟨hc, hroot, -⟩ := hc
    exact ⟨⟨hc.toRuns.congr rfl rfl, hc.identity, hc.cleanup⟩, hroot, rfl⟩
  case case17.refl =>
    obtain ⟨hc, -, hdir⟩ := hc
    exact ⟨⟨hc.toRuns.congr rfl rfl, hc.identity, hc.cleanup⟩, rfl, fun _ => hdir⟩
  case case19.refl hdir => exact ⟨hc.1, hc.2.1, hdir⟩
  case case20.refl hdir =>
    refine hc.1.settling fun _ => ?_
    by_contra hroot
    exact hdir (hc.2.2 (by simpa using hroot))
  case case23.refl hgc => exact absurd hc.2.1 hgc
  case case28.refl =>
    obtain ⟨hc, -, -⟩ := hc
    exact ⟨hc.toRuns.congr rfl rfl, by simp [Write.identity, hc.identity]⟩
  case case29.refl c err =>
    intro herr hwant hid
    have hkept := (hc.registered hid).2 herr
    rw [hc.root true hwant] at hkept
    cases hkept
  all_goals first
    | exact hc
    | (intro herr; cases herr)
    | exact hc.settling (by simp)
    | exact hc.1.settling (by simp)

/-- The write leaves the four maps that are keyed by name alone. -/
structure Write.KeepsMaps (w : Write) (s : Slot) : Prop where
  bed : w.bed s = s.bed
  initialization : w.initialization s = s.initialization
  purge : w.purge s = s.purge
  retirement : w.retirement s = s.retirement

variable {pc pc' : TeardownPc}

theorem teardownStep_maps (h : teardownStep env r s j pc = some (w, pc')) :
    w.KeepsMaps s ∧ w.identity s = s.identity := by
  revert h
  fun_cases teardownStep env r s j pc <;> intro h <;> cases h <;> exact ⟨⟨rfl, rfl, rfl, rfl⟩, rfl⟩

theorem persistStep_maps {pc pc' : PersistPc} (h : persistStep r s A j pc = some (w, pc')) :
    w.KeepsMaps s ∧ w.identity s = s.identity := by
  revert h
  fun_cases persistStep r s A j pc <;> intro h <;> cases h <;> exact ⟨⟨rfl, rfl, rfl, rfl⟩, rfl⟩

/-- What a step of `cleanLocalIdentity` leaves alone.  Only its last step but one touches the
identity and its phase. -/
theorem cleanStep_maps {q q' : CleanPc} (h : cleanStep r s A l q = some (w, q')) :
    w.KeepsMaps s ∧
      (w.identity s = s.identity ∧ (∀ k, w.phase s k = (s.locals k).lifecycle.phase) ∧
          (q'.ended = false → q.ended = false) ∧ (q'.wanted = true → q.wanted = true ∧ w = .skip) ∨
        w = .unregisterIdentity l ∧ ∃ c, q = .unregister c ∧ q' = .settle c none) := by
  revert h
  fun_cases cleanStep r s A l q <;> intro h <;> cases h <;>
    refine ⟨⟨rfl, rfl, rfl, rfl⟩, ?_⟩ <;>
    simp [Write.identity, Write.phase, CleanPc.ended, CleanPc.wanted]

theorem teardownFails_silent (b : Bool) (err : Fault) : (teardownFails b err).silent = b := by
  cases b <;> rfl

theorem teardownStep_silent (h : teardownStep env r s j pc = some (w, pc'))
    (hs : pc.silent = true) (hphase : s.phase j = .initializing) : pc'.silent = true := by
  revert h
  fun_cases teardownStep env r s j pc <;> intro h <;> cases h
  all_goals first
    | (rw [teardownFails_silent]; exact hs)
    | simp_all [TeardownPc.silent]

theorem teardownStep_torn (h : teardownStep env r s j pc = some (w, pc'))
    (hc : pc.torn = true → (s.alloc j).runtimeClosed = true) (ht : pc'.torn = true) :
    (w.alloc env s j).runtimeClosed = true := by
  revert h
  fun_cases teardownStep env r s j pc <;> intro h <;> cases h
  all_goals first
    | (unfold teardownFails at ht; split at ht <;> cases ht)
    | simp_all [TeardownPc.torn, Write.alloc]

/-! ## Claims of the initializations -/

/-- `finishInitialization` may have forgotten the identity already. -/
def TaskPc.forgetful : TaskPc → Bool
  | .finishClean _ _ q => q.ended
  | .finishFinal _ _ | .finished => true
  | _ => false

/-- The initialization has not begun to clean its identity. -/
def TaskPc.uncleaned : TaskPc → Bool
  | .finishClean _ _ q => q.wanted
  | .finishFinal _ _ | .finished => false
  | _ => true

def TaskPc.torn : TaskPc → Bool
  | .undo _ q | .rollback _ q => q.torn
  | .unlock _ none | .drop _ => true
  | _ => false

/-- What initialization `i` claims. -/
structure TaskPc.Claim (s : Slot) (i : TaskId) (pc : TaskPc) : Prop where
  silent : ∀ q, pc.tearing = some q → q.silent = true
  registered : pc.forgetful = false → s.identity = some (s.task i).identity
  owned : pc.out = false → s.identity = some (s.task i).identity → s.Owned i
  live : pc.role = .live → s.retirement = none
  rolling : pc.role = .rolling → s.retirement = some i
  closing : pc.role = .closing → s.identity = some (s.task i).identity →
    s.retirement = none ∨ s.retirement = some i ∧ pc.cleaning = none
  gone : pc.role = .closing → s.identity ≠ some (s.task i).identity → s.retirement ≠ some i
  uncleaned : pc.uncleaned = true → (s.locals (s.task i).identity).cleanup = none
  cleaning : ∀ q, pc.cleaning = some q → q.Claim s (.task i) (s.task i).identity (some false)
  torn : pc.torn = true → (s.alloc i).runtimeClosed = true

/-- What an initialization that has not begun to clean relies on, in every role. -/
structure Slot.Held (s : Slot) (i : TaskId) : Prop where
  owned : s.Owned i
  identity : s.identity = some (s.task i).identity
  cleanup : (s.locals (s.task i).identity).cleanup = none

/-- What the retirement of the name is, by the role of its owner. -/
def Slot.RetirementOf (s : Slot) (i : TaskId) : Role → Prop
  | .live => s.retirement = none
  | .rolling => s.retirement = some i
  | .closing => s.retirement = none ∨ s.retirement = some i
  | .out => True

variable {i : TaskId} {pc pc' : TaskPc}

theorem TaskPc.Claim.held (h : pc.Claim s i) (hpc : pc.uncleaned = true) : s.Held i := by
  have hforget : pc.forgetful = false := by
    cases pc <;> try rfl
    all_goals first | cases hpc | (rename_i q; cases q <;> first | rfl | cases hpc)
  have hout : pc.out = false := by
    cases pc <;> first | rfl | cases hpc
  have hid := h.registered hforget
  exact ⟨h.owned hout hid, hid, h.uncleaned hpc⟩

theorem Slot.Held.claim (h : s.Held i) (hret : s.RetirementOf i pc.role) (hcl : pc.cleaning = none)
    (hsilent : ∀ q, pc.tearing = some q → q.silent = true)
    (htorn : pc.torn = true → (s.alloc i).runtimeClosed = true) : pc.Claim s i where
  silent := hsilent
  registered _ := h.identity
  owned _ _ := h.owned
  live hrole := by rwa [hrole] at hret
  rolling hrole := by rwa [hrole] at hret
  closing hrole _ := by
    rw [hrole] at hret
    exact hret.imp id fun h => ⟨h, hcl⟩
  gone _ hid := absurd h.identity hid
  uncleaned _ := h.cleanup
  cleaning q hq := by rw [hcl] at hq; cases hq
  torn := htorn

theorem Slot.Held.apply (h : s.Held i) (hi : i < s.nTasks) (hbed : w.bed s = s.bed)
    (hini : w.initialization s = s.initialization) (hid : w.identity s = s.identity)
    (hphase : w.phase s (s.task i).identity = .initializing)
    (hclean : w.cleanup s (s.task i).identity = (s.locals (s.task i).identity).cleanup) :
    (s.apply env w).Held i := by
  have htask := Write.task_identity s i w hi.ne
  refine ⟨⟨?_, ?_, ?_⟩, ?_, ?_⟩
  · rw [apply_initialization, hini, h.owned.initialization]
  · simp only [phase, lifecycle, apply_task, apply_phase, htask, hphase]
  · rw [apply_bed, hbed, h.owned.bed]
  · rw [apply_identity, hid, apply_task, htask, h.identity]
  · rw [apply_task, htask, apply_cleanup, hclean, h.cleanup]

theorem TaskPc.Claim.held_step (hc : pc.Claim s i) (h : taskStep env r s i pc = some (w, pc'))
    (hi : i < s.nTasks) (hun : pc.uncleaned = true) (hcl : pc.cleaning = none)
    (hpub : ∀ ready, w ≠ .publish i ready) : (s.apply env w).Held i := by
  have hheld := hc.held hun
  have hphase : (s.locals (s.task i).identity).lifecycle.phase = .initializing := hheld.owned.phase
  have hp := taskStep_permit h
  cases w with
  | publish k ready =>
    obtain ⟨rfl, -⟩ := hp
    exact absurd rfl (hpub ready)
  | setLifecycle l next =>
    obtain ⟨rfl, ⟨hnext, -⟩ | ⟨-, q, hq, hreports⟩⟩ := hp
    · exact hheld.apply hi rfl rfl rfl (by simp [Write.phase, hnext]) rfl
    · have := hc.silent q hq
      cases q <;> simp_all [TeardownPc.silent, TeardownPc.reports]
  | finishInitialization k err delete st =>
    obtain ⟨-, reason, rfl, -⟩ := hp
    cases hun
  | unregisterIdentity l =>
    obtain ⟨-, c, hclean⟩ := hp
    rw [hcl] at hclean
    cases hclean
  | beginCleanup l root A =>
    obtain ⟨-, -, -, -, q, hclean, -⟩ := hp
    rw [hcl] at hclean
    cases hclean
  | settleCleanup l c err =>
    obtain ⟨-, hclean⟩ := hp
    rw [hcl] at hclean
    cases hclean
  | _ => first | exact hheld.apply hi rfl rfl rfl hphase rfl | exact hp.elim

theorem stageStep_retirement {stage : Stage} (h : stageStep env s i stage = (w, pc')) :
    w.retirement s = s.retirement := by
  revert h
  fun_cases stageStep env s i stage <;> intro h <;> cases h <;> rfl

variable {reason : String}

theorem reportWrite_retirement : (reportWrite env s i reason).retirement s = s.retirement := by
  unfold reportWrite
  split <;> rfl

attribute [local simp] Slot.RetirementOf role

theorem taskStep_retirement (h : taskStep env r s i pc = some (w, pc'))
    (hret : s.RetirementOf i pc.role) (hcl : pc.cleaning = none) :
    (s.apply env w).RetirementOf i pc'.role := by
  revert h
  fun_cases taskStep env r s i pc <;> intro h
  case case6 stage _ =>
    have hkeep := stageStep_retirement (some.inj h)
    change s.retirement = none at hret
    rcases stageStep_next (some.inj h) with ⟨_, rfl⟩ | rfl | rfl <;>
      simpa [hkeep] using hret
  case case3 | case13 =>
    cases h
    change s.retirement = none at hret
    simpa [reportWrite_retirement] using hret
  all_goals first
    | (obtain ⟨q, hsub, rfl⟩ := lift_eq_some.mp h
       simpa [(teardownStep_maps hsub).1.retirement] using hret)
    | (cases hcl; done)
    | (cases h <;> simp_all [Write.retirement])

attribute [local simp] TeardownPc.silent TeardownPc.torn tearing torn

theorem taskStep_tearing (h : taskStep env r s i pc = some (w, pc')) (hc : pc.Claim s i)
    (hphase : s.phase i = .initializing) :
    (∀ q, pc'.tearing = some q → q.silent = true) ∧
      (pc'.torn = true → (w.alloc env s i).runtimeClosed = true) := by
  revert h
  fun_cases taskStep env r s i pc <;> intro h
  case case6 stage _ =>
    rcases stageStep_next (some.inj h) with ⟨_, rfl⟩ | rfl | rfl <;> simp
  case case21 cleanupErr =>
    cases h
    refine ⟨by simp, fun ht => ?_⟩
    cases cleanupErr with
    | none => exact hc.torn rfl
    | some f => cases ht
  case case23 =>
    cases h
    exact ⟨by simp, fun _ => by simpa [Write.alloc] using hc.torn rfl⟩
  all_goals first
    | (obtain ⟨q, hsub, rfl⟩ := lift_eq_some.mp h
       refine ⟨?_, teardownStep_torn hsub hc.torn⟩
       rintro _ ⟨⟩
       exact teardownStep_silent hsub (hc.silent _ rfl) hphase)
    | (obtain ⟨q, -, rfl⟩ := lift_eq_some.mp h
       simp)
    | (cases h <;> simp)

theorem TaskPc.Claim.of_out (h : pc.out = true) : pc.Claim s i := by
  cases pc with
  | finishFinal err reason =>
    cases err with
    | none => constructor <;> exact nofun
    | some f => cases h
  | finished => constructor <;> exact nofun
  | _ => cases h

theorem Slot.Held.claim_clean {err : Fault} (h : s.Held i)
    (hret : s.retirement = none) : (finishClean err reason (.entry false)).Claim s i where
  silent := nofun
  registered _ := h.identity
  owned _ _ := h.owned
  live := nofun
  rolling := nofun
  closing _ _ := .inl hret
  gone _ hid := absurd h.identity hid
  uncleaned _ := h.cleanup
  cleaning := by
    rintro _ ⟨⟩ b hb
    exact (some.inj hb)
  torn := nofun

theorem Write.unregister_ne : (Write.unregisterIdentity l).identity s ≠ some l := by
  simp only [Write.identity]
  split_ifs with h
  · simp
  · exact h

theorem TaskPc.Claim.clean {err : Fault} {q q' : CleanPc}
    (hc : (finishClean err reason q).Claim s i) (hi : i < s.nTasks)
    (h : cleanStep r s (.task i) (s.task i).identity q = some (w, q')) :
    (finishClean err reason q').Claim (s.apply env w) i := by
  have htask : (w.task s i).identity = (s.task i).identity := Write.task_identity s i w hi.ne
  obtain ⟨⟨hbed, hini, -, hret⟩, hrest⟩ := cleanStep_maps h
  -- while the identity is registered, nothing is retired under the name
  have hnone : s.identity = some (s.task i).identity → s.retirement = none := fun hid =>
    (hc.closing rfl hid).elim id fun hsome => by cases hsome.2
  constructor
  case silent | live | rolling | torn => exact nofun
  case registered =>
    intro hforget
    rcases hrest with ⟨hid, -, hback, -⟩ | ⟨-, c, -, rfl⟩
    · rw [apply_identity, hid, apply_task, htask]
      exact hc.registered (hback hforget)
    · cases hforget
  case owned =>
    intro _ hid'
    rw [apply_task, htask, apply_identity] at hid'
    rcases hrest with ⟨hid, hphase, -, -⟩ | ⟨rfl, -⟩
    · have hown := hc.owned rfl (hid ▸ hid')
      refine ⟨?_, ?_, ?_⟩
      · rw [apply_initialization, hini, hown.initialization]
      · simpa [phase, lifecycle, htask, hphase] using hown.phase
      · rw [apply_bed, hbed, hown.bed]
    · exact absurd hid' Write.unregister_ne
  case closing =>
    intro _ hid'
    rw [apply_task, htask, apply_identity] at hid'
    rw [apply_retirement, hret]
    rcases hrest with ⟨hid, -⟩ | ⟨rfl, -⟩
    · exact .inl (hnone (hid ▸ hid'))
    · exact absurd hid' Write.unregister_ne
  case gone =>
    intro _ _
    rw [apply_retirement, hret]
    by_cases hid : s.identity = some (s.task i).identity
    · simp [hnone hid]
    · exact hc.gone rfl hid
  case uncleaned =>
    intro hwanted
    rcases hrest with ⟨-, -, -, hback⟩ | ⟨-, c, -, rfl⟩
    · obtain ⟨hq, rfl⟩ := hback hwanted
      exact hc.uncleaned hq
    · cases hwanted
  case cleaning =>
    rintro _ ⟨⟩
    rw [apply_task, htask]
    exact cleanStep_claim h (hc.cleaning q rfl) fun _ hwanted => hc.uncleaned hwanted

theorem TaskPc.Claim.finish {err : Fault} {f : Option Fault}
    (hc : (finishClean err reason (.ret f)).Claim s i) :
    (finishFinal (Fault.join (some err) f) reason).Claim s i := by
  obtain ⟨g, hg⟩ : ∃ g, Fault.join (some err) f = some g := by cases f <;> exact ⟨_, rfl⟩
  rw [hg]
  constructor
  case owned => exact fun _ hid => hc.owned rfl hid
  case closing => exact fun _ hid => (hc.closing rfl hid).imp id fun h => ⟨h.1, rfl⟩
  case gone => exact fun _ hid => hc.gone rfl hid
  all_goals exact nofun

theorem taskStep_enter {q : CleanPc} (h : taskStep env r s i pc = some (w, pc'))
    (hcl : pc.cleaning = none) (hcl' : pc'.cleaning = some q) :
    w = .skip ∧ s.retirement = none ∧
    ∃ err reason, pc' = .finishClean err reason (.entry false) := by
  revert h
  fun_cases taskStep env r s i pc <;> intro h
  case case6 stage _ =>
    rcases stageStep_next (some.inj h) with ⟨_, rfl⟩ | rfl | rfl <;> cases hcl'
  case case27 hret =>
    cases h
    exact ⟨rfl, by simpa using hret, _, _, rfl⟩
  all_goals first
    | (cases hcl; done)
    | (obtain ⟨q, -, rfl⟩ := lift_eq_some.mp h
       cases hcl')
    | (cases h <;> cases hcl')

theorem taskStep_claim (h : taskStep env r s i pc = some (w, pc')) (hc : pc.Claim s i)
    (hi : i < s.nTasks) : pc'.Claim (s.apply env w) i := by
  by_cases hun : pc.uncleaned = true ∧ pc.cleaning = none
  · -- preparing, rolling back, or about to clean: the name is held all along
    obtain ⟨hun, hcl⟩ := hun
    have hheld := hc.held hun
    have hret : s.RetirementOf i pc.role := by
      cases hrole : pc.role with
      | live => exact hc.live hrole
      | rolling => exact hc.rolling hrole
      | closing => exact (hc.closing hrole hheld.identity).imp id And.left
      | out => trivial
    by_cases hpub : ∃ ready, w = .publish i ready
    · obtain ⟨ready, rfl⟩ := hpub
      obtain ⟨-, rfl, -⟩ := taskStep_permit h
      simp only [taskStep] at h
      split_ifs at h <;> cases h
      exact .of_out rfl
    · have hheld' : (s.apply env w).Held i := hc.held_step h hi hun hcl (by simpa using hpub)
      cases hcl' : pc'.cleaning with
      | none =>
        obtain ⟨hsilent, htorn⟩ := taskStep_tearing h hc hheld.owned.phase
        exact hheld'.claim (taskStep_retirement h hret hcl) hcl' hsilent (by simpa using htorn)
      | some q =>
        obtain ⟨rfl, hnone, err, reason, rfl⟩ := taskStep_enter h hcl hcl'
        exact hheld.claim_clean hnone
  · cases pc with
    | finishClean err reason q =>
      by_cases hq : ∃ f, q = .ret f
      · obtain ⟨f, rfl⟩ := hq
        cases h
        exact hc.finish
      · obtain ⟨q', hsub, rfl⟩ : ∃ q', cleanStep r s (.task i) (s.task i).identity q =
            some (w, q') ∧ pc' = .finishClean err reason q' := by
          cases q <;> first | exact absurd ⟨_, rfl⟩ hq | exact lift_eq_some.mp h
        exact hc.clean hi hsub
    | finishFinal err reason =>
      cases h
      exact .of_out rfl
    | finished => cases h
    | _ => exact absurd ⟨rfl, rfl⟩ hun

end Hostel.Bed
