/-
# Hostel.Bed.Claims — what the other goroutines may rely on where they stand.

An eviction past its fence relies on the Bed being an entry of the name still, a purge past its wait
on no initialization being left, a cleanup on being the one that runs.  Each claim is a function of
the program counter; this module shows what a step of the goroutine itself adds to it.
-/
import Hostel.Bed.Ownership

namespace Hostel.Bed

open Store Thread Option Write

/-! ## What a program counter is about -/

def RetirePc.passed : RetirePc → Bool
  | .teardown _ | .clean _ | .drop => true
  | _ => false

def RetirePc.torn : RetirePc → Bool
  | .teardown q => q.torn
  | .clean _ | .drop => true
  | _ => false

/-- The attempt holds `cleanupMu` of a Bed that was resident when it passed its fence. -/
def EvictPc.entered : EvictPc → Option TaskId
  | .stop j _ | .quiesce j _ | .persist j _ _ | .decide j _ => some j
  | .recover j x | .restart j x | .resume j x | .readiness j x => whenHeld x.locked j
  | _ => none

/-- The attempt recovers a Bed whose `cleanupMu` it no longer holds, which never happens. -/
def EvictPc.stray : EvictPc → Bool
  | .restart _ x | .resume _ x | .readiness _ x => !x.locked
  | _ => false

@[inherit_doc EvictPc.entered]
def Thread.entered : Thread → Option TaskId
  | .evict _ pc => pc.entered
  | _ => none

@[inherit_doc EvictPc.moved]
def Thread.moved : Thread → Option TaskId
  | .evict _ pc => pc.moved
  | _ => none

@[inherit_doc EvictPc.stray]
def Thread.stray : Thread → Bool
  | .evict _ pc => pc.stray
  | _ => false

/-- The allocation in `retirements` that the goroutine works on, with its `cleanupMu` held. -/
def Thread.retired : Thread → Option TaskId
  | .evict _ (.handoff j) => some j
  | .evict _ (.retire j _ pc) | .close (.retire j _ pc) => whenHeld pc.passed j
  | _ => none

def Thread.torn : Thread → Option TaskId
  | .evict _ (.retire j _ pc) | .close (.retire j _ pc) => whenHeld pc.torn j
  | .purge (.teardown j _ _ q) => whenHeld q.torn j
  | .purge (.delete b _ _) | .purge (.clean b _ _) | .purge (.drop b) => b
  | _ => none

def Thread.fenced : Thread → Bool
  | .purge .begin | .purge (.wait _) | .purge (.returned _) => false
  | .purge _ => true
  | _ => false

def Thread.shuts : Thread → Bool
  | .close .returned => false
  | .close _ => true
  | _ => false

/-- The initialization a purge or a shutdown waits for. -/
def Thread.awaiting : Thread → Option TaskId
  | .purge (.await i _ _) | .close (.await i) => some i
  | _ => none

def PurgePc.succeeded : PurgePc → Bool
  | .unlockPersist _ none | .unlockCleanup _ none | .finish none => true
  | _ => false

/-- A purge or a shutdown that has waited for the initialization of the name. -/
def Thread.sealed : Thread → Bool
  | .purge (.take _ _) | .purge (.acquire _ _ _) | .purge (.lockPersist _ _ _)
  | .purge (.teardown _ _ _ _) | .purge (.delete _ _ _) | .purge (.clean _ _ _)
  | .purge (.drop _) => true
  | .purge pc => pc.succeeded
  | .close .cancel | .close (.await _) | .close .returned => false
  | .close _ => true
  | _ => false

/-- The allocation a purge has taken over, `some none` if the name had none. -/
def Thread.took : Thread → Option (Option TaskId)
  | .purge (.acquire j _ _) | .purge (.lockPersist j _ _) | .purge (.teardown j _ _ _) =>
    some (some j)
  | .purge (.delete b _ _) | .purge (.clean b _ _) | .purge (.drop b) => some b
  | .purge pc => if pc.succeeded then some none else none
  | _ => none

/-- The local identity a purge cleans. -/
def Thread.knows : Thread → Option LocalId
  | .purge (.resolve l) | .purge (.choose l _) | .purge (.cancel l _) | .purge (.await _ l _)
  | .purge (.take l _) | .purge (.acquire _ l _) | .purge (.lockPersist _ l _)
  | .purge (.teardown _ l _ _) | .purge (.delete _ l _) | .purge (.clean _ l _) => some l
  | _ => none

def Thread.erased : Thread → Bool
  | .purge (.drop _) => true
  | .purge pc => pc.succeeded
  | _ => false

/-- The local identity the collection goroutine is busy with. -/
def Thread.collects : Thread → Option LocalId
  | .collect _ (.ret _) => none
  | .collect l _ => some l
  | _ => none

/-- The local identity whose cleanup the collection goroutine is about to take over. -/
def Thread.pending : Thread → Option LocalId
  | .collect l pc => if pc.wanted then some l else none
  | _ => none

/-- What the goroutine asks a cleanup to do with the root directory. -/
def Thread.want : Thread → Option Bool
  | .collect _ _ => none
  | _ => some true

/-! ## The claims -/

/-- What goroutine `t` claims.  `closed` says whether shutdown has begun. -/
structure Thread.Claim (closed : Bool) (s : Slot) (t : ThreadId) (th : Thread) : Prop where
  entered : ∀ j, th.entered = some j →
    (s.task j).pc.out = true ∧ (s.bed = some j ∨ s.retirement = some j)
  moved : ∀ j, th.moved = some j → (s.task j).pc.out = true ∧ s.bed ≠ some j
  steady : th.stray = false
  retired : ∀ j, th.retired = some j → (s.task j).pc.out = true ∧ s.retirement = some j
  torn : ∀ j, th.torn = some j → (s.alloc j).runtimeClosed = true
  fenced : th.fenced = true → s.purge = some t
  shuts : th.shuts = true → closed = true
  awaiting : ∀ i, th.awaiting = some i → ∀ k, s.Owner k → k = i
  sealed : th.sealed = true → s.Unowned
  took : ∀ b, th.took = some b → s.bed = none ∧ (s.retirement = none ∨ s.retirement = b)
  knows : ∀ l, th.knows = some l → l < s.nLocals ∧ (s.identity = none ∨ s.identity = some l)
  erased : th.erased = true → s.identity = none
  cleaning : ∀ l q, th.cleaning s = some (l, q) → q.Claim s (.thread t) l th.want
  collects : ∀ l, th.collects = some l → s.collector = some t ∧ l < s.nLocals ∧
    (s.identity = some l → s.Unowned ∧ s.bed = none ∧ s.retirement = none)
  pending : ∀ l, th.pending = some l → s.identity = some l → (s.locals l).cleanup ≠ none

variable {env : Env} {r : Reply} {s : Slot} {w : Write} {A : Agent} {j : TaskId} {t : ThreadId}

/-! ## Evictions -/

theorem retireStep_maps {pc pc' : RetirePc} (h : retireStep env r s A j pc = some (w, pc')) :
    w.KeepsMaps s ∨ pc = .drop ∧ w = .deleteRetirement := by
  revert h
  fun_cases retireStep env r s A j pc <;> intro h
  all_goals first
    | (obtain ⟨q, hsub, rfl⟩ := lift_eq_some.mp h
       first | exact .inl (teardownStep_maps hsub).1 | exact .inl (cleanStep_maps hsub).1)
    | (cases h <;> first | exact .inl ⟨rfl, rfl, rfl, rfl⟩ | exact .inr ⟨rfl, rfl⟩)

variable {th th' : Thread}

theorem threadStep_evicts (h : threadStep env r s t th = some (w, th')) :
    (th'.entered = some j → (th.entered = some j ∨ s.bed = some j) ∧ w.KeepsMaps s) ∧
    (th'.moved = some j → th.moved = some j ∧ w.bed s = s.bed ∨ w = .retire j) ∧
    (th'.stray = true → th.stray = true ∨ ∃ j, th.moved = some j ∧ s.bed = some j) := by
  cases threadStep_inv h with
  | evict cutoff pc pc' hsub =>
    revert hsub
    fun_cases evictStep env r s t cutoff pc <;> intro hsub
    all_goals refine ⟨fun hj => ?_, fun hj => ?_, fun hs => ?_⟩
    case case12.refine_2 resident q _ =>
      obtain ⟨q', hretire, rfl⟩ := lift_eq_some.mp hsub
      have hbed : w.bed s = s.bed := by
        rcases retireStep_maps hretire with hmaps | ⟨-, rfl⟩
        · exact hmaps.bed
        · rfl
      cases resident with
      | true => exact .inl ⟨hj, hbed⟩
      | false => cases hj
    case case17.refine_1 hpass =>
      cases hsub
      cases hj
      exact ⟨.inr (evictionRefused_none hpass).1, ⟨rfl, rfl, rfl, rfl⟩⟩
    all_goals first
      | (obtain ⟨q, hstep, rfl⟩ := lift_eq_some.mp hsub
         first | (cases hj; done) | cases hs | exact ⟨.inl hj, (persistStep_maps hstep).1⟩)
      | (cases hsub <;> first
          | (cases hj; done)
          | exact ⟨.inl hj, ⟨rfl, rfl, rfl, rfl⟩⟩
          | simp_all [moved, stray, EvictPc.moved, EvictPc.stray, bed])
  | _ => simp [entered, moved, stray]

/-! ## Retirements -/

theorem retireStep_passed {q q' : RetirePc} (h : retireStep env r s A j q = some (w, q'))
    (hp : q'.passed = true) :
    w.KeepsMaps s ∧ (q.passed = true ∨ q = .check ∧ s.retirement = some j) := by
  revert h
  fun_cases retireStep env r s A j q <;> intro h
  all_goals first
    | (obtain ⟨_, hsub, rfl⟩ := lift_eq_some.mp h
       first
         | exact ⟨(teardownStep_maps hsub).1, .inl rfl⟩
         | exact ⟨(cleanStep_maps hsub).1, .inl rfl⟩)
    | (cases h <;> cases hp <;> refine ⟨⟨rfl, rfl, rfl, rfl⟩, ?_⟩ <;>
        first | exact .inl rfl | exact .inr ⟨rfl, ‹_›⟩)

theorem Write.runtimeClosed (hj : j < s.nTasks) (h : (s.alloc j).runtimeClosed = true) :
    (w.alloc env s j).runtimeClosed = true := by
  have hne : j ≠ s.nTasks := hj.ne
  cases w <;> simp only [alloc] <;> first | exact h | skip
  case finishOperation => split_ifs <;> simpa using h
  all_goals split_ifs <;> first | exact h | rfl | contradiction

theorem retireStep_torn {q q' : RetirePc} (h : retireStep env r s A j q = some (w, q'))
    (hj : j < s.nTasks) (hc : q.torn = true → (s.alloc j).runtimeClosed = true)
    (ht : q'.torn = true) : (w.alloc env s j).runtimeClosed = true := by
  by_cases hq : q.torn = true
  · exact runtimeClosed hj (hc hq)
  · revert h
    fun_cases retireStep env r s A j q <;> intro h
    case case8 =>
      obtain ⟨q, hsub, rfl⟩ := lift_eq_some.mp h
      exact teardownStep_torn hsub hc ht
    all_goals first
      | exact absurd rfl hq
      | (cases h <;> cases ht)

theorem threadStep_retiring {q' : RetirePc} (h : threadStep env r s t th = some (w, th'))
    (hq : th'.retiring = some (j, q')) :
    q' = .acquire ∨ ∃ q, th.retiring = some (j, q) ∧
    retireStep env r s (.thread t) j q = some (w, q') := by
  cases threadStep_inv h with
  | evict cutoff pc _ hsub =>
    revert hsub
    fun_cases evictStep env r s t cutoff pc <;> intro hsub
    all_goals first
      | (obtain ⟨_, hstep, rfl⟩ := lift_eq_some.mp hsub; cases hq <;> exact .inr ⟨_, rfl, hstep⟩)
      | (cases hsub <;> cases hq <;> exact .inl rfl)
  | close pc _ hsub =>
    revert hsub
    fun_cases closeStep env r s t pc <;> intro hsub
    all_goals first
      | (obtain ⟨_, hstep, rfl⟩ := lift_eq_some.mp hsub; cases hq <;> exact .inr ⟨_, rfl, hstep⟩)
      | (cases hsub <;> cases hq <;> exact .inl rfl)
  | _ => cases hq

section

variable {q : RetirePc}

theorem Thread.of_retiring (h : th.retiring = some (j, q)) :
    (q.passed = true → th.retired = some j) ∧ (q.torn = true → th.torn = some j) ∧
      ∀ p, q = .clean p → th.cleaning s = some ((s.task j).identity, p) := by
  cases th with
  | evict cutoff pc | close pc =>
    cases pc <;> cases h
    exact ⟨by simp_all [retired], by simp_all [torn], by rintro p rfl; rfl⟩
  | _ => cases h

theorem Thread.retiring_of_retired (h : th.retired = some j) :
    (∃ cutoff, th = .evict cutoff (.handoff j)) ∨ ∃ q, th.retiring = some (j, q) ∧
    q.passed = true := by
  cases th with
  | evict cutoff pc | close pc => cases pc <;> simp_all [retired, retiring]
  | _ => cases h

theorem Thread.retiring_of_torn (h : th.torn = some j) :
    (∃ pc, th = .purge pc) ∨ ∃ q, th.retiring = some (j, q) ∧ q.torn = true := by
  cases th with
  | evict cutoff pc | close pc => cases pc <;> simp_all [torn, retiring]
  | purge pc => exact .inl ⟨pc, rfl⟩
  | _ => cases h

end

theorem threadStep_retired (h : threadStep env r s t th = some (w, th'))
    (hj : th'.retired = some j) :
    w = .retire j ∨ w.KeepsMaps s ∧
      (th.retired = some j ∨ th.retiring = some (j, .check) ∧ s.retirement = some j) := by
  obtain ⟨cutoff, rfl⟩ | ⟨q', hq', hp⟩ := retiring_of_retired hj
  · cases threadStep_inv h with
    | evict _ pc _ hsub =>
      revert hsub
      fun_cases evictStep env r s t cutoff pc <;> intro hsub
      all_goals first
        | (obtain ⟨_, _, ⟨⟩⟩ := lift_eq_some.mp hsub; done)
        | (cases hsub <;> exact .inl rfl)
  · obtain rfl | ⟨q, hq, hstep⟩ := threadStep_retiring h hq'
    · cases hp
    · obtain ⟨hmaps, hq' | ⟨rfl, hret⟩⟩ := retireStep_passed hstep hp
      · exact .inr ⟨hmaps, .inl ((of_retiring (s := s) hq).1 hq')⟩
      · exact .inr ⟨hmaps, .inr ⟨hq, hret⟩⟩

theorem Thread.torn_refs {th : Thread} (h : th.torn = some j) : j ∈ th.refs := by
  cases th with
  | evict cutoff pc => cases pc <;> simp_all [torn, refs, EvictPc.refs]
  | purge pc => cases pc <;> simp_all [torn, refs, PurgePc.refs]
  | close pc => cases pc <;> simp_all [torn, refs, ClosePc.refs]
  | _ => cases h

theorem threadStep_torn (h : threadStep env r s t th = some (w, th'))
    (hlt : j < s.nTasks) (hc : th.torn = some j → (s.alloc j).runtimeClosed = true)
    (hj : th'.torn = some j) : (w.alloc env s j).runtimeClosed = true := by
  by_cases hold : th.torn = some j
  · exact runtimeClosed hlt (hc hold)
  obtain ⟨pc', rfl⟩ | ⟨q', hq', hp⟩ := retiring_of_torn hj
  · cases threadStep_inv h with
    | purge pc _ hsub =>
      revert hsub
      fun_cases purgeStep env r s t pc <;> intro hsub
      case case27 =>
        obtain ⟨q, htear, rfl⟩ := lift_eq_some.mp hsub
        obtain ⟨hp, rfl⟩ := whenHeld_eq_some.mp hj
        exact teardownStep_torn htear (fun hq => hc (whenHeld_eq_some.mpr ⟨hq, rfl⟩)) hp
      all_goals first
        | (obtain ⟨_, _, rfl⟩ := lift_eq_some.mp hsub; exact absurd hj hold)
        | (cases hsub <;> first
            | exact absurd hj hold
            | (unfold purgeExit at hj; split at hj <;> cases hj))
  · obtain rfl | ⟨q, hq, hstep⟩ := threadStep_retiring h hq'
    · cases hp
    · exact retireStep_torn hstep hlt (fun ht => hc ((of_retiring (s := s) hq).2.1 ht)) hp

/-! ## Purges and shutdown -/

variable {q q' : PurgePc}

section

variable (h : purgeStep env r s t q = some (w, q'))
include h

theorem purgeStep_fenced (hf : (purge q').fenced = true) :
    (purge q).fenced = true ∧ w.purge s = s.purge ∨ w = .installFence t := by
  revert h
  fun_cases purgeStep env r s t q <;> intro h
  all_goals first
    | (obtain ⟨_, hsub, rfl⟩ := lift_eq_some.mp h
       first
         | exact .inl ⟨rfl, (teardownStep_maps hsub).1.purge⟩
         | exact .inl ⟨rfl, (cleanStep_maps hsub).1.purge⟩)
    | (cases h <;> first | exact .inl ⟨rfl, rfl⟩ | exact .inr rfl | cases hf)

theorem purgeStep_took {b : Option TaskId}
    (hc : ∀ b, (purge q).took = some b → s.bed = none ∧ (s.retirement = none ∨ s.retirement = b))
    (hb : (purge q').took = some b) :
    w.bed s = none ∧ (w.retirement s = none ∨ w.retirement s = b) := by
  revert h
  fun_cases purgeStep env r s t q <;> intro h
  case case17 =>
    cases h
    cases hb
    exact ⟨rfl, .inr rfl⟩
  case case18 =>
    cases h
    cases hb
    exact ⟨‹s.bed = none›, .inr ‹_›⟩
  case case19 =>
    cases h
    exact ⟨‹s.bed = none›, .inl ‹_›⟩
  case case28 | case32 =>
    cases h
    unfold purgeExit at hb
    split at hb <;> cases hb
  case case34 =>
    cases h
    exact ⟨(hc _ rfl).1, .inl rfl⟩
  case case35 err | case36 err =>
    cases h
    cases err <;> exact hc b hb
  all_goals first
    | (obtain ⟨_, hsub, rfl⟩ := lift_eq_some.mp h
       have hmaps : w.KeepsMaps s := by
         first | exact (teardownStep_maps hsub).1 | exact (cleanStep_maps hsub).1
       rw [hmaps.bed, hmaps.retirement]
       exact hc b hb)
    | (cases h <;> first | exact hc b hb | cases hb)

theorem purgeStep_knows {l : LocalId} (hg : Grounded s)
    (hc : (purge q).knows = some l → l < s.nLocals ∧ (s.identity = none ∨ s.identity = some l))
    (hl : (purge q').knows = some l) :
    l < w.nLocals s ∧ (w.identity s = none ∨ w.identity s = some l) := by
  revert h
  fun_cases purgeStep env r s t q <;> intro h
  case case6 =>
    cases h
    cases hl
    exact ⟨by simpa [nLocals] using hg.registered_lt, .inr rfl⟩
  case case27 =>
    obtain ⟨_, hsub, rfl⟩ := lift_eq_some.mp h
    rw [(teardownStep_maps hsub).2]
    exact ⟨(hc hl).1.trans_le (w.le_nLocals s), (hc hl).2⟩
  case case28 | case32 | case34 =>
    cases h
    unfold purgeExit at hl
    split at hl <;> cases hl
  case case33 =>
    obtain ⟨_, hsub, rfl⟩ := lift_eq_some.mp h
    refine ⟨(hc hl).1.trans_le (w.le_nLocals s), ?_⟩
    rcases (cleanStep_maps hsub).2 with ⟨hid, -⟩ | ⟨rfl, -⟩
    · rw [hid]
      exact (hc hl).2
    · simp only [identity]
      split_ifs
      · exact .inl rfl
      · exact (hc hl).2
  all_goals cases h <;> first | exact hc hl | cases hl

theorem purgeStep_erased (hc : (purge q).erased = true → s.identity = none)
    (hclean : ∀ b l, q = .clean b l (.ret none) → s.identity = none)
    (he : (purge q').erased = true) : w.identity s = none := by
  revert h
  fun_cases purgeStep env r s t q <;> intro h
  case case31 =>
    cases h
    exact hclean _ _ rfl
  case case28 | case32 =>
    cases h
    unfold purgeExit at he
    split at he <;> cases he
  case case35 err | case36 err =>
    cases h
    cases err <;> exact hc he
  all_goals first
    | (obtain ⟨_, _, rfl⟩ := lift_eq_some.mp h; cases he)
    | (cases h <;> first | exact hc rfl | cases he)

end

section

variable (h : threadStep env r s t th = some (w, th'))
include h

theorem threadStep_awaiting {i : TaskId} (hi : th'.awaiting = some i) :
    s.initialization = some i ∧ w = .cancelInitialization i .cancel := by
  cases threadStep_inv h with
  | purge pc _ hsub =>
    revert hsub
    fun_cases purgeStep env r s t pc <;> intro hsub
    case case13 htarget =>
      cases hsub
      cases hi
      exact ⟨(cancelTarget_inr.mp htarget).1, rfl⟩
    all_goals first
      | (obtain ⟨_, _, rfl⟩ := lift_eq_some.mp hsub; cases hi)
      | (cases hsub <;> first | cases hi | (unfold purgeExit at hi; split at hi <;> cases hi))
  | close pc _ hsub =>
    revert hsub
    fun_cases closeStep env r s t pc <;> intro hsub
    case case1 htarget =>
      cases hsub
      cases hi
      exact ⟨(initializing_eq_some.mp htarget).1, rfl⟩
    all_goals first
      | (obtain ⟨_, _, rfl⟩ := lift_eq_some.mp hsub; cases hi)
      | (cases hsub <;> cases hi)
  | _ => cases hi

/-- How a purge or a shutdown learns that no initialization is left. -/
theorem threadStep_sealed (hs : th'.sealed = true) :
    th.sealed = true ∨ (∀ i, s.initialization = some i → s.phase i ≠ .initializing) ∨
      ∃ i, th.awaiting = some i ∧ (s.task i).done = true := by
  cases threadStep_inv h with
  | purge pc _ hsub =>
    revert hsub
    fun_cases purgeStep env r s t pc <;> intro hsub
    case case11 htarget =>
      refine .inr (.inl fun i hi => ?_)
      simp [Slot.cancelTarget, hi] at htarget
    case case12 htarget => exact .inr (.inl (cancelTarget_inl_phase htarget))
    case case15 hdone => exact .inr (.inr ⟨_, rfl, hdone⟩)
    case case35 err | case36 err =>
      cases hsub
      cases err <;> exact .inl hs
    all_goals first
      | exact .inl rfl
      | (cases hsub <;> cases hs)
  | close pc _ hsub =>
    revert hsub
    fun_cases closeStep env r s t pc <;> intro hsub
    case case2 htarget =>
      refine .inr (.inl fun i hi hphase => ?_)
      rw [initializing_eq_some.mpr ⟨hi, hphase⟩] at htarget
      cases htarget
    case case4 hdone => exact .inr (.inr ⟨_, rfl, hdone⟩)
    all_goals first
      | exact .inl rfl
      | (cases hsub <;> cases hs)
  | _ => cases hs

theorem threadStep_shuts (hs : th'.shuts = true) : th.shuts = true := by
  cases th with
  | idle => cases h
  | close pc => cases pc <;> first | rfl | cases h
  | _ =>
    obtain ⟨_, _, rfl⟩ := lift_eq_some.mp h
    cases hs

/-! ## Cleanups -/

theorem threadStep_collects {l : LocalId} (hl : th'.collects = some l) :
    th.collects = some l ∧ (th'.pending = some l → th.pending = some l ∧ w = .skip) ∧
      ∃ q q', cleanStep r s (.thread t) l q = some (w, q') := by
  cases threadStep_inv h with
  | collect k q q' hsub =>
    obtain rfl : k = l := by cases q' <;> first | exact some.inj hl | cases hl
    have hcol : (collect k q).collects = some k := by
      cases q <;> first | rfl | cases hsub
    refine ⟨hcol, fun hp => ?_, q, q', hsub⟩
    have hwanted : q'.wanted = true := by
      by_contra hno
      simp [pending, hno] at hp
    rcases (cleanStep_maps hsub).2 with ⟨-, -, -, hback⟩ | ⟨-, c, -, rfl⟩
    · obtain ⟨hq, rfl⟩ := hback hwanted
      exact ⟨by simp [pending, hq], rfl⟩
    · cases hwanted
  | _ => cases hl

end

theorem retireStep_cleaning {p p' : RetirePc} {q' : CleanPc}
    (h : retireStep env r s A j p = some (w, p'))
    (hc : ∀ q, p = .clean q → q.Claim s A (s.task j).identity (some true)) (hp : p' = .clean q') :
    q'.Claim (s.apply env w) A (s.task j).identity (some true) := by
  revert h
  fun_cases retireStep env r s A j p <;> intro h
  case case6 =>
    cases h
    cases hp
    exact fun b hb => some.inj hb
  case case11 =>
    obtain ⟨_, hsub, rfl⟩ := lift_eq_some.mp h
    cases hp
    exact cleanStep_claim hsub (hc _ rfl) (by simp)
  all_goals first
    | (obtain ⟨_, _, rfl⟩ := lift_eq_some.mp h; cases hp)
    | (cases h <;> cases hp)

theorem threadStep_cleaning {l : LocalId} {q' : CleanPc}
    (h : threadStep env r s t th = some (w, th'))
    (hc : ∀ l q, th.cleaning s = some (l, q) → q.Claim s (.thread t) l th.want)
    (hl : th'.cleaning s = some (l, q')) : q'.Claim (s.apply env w) (.thread t) l th'.want := by
  cases threadStep_inv h with
  | evict _ _ pc' hsub | close _ pc' hsub =>
    cases pc' <;> try cases hl
    case retire p' =>
      cases p' <;> cases hl
      obtain hstart | ⟨p, hp, hstep⟩ := threadStep_retiring h rfl
      · cases hstart
      · exact retireStep_cleaning hstep (fun q hq => hc _ q ((of_retiring hp).2.2 q hq)) rfl
  | purge pc pc' hsub =>
    revert hsub
    fun_cases purgeStep env r s t pc <;> intro hsub
    case case29 | case30 =>
      cases hsub
      cases hl
      exact fun b hb => some.inj hb
    case case33 =>
      obtain ⟨_, hclean, rfl⟩ := lift_eq_some.mp hsub
      cases hl
      exact cleanStep_claim hclean (hc _ _ rfl) (by simp [want])
    all_goals first
      | (obtain ⟨_, _, rfl⟩ := lift_eq_some.mp hsub; cases hl)
      | (cases hsub <;> first | cases hl | (unfold purgeExit at hl; split at hl <;> cases hl))
  | collect k q _ hsub =>
    cases hl
    exact cleanStep_claim hsub (hc _ _ rfl) (by simp [want])
  | _ => cases hl

end Hostel.Bed
