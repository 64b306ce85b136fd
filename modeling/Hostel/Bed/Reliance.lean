/-
# Hostel.Bed.Reliance — the custody of a name holds in every run.

The claims of the other goroutines are stable under a step of somebody else, by `Custody`; the steps
of their own are put together, and the invariant is carried along every run in which no rollback is
taken over.
-/
import Hostel.Bed.Custody

namespace Hostel.Bed

open Store Logic Slot Thread

variable {env : Env} {r : Reply} {s : Slot} {a : Act} {w : Write} {m : Move} {closed : Bool}
  {i j : TaskId} {t : ThreadId} {A : Option Agent} {l : LocalId}

/-! ## Claims and moves -/

theorem CleanPc.Claim.move {q : CleanPc} {B : Agent} {want : Option Bool} (h : q.Claim s B l want) :
    q.Claim (s.move m) B l want := by
  have hatt : ∀ {c}, s.Attempt B l want c → (s.move m).Attempt B l want c := fun ha =>
    ⟨ha.toRuns.congr (by simp) (by simp), by simpa using ha.identity, by simpa using ha.cleanup⟩
  cases q with
  | sweep c => exact hatt h
  | settle c err =>
    exact ⟨h.toRuns.congr (by simp) (by simp), by simpa using h.registered⟩
  | entry root | join c root => exact h
  | ret err => simpa [CleanPc.Claim] using h
  | _ => exact ⟨hatt h.1, by simpa using h.2⟩

variable {th : Thread}

theorem TaskPc.Claim.move {pc : TaskPc} (h : pc.Claim s i) : pc.Claim (s.move m) i where
  silent := h.silent
  registered := by simpa using h.registered
  owned hout hid := by
    have ho := h.owned hout (by simpa using hid)
    exact ⟨by simpa using ho.initialization, by simpa [phase, lifecycle] using ho.phase,
      by simpa using ho.bed⟩
  live := by simpa using h.live
  rolling := by simpa using h.rolling
  closing := by simpa using h.closing
  gone := by simpa using h.gone
  uncleaned := by simpa using h.uncleaned
  cleaning q hq := by simpa using (h.cleaning q hq).move
  torn := by simpa using h.torn

/-! ## What the other goroutines hold on to -/

theorem Thread.entered_held (h : th.entered = some j) : th.cleanupHeld = some j := by
  cases th with
  | evict cutoff pc => cases pc <;> first | exact h | cases h
  | _ => cases h

theorem Thread.retired_held (h : th.retired = some j) : th.cleanupHeld = some j := by
  cases th with
  | evict cutoff pc =>
    cases pc with
    | retire k resident p => cases p <;> first | exact h | cases h
    | handoff k => exact h
    | _ => cases h
  | close pc =>
    cases pc with
    | retire k todo p => cases p <;> first | exact h | cases h
    | _ => cases h
  | _ => cases h

theorem Thread.held_refs (h : th.cleanupHeld = some j) : j ∈ th.refs :=
  LockKind.held_refs (show LockKind.cleanup.held th = some j from h)

attribute [local simp] EvictPc.refs refs

theorem Thread.moved_refs (h : th.moved = some j) : j ∈ th.refs := by
  cases th with
  | evict cutoff pc =>
    cases pc with
    | retire k resident p =>
      cases resident <;> simp_all [moved, EvictPc.moved]
    | _ => simp_all [moved, EvictPc.moved]
  | _ => cases h

theorem Custody.retired_stable (hc : Custody closed s) (hs : Sound s) (hG : s.Guarantee env A w)
    (hne : A ≠ some (.thread t)) (hheld : (s.threads t).cleanupHeld = some j)
    (hout : (s.task j).pc.out = true) (hret : s.retirement = some j) : w.retirement s = some j := by
  have hbed : ∀ k, s.bed ≠ some k := fun k hk => by
    rw [(hc.bed k hk).1] at hret
    cases hret
  cases w with
  | insertRetirement k =>
    rw [hG.2.2] at hret
    cases hret
  | deleteRetirement =>
    obtain ⟨-, ⟨-, hno⟩ | ⟨u, rfl, hu⟩⟩ := hG.2 j hret
    · rw [hout] at hno
      cases hno
    · -- the lock has one holder
      have hut : Agent.thread u = .thread t :=
        hs.grounded.exclusive (show s.holds .cleanup (.thread u) = some j from hu) hheld
      exact absurd (by rw [hut]) hne
  | retire k | takeForPurge k => exact absurd hG (hbed k)
  | _ => exact hret

theorem Custody.resident_stable (hc : Custody closed s) (hG : s.Guarantee env A w)
    (hbed : s.bed = some j) : w.bed s = some j ∨ w.retirement s = some j := by
  cases w with
  | publish k ready => exact absurd hG.2.1 (hc.unowned_of_bed hbed k)
  | retire k | takeForPurge k => exact .inr (hG.symm.trans hbed)
  | _ => exact .inl hbed

theorem Slot.Guarantee.identity_fenced (hG : s.Guarantee env A w) (hne : A ≠ some (.thread t))
    (hpurge : s.purge = some t) : w.identity s = s.identity ∨ w.identity s = none := by
  cases w with
  | accept kind hasMain =>
    rw [hG.purge] at hpurge
    cases hpurge
  | registerIdentity =>
    obtain ⟨u, rfl, hu⟩ := hG
    exact absurd (by rw [Option.some.inj (hu.symm.trans hpurge)]) hne
  | claimLuggage =>
    have hfree := hG.1
    simp [inUse, hpurge] at hfree
  | unregisterIdentity k =>
    simp only [Write.identity]
    split_ifs
    · exact .inr rfl
    · exact .inl rfl
  | _ => exact .inl rfl

theorem Slot.Guarantee.fence (hG : s.Guarantee env A w) (hne : A ≠ some (.thread t))
    (hpurge : s.purge = some t) : w.purge s = some t := by
  cases w with
  | installFence u =>
    rw [hG.2] at hpurge
    cases hpurge
  | removeFence =>
    obtain ⟨u, rfl, hu⟩ := hG
    exact absurd (by rw [Option.some.inj (hu.symm.trans hpurge)]) hne
  | _ => exact hpurge

/-- A name without an owner and without entries gets none, except by an admission. -/
theorem Slot.Guarantee.vacant (hG : s.Guarantee env A w) (hun : s.Unowned) (hbed : s.bed = none) :
    w.bed s = none ∧ (w.retirement s = s.retirement ∨ w.retirement s = none) := by
  have hno : ∀ k, s.bed ≠ some k := fun k hk => by
    rw [hbed] at hk
    cases hk
  cases w with
  | publish k ready | insertRetirement k => exact absurd hG.2.1 (hun k)
  | deleteRetirement => exact ⟨hbed, .inr rfl⟩
  | retire k | takeForPurge k => exact absurd hG (hno k)
  | _ => exact ⟨hbed, .inl rfl⟩

theorem Thread.Claim.inadmissible (h : th.Claim env.closed s t)
    (hth : th.fenced = true ∨ th.shuts = true) : ¬s.Admissible env := by
  intro hadm
  rcases hth with hf | hsh
  · have := h.fenced hf
    rw [hadm.purge] at this
    cases this
  · have := h.shuts hsh
    rw [hadm.opened] at this
    cases this

theorem Thread.fenced_or_shuts (h : th.sealed = true ∨ th.awaiting ≠ none) :
    th.fenced = true ∨ th.shuts = true := by
  cases th with
  | purge pc => cases pc <;> simp_all [sealed, awaiting, fenced, PurgePc.succeeded]
  | close pc => cases pc <;> simp_all [sealed, awaiting, shuts]
  | _ => simp [sealed, awaiting] at h

theorem Thread.took_sealed {b : Option TaskId} (h : th.took = some b) :
    th.sealed = true ∧ th.fenced = true := by
  cases th with
  | purge pc =>
    cases pc <;> first
      | exact ⟨rfl, rfl⟩
      | (rename_i err; cases err <;> first | exact ⟨rfl, rfl⟩ | cases h)
      | cases h
  | _ => cases h

theorem Thread.knows_fenced (h : th.knows = some l) : th.fenced = true := by
  cases th with
  | purge pc => cases pc <;> first | rfl | cases h
  | _ => cases h

theorem Thread.erased_fenced (h : th.erased = true) : th.fenced = true := by
  cases th with
  | purge pc => cases pc <;> first | rfl | cases h
  | _ => cases h

theorem Thread.cleaning_apply (h : ∀ j ∈ th.refs, j < s.nTasks) :
    th.cleaning ((s.apply env w).move m) = th.cleaning s := by
  have hid : ∀ {j}, j ∈ th.refs →
      (((s.apply env w).move m).task j).identity = (s.task j).identity := fun hj => by
    simp [Write.task_identity s _ w (h _ hj).ne]
  cases th with
  | evict cutoff pc =>
    cases pc with
    | retire k resident p =>
      have hk := hid (j := k) (by simp)
      cases p <;> first | rfl | simp only [cleaning, hk]
    | _ => rfl
  | close pc =>
    cases pc with
    | retire k todo p =>
      have hk := hid (j := k) (by simp [ClosePc.refs])
      cases p <;> first | rfl | simp only [cleaning, hk]
    | _ => rfl
  | purge pc => cases pc <;> rfl
  | _ => rfl

theorem Thread.Claim.cleaning_lt {q : CleanPc} (h : th.Claim closed s t)
    (hg : Grounded s) (hrefs : ∀ j ∈ th.refs, j < s.nTasks) (hl : th.cleaning s = some (l, q)) :
    l < s.nLocals ∨ th.want = none ∧ ∃ err, q = .ret err := by
  cases th with
  | evict cutoff pc =>
    cases pc with
    | retire k resident p =>
      cases p <;> cases hl
      exact .inl (hg.locals k (hrefs k (by simp)))
    | _ => cases hl
  | close pc =>
    cases pc with
    | retire k todo p =>
      cases p <;> cases hl
      exact .inl (hg.locals k (hrefs k (by simp [ClosePc.refs])))
    | _ => cases hl
  | purge pc =>
    cases pc <;> cases hl
    exact .inl (h.knows l rfl).1
  | collect k p =>
    cases hl
    cases q with
    | ret err => exact .inr ⟨rfl, err, rfl⟩
    | _ => exact .inl (h.collects l rfl).2.1
  | _ => cases hl

theorem Thread.Claim.collects_cleanup (h : th.Claim closed s t)
    (hl : th.collects = some l) (hid : s.identity = some l) : (s.locals l).cleanup ≠ none := by
  cases th with
  | collect k q =>
    obtain rfl : k = l := by cases q <;> first | exact Option.some.inj hl | cases hl
    have hq := h.cleaning k q rfl
    have hatt : ∀ {c}, s.Attempt (.thread t) k none c → (s.locals k).cleanup ≠ none := fun ha => by
      simp [ha.cleanup]
    cases q with
    | entry root | join c root => exact h.pending k rfl hid
    | sweep c => exact hatt hq
    | settle c err => simp [(hq.registered hid).1]
    | ret err => cases hl
    | _ => exact hatt hq.1
  | _ => cases hl

theorem Slot.collecting_of_collects (hth : (s.threads t).collects = some l)
    (hcol : s.collector = some t) : s.collecting = true := by
  simp only [collecting, hcol]
  cases h : s.threads t with
  | collect k q =>
    rw [h] at hth
    cases q <;> first | rfl | cases hth
  | _ => rfl

theorem Thread.pending_collects (h : th.pending = some l) : th.collects = some l := by
  cases th with
  | collect k q => cases q <;> first | exact h | cases h
  | _ => cases h

theorem Thread.Claim.pending_stable (h : th.Claim closed s t)
    (hG : s.Guarantee env A w) (hne : A ≠ some (.thread t)) (hl : th.pending = some l)
    (hid : s.identity = some l) : w.cleanup s l ≠ none := by
  have hpending := h.pending l hl hid
  obtain ⟨hcol, -, hfree⟩ := h.collects l (pending_collects hl)
  cases w with
  | accept kind hasMain | registerIdentity => simpa [hid] using hpending
  | claimLuggage => simp [registered_of_some hid]
  | beginCleanup k root B =>
    simp only [Write.cleanup]
    split_ifs
    · simp
    · exact hpending
  | settleCleanup k c err =>
    simp only [Write.cleanup]
    split_ifs with hif
    · -- only the owner and the collection goroutine itself settle an attempt for good
      obtain ⟨herr, hk, rfl⟩ := hif
      obtain ⟨B, rfl, -, -, hreg⟩ := hG
      rcases (hreg hk).2.2 herr with ⟨i, -, hi⟩ | ⟨u, rfl, hu⟩
      · exact absurd hi ((hfree hid).1 i)
      · exact absurd (by rw [Option.some.inj (hu.symm.trans hcol)]) hne
    · exact hpending
  | _ => exact hpending

theorem Slot.Does.collector (hd : s.Does env a w m) (hbusy : s.collecting = true) :
    ((s.apply env w).move m).collector = s.collector := by
  have happly : (s.apply env w).collector = s.collector := by
    cases w <;> rfl
  cases hd with
  | collect hcollect =>
    rw [hcollect.free] at hbusy
    cases hbusy
  | _ => exact happly

theorem Custody.collects_step (hc : Custody closed s) (hs : Sound s) (hd : s.Does env a w m)
    (hl : (s.threads t).collects = some l) :
    ((s.apply env w).move m).collector = some t ∧ l < ((s.apply env w).move m).nLocals ∧
      (((s.apply env w).move m).identity = some l → ((s.apply env w).move m).Unowned ∧
        ((s.apply env w).move m).bed = none ∧ ((s.apply env w).move m).retirement = none) := by
  have hclaim := hc.threads t
  obtain ⟨hcol, hlt, hfree⟩ := hclaim.collects l hl
  refine ⟨?_, by simpa using hlt.trans_le (w.le_nLocals s), fun hid' => ?_⟩
  · rw [hd.collector (collecting_of_collects hl hcol), hcol]
  · have hid : s.identity = some l := Write.identity_old hlt (by simpa using hid')
    obtain ⟨hun, hbed, hret⟩ := hfree hid
    obtain ⟨hbed', hret'⟩ := (hc.guarantee hd).vacant hun hbed
    rw [hret, or_self] at hret'
    -- the pending cleanup keeps admissions out
    refine ⟨hd.unowned hs.grounded hun fun hadm => ?_, by simpa using hbed', by simpa using hret'⟩
    have := hadm.cleanup
    simp only [pendingCleanup, hid, Option.bind_some] at this
    exact hclaim.collects_cleanup hl hid this

/-! ## Nobody else breaks a claim -/

theorem Custody.thread_stable (hc : Custody env.closed s) (hs : Sound s) (hd : s.Does env a w m)
    (hne : ∀ th, m ≠ .thread t th) : (s.threads t).Claim env.closed ((s.apply env w).move m) t := by
  have hclaim := hc.threads t
  have hG := hc.guarantee hd
  have hneA : m.agent ≠ some (.thread t) := by
    cases m with
    | thread u th => exact fun h => by cases h; exact hne th rfl
    | _ => exact nofun
  have hout : ∀ {j}, j ∈ (s.threads t).refs → (s.task j).pc.out = true →
      (((s.apply env w).move m).task j).pc.out = true := fun hj h =>
    hd.out (hs.grounded.refs t _ hj) h
  constructor
  case entered =>
    intro j hj
    have hheld := entered_held hj
    obtain ⟨hj_out, hentry⟩ := hclaim.entered j hj
    refine ⟨hout (held_refs hheld) hj_out, ?_⟩
    simp only [move_bed, apply_bed, move_retirement, apply_retirement]
    rcases hentry with hbed | hret
    · exact hc.resident_stable hG hbed
    · exact .inr (hc.retired_stable hs hG hneA hheld hj_out hret)
  case moved =>
    intro j hj
    obtain ⟨hj_out, hbed⟩ := hclaim.moved j hj
    refine ⟨hout (moved_refs hj) hj_out, fun h => hbed ?_⟩
    exact hd.bed_back hj_out (by simpa using h)
  case steady => exact hclaim.steady
  case retired =>
    intro j hj
    have hheld := retired_held hj
    obtain ⟨hj_out, hret⟩ := hclaim.retired j hj
    refine ⟨hout (held_refs hheld) hj_out, ?_⟩
    simpa using hc.retired_stable hs hG hneA hheld hj_out hret
  case torn =>
    intro j hj
    simpa using Write.runtimeClosed (hs.grounded.refs t j (torn_refs hj)) (hclaim.torn j hj)
  case fenced => exact fun h => by simpa using hG.fence hneA (hclaim.fenced h)
  case shuts => exact hclaim.shuts
  case awaiting =>
    intro i hi k hk
    have hno : ¬s.Admissible env := hclaim.inadmissible (fenced_or_shuts (.inr (by simp [hi])))
    exact (hd.owner hs.grounded hk).elim (hclaim.awaiting i hi k) fun h => absurd h.1 hno
  case sealed =>
    intro h
    exact hd.unowned hs.grounded (hclaim.sealed h)
      (hclaim.inadmissible (fenced_or_shuts (.inl h)))
  case took =>
    intro b hb
    obtain ⟨hbed, hret⟩ := hclaim.took b hb
    obtain ⟨hbed', hret'⟩ := hG.vacant (hclaim.sealed (took_sealed hb).1) hbed
    simp only [move_bed, apply_bed, move_retirement, apply_retirement]
    refine ⟨hbed', ?_⟩
    rcases hret' with hsame | hnone
    · rwa [hsame]
    · exact .inl hnone
  case knows =>
    intro l hl
    obtain ⟨hlt, hid⟩ := hclaim.knows l hl
    simp only [move_nLocals, apply_nLocals, move_identity, apply_identity]
    refine ⟨hlt.trans_le (w.le_nLocals s), ?_⟩
    rcases hG.identity_fenced hneA (hclaim.fenced (knows_fenced hl)) with hsame | hnone
    · rwa [hsame]
    · exact .inl hnone
  case erased =>
    intro h
    simp only [move_identity, apply_identity]
    rcases hG.identity_fenced hneA (hclaim.fenced (erased_fenced h)) with hsame | hnone
    · rw [hsame, hclaim.erased h]
    · exact hnone
  case cleaning =>
    intro l q hl
    rw [cleaning_apply (hs.grounded.refs t)] at hl
    exact ((hclaim.cleaning l q hl).stable hG hneA
      (hclaim.cleaning_lt hs.grounded (hs.grounded.refs t) hl)).move
  case collects => exact fun l hl => hc.collects_step hs hd hl
  case pending =>
    intro l hl hid'
    have hlt := (hclaim.collects l (pending_collects hl)).2.1
    have hid : s.identity = some l := Write.identity_old hlt (by simpa using hid')
    simpa using hclaim.pending_stable hG hneA hl hid

/-! ## A goroutine's own steps -/

variable {th th' : Thread}

section

variable (h : threadStep env r s t th = some (w, th'))
include h

/-- A fact of a purge's own steps, read as one of the goroutine that runs it. -/
theorem threadStep_purge (hf : th'.fenced = true) :
    ∃ q q', th = .purge q ∧ th' = .purge q' ∧ purgeStep env r s t q = some (w, q') := by
  cases threadStep_inv h with
  | purge q q' hsub => exact ⟨q, q', rfl, rfl, hsub⟩
  | _ => cases hf

theorem threadStep_shut (hth : th'.sealed = true ∨ th'.awaiting ≠ none) :
    th.fenced = true ∨ th.shuts = true := by
  rcases fenced_or_shuts hth with hf | hsh
  · obtain ⟨q, q', rfl, rfl, hsub⟩ := threadStep_purge h hf
    rcases purgeStep_fenced hsub hf with ⟨hold, -⟩ | rfl
    · exact .inl hold
    · -- the step that installs the fence is the first one
      obtain ⟨-, -, hbegin⟩ := purgeStep_permit hsub
      cases hbegin
      simp only [purgeStep] at hsub
      split at hsub <;> cases hsub
      simp [sealed, PurgePc.succeeded, awaiting] at hth
  · exact .inr (threadStep_shuts h hsh)

end

theorem Custody.thread_step (hc : Custody env.closed s) (hs : Sound s)
    (h : threadStep env r s t (s.threads t) = some (w, th)) (hno : NoTakeover env s (.thread t r)) :
    th.Claim env.closed ((s.apply env w).move (.thread t th)) t := by
  have hd : s.Does env (.thread t r) w (.thread t th) := .thread h
  have hclaim := hc.threads t
  have hG := hc.thread_guarantee h
  have hrefs : ∀ j ∈ th.refs, j < s.nTasks := fun j hj =>
    (threadStep_refs h hj).elim (hs.grounded.refs t j) (hs.grounded.entries j)
  have hres : ∀ {j}, s.bed = some j →
      (((s.apply env w).move (.thread t th)).task j).pc.out = true := fun hbed =>
    hd.out (hs.grounded.entries _ (.inl hbed)) (hs.active.resident _ hbed)
  have hkeep : ∀ {j}, j ∈ th.refs → (s.task j).pc.out = true →
      (((s.apply env w).move (.thread t th)).task j).pc.out = true := fun hj hout =>
    hd.out (hrefs _ hj) hout
  constructor
  case entered =>
    intro j hj
    have hmem : j ∈ th.refs := held_refs (entered_held hj)
    obtain ⟨hold | hbed, hmaps⟩ := (threadStep_evicts h).1 hj
    · obtain ⟨hout, hentry⟩ := hclaim.entered j hold
      exact ⟨hkeep hmem hout, by simpa [hmaps.bed, hmaps.retirement] using hentry⟩
    · exact ⟨hres hbed, .inl (by simpa [hmaps.bed] using hbed)⟩
  case moved =>
    intro j hj
    rcases (threadStep_evicts h).2.1 hj with ⟨hold, hbed⟩ | rfl
    · obtain ⟨hout, hne⟩ := hclaim.moved j hold
      exact ⟨hkeep (moved_refs hj) hout, by simpa [hbed] using hne⟩
    · exact ⟨hres hG, by simp [Write.bed]⟩
  case steady =>
    by_contra hstray
    rcases (threadStep_evicts h (j := 0)).2.2 (Bool.eq_true_of_not_eq_false hstray)
      with hold | ⟨j, hj, hbed⟩
    · rw [hclaim.steady] at hold
      cases hold
    · exact (hclaim.moved j hj).2 hbed
  case retired =>
    intro j hj
    have hmem : j ∈ th.refs := held_refs (retired_held hj)
    rcases threadStep_retired h hj with rfl | ⟨hmaps, hold | ⟨hcheck, hret⟩⟩
    · exact ⟨hres hG, by simp [Write.retirement]⟩
    · obtain ⟨hout, hret⟩ := hclaim.retired j hold
      exact ⟨hkeep hmem hout, by simpa [hmaps.retirement] using hret⟩
    · simp only [NoTakeover, hcheck] at hno
      exact ⟨hkeep hmem (hno hret), by simpa [hmaps.retirement] using hret⟩
  case torn =>
    intro j hj
    simpa using threadStep_torn h (hrefs j (torn_refs hj)) (hclaim.torn j) hj
  case fenced =>
    intro hf
    obtain ⟨q, q', hq, rfl, hsub⟩ := threadStep_purge h hf
    rcases purgeStep_fenced hsub hf with ⟨hold, hsame⟩ | rfl
    · simpa [hsame] using hclaim.fenced (by rw [hq]; exact hold)
    · simp [Write.purge]
  case shuts => exact fun hsh => hclaim.shuts (threadStep_shuts h hsh)
  case awaiting =>
    intro i hi k hk
    have hadm := hclaim.inadmissible (threadStep_shut h (.inr (by simp [hi])))
    obtain ⟨hini, -⟩ := threadStep_awaiting h hi
    rcases hd.owner hs.grounded hk with hold | ⟨hnew, -⟩
    · exact Option.some.inj ((hc.owned hold).initialization.symm.trans hini)
    · exact absurd hnew hadm
  case sealed =>
    intro hsealed
    refine hd.unowned hs.grounded ?_ (hclaim.inadmissible (threadStep_shut h (.inl hsealed)))
    rcases threadStep_sealed h hsealed with hold | hnone | ⟨i, hi, hdone⟩
    · exact hclaim.sealed hold
    · exact hc.unowned_of_phase hnone
    · -- the initialization it waited for has ended
      intro k hk
      obtain rfl := hclaim.awaiting i hi k hk
      have hout := hk.1
      rw [hc.done k hdone] at hout
      cases hout
  case took =>
    intro b hb
    obtain ⟨q, q', hq, rfl, hsub⟩ := threadStep_purge h (took_sealed hb).2
    rw [hq] at hclaim
    simpa using purgeStep_took hsub hclaim.took hb
  case knows =>
    intro l hl
    obtain ⟨q, q', hq, rfl, hsub⟩ := threadStep_purge h (knows_fenced hl)
    rw [hq] at hclaim
    simpa using purgeStep_knows hsub hs.grounded (hclaim.knows l) hl
  case erased =>
    intro he
    obtain ⟨q, q', hq, rfl, hsub⟩ := threadStep_purge h (erased_fenced he)
    rw [hq] at hclaim
    have hclean : ∀ b l, q = .clean b l (.ret none) → s.identity = none := by
      rintro b l rfl
      exact (hclaim.knows l rfl).2.resolve_right (hclaim.cleaning l _ rfl rfl rfl)
    simpa using purgeStep_erased hsub hclaim.erased hclean he
  case cleaning =>
    intro l q hl
    rw [cleaning_apply hrefs] at hl
    exact (threadStep_cleaning h hclaim.cleaning hl).move
  case collects => exact fun l hl => hc.collects_step hs hd (threadStep_collects h hl).1
  case pending =>
    intro l hl hid
    obtain ⟨hold, rfl⟩ := (threadStep_collects h (pending_collects hl)).2.1 hl
    simpa using hclaim.pending l hold (by simpa [Write.identity] using hid)

/-! ## New goroutines -/

theorem Slot.Spawns.claim (h : s.Spawns env th) (s' : Slot) : th.Claim env.closed s' t := by
  cases h with
  | close hclosed =>
    constructor
    case shuts => exact fun _ => hclosed
    case steady => rfl
    all_goals exact nofun
  | _ =>
    constructor
    case steady => rfl
    all_goals exact nofun

theorem Slot.Collects.claim_thread {root : Bool} (h : s.Collects w l root)
    (hc : Custody env.closed s) (hs : Sound s)
    (hd : s.Does env a w (.spawnCollector (.collect l (.entry root)))) :
    (collect l (.entry root)).Claim env.closed
      ((s.apply env w).move (.spawnCollector (.collect l (.entry root)))) s.nThreads := by
  have hun := hc.unowned_of_unused h.unused
  have hfree : s.bed = none ∧ s.retirement = none := by
    have := h.unused
    simp only [inUse, Bool.or_eq_false_iff, Option.isSome_eq_false_iff,
      Option.isNone_iff_eq_none] at this
    exact ⟨this.1.1.1, this.1.2⟩
  -- neither of the two ways to start is an admission
  have hown : ((s.apply env w).move (.spawnCollector (.collect l (.entry root)))).Unowned := by
    intro i hi
    have hn : w.nTasks s = s.nTasks := by
      rcases h.claim with ⟨rfl, -⟩ | ⟨rfl, -⟩ <;> rfl
    rcases hd.owner hs.grounded hi with hold | ⟨-, rfl⟩
    · exact hun i hold
    · have hlt := (hd.grounded hs.grounded).born (i := s.nTasks) fun hfin => by
        have := hi.1
        rw [hfin] at this
        cases this
      simp [hn] at hlt
  constructor
  case steady => rfl
  case cleaning => rintro _ _ ⟨⟩ _ ⟨⟩
  case collects =>
    rintro _ ⟨⟩
    rcases h.claim with ⟨rfl, -, hid, -⟩ | ⟨rfl, -, rfl, -⟩
    · exact ⟨rfl, hs.grounded.registered l hid, fun _ => ⟨hown, hfree⟩⟩
    · exact ⟨rfl, hs.grounded.registered_lt, fun _ => ⟨hown, hfree⟩⟩
  case pending =>
    rintro _ ⟨⟩ _
    rcases h.claim with ⟨rfl, -, -, hcleanup⟩ | ⟨rfl, -, rfl, -⟩
    · exact hcleanup
    · simp
  all_goals first | (intro h; cases h; done) | (intro _ h; cases h)

attribute [local simp] Initialization.fresh

theorem Slot.Admissible.held {kind : SyncKind} {hasMain : Bool} (h : s.Admissible env) :
    (s.apply env (.accept kind hasMain)).Held s.nTasks := by
  have hcleanup : s.identity ≠ none → (s.locals s.registered).cleanup = none := fun hid => by
    obtain ⟨l, hl⟩ := Option.ne_none_iff_exists'.mp hid
    have := h.cleanup
    rw [pendingCleanup, hl] at this
    rw [registered_of_some hl]
    exact this
  refine ⟨⟨?_, ?_, ?_⟩, ?_, ?_⟩
  · simp
  · simp [phase, lifecycle, Write.task, Write.phase]
  · simp [Write.bed, h.bed]
  · simp [Write.identity, Write.task]
  · simp only [apply_task, Write.task, if_true, Initialization.fresh, apply_cleanup, Write.cleanup]
    split_ifs with hnew
    · rfl
    · exact hcleanup fun hid => hnew ⟨hid, registered_of_none hid⟩

theorem Slot.Admissible.claim {kind : SyncKind} {hasMain : Bool} (h : s.Admissible env) :
    TaskPc.save.Claim (s.apply env (.accept kind hasMain)) s.nTasks :=
  h.held.claim (by simpa [Slot.RetirementOf, TaskPc.role, Write.retirement] using h.retirement) rfl
    nofun nofun

/-! ## The maps -/

theorem Custody.bed_step (hc : Custody closed s) (hs : Sound s) (hG : s.Guarantee env A w)
    (h : w.bed s = some j) :
    w.retirement s = none ∧ w.initialization s = none ∧
      w.identity s = some (w.task s j).identity := by
  by_cases hpub : ∃ i ready, w = .publish i ready
  · obtain ⟨i, ready, rfl⟩ := hpub
    cases h
    exact ⟨hG.2.2, rfl, hG.2.1.2⟩
  have hbed : s.bed = some j := by
    cases w <;> simp only [Write.bed] at h <;>
      first | exact h | exact absurd ⟨_, _, rfl⟩ hpub | cases h
  obtain ⟨hret, hini, hid⟩ := hc.bed j hbed
  have hun := hc.unowned_of_bed hbed
  have htask : (w.task s j).identity = (s.task j).identity :=
    Write.task_identity s j w (hs.grounded.entries j (.inl hbed)).ne
  rw [htask]
  cases w with
  | accept kind hasMain =>
    rw [hG.bed] at hbed
    cases hbed
  | publish i ready => exact absurd ⟨_, _, rfl⟩ hpub
  | insertRetirement i => exact absurd hG.2.1 (hun i)
  | retire k | takeForPurge k => cases h
  | deleteRetirement => exact ⟨rfl, hini, hid⟩
  | deleteInitialization => exact ⟨hret, rfl, hid⟩
  | finishInitialization i err delete st =>
    simp [Write.retirement, Write.identity, hret, hini, hid]
  | registerIdentity =>
    simp [Write.retirement, Write.identity, hret, hini, registered_of_some hid]
  | unregisterIdentity l =>
    rw [hG.2.1] at hbed
    cases hbed
  | claimLuggage =>
    have := hG.1
    simp [inUse, hbed] at this
  | _ => exact ⟨hret, hini, hid⟩

/-- The phase of a resident Bed changes only by a report on its identity. -/
theorem Custody.phase_of_bed (hc : Custody closed s) (hG : s.Guarantee env A w)
    (hbed : s.bed = some j) :
    w.phase s (s.task j).identity = s.phase j ∨
      ∃ next, w = .setLifecycle (s.task j).identity next := by
  obtain ⟨-, hini, hid⟩ := hc.bed j hbed
  cases w with
  | accept kind hasMain =>
    rw [hG.bed] at hbed
    cases hbed
  | publish k ready => exact absurd hG.2.1 (hc.unowned_of_bed hbed k)
  | finishInitialization k err delete st =>
    -- the name has no initialization, so none is reported to have failed
    obtain rfl : st = none := by
      by_contra h
      rw [hG.2.1 (.inr h)] at hini
      cases hini
    simp only [Write.phase, Option.map_none, Option.getD_none, ite_self]
    exact .inl rfl
  | setLifecycle l next =>
    by_cases hl : (s.task j).identity = l
    · exact .inr ⟨next, by rw [hl]⟩
    · simp only [Write.phase, if_neg hl]
      exact .inl rfl
  | unregisterIdentity l =>
    rw [hG.2.1] at hbed
    cases hbed
  | registerIdentity | claimLuggage =>
    simp only [Write.phase, hid, reduceCtorEq, false_and, if_false]
    exact .inl rfl
  | _ => exact .inl rfl

theorem Custody.forgotten_step (hc : Custody closed s) (hG : s.Guarantee env A w)
    (h : w.identity s = none) : w.dir s = none ∧ w.gc s = none := by
  cases hid : s.identity with
  | none =>
    obtain ⟨hdir, hgc⟩ := hc.forgotten hid
    have hno : ∀ i, ¬s.Owner i := fun i hi => by
      rw [hi.2] at hid
      cases hid
    cases w with
    | makeDir | restoreDir tree =>
      obtain ⟨i, -, hi, -⟩ := hG
      exact absurd hi (hno i)
    | _ => simp_all [Write.gc]
  | some l =>
    cases w with
    | unregisterIdentity k => exact ⟨hG.2.2.1, hG.2.2.2.1⟩
    | accept | registerIdentity | claimLuggage => cases h
    | _ =>
      rw [show s.identity = none from h] at hid
      cases hid

theorem Slot.Guarantee.phase_ended (hG : s.Guarantee env A w) (hun : s.Unowned)
    (hini : w.initialization s = some i) (hi : i < s.nTasks) (hphase : s.phase i ≠ .initializing) :
    w.phase s (s.task i).identity ≠ .initializing := by
  cases w with
  | accept kind hasMain => exact absurd (Option.some.inj hini) hi.ne'
  | publish k ready => cases hini
  | finishInitialization k err delete st =>
    simp only [Write.phase]
    split_ifs
    · cases st with
      | none => exact hphase
      | some x => exact hG.2.2 x rfl
    · exact hphase
  | setLifecycle l next =>
    simp only [Write.phase]
    split_ifs
    · rcases hG with ⟨-, hne⟩ | ⟨k, -, hk, -⟩
      · exact hne
      · exact absurd hk (hun k)
    · exact hphase
  | registerIdentity | unregisterIdentity | claimLuggage =>
    simp only [Write.phase]
    split_ifs <;> first | exact hphase | (intro h; cases h)
  | _ => exact hphase

theorem taskStep_out {pc pc' : TaskPc} (h : taskStep env r s i pc = some (w, pc'))
    (hpc : pc.out = false) (hpc' : pc'.out = true) :
    (∃ ready, w = .publish i ready) ∨
      ∃ f reason, w = .finishInitialization i (some f) (finishDecision env s i (some f) reason).1
        (finishDecision env s i (some f) reason).2 := by
  revert h
  fun_cases taskStep env r s i pc <;> intro h
  case case6 stage _ =>
    rcases stageStep_next (Option.some.inj h) with ⟨_, rfl⟩ | rfl | rfl <;> cases hpc'
  case case28 f =>
    cases h
    cases f <;> cases hpc'
  case case30 err reason =>
    cases h
    cases err with
    | none => cases hpc
    | some f => exact .inr ⟨f, reason, rfl⟩
  all_goals first
    | (obtain ⟨_, _, rfl⟩ := lift_eq_some.mp h; cases hpc')
    | (cases h <;> first | exact .inl ⟨_, rfl⟩ | cases hpc')

theorem taskStep_forgets {pc pc' : TaskPc} (h : taskStep env r s i pc = some (w, pc'))
    (hid : s.identity = some (s.task i).identity) (hid' : w.identity s ≠ some (s.task i).identity) :
    w = .unregisterIdentity (s.task i).identity ∧ ∃ c, pc.cleaning = some (.unregister c) := by
  have hp := taskStep_permit h
  cases w with
  | unregisterIdentity l =>
    obtain ⟨rfl, hc⟩ := hp
    exact ⟨rfl, hc⟩
  | accept | registerIdentity | claimLuggage => exact hp.elim
  | _ => exact absurd hid hid'

/-- A step of the owner itself: it keeps its entry until it ends, and what it leaves is a
failure. -/
theorem Custody.entry_own {k : TaskId} {pc : TaskPc} (hc : Custody closed s) (hk : k < s.nTasks)
    (hown : s.Owner k) (hstep : taskStep env r s k (s.task k).pc = some (w, pc))
    (h : w.initialization s = some k) :
    ((s.apply env w).move (.task k pc)).Owner k ∨
      w.phase s (s.task k).identity ≠ .initializing ∧ w.bed s = none ∧ w.retirement s = none := by
  have howned := hc.owned hown
  by_cases hout : pc.out = true
  · rcases taskStep_out hstep hown.1 hout with ⟨ready, rfl⟩ | ⟨f, reason, rfl⟩
    · cases h
    · right
      have hkind : ((finishDecision env s k (some f) reason).1 = false) := by
        by_contra hdel
        simp [Bool.eq_true_of_not_eq_false hdel] at h
      simp only [finishDecision, howned.initialization, if_true] at hkind ⊢
      split_ifs at hkind ⊢ with hret hcancel
      exact ⟨by simp [Write.phase], howned.bed, by simpa [Write.retirement] using hret⟩
  · have htask : (w.task s k).identity = (s.task k).identity := Write.task_identity s k w hk.ne
    by_cases hid : w.identity s = some (s.task k).identity
    · exact .inl ⟨by simpa [Move.pc] using hout, by simpa [htask] using hid⟩
    · obtain ⟨rfl, c, hclean⟩ := taskStep_forgets hstep hown.2 hid
      have hret : s.retirement = none := by
        have hrole : (s.task k).pc.role = .closing := by
          revert hclean
          cases (s.task k).pc <;> intro hclean <;> cases hclean
          rfl
        refine ((hc.tasks k).closing hrole hown.2).elim id fun hsome => ?_
        rw [hsome.2] at hclean
        cases hclean
      exact .inr ⟨by simp [Write.phase, hown.2], howned.bed, hret⟩

theorem Move.pc_of_agent {k : TaskId} (h : m.agent ≠ some (.task k)) :
    m.pc s k = (s.task k).pc := by
  cases m with
  | task i pc =>
    have hne : k ≠ i := fun he => h (by rw [he]; rfl)
    simp [Move.pc, hne]
  | _ => rfl

/-- The entry in `initializations` is its owner's, or what is left of one that ended. -/
theorem Custody.entry_step {k : TaskId} (hc : Custody closed s) (hs : Sound s)
    (hd : s.Does env a w m) (h : w.initialization s = some k) :
    ((s.apply env w).move m).Owner k ∨
      ((s.apply env w).move m).phase k ≠ .initializing ∧ w.bed s = none ∧
      w.retirement s = none := by
  have hG := hc.guarantee hd
  by_cases hacc : ∃ kind hasMain, w = .accept kind hasMain
  · obtain ⟨kind, hasMain, rfl⟩ := hacc
    cases h
    refine .inl ⟨?_, by simp [Write.identity, Write.task]⟩
    have hm := hd.accepts.2
    cases m with
    | task i pc => exact absurd rfl (hm i pc)
    | _ => simp [Move.pc, Write.task, TaskPc.out]
  have hini : s.initialization = some k := by
    cases w <;> simp only [Write.initialization] at h <;>
      first | exact h | exact absurd ⟨_, _, rfl⟩ hacc | cases h | skip
    split_ifs at h
    exact h
  have hk : k < s.nTasks := hs.grounded.entries k (.inr (.inr hini))
  have htask : (w.task s k).identity = (s.task k).identity := Write.task_identity s k w hk.ne
  have hphase' : ((s.apply env w).move m).phase k = w.phase s (s.task k).identity := by
    simp [phase, lifecycle, htask]
  rcases hc.entry k hini with hown | ⟨hphase, hbed, hret⟩
  · have howned := hc.owned hown
    by_cases hA : m.agent = some (.task k)
    · cases hd with
      | task hstep =>
        cases hA
        rw [hphase']
        exact hc.entry_own hk hown hstep h
      | _ => cases hA
    · obtain ⟨-, -, -, hid, -, -⟩ := hc.owner_frame hG hown hA
      refine .inl ⟨?_, by simpa [hid, htask] using hown.2⟩
      simpa [Move.pc_of_agent hA, Write.task_pc s k w hk.ne] using hown.1
  · -- nobody can revive the entry
    have hun : s.Unowned := hc.unowned_of_phase fun i hi => by
      cases hini.symm.trans hi
      exact hphase
    obtain ⟨hbed', hret'⟩ := hG.vacant hun hbed
    rw [hret, or_self] at hret'
    exact .inr ⟨by rw [hphase']; exact hG.phase_ended hun h hk hphase, hbed', hret'⟩

theorem Custody.done_step (hc : Custody closed s) (hd : s.Does env a w m) :
    ∀ i, (((s.apply env w).move m).task i).done = true →
      (((s.apply env w).move m).task i).pc = .finished := by
  have hG := hc.guarantee hd
  have hdone : ∀ i, (((s.apply env w).move m).task i).done = (w.task s i).done := by simp
  simp only [hdone]
  refine hd.forall_tasks (P := fun i pc => (w.task s i).done = true → pc = .finished) ?_ ?_ ?_
  · intro i hm hnew h
    cases w with
    | accept kind hasMain =>
      have hi : i ≠ s.nTasks := hnew.elim (fun h => absurd h (Nat.succ_ne_self _)) id
      simp only [Write.task, hi, if_false] at h
      exact hc.done i h
    | finishInitialization k err delete st =>
      have hik : i ≠ k := by
        rintro rfl
        have hA := hG.1
        cases m with
        | task j pc => cases hA; exact hm pc rfl
        | _ => cases hA
      simp only [Write.task, hik, if_false] at h
      exact hc.done i h
    | cancelInitialization k err | stage k result =>
      refine hc.done i ?_
      simp only [Write.task] at h
      split_ifs at h <;> exact h
    | _ => exact hc.done i h
  · intro i r pc _ hstep h
    have hold : ¬(s.task i).done = true := fun h => taskStep_ne_finished hstep (hc.done i h)
    have hp := taskStep_permit hstep
    cases w with
    | finishInitialization k err delete st =>
      obtain ⟨rfl, reason, hpc, -⟩ := hp
      rw [hpc] at hstep
      cases hstep
      rfl
    | stage k result =>
      simp only [Write.task] at h
      split_ifs at h <;> exact absurd h hold
    | accept | cancelInitialization => exact hp.elim
    | _ => exact absurd h hold
  · intro _ hnew h
    cases w <;> simp [Write.nTasks] at hnew
    simp [Write.task] at h

/-! ## Every run -/

theorem Custody.does (hc : Custody env.closed s) (hs : Sound s) (hd : s.Does env a w m)
    (hno : NoTakeover env s a) : Custody env.closed ((s.apply env w).move m) := by
  have hG := hc.guarantee hd
  constructor
  case tasks =>
    have hnew : ∀ i, s.nTasks ≤ i → (s.task i).pc.out = true := fun i hi => by
      rw [hs.grounded.unborn i hi]
      rfl
    refine hd.forall_tasks (P := fun i pc => pc.Claim ((s.apply env w).move m) i) ?_ ?_ ?_
    · intro i hm _
      by_cases hi : i < s.nTasks
      · refine (hc.task_stable hs hG hi fun hA => ?_).move
        cases m with
        | task k pc => cases hA; exact hm pc rfl
        | _ => cases hA
      · exact .of_out (hnew i (Nat.le_of_not_lt hi))
    · intro i r pc _ hstep
      exact (taskStep_claim hstep (hc.tasks i) (hs.grounded.born (taskStep_ne_finished hstep))).move
    · intro hadm hn
      cases w <;> simp [Write.nTasks] at hn
      exact hadm.claim.move
  case threads =>
    refine hd.forall_threads (P := fun t th => th.Claim env.closed ((s.apply env w).move m) t)
      ?_ ?_ ?_ ?_
    · exact fun t hm => hc.thread_stable hs hd hm
    · rintro t r th rfl hstep
      obtain ⟨r', rfl, hstep'⟩ := hd.act_thread
      exact hc.thread_step hs hstep' hno
    · exact fun th _ hspawn _ => hspawn.claim _
    · rintro l root rfl hcollect
      exact hcollect.claim_thread hc hs hd
  case bed =>
    intro j hj
    simpa using hc.bed_step hs hG (by simpa using hj)
  case entry =>
    intro k hk
    simpa using hc.entry_step hs hd (by simpa using hk)
  case forgotten =>
    intro hid
    simpa using hc.forgotten_step hG (by simpa using hid)
  case done => exact hc.done_step hd

theorem Custody.stop (hc : Custody false s) : Custody true s where
  tasks := hc.tasks
  threads t := { hc.threads t with shuts := fun _ => rfl }
  bed := hc.bed
  entry := hc.entry
  forgotten := hc.forgotten
  done := hc.done

theorem custody_boot (env : Env) (disk : Disk) (snapshot : Option Snapshot) :
    Custody closed (boot env disk snapshot) where
  tasks _ := .of_out rfl
  threads t := by
    constructor
    case steady => rfl
    all_goals exact nofun
  bed := nofun
  entry := nofun
  forgotten h := by
    simp only [boot] at h ⊢
    split_ifs at h with hdisk
    simpa using hdisk
  done _ _ := rfl

theorem Manager.custody_at {ν : Type} [DecidableEq ν] {config : Config} {now : Time}
    {disk : ν → Disk} {snapshot : ν → Option Snapshot} {τ : List (Manager ν × Event ν)}
    {m : Manager ν} {n : ν} (h : (machine ν).Trace (boot config now disk snapshot) τ m)
    (hC : ∀ e ∈ τ, MeetsAt n NoTakeover e) : Sound (m.slot n) ∧ Custody m.closed (m.slot n) := by
  refine slot_invariant_at (C := NoTakeover) (I := fun closed s => Sound s ∧ Custody closed s)
    (fun s hI => ⟨hI.1, hI.2.stop⟩) ?_ ⟨sound_boot _ _ _, custody_boot _ _ _⟩ h hC
  intro env s a s' e hI hno hstep
  obtain ⟨w, mv, hd, rfl, -⟩ := step_does hstep
  exact ⟨hI.1.does hd, hI.2.does hI.1 hd hno⟩

theorem Manager.custody_of_trace {ν : Type} [DecidableEq ν] {config : Config} {now : Time}
    {disk : ν → Disk} {snapshot : ν → Option Snapshot} {τ : List (Manager ν × Event ν)}
    {m : Manager ν} (h : (machine ν).Trace (boot config now disk snapshot) τ m)
    (hC : ∀ e ∈ τ, Meets NoTakeover e) (n : ν) : Sound (m.slot n) ∧ Custody m.closed (m.slot n) :=
  Manager.custody_at h fun e he => (hC e he).at n

end Hostel.Bed
