/-
# Hostel.Bed.Retention — the promise to keep an idle Bed.

`setLifecycle` carries `KeepaliveAt` over and `keepaliveLocked` only moves it forward, so it never
decreases.  A Bed is retained until `KeepaliveAt` plus its idle TTL.  Admission and renewal extend
that promise, and the fence of an idle collection respects it, because it is checked again under the
locks that the extension takes.

The zero of `Time` is Go's zero `time.Time`, which the clock never shows: a run starts at a positive
instant.
-/
import Hostel.Bed.Eviction

namespace Hostel.Bed

open Store Logic Slot

variable {env : Env} {r : Reply} {s : Slot} {a : Act} {w : Write} {m : Move} {j : TaskId}
  {t : ThreadId} {l : LocalId}

/-! ## `RenewExpiration` -/

/-- The first instant after the year 9999, in milliseconds. -/
def expirationLimit : Time := 315537897600000

inductive RenewError
  | unavailable | invalidExpiration
  deriving DecidableEq, Repr

/-- The base `RenewExpiration` extends the retention to. -/
def renewBase (now ttl : Time) : Option Time → Time
  -- without an idle TTL an explicit expiration does not turn idle collection on
  | some e => if 0 < ttl then e - ttl else now
  | none => now

/-- `RenewExpiration`: the write it performs and the deadline it returns. -/
def renewExpiration (env : Env) (s : Slot) (j : TaskId) (expiresAt : Option Time) :
    Except RenewError (Write × Time) :=
  if env.closed ∨ s.bed ≠ some j ∨ (s.alloc j).purging ∨ s.phase j ≠ .resident then
    .error .unavailable
  else if expiresAt.any fun e => e ≤ env.now || expirationLimit ≤ e then
    .error .invalidExpiration
  else
    let w := .renew j (renewBase env.now (s.alloc j).idleTTL expiresAt)
    .ok (w, (s.apply env w).retainUntil j)

theorem renewExpiration_plan {expiresAt : Option Time} {until' : Time}
    (h : renewExpiration env s j expiresAt = .ok (w, until')) :
    ∃ base, w = .renew j base ∧ (Act.renew j base).plan env s = some (w, .stay) := by
  unfold renewExpiration at h
  split_ifs at h with hun hinv
  cases h
  simp only [not_or, not_not, Bool.not_eq_true] at hun
  exact ⟨_, rfl, by simp [Act.plan, hun]⟩

/-! ## The retention clock -/

theorem Slot.keepaliveAt_le_step (hg : Grounded s) (hj : j < s.nTasks) :
    (s.lifecycle j).keepaliveAt ≤ (((s.apply env w).move m).lifecycle j).keepaliveAt := by
  have hid : (((s.apply env w).move m).task j).identity = (s.task j).identity := by
    simp [Write.task_identity s j w hj.ne]
  simp only [lifecycle, hid, move_locals]
  exact (apply_local ..).2.2.2.2 (hg.locals j hj).ne

theorem Write.alloc_idleTTL :
    (w.alloc env s j).idleTTL = (s.alloc j).idleTTL ∨ (w.alloc env s j).idleTTL = env.idleTTL := by
  have hfinish : ∀ kind, ((s.alloc j).finish kind env.now).idleTTL = (s.alloc j).idleTTL := by
    intro kind
    unfold ManagedBed.finish
    split <;> rfl
  cases w <;> first | exact .inl rfl | simp only [Write.alloc]
  all_goals split_ifs <;> first | exact .inl rfl | exact .inl (hfinish _) | exact .inr rfl

theorem retentionDeadline_of_pos {base ttl : Time} (hbase : 0 < base) (httl : 0 < ttl) :
    retentionDeadline base ttl = base + ttl := by
  have hno : ¬(ttl = 0 ∨ base = 0) := not_or.mpr ⟨httl.ne', hbase.ne'⟩
  rw [retentionDeadline, if_neg hno]

theorem Slot.retainUntil_operation {kind : OperationKind} {timeout : Time}
    (httl : 0 < (s.alloc j).idleTTL) (hnow : 0 < env.now) :
    env.now + timeout + (s.alloc j).idleTTL ≤
      (s.apply env (.beginOperation j kind timeout)).retainUntil j := by
  have hkeep : ((s.apply env (.beginOperation j kind timeout)).lifecycle j).keepaliveAt =
      max (s.lifecycle j).keepaliveAt (env.now + timeout) := by
    simp [lifecycle, apply, keepalive, mapAlloc, mapLocal]
  have hidle : ((s.apply env (.beginOperation j kind timeout)).alloc j).idleTTL =
      (s.alloc j).idleTTL := by
    simp [Write.alloc, ManagedBed.begin, ManagedBed.touch]
  have hbase : env.now + timeout ≤ max (s.lifecycle j).keepaliveAt (env.now + timeout) :=
    le_max_right _ _
  have hpos : 0 < env.now + timeout := Nat.add_pos_left hnow timeout
  rw [retainUntil, hkeep, hidle, retentionDeadline_of_pos (hpos.trans_le hbase) httl]
  exact Nat.add_le_add_right hbase _

theorem renewExpiration_deadline {e u : Time} (h : renewExpiration env s j (some e) = .ok (w, u))
    (httl : 0 < (s.alloc j).idleTTL) (hkeep : 0 < (s.lifecycle j).keepaliveAt) :
    max e (s.retainUntil j) ≤ u := by
  unfold renewExpiration at h
  split_ifs at h with hun hinv
  cases h
  have hkeep' : ((s.apply env (.renew j (renewBase env.now (s.alloc j).idleTTL (some e)))).lifecycle
      j).keepaliveAt = max (s.lifecycle j).keepaliveAt (e - (s.alloc j).idleTTL) := by
    simp [lifecycle, apply, keepalive, mapLocal, renewBase, httl]
  have hidle : ((s.apply env (.renew j (renewBase env.now (s.alloc j).idleTTL (some e)))).alloc
      j).idleTTL = (s.alloc j).idleTTL := by
    simp [Write.alloc]
  have hold := le_max_left (s.lifecycle j).keepaliveAt (e - (s.alloc j).idleTTL)
  have hnew := le_max_right (s.lifecycle j).keepaliveAt (e - (s.alloc j).idleTTL)
  rw [retainUntil, retainUntil, hkeep', hidle, retentionDeadline_of_pos hkeep httl,
    retentionDeadline_of_pos (hkeep.trans_le hold) httl]
  refine max_le ?_ (Nat.add_le_add_right hold _)
  exact (Nat.sub_le_iff_le_add).mp hnew

theorem evictionRefused_expired {cutoff : Time} (h : evictionRefused env s (some cutoff) j = none) :
    0 < (s.alloc j).idleTTL ∧ (s.alloc j).inflight = 0 ∧
      (s.lifecycle j).keepaliveAt + (s.alloc j).idleTTL ≤ cutoff := by
  have hidle := (evictionRefused_none h).2.2.2
  have hdue : ¬(s.retainUntil j = 0 ∨ cutoff < s.retainUntil j) := by
    intro hearly
    unfold evictionRefused at h
    split_ifs at h
    simp [hearly] at h
  rw [retainUntil, retentionDeadline] at hdue
  split_ifs at hdue with hzero
  · exact absurd (.inl rfl) hdue
  · obtain ⟨httl, -⟩ := not_or.mp hzero
    obtain ⟨-, hcut⟩ := not_or.mp hdue
    exact ⟨Nat.pos_of_ne_zero httl, hidle, Nat.le_of_not_lt hcut⟩

namespace Manager

variable {ν : Type} [DecidableEq ν] {config : Config} {now : Time} {disk : ν → Disk}
  {snapshot : ν → Option Snapshot} {τ τ' : List (Manager ν × Event ν)} {d d' : Manager ν} {n : ν}
  {ev : Event ν}

/-! ## Every run -/

/-- The clock is set, and so is the retention clock of every resident Bed. -/
structure Clocked (d : Manager ν) : Prop where
  now : 0 < d.now
  resident : ∀ n j, (d.slot n).bed = some j → 0 < ((d.slot n).lifecycle j).keepaliveAt

theorem Clocked.step (h : Clocked d) (hs : ∀ n, Sound (d.slot n)) (hstep : d.step ev = some d') :
    Clocked d' := by
  refine ⟨?_, fun n j hbed => ?_⟩
  · cases ev with
    | tick x =>
      cases hstep
      exact Nat.add_pos_left h.now x
    | stop =>
      cases hstep
      exact h.now
    | act n a =>
      obtain ⟨s', e, -, rfl⟩ := step_act hstep
      exact h.now
  · rcases step_slot hstep n with ⟨hsame, -⟩ | ⟨a, e, rfl, hact⟩
    · rw [hsame] at hbed ⊢
      exact h.resident n j hbed
    · obtain ⟨w, m, hd, hs', -⟩ := step_does hact
      rw [hs'] at hbed ⊢
      by_cases hold : (d.slot n).bed = some j
      · have hj := (hs n).grounded.entries j (.inl hold)
        exact (h.resident n j hold).trans_le (keepaliveAt_le_step (hs n).grounded hj)
      · -- the Bed was just published, and publication keeps it alive from now
        simp only [move_bed, apply_bed] at hbed
        cases w <;> simp only [Write.bed] at hbed <;> first | exact absurd hbed hold | skip
        all_goals first | (cases hbed; done) | skip
        case publish i ready =>
          cases hbed
          have hkeep : ((((d.slot n).apply (d.env n) (.publish j ready)).move m).lifecycle
              j).keepaliveAt = max ((d.slot n).lifecycle j).keepaliveAt d.now := by
            simp only [lifecycle, move_locals, move_task, apply_task, Write.task]
            simp [apply, publish, setLifecycle, keepalive, mapLocal, env]
          rw [hkeep]
          exact h.now.trans_le (le_max_right _ _)

theorem clocked_of_trace (h : (machine ν).Trace (boot config now disk snapshot) τ d)
    (hnow : 0 < now) : Clocked d := by
  refine h.always ?_ fun hτ hd hstep => ?_
  · exact ⟨hnow, nofun⟩
  · exact hd.step (fun n => sound_of_trace hτ n) hstep

theorem keepaliveAt_mono (h : (machine ν).Trace (boot config now disk snapshot) τ d)
    (h' : (machine ν).Trace d τ' d') (hj : j < (d.slot n).nTasks) :
    j < (d'.slot n).nTasks ∧
      ((d.slot n).lifecycle j).keepaliveAt ≤ ((d'.slot n).lifecycle j).keepaliveAt := by
  induction h' with
  | nil => exact ⟨hj, le_rfl⟩
  | @snoc ρ d₁ d₂ ev hρ hstep ih =>
    obtain ⟨hlt, hle⟩ := ih
    have hs := sound_of_trace (h.append hρ) n
    rcases step_slot hstep n with ⟨hsame, -⟩ | ⟨a, e, rfl, hact⟩
    · rw [hsame]
      exact ⟨hlt, hle⟩
    · obtain ⟨w, m, hd, hs', -⟩ := step_does hact
      rw [hs']
      exact ⟨by simpa using hlt.trans_le (w.le_nTasks _),
        hle.trans (keepaliveAt_le_step hs.grounded hlt)⟩

/-- The retention promise, in every run: the retention clock never goes back, an admitted operation
and a renewal extend the promise, and an idle collection starts an eviction only of an idle Bed
whose promise has expired, so never without an idle TTL. -/
theorem retention_kept (h : (machine ν).Trace (boot config now disk snapshot) τ d)
    (hnow : 0 < now) (n : ν) (j : TaskId) :
    (j < (d.slot n).nTasks → ∀ τ' d', (machine ν).Trace d τ' d' →
        ((d.slot n).lifecycle j).keepaliveAt ≤ ((d'.slot n).lifecycle j).keepaliveAt) ∧
      (0 < ((d.slot n).alloc j).idleTTL →
        (∀ kind timeout ev d', Performs n (.beginOperation j kind timeout) (d, ev) →
          d.step ev = some d' →
          d.now + timeout + ((d.slot n).alloc j).idleTTL ≤ (d'.slot n).retainUntil j) ∧
        ∀ e u w, renewExpiration (d.env n) (d.slot n) j (some e) = .ok (w, u) →
          max e ((d.slot n).retainUntil j) ≤ u) ∧
      ∀ t cutoff, (d.slot n).threads t = .evict (some cutoff) (.fence j) →
        evictionRefused (d.env n) (d.slot n) (some cutoff) j = none →
        0 < ((d.slot n).alloc j).idleTTL ∧ ((d.slot n).alloc j).inflight = 0 ∧
          ((d.slot n).lifecycle j).keepaliveAt + ((d.slot n).alloc j).idleTTL ≤ cutoff := by
  have hclock := clocked_of_trace h hnow
  refine ⟨fun hj τ' d' h' => (keepaliveAt_mono h h' hj).2, fun httl => ⟨?_, ?_⟩, ?_⟩
  · rintro kind timeout ev d' ⟨a, m, rfl, hplan⟩ hstep
    obtain ⟨s', e, hact, rfl⟩ := step_act hstep
    obtain ⟨w, m', hplan', -, rfl, -⟩ := step_plan hact
    cases hplan.symm.trans hplan'
    have hkept : (d.env n).now + timeout + ((d.slot n).alloc j).idleTTL ≤
        ((d.slot n).apply (d.env n) (.beginOperation j kind timeout)).retainUntil j :=
      retainUntil_operation httl hclock.now
    simpa [retainUntil, lifecycle, env] using hkept
  · intro e u w hrenew
    have hbed : (d.slot n).bed = some j := by
      unfold renewExpiration at hrenew
      split_ifs at hrenew with hun
      simp only [not_or, not_not] at hun
      exact hun.2.1
    exact renewExpiration_deadline hrenew httl (hclock.resident n j hbed)
  · intro t cutoff _ hpass
    exact evictionRefused_expired hpass

/-- A Bed with an idle TTL of 10 is created at 5 and runs an operation of 7: it is retained until
22. -/
theorem retention_kept_operation :
    ∃ d d' : Manager Unit, d.step (.act () (.beginOperation 0 .exec 7 .ok)) = some d' ∧
      5 + 7 + 10 ≤ (d'.slot ()).retainUntil 0 := by
  obtain ⟨d, hτ, hnow, httl, hplan, d', hstep, -⟩ := (machine Unit).trace_of_any
    (bootEmpty { plainConfig with idleTTL := 10 } 5)
    (createSteps () 0 0)
    (fun d => d.now = 5 ∧ ((d.slot ()).alloc 0).idleTTL = 10 ∧
      (Act.beginOperation 0 .exec 7 .ok).plan (d.env ()) (d.slot ()) =
      some (.beginOperation 0 .exec 7, .stay) ∧
      ∃ d', d.step (.act () (.beginOperation 0 .exec 7 .ok)) = some d' ∧ True)
    (by decide +kernel)
  have hkept := ((retention_kept hτ (by decide) () 0).2.1 (by rw [httl]; decide)).1 .exec 7 _ d'
    ⟨_, _, rfl, hplan⟩ hstep
  rw [hnow, httl] at hkept
  exact ⟨d, d', hstep, hkept⟩

end Manager

end Hostel.Bed
