/-
# Hostel.Pillow.Readiness — when a probed Pillow is ready.

The tracker of an execution keeps a flag and two counters that stop at their thresholds.  What the
flag says of all results so far: there was a run of enough successes, and after the latest one no
run of enough failures.
-/
import Hostel.Pillow.Supervision
import Mathlib.Data.Nat.Find

namespace Hostel.Pillow

open List

/-- What `normalizePortsAndProbe` reads of a declared probe before it looks at the action itself. -/
structure ProbeSpec where
  httpGet : Bool
  tcpSocket : Bool
  initialDelaySeconds : Int := 0
  timeoutSeconds : Int := 0
  periodSeconds : Int := 0
  successThreshold : Int := 0
  failureThreshold : Int := 0
  deriving DecidableEq, Repr

/-- `normalizePortsAndProbe` from the probe to its defaults; what follows leaves these fields
alone. -/
def normalizeProbe : Option ProbeSpec → Except String (Option ProbeSpec)
  | none => .ok none
  | some p =>
    if p.httpGet = p.tcpSocket then
      .error "readinessProbe requires exactly one of httpGet or tcpSocket"
    else if p.initialDelaySeconds < 0 ∨ p.timeoutSeconds < 0 ∨ p.periodSeconds < 0 ∨
        p.successThreshold < 0 ∨ p.failureThreshold < 0 then
      .error "readinessProbe timing and thresholds must not be negative"
    else if 86400 < p.initialDelaySeconds ∨ 3600 < p.timeoutSeconds ∨ 3600 < p.periodSeconds ∨
        1000 < p.successThreshold ∨ 1000 < p.failureThreshold then
      .error "readinessProbe timing or threshold exceeds supported limit"
    else .ok (some { p with
      timeoutSeconds := if p.timeoutSeconds = 0 then 1 else p.timeoutSeconds
      periodSeconds := if p.periodSeconds = 0 then 10 else p.periodSeconds
      successThreshold := if p.successThreshold = 0 then 1 else p.successThreshold
      failureThreshold := if p.failureThreshold = 0 then 3 else p.failureThreshold })

/-- The part of a probe that supervision reads. -/
def ProbeSpec.thresholds (p : ProbeSpec) : Probe :=
  ⟨p.successThreshold.toNat, p.failureThreshold.toNat⟩

/-- The results of one execution, each observed in turn. -/
def observeAll (probe : Option Probe) (results : List ReadinessResult) : Locals :=
  results.foldl (fun l r => { l with result := r : Locals }.observe probe) {}

variable {s f n c : Nat} {a b : Bool} {rs : List Bool} {t : ReadinessTracker} {probe : Option Probe}

/-- After a run of `s` successes there was no run of `f` failures. -/
def Holds (s f : Nat) (rs : List Bool) : Prop :=
  ∃ post, replicate s true ++ post <:+ rs ∧ ¬ replicate f false <:+: post

theorem concat_suffix_concat {l : List Bool} : l ++ [b] <:+ rs ++ [a] ↔ b = a ∧ l <:+ rs := by
  rw [← reverse_prefix, reverse_append, reverse_append]
  simp [cons_prefix_cons, reverse_prefix]

theorem failures_suffix {post : List Bool} (h : replicate (s + 1) true ++ post <:+ rs) :
    replicate n false <:+ post ↔ replicate n false <:+ rs := by
  have hpost : true :: post <:+ rs := by
    rw [replicate_succ', append_assoc] at h
    exact (suffix_append ..).trans h
  have hnot : ¬ true :: post <:+ replicate n false := fun h => by simpa using h.subset mem_cons_self
  refine ⟨fun hf => hf.trans ((suffix_cons ..).trans hpost), fun hf => ?_⟩
  obtain h | h := suffix_or_suffix_of_suffix hf hpost
  · exact (suffix_cons_iff.mp h).resolve_left fun e => hnot (e ▸ suffix_rfl)
  · exact absurd h hnot

theorem Holds.concat : Holds (s + 1) (f + 1) (rs ++ [a]) ↔ replicate (s + 1) true <:+ rs ++ [a] ∨
    Holds (s + 1) (f + 1) rs ∧ ¬ replicate (f + 1) false <:+ rs ++ [a] := by
  constructor
  · rintro ⟨post, hrun, hpost⟩
    obtain rfl | ⟨before, x, rfl⟩ := eq_nil_or_concat' post
    · exact .inl (by simpa using hrun)
    · rw [infix_concat_iff, failures_suffix hrun, not_or] at hpost
      rw [← append_assoc, concat_suffix_concat] at hrun
      exact .inr ⟨⟨before, hrun.2, hpost.2⟩, hpost.1⟩
  · rintro (h | ⟨⟨post, hrun, hpost⟩, hf⟩)
    · exact ⟨[], by simpa using h, by simp⟩
    · have hrun' : replicate (s + 1) true ++ (post ++ [a]) <:+ rs ++ [a] := by
        rw [← append_assoc]
        exact concat_suffix_concat.mpr ⟨rfl, hrun⟩
      refine ⟨_, hrun', ?_⟩
      rw [infix_concat_iff, failures_suffix hrun']
      exact not_or.mpr ⟨hf, hpost⟩

/-- What the counters and the flag of a tracker say of the results it has observed. -/
structure Tracks (s f : Nat) (rs : List Bool) (t : ReadinessTracker) : Prop where
  successes : ∀ k ≤ s, k ≤ t.successes ↔ replicate k true <:+ rs
  failures : ∀ k ≤ f, k ≤ t.failures ↔ replicate k false <:+ rs
  ready : t.ready = true ↔ Holds s f rs

theorem counter_concat (h : ∀ k ≤ n, k ≤ c ↔ replicate k b <:+ rs) :
    ∀ k ≤ n, k ≤ (if b = a then min (c + 1) n else 0) ↔ replicate k b <:+ rs ++ [a]
  | 0, _ => by simp
  | k + 1, hk => by
    rw [replicate_succ', concat_suffix_concat, ← h k (by omega)]
    split
    · next hb =>
      rw [and_iff_right hb]
      omega
    · next hb => simp [hb]

theorem Tracks.count (hs : (probe.map Probe.successThreshold).getD 1 = s + 1)
    (hf : (probe.map Probe.failureThreshold).getD 1 = f + 1) (h : Tracks (s + 1) (f + 1) rs t)
    (r : ReadinessResult) : Tracks (s + 1) (f + 1) (rs ++ [r.ready]) (t.count r probe) := by
  have hsucc := counter_concat h.successes (a := r.ready)
  have hfail := counter_concat h.failures (a := r.ready)
  have hready : Holds (s + 1) (f + 1) (rs ++ [r.ready]) ↔ _ := Holds.concat
  rw [← hsucc _ le_rfl, ← hfail _ le_rfl, ← h.ready] at hready
  unfold ReadinessTracker.count
  rw [hs, hf]
  cases hr : r.ready <;> rw [hr] at hsucc hfail hready
  · exact ⟨hsucc, hfail, by simpa using hready.symm⟩
  · exact ⟨hsucc, hfail, by simpa [or_comm] using hready.symm⟩

theorem ready_report (t : ReadinessTracker) (r : ReadinessResult) :
    (t.report r).ready = t.ready := by
  unfold ReadinessTracker.report
  grind

theorem tracks_observeAll (hs : (probe.map Probe.successThreshold).getD 1 = s + 1)
    (hf : (probe.map Probe.failureThreshold).getD 1 = f + 1) (results : List ReadinessResult) :
    Tracks (s + 1) (f + 1) (results.map ReadinessResult.ready) (observeAll probe results).tracker ∧
      (observeAll probe results).result.ready = (observeAll probe results).tracker.ready := by
  induction results using reverseRecOn with
  | nil => exact ⟨⟨by simp [observeAll], by simp [observeAll], by simp [observeAll, Holds]⟩, rfl⟩
  | append_singleton results r ih =>
    rw [observeAll, foldl_concat, map_append]
    exact ⟨ih.1.count hs hf r, ready_report ..⟩

/-- It is enough to look at what follows the latest run of successes. -/
theorem Holds.iff_latest : Holds s f rs ↔ ∃ post, replicate s true ++ post <:+ rs ∧
    (∀ post', replicate s true ++ post' <:+ rs → post.length ≤ post'.length) ∧
    ¬ replicate f false <:+: post := by
  classical
  refine ⟨fun ⟨post, hrun, hpost⟩ => ?_, fun ⟨post, hrun, _, hpost⟩ => ⟨post, hrun, hpost⟩⟩
  have hex : ∃ n post, replicate s true ++ post <:+ rs ∧ post.length = n := ⟨_, post, hrun, rfl⟩
  obtain ⟨last, hlast, hlen⟩ := Nat.find_spec hex
  have hmin (post' : List Bool) (h : replicate s true ++ post' <:+ rs) :
      last.length ≤ post'.length :=
    hlen ▸ Nat.find_min' hex ⟨post', h, rfl⟩
  have hsuffix : last <:+ post := suffix_of_suffix_length_le ((suffix_append ..).trans hlast)
    ((suffix_append ..).trans hrun) (hmin post hrun)
  exact ⟨last, hlast, hmin, fun h => hpost (h.trans hsuffix.isInfix)⟩

theorem normalizeProbe_pos {d p : Option ProbeSpec} (h : normalizeProbe d = .ok p) :
    ∀ q ∈ p, 0 < q.successThreshold ∧ 0 < q.failureThreshold := by
  rintro q rfl
  unfold normalizeProbe at h
  grind

/-- A probed Pillow is ready iff there were enough successes in a row and, after the latest of them,
not enough failures in a row. -/
theorem ready_iff_latest_run {d p : Option ProbeSpec} (h : normalizeProbe d = .ok p)
    (results : List ReadinessResult) :
    let probe := p.map ProbeSpec.thresholds
    let success := replicate ((probe.map Probe.successThreshold).getD 1) true
    let failure := replicate ((probe.map Probe.failureThreshold).getD 1) false
    let rs := results.map ReadinessResult.ready
    (observeAll probe results).result.ready = true ↔ ∃ post, success ++ post <:+ rs ∧
      (∀ post', success ++ post' <:+ rs → post.length ≤ post'.length) ∧ ¬ failure <:+: post := by
  intro probe success failure rs
  obtain ⟨s, f, hs, hf⟩ : ∃ s f, (probe.map Probe.successThreshold).getD 1 = s + 1 ∧
      (probe.map Probe.failureThreshold).getD 1 = f + 1 := by
    have hpos := normalizeProbe_pos h
    refine ⟨_, _, (Nat.succ_pred ?_).symm, (Nat.succ_pred ?_).symm⟩ <;>
      cases p <;> simp_all [probe, ProbeSpec.thresholds]
  obtain ⟨htracks, hreport⟩ := tracks_observeAll hs hf results
  rw [hreport, htracks.ready, ← hs, ← hf]
  exact Holds.iff_latest

/-- Two successes make it ready, one failure after them does not change that, a second one does. -/
theorem ready_iff_latest_run_thresholds :
    ∃ p, normalizeProbe (some ⟨true, false, 0, 0, 0, 2, 2⟩) = .ok p ∧
      (∃ post, [true, true] ++ post <:+ [true, true, false] ∧
        (∀ post', [true, true] ++ post' <:+ [true, true, false] → post.length ≤ post'.length) ∧
        ¬ [false, false] <:+: post ∧ post ≠ []) ∧
      ¬ ∃ post, [true, true] ++ post <:+ [true, true, false, false] ∧
        (∀ post', [true, true] ++ post' <:+ [true, true, false, false] →
          post.length ≤ post'.length) ∧ ¬ [false, false] <:+: post := by
  refine ⟨_, rfl, ?_, fun h => ?_⟩
  · obtain ⟨post, hrun, hlatest, hpost⟩ :=
      (ready_iff_latest_run (d := some ⟨true, false, 0, 0, 0, 2, 2⟩) rfl
      [⟨true, ""⟩, ⟨true, ""⟩, ⟨false, "refused"⟩]).mp (by decide)
    refine ⟨post, hrun, hlatest, hpost, ?_⟩
    rintro rfl
    exact absurd hrun (by decide)
  · have hready := (ready_iff_latest_run (d := some ⟨true, false, 0, 0, 0, 2, 2⟩) rfl
      [⟨true, ""⟩, ⟨true, ""⟩, ⟨false, "refused"⟩, ⟨false, "refused"⟩]).mpr h
    exact absurd hready (by decide)

end Hostel.Pillow
