/-
# Hostel.Logic.Machine — executable machines, their runs and their traces.

A machine is a partial step function: `step s a = none` says that the action `a` is not enabled in
`s`.  `run` folds it over a schedule and is what concrete schedules are evaluated with; `log` lists
the steps of such a run; `Trace` is the inductive reading of the same thing, and the one every
invariant is proved by induction on.
-/
import Mathlib.Data.List.Induction
import Mathlib.Logic.Function.Basic

namespace Hostel.Logic

open List

universe u v w

structure Machine (σ : Type u) (α : Type v) where
  step : σ → α → Option σ

namespace Machine

variable {σ : Type u} {α : Type v} (M : Machine σ α)

/-- Run a schedule; `none` as soon as one of its actions is not enabled. -/
def run : σ → List α → Option σ
  | s, [] => some s
  | s, a :: as =>
    match M.step s a with
    | none => none
    | some s' => run s' as

/-- The steps a schedule takes: each action with the state it is taken in. -/
def log : σ → List α → List (σ × α)
  | _, [] => []
  | s, a :: as =>
    match M.step s a with
    | none => []
    | some s' => (s, a) :: log s' as

/-- `Trace M s₀ τ s`: the steps `τ`, oldest first, lead from `s₀` to `s`. -/
inductive Trace (s₀ : σ) : List (σ × α) → σ → Prop
  | nil : Trace s₀ [] s₀
  | snoc {τ : List (σ × α)} {s s' : σ} {a : α} :
      Trace s₀ τ s → M.step s a = some s' → Trace s₀ (τ ++ [(s, a)]) s'

variable {M} {s₀ s s' : σ} {τ τ' : List (σ × α)} {a : α}

theorem Trace.append (h : M.Trace s₀ τ s) (h' : M.Trace s τ' s') : M.Trace s₀ (τ ++ τ') s' := by
  induction h' with
  | nil => simpa using h
  | snoc _ hstep ih =>
    rw [← append_assoc]
    exact .snoc ih hstep

theorem Trace.single (h : M.step s a = some s') : M.Trace s [(s, a)] s' := .snoc .nil h

variable {as : List α}

theorem trace_of_run (h : M.run s₀ as = some s) : M.Trace s₀ (M.log s₀ as) s := by
  induction as generalizing s₀ with
  | nil =>
    cases h
    exact .nil
  | cons a as ih =>
    unfold run at h
    unfold log
    split at h
    · cases h
    next s' hs' =>
    exact (Trace.single hs').append (ih h)

/-- A schedule whose run ends in a state that passes a test is a trace to such a state. -/
theorem trace_of_any (M : Machine σ α) (s₀ : σ) (as : List α) (P : σ → Prop) [DecidablePred P]
    (h : (M.run s₀ as).any (fun s => P s) = true) : ∃ s, M.Trace s₀ (M.log s₀ as) s ∧ P s := by
  cases hrun : M.run s₀ as with
  | none => simp [hrun] at h
  | some s => exact ⟨s, trace_of_run hrun, by simpa [hrun] using h⟩

theorem log_cons (h : M.step s a = some s') : M.log s (a :: as) = (s, a) :: M.log s' as := by
  simp [log, h]

theorem log_append {as bs : List α} (h : M.run s₀ as = some s) :
    M.log s₀ (as ++ bs) = M.log s₀ as ++ M.log s bs := by
  induction as generalizing s₀ with
  | nil =>
    cases h
    rfl
  | cons a as ih =>
    unfold run at h
    split at h
    · cases h
    · next s' hs' => rw [cons_append, log_cons hs', log_cons hs', ih h, cons_append]

/-- A run of a schedule, cut at one of its actions; the test reads the states at the cut and at the
end, and the steps between them. -/
theorem trace_through (M : Machine σ α) (s₀ : σ) (as : List α) (a : α) (bs : List α)
    (P : σ → List (σ × α) → σ → Prop) [∀ s τ s', Decidable (P s τ s')]
    (h : ((M.run s₀ as).any fun s => (M.step s a).any fun s₁ =>
      (M.run s₁ bs).any fun s' => P s (M.log s₁ bs) s') = true) :
    ∃ s τ s', M.Trace s₀ (M.log s₀ as ++ (s, a) :: τ) s' ∧
      M.log s₀ (as ++ a :: bs) = M.log s₀ as ++ (s, a) :: τ ∧ P s τ s' := by
  obtain ⟨s, hrun, h⟩ := (Option.any_eq_true _ _).mp h
  obtain ⟨s₁, hstep, h⟩ := (Option.any_eq_true _ _).mp h
  obtain ⟨s', hrest, hp⟩ := M.trace_of_any s₁ bs (P s (M.log s₁ bs)) h
  refine ⟨s, M.log s₁ bs, s', ?_, ?_, hp⟩
  · exact (trace_of_run hrun).append ((Trace.single hstep).append hrest)
  · rw [log_append hrun, log_cons hstep]

/-- A run with a decidable property is found by running a schedule. -/
theorem exists_trace {Q : List (σ × α) → σ → Prop} [∀ τ s, Decidable (Q τ s)] (as : List α)
    (h : (M.run s₀ as).any (fun s => Q (M.log s₀ as) s) = true) :
    ∃ τ s, M.Trace s₀ τ s ∧ Q τ s := by
  obtain ⟨s, hs⟩ := M.trace_of_any s₀ as _ h
  exact ⟨_, s, hs⟩

theorem exists_trace_through {Q : σ → σ → Prop} [∀ s s', Decidable (Q s s')] (as bs : List α)
    (h : ((M.run s₀ as).any fun s => (M.step s a).any fun s₁ => (M.run s₁ bs).any
      fun s' => Q s s') = true) : ∃ τ₀ τ s s', M.Trace s₀ (τ₀ ++ (s, a) :: τ) s' ∧ Q s s' := by
  obtain ⟨s, τ, s', hs, -, hQ⟩ := M.trace_through s₀ as a bs (fun s _ s' => Q s s') h
  exact ⟨_, τ, s, s', hs, hQ⟩

variable {C : σ × α → Prop}

theorem Trace.forall_steps [DecidablePred C] (_ : M.Trace s₀ τ s)
    (h : decide (∀ e ∈ τ, C e) = true) : ∀ e ∈ τ, C e :=
  of_decide_eq_true h

theorem forall_of_log [DecidablePred C] (hlog : M.log s₀ as = τ)
    (h : decide (∀ e ∈ M.log s₀ as, C e) = true) : ∀ e ∈ τ, C e :=
  hlog ▸ of_decide_eq_true h

theorem mem_of_log {e : σ × α} (h : e ∈ M.log s₀ as) : e.2 ∈ as := by
  induction as generalizing s₀ with
  | nil => cases h
  | cons a as ih =>
    unfold log at h
    split at h
    · cases h
    · rcases mem_cons.mp h with rfl | h
      · exact mem_cons_self
      · exact mem_cons_of_mem _ (ih h)

theorem Trace.nil_eq (h : M.Trace s₀ [] s) : s = s₀ := by
  generalize hρ : ([] : List (σ × α)) = ρ at h
  cases h with
  | nil => rfl
  | snoc _ _ => simp at hρ

theorem Trace.of_concat (h : M.Trace s₀ (τ ++ [(s, a)]) s') :
    M.Trace s₀ τ s ∧ M.step s a = some s' := by
  generalize hτ : τ ++ [(s, a)] = ρ at h
  cases h with
  | nil => simp at hτ
  | snoc h hstep =>
    obtain ⟨rfl, hlast⟩ := append_inj' hτ rfl
    cases hlast
    exact ⟨h, hstep⟩

theorem Trace.split (h : M.Trace s₀ (τ ++ τ') s') : ∃ s, M.Trace s₀ τ s ∧ M.Trace s τ' s' := by
  induction τ' using reverseRecOn generalizing s' with
  | nil => exact ⟨s', by simpa using h, .nil⟩
  | append_singleton τ' e ih =>
    obtain ⟨r, b⟩ := e
    rw [← append_assoc] at h
    obtain ⟨hr, hstep⟩ := h.of_concat
    obtain ⟨q, hq, hq'⟩ := ih hr
    exact ⟨q, hq, .snoc hq' hstep⟩

theorem Trace.head_eq {r : σ} (h : M.Trace s₀ ((r, a) :: τ) s) : r = s₀ := by
  obtain ⟨q, hq, _⟩ := Trace.split (τ := [(r, a)]) h
  obtain ⟨hr, _⟩ := Trace.of_concat (τ := []) hq
  exact hr.nil_eq

theorem Trace.split_cons {r : σ} (h : M.Trace s₀ (τ ++ (r, a) :: τ') s') :
    ∃ s, M.Trace s₀ τ r ∧ M.step r a = some s ∧ M.Trace s τ' s' := by
  rw [append_cons] at h
  obtain ⟨s, hs, hrest⟩ := h.split
  obtain ⟨hr, hstep⟩ := hs.of_concat
  exact ⟨s, hr, hstep, hrest⟩

/-- The invariant rule: what holds at the start and is kept by every step that meets `C` holds at
the end of every trace whose steps all meet `C`.  The property may read the trace so far. -/
theorem Trace.invariant {P : List (σ × α) → σ → Prop} (hinit : P [] s₀)
    (hstep : ∀ τ s a s', M.Trace s₀ τ s → P τ s → C (s, a) → M.step s a = some s' →
      P (τ ++ [(s, a)]) s')
    (h : M.Trace s₀ τ s) (hC : ∀ e ∈ τ, C e) : P τ s := by
  induction h with
  | nil => exact hinit
  | @snoc τ s s' a hτ hs ih =>
    have hpre : P τ s := ih fun e he => hC e (mem_append_left _ he)
    exact hstep τ s a s' hτ hpre (hC (s, a) (by simp)) hs

theorem Trace.invariant_state {P : σ → Prop} (hinit : P s₀)
    (hstep : ∀ s a s', P s → C (s, a) → M.step s a = some s' → P s')
    (h : M.Trace s₀ τ s) (hC : ∀ e ∈ τ, C e) : P s :=
  Trace.invariant (P := fun _ s => P s) hinit
    (fun _ s a s' _ hP hc hs => hstep s a s' hP hc hs) h hC

/-- The rule for what every step keeps. -/
@[elab_as_elim]
theorem Trace.always {P : List (σ × α) → σ → Prop} (h : M.Trace s₀ τ s) (hinit : P [] s₀)
    (hstep : ∀ {τ s a s'}, M.Trace s₀ τ s → P τ s → M.step s a = some s' → P (τ ++ [(s, a)]) s') :
    P τ s :=
  h.invariant (C := fun _ => True) hinit (fun _ _ _ _ hτ hP _ => hstep hτ hP) fun _ _ => trivial

/-- The rule for budgets: when no step that meets `C` adds to what is left, and every step that is
counted takes one of it, a run has no more of those than were left at its start. -/
theorem Trace.count_le {I : σ → Prop} (counted : σ × α → Bool) (left : σ → Nat)
    (hI : I s₀) (hinv : ∀ s a s', I s → M.step s a = some s' → I s')
    (hstep : ∀ s a s', I s → C (s, a) → M.step s a = some s' →
      left s' + (if counted (s, a) then 1 else 0) ≤ left s)
    (h : M.Trace s₀ τ s) (hC : ∀ e ∈ τ, C e) : I s ∧ left s + τ.countP counted ≤ left s₀ := by
  induction h with
  | nil => exact ⟨hI, Nat.le_refl _⟩
  | @snoc τ s s' a hτ hs ih =>
    obtain ⟨hIs, hleft⟩ := ih fun e he => hC e (mem_append_left _ he)
    refine ⟨hinv s a s' hIs hs, ?_⟩
    have hlast := hstep s a s' hIs (hC (s, a) (by simp)) hs
    rw [countP_append, countP_singleton]
    omega

end Machine

end Hostel.Logic
