/-
# Hostel.Bed.Runs — from one step of one slot to every run of the manager.

An event acts on at most one name, so a property of the slots is carried along a run by a lemma
about `Slot.step`, also along a run restricted by a condition on its steps (`Meets`).
-/
import Hostel.Bed.Activity

namespace Hostel.Bed

open Store Logic

namespace Manager

variable {ν : Type} [DecidableEq ν] {m m' : Manager ν} {n : ν} {a : Act} {ev : Event ν}

theorem step_act (h : m.step (.act n a) = some m') :
    ∃ s' e, (m.slot n).step (m.env n) a = some (s', e) ∧
      m' = { m with
        residentBeds := m.residentBeds + e.resident
        pinnedBeds := m.pinnedBeds + e.pinned
        names := insert n m.names
        slot := Function.update m.slot n s' } := by
  simp only [step, Option.map_eq_some_iff, Prod.exists] at h
  obtain ⟨s', e, hs, rfl⟩ := h
  exact ⟨s', e, hs, rfl⟩

theorem trace_step (h : m.step ev = some m') : (machine ν).Trace m [(m, ev)] m' := .snoc .nil h

theorem step_slot (h : m.step ev = some m') (k : ν) :
    m'.slot k = m.slot k ∧ (∀ a, ev ≠ .act k a) ∨
      ∃ a e, ev = .act k a ∧ (m.slot k).step (m.env k) a = some (m'.slot k, e) := by
  cases ev with
  | tick d | stop =>
    cases h
    exact .inl ⟨rfl, by simp⟩
  | act n a =>
    obtain ⟨s', e, hs, rfl⟩ := step_act h
    by_cases hk : k = n
    · subst hk
      exact .inr ⟨a, e, rfl, by simpa using hs⟩
    · exact .inl ⟨by simp [hk], by simp [Ne.symm hk]⟩

theorem step_closed (h : m.step ev = some m') : m'.closed = m.closed ∨ m'.closed = true := by
  cases ev with
  | tick d =>
    cases h
    exact .inl rfl
  | stop =>
    cases h
    exact .inr rfl
  | act n a =>
    obtain ⟨s', e, -, rfl⟩ := step_act h
    exact .inl rfl

/-- A step meets a condition on actions if the action it performs on a name does. -/
def Meets (C : Env → Slot → Act → Prop) (e : Manager ν × Event ν) : Prop :=
  match e.2 with
  | .act n a => C (e.1.env n) (e.1.slot n) a
  | _ => True

theorem Meets.imp {C C' : Env → Slot → Act → Prop} {e : Manager ν × Event ν} (h : Meets C e)
    (hC : ∀ env s a, C env s a → C' env s a) : Meets C' e := by
  unfold Meets at h ⊢
  split at h
  · exact hC _ _ _ h
  · trivial

instance {C : Env → Slot → Act → Prop} [∀ env s a, Decidable (C env s a)]
    (e : Manager ν × Event ν) : Decidable (Meets C e) := by
  unfold Meets
  split <;> infer_instance

/-- A step meets a condition on the actions of one name. -/
def MeetsAt (n : ν) (C : Env → Slot → Act → Prop) (e : Manager ν × Event ν) : Prop :=
  ∀ a, e.2 = .act n a → C (e.1.env n) (e.1.slot n) a

variable {C : Env → Slot → Act → Prop}

theorem Meets.at {e : Manager ν × Event ν} (h : Meets C e) (n : ν) :
    MeetsAt n C e := fun a he => by
  unfold Meets at h
  rwa [he] at h

section

variable {I : Bool → Slot → Prop} (hstop : ∀ s, I false s → I true s)
  (hstep : ∀ env s a s' e, I env.closed s → C env s a → s.step env a = some (s', e) →
    I env.closed s')
  {m₀ : Manager ν} {τ : List (Manager ν × Event ν)}
include hstop hstep

theorem slot_invariant_at (hinit : I m₀.closed (m₀.slot n)) (h : (machine ν).Trace m₀ τ m)
    (hC : ∀ e ∈ τ, MeetsAt n C e) : I m.closed (m.slot n) := by
  refine h.invariant_state (P := fun m => I m.closed (m.slot n)) (C := MeetsAt n C) hinit ?_ hC
  intro m ev m' hI hc hs
  have hclosed : I m.closed (m'.slot n) := by
    rcases step_slot hs n with ⟨hsame, -⟩ | ⟨a, e, rfl, hact⟩
    · rw [hsame]
      exact hI
    · exact hstep (m.env n) _ a _ e hI (hc a rfl) hact
  rcases step_closed hs with hsame | htrue
  · rwa [hsame]
  · rw [htrue]
    cases hm : m.closed with
    | false => exact hstop _ (hm ▸ hclosed)
    | true => exact hm ▸ hclosed

theorem slot_invariant (hinit : ∀ k, I m₀.closed (m₀.slot k)) (h : (machine ν).Trace m₀ τ m)
    (hC : ∀ e ∈ τ, Meets C e) (k : ν) : I m.closed (m.slot k) :=
  slot_invariant_at hstop hstep (hinit k) h fun e he => (hC e he).at k

end

end Manager

/-! ## Schedules -/

/-- `k` steps of goroutine `t`, every one of which succeeds. -/
def threadSteps {ν : Type} (n : ν) (t : ThreadId) (k : Nat) : List (Event ν) :=
  List.replicate k (.act n (.thread t .ok))

/-- `k` steps of initialization `i`, every one of which succeeds. -/
def taskSteps {ν : Type} (n : ν) (i : TaskId) (k : Nat) : List (Event ν) :=
  List.replicate k (.act n (.task i .ok))

def plainRequest : CreateRequest := { sync := none, hasMainProcesses := false }

/-- Goroutine `t` creates the Bed of an empty name, and initialization `i` publishes it. -/
def createSteps {ν : Type} (n : ν) (t : ThreadId) (i : TaskId) : List (Event ν) :=
  .act n (.initializeBed plainRequest) :: threadSteps n t 3 ++ taskSteps n i 31

/-- A store with a bucket, and no limit on Beds. -/
def plainConfig : Config :=
  { maxBeds := 0, idleTTL := 0, store := { bucket := true, defaultSync := .auto } }

abbrev Manager.bootEmpty {ν : Type} (config : Config) (now : Time) : Manager ν :=
  boot config now (fun _ => ⟨none, none⟩) (fun _ => none)

/-! ## What holds in every run -/

/-- The invariants that hold however the goroutines interleave and whatever fails. -/
structure Sound (s : Slot) : Prop where
  grounded : Grounded s
  operations : Operations s
  active : Active s

theorem Sound.does {env : Env} {s : Slot} {a : Act} {w : Write} {m : Move} (h : Sound s)
    (hd : s.Does env a w m) : Sound ((s.apply env w).move m) :=
  ⟨hd.grounded h.grounded, hd.operations h.grounded h.operations, hd.active h.grounded h.active⟩

theorem Sound.step {env : Env} {s s' : Slot} {a : Act} {e : Effect} (h : Sound s)
    (hs : s.step env a = some (s', e)) : Sound s' := by
  obtain ⟨w, m, hd, rfl, -⟩ := Slot.step_does hs
  exact h.does hd

theorem sound_boot (env : Env) (disk : Disk) (snapshot : Option Snapshot) :
    Sound (Slot.boot env disk snapshot) :=
  ⟨grounded_boot env disk snapshot, operations_boot env disk snapshot,
    active_boot env disk snapshot⟩

theorem Manager.sound_of_trace {ν : Type} [DecidableEq ν] {config : Config} {now : Time}
    {disk : ν → Disk} {snapshot : ν → Option Snapshot} {τ : List (Manager ν × Event ν)}
    {m : Manager ν} (h : (machine ν).Trace (boot config now disk snapshot) τ m) (n : ν) :
    Sound (m.slot n) :=
  slot_invariant (C := fun _ _ _ => True) (I := fun _ => Sound) (fun _ hs => hs)
    (fun _ _ _ _ _ hs _ hstep => hs.step hstep) (fun _ => sound_boot _ _ _) h
    (fun e _ => by unfold Meets; split <;> trivial) n

end Hostel.Bed
