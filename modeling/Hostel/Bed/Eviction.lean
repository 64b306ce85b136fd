/-
# Hostel.Bed.Eviction — an evicted Bed was persisted after everything that happened on it.

The history of an eviction attempt: its fence, the watermark of its persist, the snapshot, and the
return of `persistBed`.  While the activity sequence stands still nothing was admitted since the
fence (`Attempted`), so an attempt that moves the Bed into `retirements` persisted it after the last
activity.

The registration of a shell is the one session open that does not move the sequence: its call
touched the Bed before, perhaps before the fence.  The history is about runs in which no shell is
registered past a fence (`Unfenced`).
-/
import Hostel.Bed.Runs

namespace Hostel.Bed

open Store Logic List Slot

/-- The allocation on which a write is an operation begin or finish, a touch or a session open. -/
def Write.activity : Write → Option TaskId
  | .beginOperation j _ _ | .finishOperation j _ | .touch j | .openSession j | .registerShell j =>
    some j
  | _ => none

def Write.registers : Write → Option TaskId
  | .registerShell j => some j
  | _ => none

/-- The goroutine is past its fence on `j` and has not given up. -/
def Thread.evicts (j : TaskId) : Thread → Bool
  | .evict _ pc => (pc.attempt.any fun p => p.1 == j) || pc.moved == some j
  | _ => false

/-- A shell is registered on an allocation on which no eviction is past its fence. -/
def Unfenced (env : Env) (s : Slot) (a : Act) : Prop :=
  ∀ p ∈ a.plan env s, ∀ j ∈ p.1.registers, ∀ t ∈ range s.nThreads, (s.threads t).evicts j = false

instance (env : Env) (s : Slot) (a : Act) : Decidable (Unfenced env s a) := by
  unfold Unfenced
  infer_instance

variable {env : Env} {s : Slot} {a : Act} {w : Write} {m : Move} {j : TaskId} {t : ThreadId}

theorem Unfenced.not_registers (h : Unfenced env s a) (hg : Grounded s)
    (hplan : a.plan env s = some (w, m)) (ht : (s.threads t).evicts j = true) :
    w ≠ .registerShell j := by
  rintro rfl
  have hlt : t < s.nThreads := Nat.lt_of_not_le fun hle => by
    rw [hg.idle t hle] at ht
    cases ht
  rw [h _ hplan j rfl t (mem_range.mpr hlt)] at ht
  cases ht

/-- Nothing happened on an idle allocation whose activity sequence did not move: the finish of a
checkpoint does not move it, but needs a checkpoint in flight. -/
theorem Slot.Does.quiet (hd : s.Does env a w m) (h : Sound s) (hflight : (s.alloc j).inflight = 0)
    (hshell : w ≠ .registerShell j)
    (hseq : (w.alloc env s j).activitySeq = (s.alloc j).activitySeq) : w.activity ≠ some j := by
  intro hact
  cases w <;> simp only [Write.activity, Option.some.injEq, reduceCtorEq] at hact <;> subst hact
  case finishOperation kind =>
    have hmem := h.operations.finishes h.grounded hd
    rw [h.operations.total, countP_eq_zero] at hflight
    exact hflight _ hmem (by simp)
  case registerShell => exact hshell rfl
  all_goals simp [Write.alloc, ManagedBed.begin, ManagedBed.touch] at hseq

variable {seq : Nat}

theorem evicts_of_attempt {th : Thread} {p : Progress}
    (h : th.attempt = some (j, seq, p)) : th.evicts j = true := by
  cases th with
  | evict cutoff pc => simp [Thread.evicts, show pc.attempt = some (j, seq, p) from h]
  | _ => cases h

namespace Manager

variable {ν : Type}

/-! ## Steps of a run -/

def By (n : ν) (t : ThreadId) (e : Manager ν × Event ν) : Prop := ∃ r, e.2 = .act n (.thread t r)

/-- `persistBed` of `j` in goroutine `t` captures its watermark. -/
def Captures (n : ν) (t : ThreadId) (j : TaskId) (e : Manager ν × Event ν) : Prop :=
  By n t e ∧ ∃ info, ((e.1.slot n).threads t).persisting = some (j, .mark info)

/-- `persistBed` of `j` in goroutine `t` returns. -/
def Returns (n : ν) (t : ThreadId) (j : TaskId) (err : Option Fault) (e : Manager ν × Event ν) :
    Prop :=
  By n t e ∧ ((e.1.slot n).threads t).persisting = some (j, .unlock err)

variable {n : ν} {τ ρ : List (Manager ν × Event ν)} {d d' : Manager ν}
  {e : Manager ν × Event ν} {p : Progress} {s' : Slot}

theorem not_captures (h : ((d.slot n).threads t).attempt = some (j, seq, p))
    (hp : p ≠ .fenced) {ev : Event ν} : ¬Captures n t j (d, ev) := by
  rintro ⟨-, info, hmark⟩
  cases (attempt_progress h hmark).2
  exact hp rfl

variable [DecidableEq ν]

def Performs (n : ν) (w : Write) (e : Manager ν × Event ν) : Prop :=
  ∃ a m, e.2 = .act n a ∧ a.plan (e.1.env n) (e.1.slot n) = some (w, m)

/-- An operation begin or finish, a touch or a session open on allocation `j`. -/
def Activity (n : ν) (j : TaskId) (e : Manager ν × Event ν) : Prop :=
  ∃ w, Performs n w e ∧ w.activity = some j

/-- `evictResidentBed` in goroutine `t` passes its fence on allocation `j`. -/
def Fences (n : ν) (t : ThreadId) (j : TaskId) (e : Manager ν × Event ν) : Prop :=
  By n t e ∧ ∃ cutoff, (e.1.slot n).threads t = .evict cutoff (.fence j) ∧
    evictionRefused (e.1.env n) (e.1.slot n) cutoff j = none

/-- The store commits the snapshot that `persistBed` of `j` in goroutine `t` uploads. -/
def Stores (n : ν) (t : ThreadId) (j : TaskId) (e : Manager ν × Event ν) : Prop :=
  By n t e ∧ (∃ sn, Performs n (.commitSnapshot sn) e) ∧
    ∃ pc, ((e.1.slot n).threads t).persisting = some (j, pc)

/-! ## The history of an attempt -/

/-- What the steps since the fence show about a persist of `j` that has come as far as `p`: it
captured its watermark, and then the store took the snapshot and `persistBed` returned. -/
def Shown (n : ν) (t : ThreadId) (j : TaskId) (s : Slot) (p : Progress)
    (ρ : List (Manager ν × Event ν)) : Prop :=
  p = .fenced ∨ ∃ ρ₁ c ρ₂, ρ = ρ₁ ++ c :: ρ₂ ∧ Captures n t j c ∧ (∀ e ∈ ρ₂, ¬Captures n t j e) ∧
    (p.isStored = true → s.bed = some j → (s.storeKind j).durable = true →
      ∃ e ∈ ρ₂, Stores n t j e) ∧
    (p = .returned → ∃ e ∈ ρ₂, Returns n t j none e)

/-- Every attempt whose sequence stands still passed its fence, and since then nothing was admitted
on its allocation. -/
def Attempted (n : ν) (τ : List (Manager ν × Event ν)) (s : Slot) : Prop :=
  ∀ t j seq p, (s.threads t).attempt = some (j, seq, p) → (s.alloc j).activitySeq = seq →
    ∃ τ₁ f τ₂, τ = τ₁ ++ f :: τ₂ ∧ Fences n t j f ∧ (∀ e ∈ τ₂, ¬Activity n j e) ∧
      Shown n t j s p τ₂

theorem Shown.advance {p' : Progress} (h : Shown n t j s p ρ) (hp : p = .fenced → p' = .fenced)
    (hcap : p ≠ .fenced → ¬Captures n t j e)
    (hback : s'.bed = some j → s.bed = some j ∧ s'.storeKind j = s.storeKind j)
    (hstore : p'.isStored = true → p.isStored = true ∨
      (s'.bed = some j → (s'.storeKind j).durable = true → Stores n t j e))
    (hret : p' = .returned → p = .returned ∨ Returns n t j none e) :
    Shown n t j s' p' (ρ ++ [e]) := by
  by_cases hfenced : p = .fenced
  · exact .inl (hp hfenced)
  rcases h with h | ⟨ρ₁, c, ρ₂, rfl, hc, hlast, hstored, hreturned⟩
  · exact absurd h hfenced
  refine .inr ⟨ρ₁, c, ρ₂ ++ [e], by simp, hc, ?_, ?_, ?_⟩
  · exact forall_mem_append.mpr ⟨hlast, forall_mem_singleton.mpr (hcap hfenced)⟩
  · intro hp' hbed' hdurable'
    rcases hstore hp' with hold | hnew
    · obtain ⟨hbed, hkind⟩ := hback hbed'
      obtain ⟨x, hx, hs⟩ := hstored hold hbed (hkind ▸ hdurable')
      exact ⟨x, mem_append_left _ hx, hs⟩
    · exact ⟨e, by simp, hnew hbed' hdurable'⟩
  · intro hp'
    rcases hret hp' with hold | hnew
    · obtain ⟨x, hx, hr⟩ := hreturned hold
      exact ⟨x, mem_append_left _ hx, hr⟩
    · exact ⟨e, by simp, hnew⟩

theorem Attempted.extend {q : Progress} {u : Slot} {ev : Event ν} (hatt : Attempted n τ (d.slot n))
    (hp : ((d.slot n).threads t).attempt = some (j, seq, p))
    (hseq : ((d.slot n).alloc j).activitySeq = seq) (hact : ¬Activity n j (d, ev))
    (hshow : ∀ ρ, Shown n t j (d.slot n) p ρ → Shown n t j u q (ρ ++ [(d, ev)])) :
    ∃ τ₁ f τ₂, τ ++ [(d, ev)] = τ₁ ++ f :: τ₂ ∧ Fences n t j f ∧ (∀ e ∈ τ₂, ¬Activity n j e) ∧
      Shown n t j u q τ₂ := by
  obtain ⟨τ₁, f, τ₂, rfl, hf, hquiet, hshown⟩ := hatt t j seq p hp hseq
  refine ⟨τ₁, f, τ₂ ++ [(d, ev)], by simp, hf, ?_, hshow τ₂ hshown⟩
  exact forall_mem_append.mpr ⟨hquiet, forall_mem_singleton.mpr ‹_›⟩

theorem not_activity (hsound : Sound (d.slot n)) (hmeet : Unfenced (d.env n) (d.slot n) a)
    (hplan : a.plan (d.env n) (d.slot n) = some (w, m))
    (hp : ((d.slot n).threads t).attempt = some (j, seq, p))
    (hseq : (w.alloc (d.env n) (d.slot n) j).activitySeq = seq) :
    ((d.slot n).alloc j).activitySeq = seq ∧ ¬Activity n j (d, .act n a) := by
  have hd := Act.plan_does hplan
  obtain ⟨-, -, -, hkeep⟩ := hsound.active.keep hsound.grounded hd hp
  have hfixed := (hkeep hseq).1
  have hstill : ((d.slot n).alloc j).activitySeq = seq := hfixed.symm.trans hseq
  refine ⟨hstill, ?_⟩
  rintro ⟨w', ⟨a', m', ha, hplan'⟩, hact⟩
  cases ha
  cases hplan.symm.trans hplan'
  exact hd.quiet hsound ((hsound.active.attempts t j seq p hp).2.2 hstill).1
    (hmeet.not_registers hsound.grounded hplan (evicts_of_attempt hp)) hfixed hact

theorem Attempted.step {ev : Event ν} (hatt : Attempted n τ (d.slot n)) (hsound : Sound (d.slot n))
    (hmeet : Meets Unfenced (d, ev)) (hstep : d.step ev = some d') :
    Attempted n (τ ++ [(d, ev)]) (d'.slot n) := by
  rcases step_slot hstep n with ⟨hsame, hev⟩ | ⟨a, e, rfl, hact⟩
  · rw [hsame]
    intro t j seq p hp hseq
    refine hatt.extend hp hseq ?_ fun ρ hρ => hρ.advance id (fun h => not_captures hp h)
      (fun h => ⟨h, rfl⟩) .inl .inl
    rintro ⟨w, ⟨a, -, ha, -⟩, -⟩
    exact hev a ha
  obtain ⟨w, m, hplan, hd, hs', -⟩ := step_plan hact
  rw [hs']
  -- a Bed that is resident after the step was resident before, with the same store
  have hback : ∀ t j seq p, ((d.slot n).threads t).attempt = some (j, seq, p) →
      (((d.slot n).apply (d.env n) w).move m).bed = some j → (d.slot n).bed = some j ∧
        (((d.slot n).apply (d.env n) w).move m).storeKind j = (d.slot n).storeKind j := by
    intro t j seq p hp hbed
    simp only [move_bed, apply_bed] at hbed
    have hold := hd.bed_back (hsound.active.attempts t j seq p hp).1 hbed
    refine ⟨hold, hsound.grounded.storeKind (hsound.grounded.entries j (.inl hold)) ?_⟩
    cases w <;> try rfl
    have hnone := hd.accepts.1.bed
    rw [hold] at hnone
    cases hnone
  have hgrow {t : ThreadId} {j : TaskId} {seq : Nat} {p q : Progress}
      (hp : ((d.slot n).threads t).attempt = some (j, seq, p))
      (hseq : (w.alloc (d.env n) (d.slot n) j).activitySeq = seq) :=
    have hquiet := not_activity hsound hmeet hplan hp hseq
    hatt.extend (u := ((d.slot n).apply (d.env n) w).move m) (q := q) hp hquiet.1 hquiet.2
  unfold Attempted
  simp only [move_alloc, apply_alloc]
  refine hd.forall_threads (P := fun t th => ∀ j seq p, th.attempt = some (j, seq, p) →
    (w.alloc (d.env n) (d.slot n) j).activitySeq = seq →
    ∃ τ₁ f τ₂, τ ++ [(d, .act n a)] = τ₁ ++ f :: τ₂ ∧ Fences n t j f ∧
      (∀ e ∈ τ₂, ¬Activity n j e) ∧
      Shown n t j (((d.slot n).apply (d.env n) w).move m) p τ₂) ?_ ?_ ?_ ?_
  · intro t _ j seq p hp hseq
    exact hgrow hp hseq fun ρ hρ => hρ.advance id (fun h => not_captures hp h)
      (hback t j seq p hp) .inl .inl
  · rintro t r th rfl hth j seq p hp hseq
    obtain ⟨r', rfl, -⟩ := hd.act_thread
    have hby : By n t (d, .act n (.thread t r')) := ⟨r', rfl⟩
    cases threadStep_attempt hth hp with
    | fence hfence hpass _ => exact ⟨τ, _, [], rfl, ⟨hby, _, hfence, hpass⟩, by simp, .inl rfl⟩
    | stay hold =>
      exact hgrow hold hseq fun ρ hρ => hρ.advance id (fun h => not_captures hold h)
        (hback t j seq p hold) .inl .inl
    | capture hold hmark =>
      exact hgrow hold hseq fun ρ _ =>
        .inr ⟨ρ, _, [], rfl, ⟨hby, _, hmark⟩, by simp, by simp [Progress.isStored], by simp⟩
    | store hold hsnapshot =>
      refine hgrow hold hseq fun ρ hρ => hρ.advance (by simp)
        (fun h => not_captures hold h) (hback t j seq _ hold) (fun _ => .inr ?_) (by simp)
      intro hbed hdurable
      rw [(hback t j seq _ hold hbed).2] at hdurable
      obtain ⟨sn, rfl⟩ := hsnapshot hdurable
      exact ⟨hby, ⟨sn, _, _, rfl, hplan⟩, attempt_captured hold⟩
    | commit hold _ _ =>
      exact hgrow hold hseq fun ρ hρ => hρ.advance (by simp)
        (fun h => not_captures hold h) (hback t j seq _ hold) (fun _ => .inl rfl) (by simp)
    | ret hold hunlock =>
      exact hgrow hold hseq fun ρ hρ => hρ.advance (by simp)
        (fun h => not_captures hold h) (hback t j seq _ hold) (fun _ => .inl rfl)
        (fun _ => .inr ⟨hby, hunlock⟩)
  · intro th _ hspawn _ j seq p hp
    cases hspawn <;> cases hp
  · intro l removeRoot _ _ j seq p hp
    cases hp

theorem attempted_of_trace {config : Config} {now : Time} {disk : ν → Disk}
    {snapshot : ν → Option Snapshot} (h : (machine ν).Trace (boot config now disk snapshot) τ d)
    (hC : ∀ e ∈ τ, Meets Unfenced e) (n : ν) : Attempted n τ (d.slot n) := by
  refine h.invariant (P := fun τ d => Attempted n τ (d.slot n)) ?_ ?_ hC
  · intro t j seq p hp
    cases hp
  · intro τ d ev d' hτ hatt hmeet hstep
    exact hatt.step (sound_of_trace hτ n) hmeet hstep

end Manager

end Hostel.Bed
