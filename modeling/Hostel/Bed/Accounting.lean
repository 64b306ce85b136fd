/-
# Hostel.Bed.Accounting — the capacity counters agree with the maps.

`residentBeds` and `pinnedBeds` are maintained incrementally, by before/after comparisons inside the
sections that change an allocation.  Every step adds to them exactly what its slot gained, also the
step that takes an evicted Bed out of `beds` without asking whether it is pinned: by then it is not
(`Active.retire_unpinned`).
-/
import Hostel.Bed.Runs
import Mathlib.Algebra.BigOperators.Ring.Finset
import Mathlib.Tactic.Linarith

namespace Hostel.Bed

open Store Logic Slot

variable {env : Env} {r : Reply} {s s' : Slot} {a : Act} {w : Write} {m : Move} {j : TaskId}

/-! ## One slot -/

/-- What a name contributes to `residentBeds`. -/
def Slot.residents (s : Slot) : Int :=
  match s.bed with
  | some _ => 1
  | none => 0

def Slot.pinnedBed (s : Slot) : Bool :=
  match s.bed with
  | some j => s.pinned j
  | none => false

/-- What a name contributes to `pinnedBeds`. -/
def Slot.pins (s : Slot) : Int := if s.pinnedBed then 1 else 0

theorem Slot.pins_of_bed (h : s.bed = some j) : s.pins = s.pinnedWeight j := by
  simp [pins, pinnedBed, pinnedWeight, h]

theorem Slot.pins_of_none (h : s.bed = none) : s.pins = 0 := by
  simp [pins, pinnedBed, h]

theorem Slot.pinned_congr (hflight : (s'.alloc j).inflight = (s.alloc j).inflight)
    (hpersisted : (s'.alloc j).persistedAt = (s.alloc j).persistedAt)
    (hlast : (s'.alloc j).lastActiveAt = (s.alloc j).lastActiveAt)
    (hkind : s'.storeKind j = s.storeKind j) : s'.pinned j = s.pinned j := by
  simp only [pinned, dataSynced, hflight, hpersisted, hlast, hkind]

theorem Slot.pinned_move : (s.move m).pinned j = s.pinned j :=
  pinned_congr (by simp) (by simp) (by simp) (by simp [storeKind])

/-- A section on allocation `j` of the sort that calls `adjustPinnedLocked`. -/
theorem Slot.pins_adjust (hbed : s.bed = some j) (hkeep : w.bed s = s.bed) :
    ((s.apply env w).move m).pins = s.pins + (adjustPinned s (s.apply env w) j).pinned := by
  have hbed' : ((s.apply env w).move m).bed = some j := by simp [hkeep, hbed]
  rw [pins_of_bed hbed', pins_of_bed hbed]
  simp [adjustPinned, pinnedWeight, pinned_move]

theorem Grounded.pins_same (hg : Grounded s) (hkeep : w.bed s = s.bed)
    (hsame : ∀ j, s.bed = some j → w.nTasks s = s.nTasks ∧
      (w.alloc env s j).inflight = (s.alloc j).inflight ∧
      (w.alloc env s j).persistedAt = (s.alloc j).persistedAt ∧
      (w.alloc env s j).lastActiveAt = (s.alloc j).lastActiveAt) :
    ((s.apply env w).move m).pins = s.pins := by
  cases hbed : s.bed with
  | none => rw [pins_of_none hbed, pins_of_none (by simp [hkeep, hbed])]
  | some j =>
    obtain ⟨hacc, hflight, hpersisted, hlast⟩ := hsame j hbed
    rw [pins_of_bed hbed, pins_of_bed (j := j) (by simp [hkeep, hbed])]
    simp only [pinnedWeight]
    rw [pinned_congr (by simpa) (by simpa) (by simpa)
      (hg.storeKind (hg.entries j (.inl hbed)) hacc)]

attribute [local simp] Write.bed Write.effect Write.alloc adjustPinned

theorem Slot.Does.residents (hd : s.Does env a w m) :
    ((s.apply env w).move m).residents = s.residents + (w.effect env s).resident := by
  unfold Slot.residents
  rw [Slot.move_bed, Slot.apply_bed]
  cases w with
  | publish i ready => simp [hd.publishes.2.2.2.2.2]
  | retire k => simp [hd.retires.2.2.1]
  | takeForPurge k => simp [hd.takes.2]
  | finishOperation k c | commitWatermark k c =>
    by_cases hbed : s.bed = some k <;> simp [Effect.zero, hbed]
  | _ => simp [Effect.zero]

theorem Slot.Does.pins (hd : s.Does env a w m) (h : Sound s) :
    ((s.apply env w).move m).pins = s.pins + (w.effect env s).pinned := by
  have hg := h.grounded
  cases w with
  | publish i ready =>
    obtain ⟨-, -, -, hini, -, hbed⟩ := hd.publishes
    rw [pins_of_none hbed, pins_of_bed (j := i) (by simp)]
    simp only [Write.effect, pinnedWeight, zero_add]
    rw [pinned_congr (by simp) (by simp) (by simp)
      (hg.storeKind (hg.entries i (.inr (.inr hini))) rfl)]
  | retire k =>
    rw [pins_of_bed hd.retires.2.2.1, pins_of_none (by simp)]
    simp [pinnedWeight, h.active.retire_unpinned hd]
  | takeForPurge k =>
    rw [pins_of_bed hd.takes.2, pins_of_none (by simp)]
    simp
  | accept =>
    have hbed := hd.accepts.1.bed
    rw [pins_of_none hbed, pins_of_none (by simp [hbed])]
    rfl
  | beginOperation k c timeout => exact pins_adjust hd.begins_bed rfl
  | touch k => exact pins_adjust hd.touches_bed rfl
  | openSession k => exact pins_adjust hd.opens_bed rfl
  | finishOperation k c | commitWatermark k c =>
    simp only [Write.effect]
    split_ifs with hbed
    · exact pins_adjust hbed rfl
    · -- a stale caller: the resident allocation is another one
      refine (hg.pins_same rfl ?_).trans (add_zero _).symm
      intro j hj
      have hne : j ≠ k := fun e => hbed (e ▸ hj)
      simp [Write.nTasks, hne]
  | seed k info persistedAt =>
    refine (hg.pins_same rfl ?_).trans (add_zero _).symm
    intro j hj
    have hne : j ≠ k := by
      rintro rfl
      have hout := h.active.resident j hj
      rw [hd.seeds.1] at hout
      cases hout
    simp [Write.nTasks, hne]
  | _ =>
    refine (hg.pins_same rfl ?_).trans (add_zero _).symm
    intro j hj
    first
      | exact ⟨rfl, rfl, rfl, rfl⟩
      | (simp only [Write.nTasks, Write.alloc]
         split_ifs <;> simp)

/-! ## All names -/

namespace Manager

variable {ν : Type}

/-- The number of entries of `m.beds` for which `pinnedLocked` holds. -/
def pinnedCount (d : Manager ν) : Nat := (d.names.filter fun n => (d.slot n).pinnedBed).card

theorem sum_residents (d : Manager ν) : ∑ n ∈ d.names, (d.slot n).residents = d.bedCount := by
  rw [bedCount, Finset.card_filter, Nat.cast_sum]
  refine Finset.sum_congr rfl fun n _ => ?_
  cases h : (d.slot n).bed <;> simp [residents, h]

theorem sum_pins (d : Manager ν) : ∑ n ∈ d.names, (d.slot n).pins = d.pinnedCount := by
  rw [pinnedCount, Finset.card_filter, Nat.cast_sum]
  refine Finset.sum_congr rfl fun n _ => ?_
  simp [pins]

variable [DecidableEq ν] {config : Config} {now : Time} {disk : ν → Disk}
  {snapshot : ν → Option Snapshot} {τ : List (Manager ν × Event ν)} {d d' : Manager ν}

/-- The counters are the totals of what the names contribute, and a name no request has mentioned
contributes nothing. -/
structure Accounts (d : Manager ν) : Prop where
  unmentioned : ∀ n, n ∉ d.names → (d.slot n).bed = none
  resident : d.residentBeds = ∑ n ∈ d.names, (d.slot n).residents
  pinned : d.pinnedBeds = ∑ n ∈ d.names, (d.slot n).pins

theorem Accounts.step {ev : Event ν} (h : Accounts d) (hs : ∀ n, Sound (d.slot n))
    (hstep : d.step ev = some d') : Accounts d' := by
  cases ev with
  | tick t | stop =>
    cases hstep
    exact ⟨h.unmentioned, h.resident, h.pinned⟩
  | act n a =>
    obtain ⟨s', e, hact, rfl⟩ := step_act hstep
    obtain ⟨w, m, hd, rfl, rfl⟩ := step_does hact
    have hres := hd.residents
    have hpin := hd.pins (hs n)
    constructor
    · intro k hk
      simp only [Finset.mem_insert, not_or] at hk
      simpa [hk.1] using h.unmentioned k hk.2
    · have hsum := sum_insert_update (S := d.names) (g := d.slot) (f := residents) (i := n)
        (((d.slot n).apply (d.env n) w).move m)
        (fun hn => by simp [residents, h.unmentioned n hn])
      simp only [h.resident]
      linarith
    · have hsum := sum_insert_update (S := d.names) (g := d.slot) (f := pins) (i := n)
        (((d.slot n).apply (d.env n) w).move m)
        (fun hn => pins_of_none (h.unmentioned n hn))
      simp only [h.pinned]
      linarith

theorem accounts_of_trace (h : (machine ν).Trace (boot config now disk snapshot) τ d) :
    Accounts d := by
  refine h.always ?_ fun hτ hacc hstep => ?_
  · exact ⟨fun _ _ => rfl, rfl, rfl⟩
  · exact hacc.step (fun n => sound_of_trace hτ n) hstep

/-- In every state of every run the capacity counters and the in-flight counters are exact. -/
theorem counters_exact (h : (machine ν).Trace (boot config now disk snapshot) τ d) :
    d.residentBeds = d.bedCount ∧ d.pinnedBeds = d.pinnedCount ∧
      (∀ n, (d.slot n).bed ≠ none → n ∈ d.names) ∧
      ∀ n j, ((d.slot n).alloc j).inflight =
          (OperationKind.all.map ((d.slot n).alloc j).inflightByKind).sum ∧
        ((d.slot n).alloc j).inflight = (d.slot n).operations.countP fun o => o.1 = j := by
  have hacc := accounts_of_trace h
  refine ⟨?_, ?_, ?_, fun n j => ?_⟩
  · rw [hacc.resident, sum_residents]
  · rw [hacc.pinned, sum_pins]
  · intro n hn
    by_contra hnot
    exact hn (hacc.unmentioned n hnot)
  · have hops := (sound_of_trace h n).operations
    exact ⟨hops.sum_kinds j, hops.total j⟩

/-- A Bed is created and an operation admitted on it: one resident, one pinned, one in flight. -/
theorem counters_exact_operation :
    ∃ d : Manager Unit, d.residentBeds = d.bedCount ∧ d.pinnedBeds = d.pinnedCount ∧
      d.bedCount = 1 ∧ d.pinnedCount = 1 ∧
      ((d.slot ()).alloc 0).inflight = (d.slot ()).operations.countP fun o => o.1 = 0 := by
  obtain ⟨d, hτ, hbeds, hpins⟩ := (machine Unit).trace_of_any
    (bootEmpty plainConfig 5)
    (createSteps () 0 0 ++ [.act () (.beginOperation 0 .exec 0 .ok)])
    (fun d => d.bedCount = 1 ∧ d.pinnedCount = 1) (by decide +kernel)
  obtain ⟨hres, hpin, -, hops⟩ := counters_exact hτ
  exact ⟨d, hres, hpin, hbeds, hpins, (hops () 0).2⟩

end Manager

end Hostel.Bed
