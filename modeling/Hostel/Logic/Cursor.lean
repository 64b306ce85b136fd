/-
# Hostel.Logic.Cursor — a cursor that goes round an interval of numbers.

`advance` moves the cursor to the next number and from the last one to the first.  A search that
moves it as often as the interval has numbers has been at each of them, wherever it began
(`Passed.all`), also as several shorter searches one after the other (`Passed.append`).
-/
import Mathlib.Logic.Function.Iterate
import Mathlib.Tactic.Common

namespace Hostel.Logic

open Nat

structure Interval where
  first : Nat
  last : Nat
  le : first ≤ last

namespace Interval

variable (r : Interval)

def size : Nat := r.last - r.first + 1

abbrev Pos : Type := { n : Nat // r.first ≤ n ∧ n ≤ r.last }

theorem first_mem : r.first ≤ r.first ∧ r.first ≤ r.last := ⟨Nat.le_refl _, r.le⟩

variable {r}

def advance (n : r.Pos) : r.Pos :=
  if h : n.1 + 1 > r.last then ⟨r.first, r.first_mem⟩
  else ⟨n.1 + 1, by have := n.2; omega, by omega⟩

theorem val_advance (n : r.Pos) : (advance n).1 = r.first + (n.1 - r.first + 1) % r.size := by
  have hn := n.2
  rw [advance]
  split
  · next hlast =>
    have hfull : n.1 - r.first + 1 = r.size := by rw [size]; omega
    rw [hfull, Nat.mod_self, Nat.add_zero]
  · next hlast =>
    have hlt : n.1 - r.first + 1 < r.size := by rw [size]; omega
    rw [mod_eq_of_lt hlt]
    show n.1 + 1 = _
    omega

theorem val_iterate_advance (k : Nat) (n : r.Pos) :
    (advance^[k] n).1 = r.first + (n.1 - r.first + k) % r.size := by
  induction k with
  | zero =>
    have hn := n.2
    have hlt : n.1 - r.first + 0 < r.size := by rw [size]; omega
    rw [mod_eq_of_lt hlt]
    show n.1 = _
    omega
  | succ k ih =>
    rw [Function.iterate_succ_apply', val_advance, ih, Nat.add_sub_cancel_left, Nat.mod_add_mod,
      Nat.add_assoc]

theorem exists_iterate_advance (n : r.Pos) {q : Nat} (hq : r.first ≤ q ∧ q ≤ r.last) :
    ∃ k < r.size, (advance^[k] n).1 = q := by
  have hn := n.2
  have hpos : 0 < r.size := succ_pos _
  refine ⟨(q - r.first + (r.size - (n.1 - r.first))) % r.size, mod_lt _ hpos, ?_⟩
  have hsum : n.1 - r.first + (q - r.first + (r.size - (n.1 - r.first))) =
      q - r.first + r.size := by
    rw [size]
    omega
  have hlt : q - r.first < r.size := by rw [size]; omega
  rw [val_iterate_advance, add_mod_mod, hsum, add_mod_right, mod_eq_of_lt hlt]
  omega

/-- `P` holds of the first `k` numbers that the cursor meets from `n` on. -/
def Passed (P : Nat → Prop) (n : r.Pos) (k : Nat) : Prop := ∀ i < k, P (advance^[i] n).1

variable {P Q : Nat → Prop} {n : r.Pos} {j k : Nat}

theorem Passed.zero : Passed P n 0 := fun _ h => absurd h (not_lt_zero _)

theorem Passed.append (h : Passed P n k) (h' : Passed P (advance^[k] n) j) :
    Passed P n (k + j) := by
  intro i hi
  by_cases hik : i < k
  · exact h i hik
  · have hlater := h' (i - k) (by omega)
    rwa [← Function.iterate_add_apply, Nat.sub_add_cancel (by omega)] at hlater

theorem Passed.one (h : P n.1) : Passed P n 1 := by
  intro i hi
  obtain rfl : i = 0 := by omega
  exact h

theorem Passed.imp (hPQ : ∀ q, P q → Q q) (h : Passed P n k) : Passed Q n k :=
  fun i hi => hPQ _ (h i hi)

theorem Passed.all (h : Passed P n k) (hk : r.size ≤ k) {q : Nat} (hq : r.first ≤ q ∧ q ≤ r.last) :
    P q := by
  obtain ⟨i, hi, rfl⟩ := exists_iterate_advance n hq
  exact h i (by omega)

/-- The first of the next `k` numbers that passes a test, and where the cursor is then. -/
def scan (p : Nat → Bool) : Nat → r.Pos → Option Nat × r.Pos
  | 0, n => (none, n)
  | k + 1, n => if p n.1 then (some n.1, advance n) else scan p k (advance n)

theorem scan_none {p : Nat → Bool} {n' : r.Pos} (h : scan p k n = (none, n')) :
    Passed (fun q => p q = false) n k := by
  induction k generalizing n with
  | zero => exact .zero
  | succ k ih =>
    rw [scan] at h
    split at h
    · cases h
    next hp =>
    rw [Nat.add_comm]
    exact (Passed.one (Bool.eq_false_iff.mpr hp)).append (ih h)

theorem scan_some {p : Nat → Bool} {n' : r.Pos} {q : Nat} (h : scan p k n = (some q, n')) :
    p q = true ∧ ∃ i, Passed (fun q => p q = false) n i ∧ (advance^[i] n).1 = q ∧
    n' = advance^[i + 1] n := by
  induction k generalizing n with
  | zero => cases h
  | succ k ih =>
    rw [scan] at h
    split at h
    · next hp =>
      cases h
      exact ⟨hp, 0, .zero, rfl, rfl⟩
    · next hp =>
      obtain ⟨hq, i, hpassed, hval, hnext⟩ := ih h
      have hfirst : Passed (fun q => p q = false) n 1 := .one (Bool.eq_false_iff.mpr hp)
      refine ⟨hq, i + 1, ?_, hval, hnext⟩
      rw [Nat.add_comm]
      exact hfirst.append hpassed

end Interval

end Hostel.Logic
