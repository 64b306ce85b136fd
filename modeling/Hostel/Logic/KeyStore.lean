/-
# Hostel.Logic.KeyStore — stores that are written one key at a time.

A write puts one value, or deletes the keys of a set; `after` carries out a list of writes.  A key
holds afterwards what it held before or what some write put there (`after_eq_some`), and is
unchanged if no write touches it (`after_untouched`) and occupied still if none deletes it
(`after_occupied`).
-/
import Mathlib.Data.List.Induction
import Mathlib.Logic.Function.Basic

namespace Hostel.Logic

open List

abbrev KeyStore (κ β : Type) := κ → Option β

namespace KeyStore

inductive Write (κ β : Type)
  | put (k : κ) (v : β)
  | delete (ks : κ → Bool)

variable {κ β : Type} [DecidableEq κ]

/-- Whether the write can change what `k` holds. -/
def Write.touches (k : κ) : Write κ β → Bool
  | .put k' _ => decide (k = k')
  | .delete ks => ks k

def write (s : KeyStore κ β) : Write κ β → KeyStore κ β
  | .put k v => Function.update s k (some v)
  | .delete ks => fun k => if ks k then none else s k

def after (s : KeyStore κ β) (ws : List (Write κ β)) : KeyStore κ β := ws.foldl write s

/-- Whether some write puts a value under `k`. -/
def puts (k : κ) (ws : List (Write κ β)) : Bool :=
  ws.any fun
    | .put k' _ => decide (k = k')
    | .delete _ => false

variable {s : KeyStore κ β} {k : κ} {v : β} {w : Write κ β} {ws : List (Write κ β)}

@[simp] theorem after_nil : after s [] = s := rfl

@[simp] theorem after_cons : after s (w :: ws) = after (write s w) ws := rfl

theorem after_append (ws ws' : List (Write κ β)) : after s (ws ++ ws') = after (after s ws) ws' :=
  foldl_append ..

theorem write_untouched (h : w.touches k = false) : write s w k = s k := by
  cases w with
  | put k' v =>
    have hk : k ≠ k' := of_decide_eq_false h
    simp [write, hk]
  | delete ks =>
    have hk : ks k = false := h
    simp [write, hk]

theorem after_untouched (h : ∀ w ∈ ws, w.touches k = false) : after s ws k = s k := by
  induction ws generalizing s with
  | nil => rfl
  | cons w ws ih =>
    rw [after_cons, ih fun w' hw' => h w' (by simp [hw']), write_untouched (h w (by simp))]

theorem after_put_of_ne {k' : κ} (h : k ≠ k') : after s [.put k' v] k = s k :=
  write_untouched (w := .put k' v) (decide_eq_false h)

theorem write_eq_some (h : write s w k = some v) : s k = some v ∨ w = .put k v := by
  cases w with
  | put k' v' =>
    by_cases hk : k = k'
    · subst hk
      have hv : v' = v := by simpa [write] using h
      exact .inr (by rw [hv])
    · exact .inl (by simpa [write, hk] using h)
  | delete ks =>
    simp only [write] at h
    split_ifs at h
    exact .inl h

theorem after_eq_some (h : after s ws k = some v) : s k = some v ∨ .put k v ∈ ws := by
  induction ws generalizing s with
  | nil => exact .inl h
  | cons w ws ih =>
    rcases ih h with hw | hmem
    · rcases write_eq_some hw with hs | rfl
      · exact .inl hs
      · exact .inr (by simp)
    · exact .inr (by simp [hmem])

theorem write_occupied (hs : s k ≠ none) (h : ∀ ks, w = .delete ks → ks k = false) :
    write s w k ≠ none := by
  cases w with
  | put k' v =>
    by_cases hk : k = k'
    · simp [write, hk]
    · simpa [write, hk] using hs
  | delete ks => simpa [write, h ks rfl] using hs

theorem after_occupied (hs : s k ≠ none) (h : ∀ ks, .delete ks ∈ ws → ks k = false) :
    after s ws k ≠ none := by
  induction ws generalizing s with
  | nil => exact hs
  | cons w ws ih =>
    refine ih (write_occupied hs fun ks hks => h ks ?_) fun ks hks => h ks ?_
    · simp [hks]
    · simp [hks]

theorem after_put_occupied (hput : .put k v ∈ ws) (h : ∀ ks, .delete ks ∈ ws → ks k = false) :
    after s ws k ≠ none := by
  obtain ⟨ws₁, ws₂, rfl⟩ := append_of_mem hput
  rw [after_append, after_cons]
  exact after_occupied (by simp [write]) fun ks hks => h ks (by simp [hks])

theorem puts_iff : puts k ws = true ↔ ∃ v, .put k v ∈ ws := by
  unfold puts
  rw [any_eq_true]
  constructor
  · rintro ⟨w, hw, hk⟩
    cases w with
    | put k' v =>
      have : k = k' := of_decide_eq_true hk
      exact ⟨v, this ▸ hw⟩
    | delete ks => cases hk
  · rintro ⟨v, hv⟩
    exact ⟨_, hv, by simp⟩

@[simp] theorem puts_nil : puts k ([] : List (Write κ β)) = false := rfl

@[simp] theorem puts_append {ws' : List (Write κ β)} :
    puts k (ws ++ ws') = (puts k ws || puts k ws') := any_append

theorem after_of_not_puts (hputs : puts k ws = false) (h : ∀ ks, .delete ks ∈ ws → ks k = false) :
    after s ws k = s k := by
  refine after_untouched fun w hw => ?_
  cases w with
  | put k' v =>
    refine decide_eq_false ?_
    rintro rfl
    exact absurd (puts_iff.mpr ⟨v, hw⟩) (by simp [hputs])
  | delete ks => exact h ks hw

/-- A key that some write puts and no write deletes holds what one of the writes put there. -/
theorem after_of_puts (hputs : puts k ws = true) (h : ∀ ks, .delete ks ∈ ws → ks k = false) :
    ∃ v, after s ws k = some v ∧ .put k v ∈ ws := by
  induction ws using reverseRecOn with
  | nil => cases hputs
  | append_singleton ws w ih =>
    rw [after_append, after_cons, after_nil]
    by_cases hw : w.touches k = true
    · cases w with
      | put k' v =>
        have hk : k = k' := of_decide_eq_true hw
        exact ⟨v, by simp [write, hk], by simp [hk]⟩
      | delete ks => exact absurd hw (by simp [Write.touches, h ks (by simp)])
    · -- the last write leaves the key alone, so it was put before
      rw [Bool.not_eq_true] at hw
      have hlast : puts k [w] = false := by
        cases w with
        | put k' v => simpa [puts, Write.touches] using hw
        | delete ks => rfl
      rw [puts_append, hlast, Bool.or_false] at hputs
      obtain ⟨v, hv, hmem⟩ := ih hputs fun ks hks => h ks (by simp [hks])
      exact ⟨v, by rw [write_untouched hw, hv], by simp [hmem]⟩

end KeyStore

end Hostel.Logic
