/-
# Hostel.Logic.FiniteMap — finite maps as lookup functions.

Mathlib's association lists with distinct keys, for maps whose values do not depend on the key: what
an insertion and a removal do to every lookup, and that the values are what the lookups return.
-/
import Mathlib.Data.List.AList

namespace Hostel.Logic

open Function List Option AList

section Update

variable {α β : Type} [DecidableEq α] {f : α → Option β} {a b : α} {x x' y : β}

theorem update_eq_some : update f a (some x) b = some y ↔ b = a ∧ x = y ∨ b ≠ a ∧ f b = some y := by
  rw [update_apply]
  split_ifs with h <;> simp [h]

theorem update_eq_none (ha : f a = some x) (hb : f b = none) : update f a (some x') b = none := by
  rw [update_of_ne, hb]
  rintro rfl
  cases ha.symm.trans hb

theorem update_of_none {o : Option β} (ha : f a = none) (hb : f b = some y) :
    update f a o b = some y := by
  rw [update_of_ne, hb]
  rintro rfl
  cases ha.symm.trans hb

/-- What becomes of an entry when one is updated. -/
theorem exists_update {P : β → Prop} (hb : f b = some y) (hself : b = a → P x)
    (hother : b ≠ a → P y) : ∃ z, update f a (some x) b = some z ∧ P z := by
  by_cases h : b = a
  · subst h
    exact ⟨x, update_self .., hself rfl⟩
  · exact ⟨y, (update_of_ne h ..).trans hb, hother h⟩

end Update

/-- A finite map from keys to values. -/
abbrev FiniteMap (κ ν : Type) : Type := AList fun _ : κ => ν

namespace FiniteMap

variable {κ ν : Type}

def values (m : FiniteMap κ ν) : List ν := m.entries.map Sigma.snd

def size (m : FiniteMap κ ν) : Nat := m.entries.length

def filter (m : FiniteMap κ ν) (p : κ → ν → Bool) : FiniteMap κ ν where
  entries := m.entries.filter fun e => p e.1 e.2
  nodupKeys := m.nodupKeys.sublist filter_sublist

theorem size_filter_le (m : FiniteMap κ ν) (p : κ → ν → Bool) : (m.filter p).size ≤ m.size :=
  length_filter_le ..

theorem size_eq_keys (m : FiniteMap κ ν) : m.size = m.keys.length := (length_map ..).symm

theorem length_values (m : FiniteMap κ ν) : m.values.length = m.size := length_map ..

variable [DecidableEq κ] {m : FiniteMap κ ν} {k j : κ} {v w : ν}

theorem lookup_insert : (m.insert k v).lookup j = if j = k then some v else m.lookup j := by
  split_ifs with h
  · subst h
    exact lookup_insert m
  · exact lookup_insert_ne h

theorem insert_eq_some : (m.insert k v).lookup j = some w ↔ j = k ∧ v = w ∨ j ≠ k ∧
    m.lookup j = some w := by
  rw [lookup_insert]
  split_ifs with h <;> simp [h]

theorem insert_of_none (hk : m.lookup k = none) (hj : m.lookup j = some w) :
    (m.insert k v).lookup j = some w := by
  refine insert_eq_some.mpr (.inr ⟨?_, hj⟩)
  rintro rfl
  cases hk.symm.trans hj

theorem lookup_erase : (m.erase k).lookup j = if j = k then none else m.lookup j := by
  split_ifs with h
  · subst h
    exact lookup_erase _ m
  · exact lookup_erase_ne h

theorem lookup_of_erase (h : (m.erase k).lookup j = some v) : m.lookup j = some v := by
  rw [lookup_erase] at h
  exact (ite_none_left_eq_some.mp h).2

theorem lookup_filter {p : κ → ν → Bool} :
    (m.filter p).lookup k = some v ↔ m.lookup k = some v ∧ p k v = true := by
  rw [← mem_def, ← mem_def, mem_lookup_iff, mem_lookup_iff]
  exact mem_filter

theorem size_erase (h : k ∈ m) : size (m.erase k) + 1 = m.size := by
  rw [size_eq_keys, size_eq_keys, keys_erase, length_erase_of_mem h]
  exact Nat.succ_pred_eq_of_pos (length_pos_of_mem h)

theorem size_insert_le : size (m.insert k v) ≤ m.size + 1 := by
  rw [size_eq_keys, size_eq_keys, keys_insert, length_cons]
  exact Nat.succ_le_succ length_erase_le

theorem values_erase_sublist : (values (m.erase k)).Sublist m.values :=
  (kerase_sublist k m.entries).map _

theorem mem_values : v ∈ m.values ↔ ∃ k, m.lookup k = some v := by
  constructor
  · intro h
    obtain ⟨⟨k, w⟩, hmem, rfl⟩ := mem_map.mp h
    exact ⟨k, mem_lookup_iff.mpr hmem⟩
  · rintro ⟨k, hk⟩
    exact mem_map.mpr ⟨⟨k, v⟩, mem_lookup_iff.mp hk, rfl⟩

end FiniteMap

end Hostel.Logic
