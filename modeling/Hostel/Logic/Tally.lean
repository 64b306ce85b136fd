/-
# Hostel.Logic.Tally — totals over a family that changes at one index.

A counter that is maintained incrementally agrees with the total it stands for as long as every
change at one index adds what that index gained (`sum_insert_update`; the family may also grow by
the index).  A counter that is recomputed from a listing agrees with it by `sum_listing`.
-/
import Mathlib.Algebra.BigOperators.Group.Finset.Basic

namespace Hostel.Logic

open Function

variable {ι α M : Type} [DecidableEq ι] [AddCommMonoid M]

variable {S : Finset ι}

/-- The total after the family changed at `i`, and `i` joined the index set: what the others count
for, and what `i` counts for now. -/
theorem sum_insert_update_erase {g : ι → α} {f : α → M} {i : ι} (x : α) :
    ∑ k ∈ insert i S, f (update g i x k) = ∑ k ∈ S.erase i, f (g k) + f x := by
  have hrest : ∑ k ∈ S.erase i, f (update g i x k) = ∑ k ∈ S.erase i, f (g k) :=
    Finset.sum_congr rfl fun k hk => by rw [update_of_ne (Finset.ne_of_mem_erase hk)]
  have hinsert : insert i S = insert i (S.erase i) := by
    ext k
    by_cases hk : k = i <;> simp [hk]
  rw [hinsert, Finset.sum_insert (Finset.notMem_erase i S), hrest, update_self, add_comm]

theorem sum_erase_add_unlisted {g : ι → α} {f : α → M} {i : ι}
    (h : i ∉ S → f (g i) = 0) : ∑ k ∈ S, f (g k) = ∑ k ∈ S.erase i, f (g k) + f (g i) := by
  by_cases hi : i ∈ S
  · rw [Finset.sum_erase_add S _ hi]
  · rw [h hi, Finset.erase_eq_of_notMem hi, add_zero]

theorem sum_insert_update {g : ι → α} {f : α → M} {i : ι} (x : α) (h : i ∉ S → f (g i) = 0) :
    ∑ k ∈ insert i S, f (update g i x k) + f (g i) = ∑ k ∈ S, f (g k) + f x := by
  rw [sum_insert_update_erase, sum_erase_add_unlisted h]
  ac_rfl

theorem sum_listing {listing : List ι} {f : ι → M} (hnodup : listing.Nodup)
    (hlisting : ∀ i, f i ≠ 0 → i ∈ listing) (hS : ∀ i, f i ≠ 0 → i ∈ S) :
    (listing.map f).sum = ∑ i ∈ S, f i := by
  rw [← List.sum_toFinset f hnodup]
  refine Finset.sum_congr_of_eq_on_inter ?_ ?_ fun _ _ _ => rfl
  · intro i _ hi
    by_contra h
    exact hi (hS i h)
  · intro i _ hi
    by_contra h
    exact hi (List.mem_toFinset.mpr (hlisting i h))

end Hostel.Logic
