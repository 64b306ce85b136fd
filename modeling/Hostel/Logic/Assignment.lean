/-
# Hostel.Logic.Assignment — one-to-one assignments that change one pair at a time.

A table that gives each holder at most one resource, and each resource to at most one holder, is a
partial equivalence.  `assign` adds a pair that is new on both sides and `unassign` removes the pair
of a holder, and neither touches the others.
-/
import Mathlib.Data.PEquiv

namespace Hostel.Logic

open Function

variable {α β : Type} [DecidableEq α]

/-- Give `b`, which nobody has, to `a`, who has none. -/
def assign [DecidableEq β] (e : α ≃. β) (a : α) (b : β) (ha : e a = none) (hb : e.symm b = none) :
    α ≃. β where
  toFun := update e a (some b)
  invFun := update e.symm b (some a)
  inv x y := by
    simp only [update_apply]
    split_ifs with hy hx hx
    · simp [hx, hy]
    · -- `b` is new, so `x` cannot have had it
      have hx' : e x ≠ some b := fun h => by
        rw [(e.eq_some_iff).mpr h] at hb
        cases hb
      simp [Ne.symm hx, hy, hx']
    · have hy' : e.symm y ≠ some a := fun h => by
        rw [(e.eq_some_iff).mp h] at ha
        cases ha
      simp [Ne.symm hy, hx, hy']
    · exact e.eq_some_iff

/-- Take away what `a` has. -/
def unassign (e : α ≃. β) (a : α) : α ≃. β where
  toFun x := if x = a then none else e x
  invFun y := if e.symm y = some a then none else e.symm y
  inv x y := by
    split_ifs with hy hx hx
    · simp
    · have hx' : e x ≠ some y := fun h => by
        rw [(e.eq_some_iff).mpr h] at hy
        exact hx (Option.some.inj hy)
      simp [hx']
    · have hy' : e.symm y ≠ some x := fun h => hy (hx ▸ h)
      simp [hy']
    · exact e.eq_some_iff

variable {e : α ≃. β} {a x : α} {b y : β} {ha : e a = none} {hb : e.symm b = none}

@[simp] theorem assign_apply [DecidableEq β] :
    assign e a b ha hb x = if x = a then some b else e x :=
  update_apply ..

@[simp] theorem assign_symm [DecidableEq β] :
    (assign e a b ha hb).symm y = if y = b then some a else e.symm y :=
  update_apply ..

@[simp] theorem unassign_apply : unassign e a x = if x = a then none else e x := rfl

@[simp] theorem unassign_symm :
    (unassign e a).symm y = if e.symm y = some a then none else e.symm y := rfl

end Hostel.Logic
