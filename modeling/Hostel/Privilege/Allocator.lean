/-
# Hostel.Privilege.Allocator — Unix users for Beds.

`BedUserAllocator` keeps two maps, from Beds to users and from user ids to Beds.  `Represents` says
that they are the two directions of one assignment of Beds to the user ids of the configured range;
every operation keeps that and changes at most the pair of its own Bed.

Go's `int` has 64 bits here, so the arithmetic on user ids inside `1 .. 2^32 - 2` is exact; the only
machine arithmetic that matters is the 32-bit hash that picks where probing starts.
-/
import Hostel.Logic.Assignment
import Mathlib.Data.Int.Lemmas

namespace Hostel.Privilege

open Hostel.Logic Function Nat Option

/-- `bed.ID.String()`: a Go string, which is its bytes. -/
abbrev BedID := List UInt8

structure BedUser where
  uid : Int
  gid : Int
  deriving DecidableEq, Repr

/-- The errors of the package, and the runtime error of a division by zero. -/
inductive PrivilegeError
  | invalidRange (uidMin uidMax : Int)
  | rootUser (uid gid : Int)
  | conflictingUids (bed : BedID) (held uid : Int)
  | ownedByBoth (uid : Int) (owner bed : BedID)
  | exhausted (uidMin uidMax : Int)
  | divideByZero
  | stat
  | handover
  deriving DecidableEq, Repr

def newBedUser (uid gid : Int) : Except PrivilegeError BedUser :=
  if uid ≤ 0 ∨ gid ≤ 0 then .error (.rootUser uid gid) else .ok ⟨uid, gid⟩

/-- `BedUserAllocator`; `fixed` is the shared user of the strategy without a range. -/
structure BedUserAllocator where
  fixed : Option BedUser
  uidMin : Int
  uidMax : Int
  byBed : BedID → Option BedUser
  ownerUID : Int → Option BedID

/-- An allocator of the range that has given out nothing. -/
def BedUserAllocator.empty (uidMin uidMax : Int) : BedUserAllocator :=
  { fixed := none, uidMin := uidMin, uidMax := uidMax, byBed := fun _ => none
    ownerUID := fun _ => none }

def newPerBedUserAllocator (uidMin uidMax : Int) : Except PrivilegeError BedUserAllocator :=
  if uidMin ≤ 0 ∨ uidMax < uidMin then .error (.invalidRange uidMin uidMax)
  else .ok (.empty uidMin uidMax)

def newFixedBedUserAllocator (user : BedUser) : BedUserAllocator :=
  { BedUserAllocator.empty 0 0 with fixed := some user }

/-- What `os.Stat` says about a directory that is to be recovered. -/
inductive DirStat
  | missing
  | unreadable
  | untyped
  | owner (uid : UInt32)
  deriving DecidableEq, Repr

/-- The FNV-1a hash of a string, in 32 bits. -/
def fnv32a (bytes : List UInt8) : UInt32 :=
  bytes.foldl (fun h b => (h ^^^ b.toUInt32) * 16777619) 2166136261

def stableBedUserSlot (bedID : BedID) (slots : Nat) : Nat :=
  (fnv32a bedID % UInt32.ofNat slots).toNat

namespace BedUserAllocator

def put (a : BedUserAllocator) (bedID : BedID) (user : BedUser) : BedUserAllocator :=
  { a with
    byBed := update a.byBed bedID (some user)
    ownerUID := update a.ownerUID user.uid (some bedID) }

def remove (a : BedUserAllocator) (bedID : BedID) (user : BedUser) : BedUserAllocator :=
  { a with
    byBed := update a.byBed bedID none
    ownerUID := update a.ownerUID user.uid none }

@[simp] theorem remove_byBed (a : BedUserAllocator) (bedID x : BedID) (user : BedUser) :
    (a.remove bedID user).byBed x = if x = bedID then none else a.byBed x :=
  update_apply ..

@[simp] theorem remove_ownerUID (a : BedUserAllocator) (bedID : BedID)
    (user : BedUser) (uid : Int) :
    (a.remove bedID user).ownerUID uid = if uid = user.uid then none else a.ownerUID uid :=
  update_apply ..

@[simp] theorem put_byBed (a : BedUserAllocator) (bedID x : BedID) (user : BedUser) :
    (a.put bedID user).byBed x = if x = bedID then some user else a.byBed x :=
  update_apply ..

@[simp] theorem put_ownerUID (a : BedUserAllocator) (bedID : BedID) (user : BedUser) (uid : Int) :
    (a.put bedID user).ownerUID uid = if uid = user.uid then some bedID else a.ownerUID uid :=
  update_apply ..

/-- `reserveLocked`: the allocator afterwards, and the error it returns. -/
def reserveLocked (a : BedUserAllocator) (bedID : BedID) (uid : Int) :
    BedUserAllocator × Option PrivilegeError :=
  if a.fixed.isSome then (a, none)
  else if uid < a.uidMin ∨ a.uidMax < uid then (a, none)
  else match a.byBed bedID with
    | some user =>
      if user.uid ≠ uid then (a, some (.conflictingUids bedID user.uid uid)) else (a, none)
    | none =>
      match (a.ownerUID uid).filter (· ≠ bedID), newBedUser uid uid with
      | some owner, _ => (a, some (.ownedByBoth uid owner bedID))
      | none, .error err => (a, some err)
      | none, .ok user => (a.put bedID user, none)

/-- `ReserveOwnedDirectory` for a directory on which `os.Stat` answers `stat`. -/
def reserveOwnedDirectory (a : BedUserAllocator) (bedID : BedID) (stat : DirStat) :
    BedUserAllocator × Option PrivilegeError :=
  if a.fixed.isSome then (a, none)
  else match stat with
    | .missing => (a, none)
    | .unreadable => (a, some .stat)
    | .untyped => (a, none)
    | .owner uid => a.reserveLocked bedID uid.toNat

def slots (a : BedUserAllocator) : Nat := (a.uidMax - a.uidMin + 1).toNat

/-- The user id that is tried `k` probes after the slot `start`. -/
def candidate (a : BedUserAllocator) (start k : Nat) : Int :=
  a.uidMin + ((start + k) % a.slots : Nat)

/-- The loop of `Acquire` from `offset` on, with `n` rounds left: the first user id nobody has. -/
def probe (a : BedUserAllocator) (start offset : Nat) : Nat → Option Int
  | 0 => none
  | n + 1 =>
    if (a.ownerUID (a.candidate start offset)).isSome then a.probe start (offset + 1) n
    else some (a.candidate start offset)

def acquire (a : BedUserAllocator) (bedID : BedID) :
    Except PrivilegeError (BedUserAllocator × BedUser) :=
  match a.fixed, a.byBed bedID with
  | some user, _ => .ok (a, user)
  | none, some user => .ok (a, user)
  | none, none =>
    if UInt32.ofNat a.slots = 0 then .error .divideByZero
    else match a.probe (stableBedUserSlot bedID a.slots) 0 a.slots with
      | none => .error (.exhausted a.uidMin a.uidMax)
      | some uid => (newBedUser uid uid).map fun user => (a.put bedID user, user)

def release (a : BedUserAllocator) (bedID : BedID) : BedUserAllocator :=
  if a.fixed.isSome then a
  else match a.byBed bedID with
    | some user => a.remove bedID user
    | none => a

/-! ## Probing -/

variable {a : BedUserAllocator} {start offset n : Nat} {uid : Int}

theorem probe_some (hrange : a.uidMin ≤ a.uidMax) (h : a.probe start offset n = some uid) :
    a.ownerUID uid = none ∧ a.uidMin ≤ uid ∧ uid ≤ a.uidMax := by
  induction n generalizing offset with
  | zero => cases h
  | succ n ih =>
    unfold probe at h
    split_ifs at h with hbusy
    · exact ih h
    · cases h
      refine ⟨not_isSome_iff_eq_none.mp hbusy, ?_⟩
      have hpos : 0 < a.slots := by
        unfold slots
        omega
      have hlt := mod_lt (start + offset) hpos
      unfold candidate slots at *
      omega

theorem probe_none (h : a.probe start offset n = none) :
    ∀ k, offset ≤ k → k < offset + n → a.ownerUID (a.candidate start k) ≠ none := by
  induction n generalizing offset with
  | zero =>
    intro k hle hlt
    omega
  | succ n ih =>
    unfold probe at h
    split_ifs at h with hbusy
    intro k hle hlt
    rcases eq_or_lt_of_le hle with rfl | hlt'
    · exact isSome_iff_ne_none.mp hbusy
    · exact ih h k hlt' (by omega)

/-- Probing as often as there are slots reaches every user id, wherever it starts. -/
theorem candidate_covers (start : Nat) (hmin : a.uidMin ≤ uid) (hmax : uid ≤ a.uidMax) :
    ∃ k, k < a.slots ∧ a.candidate start k = uid := by
  have hslots : (uid - a.uidMin).toNat < a.slots := by
    unfold slots
    omega
  have hmod := mod_lt start (zero_lt_of_lt hslots)
  have hdiv := div_add_mod start a.slots
  generalize hr : (uid - a.uidMin).toNat = r at hslots
  unfold candidate
  by_cases hle : start % a.slots ≤ r
  · -- the slot of `uid` comes after the start of this round
    refine ⟨r - start % a.slots, by omega, ?_⟩
    have hsum : start + (r - start % a.slots) = a.slots * (start / a.slots) + r := by omega
    rw [hsum, mul_add_mod, mod_eq_of_lt hslots]
    omega
  · -- it comes before it, so probing has to wrap around
    refine ⟨r + a.slots - start % a.slots, by omega, ?_⟩
    have hsum : start + (r + a.slots - start % a.slots) = a.slots * (start / a.slots + 1) + r := by
      rw [mul_add, mul_one]
      omega
    rw [hsum, mul_add_mod, mod_eq_of_lt hslots]
    omega

/-! ## The assignment -/

/-- The allocator of the range `lo .. hi` holds the assignment `e` of Beds to user ids. -/
structure Represents (lo hi : Int) (a : BedUserAllocator) (e : BedID ≃. Int) : Prop where
  fixed : a.fixed = none
  uidMin : a.uidMin = lo
  uidMax : a.uidMax = hi
  positive : 0 < lo
  ordered : lo ≤ hi
  bounded : hi ≤ 2 ^ 32 - 2
  byBed : ∀ b, a.byBed b = (e b).map fun uid => ⟨uid, uid⟩
  ownerUID : ∀ uid, a.ownerUID uid = e.symm uid
  range : ∀ b uid, e b = some uid → lo ≤ uid ∧ uid ≤ hi

variable {lo hi : Int} {e : BedID ≃. Int} {b : BedID}

theorem represents_new (h : newPerBedUserAllocator lo hi = .ok a) (hhi : hi ≤ 2 ^ 32 - 2) :
    a.Represents lo hi ⊥ := by
  unfold newPerBedUserAllocator at h
  split_ifs at h with hbad
  cases h
  exact ⟨rfl, rfl, rfl, by omega, by omega, hhi, fun _ => rfl, fun _ => rfl, nofun⟩

theorem newBedUser_of_pos {v : Int} (h : 0 < v) : newBedUser v v = .ok ⟨v, v⟩ := by
  unfold newBedUser
  rw [if_neg (by omega)]

theorem Represents.put (h : a.Represents lo hi e) (hb : e b = none) (huid : e.symm uid = none)
    (hlo : lo ≤ uid) (hhi : uid ≤ hi) :
    (a.put b ⟨uid, uid⟩).Represents lo hi (assign e b uid hb huid) where
  fixed := h.fixed
  uidMin := h.uidMin
  uidMax := h.uidMax
  positive := h.positive
  ordered := h.ordered
  bounded := h.bounded
  byBed x := by
    rw [put_byBed, h.byBed, assign_apply]
    split_ifs <;> rfl
  ownerUID y := by rw [put_ownerUID, h.ownerUID, assign_symm]
  range x y hxy := by
    rw [assign_apply] at hxy
    split_ifs at hxy
    · cases hxy
      exact ⟨hlo, hhi⟩
    · exact h.range x y hxy

/-- What an operation for Bed `b` may do to the assignment: extend it at `b`. -/
structure Extends (b : BedID) (e e' : BedID ≃. Int) : Prop where
  own : ∀ uid, e b = some uid → e' b = some uid
  other : ∀ x, x ≠ b → e' x = e x

theorem Extends.refl (b : BedID) (e : BedID ≃. Int) : Extends b e e :=
  ⟨fun _ h => h, fun _ _ => rfl⟩

theorem Extends.trans {e₁ e₂ e₃ : BedID ≃. Int} (h : Extends b e₁ e₂) (h' : Extends b e₂ e₃) :
    Extends b e₁ e₃ :=
  ⟨fun uid hu => h'.own uid (h.own uid hu), fun x hx => (h'.other x hx).trans (h.other x hx)⟩

theorem extends_assign (hb : e b = none) (huid : e.symm uid = none) :
    Extends b e (assign e b uid hb huid) where
  own v hv := by
    rw [hb] at hv
    cases hv
  other x hx := by rw [assign_apply, if_neg hx]

section

variable (h : a.Represents lo hi e)
include h

/-- `reserveLocked` reserves a user id of the range for the Bed, or leaves all as it is. -/
theorem Represents.reserveLocked (b : BedID) (uid : Int) :
    ∃ e', (a.reserveLocked b uid).1.Represents lo hi e' ∧ Extends b e e' ∧
      ((a.reserveLocked b uid).2 = none → lo ≤ uid → uid ≤ hi → e' b = some uid) := by
  unfold BedUserAllocator.reserveLocked
  rw [h.fixed, h.uidMin, h.uidMax]
  split_ifs with hfixed hout
  · cases hfixed
  · exact ⟨e, h, .refl b e, fun _ hlo hhi => by omega⟩
  · have hbed := h.byBed b
    cases heb : e b with
    | some v =>
      rw [heb] at hbed
      simp only [hbed, map_some]
      split_ifs with hne
      · exact ⟨e, h, .refl b e, nofun⟩
      · exact ⟨e, h, .refl b e, fun _ _ _ => by rw [heb, not_ne_iff.mp hne]⟩
    | none =>
      rw [heb] at hbed
      rw [hbed, h.ownerUID, newBedUser_of_pos (v := uid) (by have := h.positive; omega)]
      -- nobody else has it; nor has the Bed itself, which has none
      cases howner : e.symm uid with
      | some x =>
        have hx : x ≠ b := by
          rintro rfl
          rw [(e.eq_some_iff).mp howner] at heb
          cases heb
        simp only [Option.filter, hx, ne_eq, not_false_eq_true, decide_true, if_true]
        exact ⟨e, h, .refl b e, nofun⟩
      | none =>
        refine ⟨assign e b uid heb howner, h.put heb howner (by omega) (by omega),
          extends_assign heb howner, fun _ _ _ => ?_⟩
        rw [assign_apply, if_pos rfl]

theorem Represents.reserveOwnedDirectory (b : BedID) (stat : DirStat) :
    ∃ e', (a.reserveOwnedDirectory b stat).1.Represents lo hi e' ∧ Extends b e e' ∧
      ((a.reserveOwnedDirectory b stat).2 = none → ∀ uid : UInt32, stat = .owner uid →
        lo ≤ uid.toNat → (uid.toNat : Int) ≤ hi → e' b = some (uid.toNat : Int)) := by
  unfold BedUserAllocator.reserveOwnedDirectory
  rw [h.fixed]
  cases stat with
  | owner uid =>
    obtain ⟨e', hr, hext, hres⟩ := h.reserveLocked b uid.toNat
    refine ⟨e', hr, hext, fun hok v hv hlo hhi => ?_⟩
    cases hv
    exact hres hok hlo hhi
  | _ => exact ⟨e, h, .refl b e, by rintro - v ⟨⟩⟩

theorem Represents.slots_ne_zero : UInt32.ofNat a.slots ≠ 0 := by
  have hslots : 0 < a.slots ∧ a.slots < 2 ^ 32 := by
    unfold slots
    rw [h.uidMin, h.uidMax]
    have := h.positive
    have := h.ordered
    have := h.bounded
    omega
  intro hzero
  have := congrArg UInt32.toNat hzero
  rw [UInt32.toNat_ofNat_of_lt' hslots.2] at this
  exact hslots.1.ne' this

/-- `Acquire` answers the user id of the Bed, giving it one that nobody has if need be. -/
theorem Represents.acquire_ok {a' : BedUserAllocator} {user : BedUser}
    (hok : a.acquire b = .ok (a', user)) :
    ∃ e', a'.Represents lo hi e' ∧ Extends b e e' ∧ e' b = some user.uid ∧ user.gid = user.uid := by
  unfold acquire at hok
  rw [h.fixed, h.byBed b] at hok
  cases heb : e b with
  | some uid =>
    rw [heb] at hok
    cases hok
    exact ⟨e, h, .refl b e, heb, rfl⟩
  | none =>
    rw [heb] at hok
    simp only [map_none, h.slots_ne_zero, if_false] at hok
    split at hok
    · cases hok
    next uid hprobe =>
    have hord : a.uidMin ≤ a.uidMax := by
      rw [h.uidMin, h.uidMax]
      exact h.ordered
    obtain ⟨hfree, hlo, hhi⟩ := probe_some hord hprobe
    rw [h.uidMin] at hlo
    rw [h.uidMax] at hhi
    rw [h.ownerUID] at hfree
    rw [newBedUser_of_pos (by have := h.positive; omega)] at hok
    cases hok
    refine ⟨assign e b uid heb hfree, h.put heb hfree hlo hhi, extends_assign heb hfree, ?_, rfl⟩
    rw [assign_apply, if_pos rfl]

theorem Represents.acquire_error {err : PrivilegeError} (herr : a.acquire b = .error err) :
    err = .exhausted lo hi ∧ ∀ uid, lo ≤ uid → uid ≤ hi → a.ownerUID uid ≠ none := by
  unfold acquire at herr
  rw [h.fixed, h.byBed b] at herr
  cases heb : e b with
  | some uid =>
    rw [heb] at herr
    cases herr
  | none =>
    rw [heb] at herr
    simp only [map_none, h.slots_ne_zero, if_false] at herr
    split at herr
    · next hprobe =>
      cases herr
      refine ⟨by rw [h.uidMin, h.uidMax], fun uid hlo hhi => ?_⟩
      obtain ⟨k, hk, rfl⟩ := candidate_covers (a := a) (stableBedUserSlot b a.slots)
        (h.uidMin ▸ hlo) (h.uidMax ▸ hhi)
      exact probe_none hprobe k (zero_le k) (by omega)
    · next uid hprobe =>
      have hord : a.uidMin ≤ a.uidMax := by
        rw [h.uidMin, h.uidMax]
        exact h.ordered
      obtain ⟨-, hlo, -⟩ := probe_some hord hprobe
      rw [h.uidMin] at hlo
      rw [newBedUser_of_pos (by have := h.positive; omega)] at herr
      cases herr

theorem Represents.release (b : BedID) : (a.release b).Represents lo hi (unassign e b) := by
  have hother : ∀ x y, unassign e b x = some y → e x = some y := by
    intro x y hxy
    rw [unassign_apply] at hxy
    split_ifs at hxy
    exact hxy
  unfold BedUserAllocator.release
  simp only [h.fixed, h.byBed b, isSome_none, Bool.false_eq_true, if_false]
  cases heb : e b with
  | none =>
    have hsame : ∀ x, unassign e b x = e x := by
      intro x
      rw [unassign_apply]
      split_ifs with hx
      · rw [hx, heb]
      · rfl
    have hsame' : ∀ y, (unassign e b).symm y = e.symm y := by
      intro y
      rw [unassign_symm, if_neg]
      intro hy
      rw [(e.eq_some_iff).mp hy] at heb
      cases heb
    refine ⟨h.fixed, h.uidMin, h.uidMax, h.positive, h.ordered, h.bounded, fun x => ?_,
      fun y => ?_, fun x y hxy => h.range x y (hother x y hxy)⟩
    · exact (h.byBed x).trans (by rw [hsame])
    · exact (h.ownerUID y).trans (hsame' y).symm
  | some uid =>
    show (a.remove b ⟨uid, uid⟩).Represents lo hi (unassign e b)
    refine ⟨h.fixed, h.uidMin, h.uidMax, h.positive, h.ordered, h.bounded, fun x => ?_,
      fun y => ?_, fun x y hxy => h.range x y (hother x y hxy)⟩
    · rw [remove_byBed, h.byBed, unassign_apply]
      split_ifs <;> rfl
    · rw [remove_ownerUID, h.ownerUID, unassign_symm]
      have hiff : y = uid ↔ e.symm y = some b := by
        rw [e.eq_some_iff, heb, some.injEq, eq_comm]
      simp only [hiff]

end

end BedUserAllocator

end Hostel.Privilege
