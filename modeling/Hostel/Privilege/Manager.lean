/-
# Hostel.Privilege.Manager — the privilege subsystem over its whole life.

`Recover` reserves the owners of the directories a Bed left behind, `Prepare` gives a Bed its user,
and `Forget` takes it away once the local tree is gone.  Each holds the subsystem's lock while it
uses the maps, so every interleaving is a sequence of these three.  `Prepare` hands the tree over
after it has let the lock go; only whether that failed is left of it here.
-/
import Hostel.Logic.Machine
import Hostel.Privilege.Allocator

namespace Hostel.Privilege

open Hostel.Logic Function Option

/-- `Manager`: the allocator, the users given out, and the Beds that `Recover` has seen. -/
structure PrivilegeManager where
  allocator : BedUserAllocator
  users : BedID → Option BedUser
  recovered : BedID → Bool

def newManager (allocator : BedUserAllocator) : PrivilegeManager :=
  { allocator := allocator, users := fun _ => none, recovered := fun _ => false }

/-- The loop of `Recover` over `RecoveryDirs`, which the first error ends. -/
def recoverDirs (a : BedUserAllocator) (bedID : BedID) :
    List DirStat → BedUserAllocator × Option PrivilegeError
  | [] => (a, none)
  | stat :: stats =>
    match a.reserveOwnedDirectory bedID stat with
    | (a', none) => recoverDirs a' bedID stats
    | (a', some err) => (a', some err)

namespace PrivilegeManager

/-- `Recover` of a Bed on whose recovery directories `os.Stat` answers `stats`. -/
def recover (m : PrivilegeManager) (bedID : BedID) (stats : List DirStat) :
    PrivilegeManager × Option PrivilegeError :=
  ({ m with
      allocator := (recoverDirs m.allocator bedID stats).1
      recovered := update m.recovered bedID true },
    (recoverDirs m.allocator bedID stats).2)

/-- `Prepare`; `handoverFails` is whether handing the Bed's tree to its user fails. -/
def prepare (m : PrivilegeManager) (bedID : BedID) (handoverFails : Bool) :
    PrivilegeManager × Option PrivilegeError :=
  match m.users bedID with
  | some _ => (m, if handoverFails then some .handover else none)
  | none =>
    match m.allocator.acquire bedID with
    | .error err => (m, some err)
    | .ok (a, user) =>
      ({ m with allocator := a, users := update m.users bedID (some user) },
        if handoverFails then some .handover else none)

def forget (m : PrivilegeManager) (bedID : BedID) : PrivilegeManager :=
  { allocator :=
      if (m.users bedID).isSome || m.recovered bedID then m.allocator.release bedID
      else m.allocator
    users := update m.users bedID none
    recovered := update m.recovered bedID false }

end PrivilegeManager

inductive Call
  | recover (bedID : BedID) (stats : List DirStat)
  | prepare (bedID : BedID) (handoverFails : Bool)
  | forget (bedID : BedID)
  deriving DecidableEq

def PrivilegeManager.call (m : PrivilegeManager) : Call → PrivilegeManager
  | .recover bedID stats => (m.recover bedID stats).1
  | .prepare bedID handoverFails => (m.prepare bedID handoverFails).1
  | .forget bedID => m.forget bedID

def machine : Machine PrivilegeManager Call := ⟨fun m c => some (m.call c)⟩

/-! ## The invariant -/

/-- The subsystem holds the assignment `e`: what it has given out is part of it, and all of it was
given out or recovered. -/
structure PrivilegeManager.Serves (lo hi : Int) (m : PrivilegeManager) (e : BedID ≃. Int) :
    Prop where
  allocator : m.allocator.Represents lo hi e
  users : ∀ b user, m.users b = some user → e b = some user.uid ∧ user.gid = user.uid
  tracked : ∀ b, e b ≠ none → m.users b ≠ none ∨ m.recovered b = true

variable {lo hi : Int} {m m' : PrivilegeManager} {e : BedID ≃. Int} {b : BedID} {c : Call}

open BedUserAllocator (Represents Extends)

/-- The directories of one Bed: what is reserved stays reserved, and a loop that ends without an
error has reserved the owner of each directory that is in the range. -/
theorem recoverDirs_represents {a : BedUserAllocator} (h : a.Represents lo hi e) (b : BedID)
    (stats : List DirStat) :
    ∃ e', (recoverDirs a b stats).1.Represents lo hi e' ∧ Extends b e e' ∧
      ((recoverDirs a b stats).2 = none → ∀ uid : UInt32, .owner uid ∈ stats →
        lo ≤ uid.toNat → (uid.toNat : Int) ≤ hi → e' b = some (uid.toNat : Int)) := by
  induction stats generalizing a e with
  | nil => exact ⟨e, h, .refl b e, nofun⟩
  | cons stat stats ih =>
    obtain ⟨e₁, h₁, hext₁, hres₁⟩ := h.reserveOwnedDirectory b stat
    unfold recoverDirs
    cases hstep : a.reserveOwnedDirectory b stat with
    | mk a' err =>
      rw [hstep] at h₁ hres₁
      cases err with
      | some err => exact ⟨e₁, h₁, hext₁, nofun⟩
      | none =>
        obtain ⟨e₂, h₂, hext₂, hres₂⟩ := ih h₁
        refine ⟨e₂, h₂, hext₁.trans hext₂, fun hok uid hmem hlo hhi => ?_⟩
        rcases List.mem_cons.mp hmem with hhead | htail
        · exact hext₂.own _ (hres₁ rfl uid hhead.symm hlo hhi)
        · exact hres₂ hok uid htail hlo hhi

section

variable (h : m.Serves lo hi e)
include h

theorem PrivilegeManager.Serves.extend {e' : BedID ≃. Int}
    (hrep : m'.allocator.Represents lo hi e') (hext : Extends b e e')
    (hother : ∀ x, x ≠ b → m'.users x = m.users x ∧ m'.recovered x = m.recovered x)
    (huser : ∀ user, m'.users b = some user → e' b = some user.uid ∧ user.gid = user.uid)
    (htrack : m'.users b ≠ none ∨ m'.recovered b = true) : m'.Serves lo hi e' where
  allocator := hrep
  users x user hx := by
    by_cases hxb : x = b
    · subst hxb
      exact huser user hx
    · rw [(hother x hxb).1] at hx
      rw [hext.other x hxb]
      exact h.users x user hx
  tracked x hx := by
    by_cases hxb : x = b
    · subst hxb
      exact htrack
    · rw [hext.other x hxb] at hx
      rw [(hother x hxb).1, (hother x hxb).2]
      exact h.tracked x hx

theorem PrivilegeManager.Serves.recover (b : BedID) (stats : List DirStat) :
    ∃ e', (m.recover b stats).1.Serves lo hi e' ∧ Extends b e e' ∧
      ((m.recover b stats).2 = none → ∀ uid : UInt32, .owner uid ∈ stats →
        lo ≤ uid.toNat → (uid.toNat : Int) ≤ hi → e' b = some (uid.toNat : Int)) := by
  obtain ⟨e', hrep, hext, hres⟩ := recoverDirs_represents h.allocator b stats
  refine ⟨e', h.extend hrep hext (fun x hx => ⟨rfl, ?_⟩) (fun user hu => ?_) (.inr ?_), hext, hres⟩
  · exact update_of_ne hx _ _
  · obtain ⟨hold, hgid⟩ := h.users b user hu
    exact ⟨hext.own _ hold, hgid⟩
  · exact update_self ..

/-- `Prepare` gives the Bed the user id it has in the assignment, which has one unless all are
taken. -/
theorem PrivilegeManager.Serves.prepare (b : BedID) (handoverFails : Bool) :
    ∃ e', (m.prepare b handoverFails).1.Serves lo hi e' ∧ Extends b e e' ∧
      ((∃ user, (m.prepare b handoverFails).1.users b = some user ∧ e' b = some user.uid ∧
          (m.prepare b handoverFails).2 = if handoverFails then some .handover else none) ∨
        (m.prepare b handoverFails).2 = some (.exhausted lo hi) ∧ e b = none ∧
          ∀ uid, lo ≤ uid → uid ≤ hi → m.allocator.ownerUID uid ≠ none) := by
  unfold PrivilegeManager.prepare
  cases huser : m.users b with
  | some user => exact ⟨e, h, .refl b e, .inl ⟨user, huser, (h.users b user huser).1, rfl⟩⟩
  | none =>
    cases hacq : m.allocator.acquire b with
    | error err =>
      obtain ⟨rfl, hfull⟩ := h.allocator.acquire_error hacq
      refine ⟨e, h, .refl b e, .inr ⟨rfl, ?_, hfull⟩⟩
      -- a Bed that has a user id is answered that one
      cases heb : e b with
      | none => rfl
      | some uid =>
        unfold BedUserAllocator.acquire at hacq
        rw [h.allocator.fixed, h.allocator.byBed, heb] at hacq
        cases hacq
    | ok p =>
      obtain ⟨a, user⟩ := p
      obtain ⟨e', hrep, hext, heb, hgid⟩ := h.allocator.acquire_ok hacq
      have hself : update m.users b (some user) b = some user := update_self ..
      refine ⟨e', h.extend hrep hext (fun x hx => ⟨update_of_ne hx _ _, rfl⟩)
        (fun v hv => ?_) (.inl ?_), hext, .inl ⟨user, hself, heb, rfl⟩⟩
      · cases hself.symm.trans hv
        exact ⟨heb, hgid⟩
      · exact fun hnone => by cases hself.symm.trans hnone

theorem PrivilegeManager.Serves.forget (b : BedID) : (m.forget b).Serves lo hi (unassign e b) := by
  have hrep : (m.forget b).allocator.Represents lo hi (unassign e b) := by
    unfold PrivilegeManager.forget
    split_ifs with hknown
    · exact h.allocator.release b
    · -- the Bed was not known, so it has nothing, and releasing it would change nothing
      have hnone : e b = none := by
        by_contra hsome
        rcases h.tracked b hsome with hu | hr
        · simp [isSome_iff_ne_none.mpr hu] at hknown
        · simp [hr] at hknown
      have hrelease := h.allocator.release b
      unfold BedUserAllocator.release at hrelease
      rw [h.allocator.byBed, hnone, map_none] at hrelease
      split_ifs at hrelease <;> exact hrelease
  refine ⟨hrep, fun x user hx => ?_, fun x hx => ?_⟩
  · by_cases hxb : x = b
    · subst hxb
      rw [show (m.forget x).users x = none from update_self ..] at hx
      cases hx
    · rw [show (m.forget b).users x = m.users x from update_of_ne hxb _ _] at hx
      rw [unassign_apply, if_neg hxb]
      exact h.users x user hx
  · have hxb : x ≠ b := by
      rintro rfl
      exact hx (by rw [unassign_apply, if_pos rfl])
    rw [unassign_apply, if_neg hxb] at hx
    rw [show (m.forget b).users x = m.users x from update_of_ne hxb _ _,
      show (m.forget b).recovered x = m.recovered x from update_of_ne hxb _ _]
    exact h.tracked x hx

/-! ## Every run -/

theorem PrivilegeManager.Serves.call (c : Call) :
    ∃ e', (m.call c).Serves lo hi e' ∧
      ∀ b uid, c ≠ .forget b → e b = some uid → e' b = some uid := by
  have hkeep : ∀ {b e'}, Extends b e e' → ∀ x uid, e x = some uid → e' x = some uid := by
    intro b e' hext x uid hx
    by_cases hxb : x = b
    · subst hxb
      exact hext.own uid hx
    · rw [hext.other x hxb]
      exact hx
  cases c with
  | recover b stats =>
    obtain ⟨e', hs, hext, -⟩ := h.recover b stats
    exact ⟨e', hs, fun x uid _ => hkeep hext x uid⟩
  | prepare b handoverFails =>
    obtain ⟨e', hs, hext, -⟩ := h.prepare b handoverFails
    exact ⟨e', hs, fun x uid _ => hkeep hext x uid⟩
  | forget b =>
    refine ⟨unassign e b, h.forget b, fun x uid hne hx => ?_⟩
    rw [unassign_apply, if_neg fun hxb => hne (by rw [hxb])]
    exact hx

end

theorem serves_of_trace {τ : List (PrivilegeManager × Call)} {m₀ : PrivilegeManager}
    (h₀ : m₀.Serves lo hi e) (h : machine.Trace m₀ τ m) :
    ∃ e', m.Serves lo hi e' ∧
      ∀ b uid, (∀ x ∈ τ, x.2 ≠ .forget b) → e b = some uid → e' b = some uid := by
  induction h with
  | nil => exact ⟨e, h₀, fun _ _ _ hb => hb⟩
  | @snoc τ m₁ m₂ c hτ hstep ih =>
    obtain ⟨e₁, h₁, hkeep₁⟩ := ih
    obtain ⟨e₂, h₂, hkeep₂⟩ := h₁.call c
    cases hstep
    refine ⟨e₂, h₂, fun b uid hno hb => hkeep₂ b uid (hno (m₁, c) (by simp)) (hkeep₁ b uid ?_ hb)⟩
    exact fun x hx => hno x (List.mem_append_left _ hx)

theorem PrivilegeManager.Serves.byBed_iff (h : m.Serves lo hi e) (b : BedID) (uid : Int) :
    (m.allocator.byBed b).map BedUser.uid = some uid ↔ e b = some uid := by
  rw [h.allocator.byBed]
  cases e b <;> simp

/-- A call's `Forget` leaves the users of the other Beds, and their user ids, as they are. -/
theorem PrivilegeManager.Serves.forget_other (h : m.Serves lo hi e) {b x : BedID} (hx : x ≠ b) :
    (m.forget b).allocator.byBed x = m.allocator.byBed x ∧ (m.forget b).users x = m.users x ∧
      ∀ uid, m.allocator.ownerUID uid = some x → (m.forget b).allocator.ownerUID uid = some x := by
  have hforget := (h.forget b).allocator
  refine ⟨?_, update_of_ne hx _ _, fun uid huid => ?_⟩
  · rw [hforget.byBed, h.allocator.byBed, unassign_apply, if_neg hx]
  · rw [h.allocator.ownerUID] at huid
    rw [hforget.ownerUID, unassign_symm, huid, if_neg]
    exact fun hsame => hx (some.inj hsame)

/-- The privilege subsystem, in every state of every run on a range inside `1 .. 2^32 - 2`: the two
maps are inverse to each other; every user id held is in the range; no two Beds hold the same one;
what `Recover` reserves for a Bed, the owner of its directory when that is in the range, is what
`Prepare` gives it until it is forgotten; `Prepare` fails only if all user ids are held or handing
the tree over fails; and forgetting one Bed, however often, releases nothing of another. -/
theorem bed_users_exclusive {uidMin uidMax : Int} {a : BedUserAllocator}
    (hnew : newPerBedUserAllocator uidMin uidMax = .ok a) (hmax : uidMax ≤ 2 ^ 32 - 2)
    {τ : List (PrivilegeManager × Call)} (h : machine.Trace (newManager a) τ m) :
    (∀ b uid, (m.allocator.byBed b).map BedUser.uid = some uid ↔
        m.allocator.ownerUID uid = some b) ∧
      (∀ b user, m.allocator.byBed b = some user ∨ m.users b = some user →
        uidMin ≤ user.uid ∧ user.uid ≤ uidMax) ∧
      (∀ b b' user user', m.allocator.byBed b = some user ∨ m.users b = some user →
        m.allocator.byBed b' = some user' ∨ m.users b' = some user' →
        user.uid = user'.uid → b = b') ∧
      (∀ b stats user, (m.recover b stats).1.allocator.byBed b = some user →
        ∀ τ' m', machine.Trace (m.recover b stats).1 τ' m' → (∀ x ∈ τ', x.2 ≠ .forget b) →
        ∀ handoverFails, (m'.prepare b handoverFails).1.users b = some user) ∧
      (∀ b stats, (m.recover b stats).2 = none → ∀ uid : UInt32, .owner uid ∈ stats →
        uidMin ≤ uid.toNat → (uid.toNat : Int) ≤ uidMax →
        (m.recover b stats).1.allocator.byBed b = some ⟨uid.toNat, uid.toNat⟩) ∧
      (∀ b handoverFails err, (m.prepare b handoverFails).2 = some err →
        handoverFails = true ∧ err = .handover ∨
          ∀ uid, uidMin ≤ uid → uid ≤ uidMax → m.allocator.ownerUID uid ≠ none) ∧
      ∀ b b', b' ≠ b →
        (m.forget b).allocator.byBed b' = m.allocator.byBed b' ∧
          (m.forget b).users b' = m.users b' ∧
          ∀ uid, m.allocator.ownerUID uid = some b' →
            (m.forget b).allocator.ownerUID uid = some b' := by
  have hserves : (newManager a).Serves uidMin uidMax ⊥ :=
    ⟨BedUserAllocator.represents_new hnew hmax, nofun, fun _ h => absurd rfl h⟩
  obtain ⟨e, hm, -⟩ := serves_of_trace hserves h
  have hholds : ∀ b user, m.allocator.byBed b = some user ∨ m.users b = some user →
      e b = some user.uid := by
    rintro b user (hb | hb)
    · exact (hm.byBed_iff b _).mp (by rw [hb]; rfl)
    · exact (hm.users b user hb).1
  refine ⟨fun b uid => ?_, fun b user hb => hm.allocator.range b _ (hholds b user hb),
    ?_, ?_, ?_, ?_, fun b b' hne => hm.forget_other hne⟩
  · rw [hm.byBed_iff, hm.allocator.ownerUID, e.eq_some_iff]
  · intro b b' user user' hb hb' heq
    have hb := hholds b user hb
    rw [heq] at hb
    exact some.inj (((e.eq_some_iff).mpr hb).symm.trans ((e.eq_some_iff).mpr
      (hholds b' user' hb')))
  · intro b stats user huser τ' m' hτ' hno handoverFails
    obtain ⟨e₁, h₁, -⟩ := hm.recover b stats
    obtain ⟨e₂, h₂, hkeep⟩ := serves_of_trace h₁ hτ'
    obtain ⟨e₃, h₃, hext, ⟨v, hv, hev, -⟩ | ⟨-, hnone, -⟩⟩ := h₂.prepare b handoverFails
    · -- both users are the one of the assignment
      have huid : e₃ b = some user.uid :=
        hext.own _ (hkeep b _ hno ((h₁.byBed_iff b _).mp (by rw [huser]; rfl)))
      have hgid : user.gid = user.uid := by
        have hrep := h₁.allocator.byBed b
        rw [huser] at hrep
        obtain ⟨w, -, rfl⟩ := map_eq_some_iff.mp hrep.symm
        rfl
      have hvgid := (h₃.users b v hv).2
      rw [hv]
      have hvu : v.uid = user.uid := some.inj (hev.symm.trans huid)
      cases v
      cases user
      simp_all
    · rw [hkeep b user.uid hno ((h₁.byBed_iff b _).mp (by rw [huser]; rfl))] at hnone
      cases hnone
  · intro b stats hok uid hmem hlo hhi
    obtain ⟨e₁, h₁, -, hres⟩ := hm.recover b stats
    rw [h₁.allocator.byBed, hres hok uid hmem hlo hhi]
    rfl
  · intro b handoverFails err herr
    obtain ⟨-, -, -, ⟨user, -, -, hres⟩ | ⟨-, -, hfull⟩⟩ := hm.prepare b handoverFails
    · rw [hres] at herr
      cases handoverFails <;> cases herr
      exact .inl ⟨rfl, rfl⟩
    · exact .inr hfull

/-- On the range 1000..1001 Bed `[1]` is recovered with a directory of user 1001 and Bed `[2]` is
prepared: the first is given 1001, and a third Bed is refused since both user ids are held. -/
theorem bed_users_exclusive_recovered :
    ∃ m : PrivilegeManager, (m.prepare [1] false).1.users [1] = some ⟨1001, 1001⟩ ∧
      (m.prepare [3] false).2 = some (.exhausted 1000 1001) ∧
      ∀ uid, 1000 ≤ uid → uid ≤ 1001 → m.allocator.ownerUID uid ≠ none := by
  have hnew : newPerBedUserAllocator 1000 1001 = .ok (.empty 1000 1001) := rfl
  have hrecover : machine.Trace (newManager (.empty 1000 1001))
      [(newManager (.empty 1000 1001), .recover [1] [.owner 1001])]
      ((newManager (.empty 1000 1001)).recover [1] [.owner 1001]).1 := .single rfl
  have hprepare : machine.Trace ((newManager (.empty 1000 1001)).recover [1] [.owner 1001]).1
      [(((newManager (.empty 1000 1001)).recover [1] [.owner 1001]).1, .prepare [2] false)]
      (((newManager (.empty 1000 1001)).recover [1] [.owner 1001]).1.prepare [2] false).1 :=
    .single rfl
  have hfull : ((((newManager (.empty 1000 1001)).recover [1] [.owner 1001]).1.prepare [2]
      false).1.prepare [3] false).2 = some (.exhausted 1000 1001) := by decide +kernel
  refine ⟨_, ?_, hfull, ?_⟩
  · exact (bed_users_exclusive hnew (by decide) .nil).2.2.2.1 [1] [.owner 1001] ⟨1001, 1001⟩
      (by decide +kernel) _ _ hprepare (by decide) false
  · have hheld := (bed_users_exclusive hnew (by decide) (hrecover.append hprepare)).2.2.2.2.2.1
      [3] false _ hfull
    exact hheld.resolve_left nofun

end Hostel.Privilege
