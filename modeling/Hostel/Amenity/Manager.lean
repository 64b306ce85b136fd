/-
# Hostel.Amenity.Manager — tenants of the facilities, bound to Beds.

`AdmitBed` gives a Bed a binding, `Acquire` creates the Bed's tenant of a facility on first use, and
`ReleaseBed` closes the tenants of a binding and then forgets it.  `Acquire` and `ReleaseBed` hold
the binding's semaphore of one unit for their whole work; `ReleaseBed` sets the closing flag
*before* it waits for it.  A released Bed may be admitted again, with a new binding, while calls
that looked up the old one are still queued.

Every critical section is one move, and so is every call of a facility or a tenant.  `AdmitBed`
makes at most one binding and `Acquire` at most one tenant, so both are named by the call.

The proof outline: who holds a binding's semaphore owns its map of tenants; a tenant that is not
closed is in that map or in the hand of its creator, who holds the semaphore; a binding that is no
longer the Bed's has no such tenant and is closing.
-/
import Hostel.Logic.Threads
import Hostel.Logic.FiniteMap

namespace Hostel.Amenity

open Hostel.Logic Function Option FiniteMap Program List

/-! ## The manager -/

/-- A binding, named by the `AdmitBed` call that made it. -/
abbrev BindingId := ThreadId

/-- A tenant, named by the `Acquire` call that created it. -/
abbrev TenantId := ThreadId

/-- A registered facility; `factory` tells whether it has tenants. -/
structure Facility (ν : Type) where
  name : ν
  factory : Bool
  deriving DecidableEq, Repr

/-- `bedBinding`, with the Bed it was made for; `operation` is the call that holds the semaphore. -/
structure Binding (κ ν : Type) where
  bed : κ
  operation : Option ThreadId := none
  closing : Bool := false
  tenants : FiniteMap ν TenantId := ∅

/-- A tenant that `NewTenant` returned: how many of its `Close` calls returned `nil`, and whether
one failed. -/
structure Tenant (ν : Type) where
  binding : BindingId
  name : ν
  closes : Nat := 0
  failed : Bool := false
  deriving DecidableEq, Repr

structure Manager (κ ν : Type) where
  /-- Fixed before `Start`. -/
  amenities : List (Facility ν)
  closed : Bool := false
  beds : FiniteMap κ BindingId := ∅
  bindings : BindingId → Option (Binding κ ν) := fun _ => none
  tenants : TenantId → Option (Tenant ν) := fun _ => none

inductive AmenityError (κ ν : Type)
  | managerClosed
  | notAdmitted (id : κ)
  | closing (id : κ)
  | canceled
  | tenantsUnavailable (name : ν)
  | createTenant (name : ν)
  | cleanup (failed : List (ν × TenantId))
  deriving DecidableEq, Repr

inductive AdmitPc (κ ν : Type)
  | start
  | done (err : Option (AmenityError κ ν))
  deriving DecidableEq

inductive AcquirePc (κ ν : Type)
  | start
  | wait (b : BindingId)
  | check (b : BindingId)
  | decide (b : BindingId) (tenant : Option TenantId)
  | create (b : BindingId)
  | store (b : BindingId)
  | leave (b : BindingId) (result : Except (AmenityError κ ν) TenantId)
  | done (result : Except (AmenityError κ ν) TenantId)
  deriving DecidableEq

/-- `ReleaseBed`; the end remembers the binding it looked up. -/
inductive ReleasePc (κ ν : Type)
  | start
  | mark (b : BindingId)
  | wait (b : BindingId)
  | copy (b : BindingId)
  | close (b : BindingId) (rest : FiniteMap ν TenantId) (failed : List (ν × TenantId))
  | remove (b : BindingId) (name : ν) (rest : FiniteMap ν TenantId) (failed : List (ν × TenantId))
  | forget (b : BindingId)
  | leave (b : BindingId) (err : Option (AmenityError κ ν))
  | done (b : Option BindingId) (err : Option (AmenityError κ ν))

inductive ManagerPc (κ ν : Type)
  | admission (id : κ) (pc : AdmitPc κ ν)
  | acquire (id : κ) (name : ν) (pc : AcquirePc κ ν)
  | release (id : κ) (pc : ReleasePc κ ν)

/-- What the outside world decides in a move: a call fails or the context is done, or which entry of
a map a loop takes next and how its `Close` ends. -/
inductive ManagerChoice (ν : Type)
  | go
  | fail
  | close (name : ν) (ok : Bool)
  deriving DecidableEq

namespace Manager

variable {κ ν : Type}

def setBinding (s : Manager κ ν) (b : BindingId) (B : Binding κ ν) : Manager κ ν :=
  { s with bindings := update s.bindings b (some B) }

def setTenant (s : Manager κ ν) (x : TenantId) (T : Tenant ν) : Manager κ ν :=
  { s with tenants := update s.tenants x (some T) }

variable [DecidableEq κ] [DecidableEq ν]

/-- `Find`, and whether the facility is a `TenantFactory`. -/
def hasFactory (s : Manager κ ν) (name : ν) : Bool :=
  (s.amenities.find? fun a => a.name = name).any Facility.factory

/-! ## The calls -/

def admitStep (t : ThreadId) (s : Manager κ ν) (id : κ) : AdmitPc κ ν → ManagerChoice ν →
    Option (Manager κ ν × AdmitPc κ ν)
  | .start, .go =>
    if s.closed then some (s, .done (some .managerClosed))
    else match s.beds.lookup id with
      | some _ => some (s, .done none)
      | none => some ({ s.setBinding t { bed := id } with beds := s.beds.insert id t }, .done none)
  | _, _ => none

/-- The semaphore of a binding, when it is free. -/
def take (s : Manager κ ν) (t : ThreadId) (b : BindingId) : Option (Manager κ ν) :=
  match s.bindings b with
  | none => none
  | some B =>
    if B.operation = none then some (s.setBinding b { B with operation := some t }) else none

def leave (s : Manager κ ν) (b : BindingId) : Option (Manager κ ν) :=
  (s.bindings b).map fun B => s.setBinding b { B with operation := none }

def acquireStep (t : ThreadId) (s : Manager κ ν) (id : κ) (name : ν) :
    AcquirePc κ ν → ManagerChoice ν → Option (Manager κ ν × AcquirePc κ ν)
  | .start, .go =>
    match s.beds.lookup id with
    | none => some (s, .done (.error (.notAdmitted id)))
    | some b => some (s, .wait b)
  | .wait b, .go => (s.take t b).map fun s' => (s', .check b)
  | .wait _, .fail => some (s, .done (.error .canceled))
  | .check b, .go =>
    match s.bindings b with
    | none => none
    | some B =>
      if B.closing then some (s, .leave b (.error (.closing id)))
      else some (s, .decide b (B.tenants.lookup name))
  | .decide b _, .fail => some (s, .leave b (.error .canceled))
  | .decide b (some x), .go => some (s, .leave b (.ok x))
  | .decide b none, .go =>
    if s.hasFactory name then some (s, .create b)
    else some (s, .leave b (.error (.tenantsUnavailable name)))
  | .create b, .fail => some (s, .leave b (.error (.createTenant name)))
  | .create b, .go => some (s.setTenant t { binding := b, name := name }, .store b)
  | .store b, .go =>
    match s.bindings b with
    | none => none
    | some B =>
      some (s.setBinding b { B with tenants := B.tenants.insert name t }, .leave b (.ok t))
  | .leave b r, .go => (s.leave b).map fun s' => (s', .done r)
  | _, _ => none

def joined (failed : List (ν × TenantId)) : Option (AmenityError κ ν) :=
  if failed.isEmpty then none else some (.cleanup failed)

def releaseStep (t : ThreadId) (s : Manager κ ν) (id : κ) : ReleasePc κ ν → ManagerChoice ν →
    Option (Manager κ ν × ReleasePc κ ν)
  | .start, .go =>
    match s.beds.lookup id with
    | none => some (s, .done none none)
    | some b => some (s, .mark b)
  | .mark b, .go => (s.bindings b).map fun B => (s.setBinding b { B with closing := true }, .wait b)
  | .wait b, .go => (s.take t b).map fun s' => (s', .copy b)
  | .wait b, .fail => some (s, .done (some b) (some .canceled))
  | .copy b, .go => (s.bindings b).map fun B => (s, .close b B.tenants [])
  | .close b rest failed, .close name ok =>
    -- the entries of the copy in whatever order it is ranged over
    match rest.lookup name with
    | none => none
    | some x =>
      match s.tenants x with
      | none => none
      | some T =>
        if ok then
          some (s.setTenant x { T with closes := T.closes + 1 },
            .remove b name (rest.erase name) failed)
        else some (s.setTenant x { T with failed := true },
          .close b (rest.erase name) (failed ++ [(name, x)]))
  | .close b rest failed, .go =>
    if rest.entries.isEmpty then
      (if failed.isEmpty then some (s, .forget b) else some (s, .leave b (joined failed)))
    else none
  | .remove b name rest failed, .go =>
    (s.bindings b).map fun B =>
      (s.setBinding b { B with tenants := B.tenants.erase name }, .close b rest failed)
  | .forget b, .go =>
    some ({ s with beds := if s.beds.lookup id = some b then s.beds.erase id else s.beds },
      .leave b none)
  | .leave b err, .go => (s.leave b).map fun s' => (s', .done (some b) err)
  | _, _ => none

/-- The calls over one manager; the world may close it to new Beds. -/
def program (κ ν : Type) [DecidableEq κ] [DecidableEq ν] :
    Program (Manager κ ν) (ManagerPc κ ν) (ManagerChoice ν) Unit where
  entry
    | .admission _ .start | .acquire _ _ .start | .release _ .start => true
    | _ => false
  move t s pc x :=
    match pc with
    | .admission id pc => (admitStep t s id pc x).map fun r => (r.1, .admission id r.2)
    | .acquire id name pc => (acquireStep t s id name pc x).map fun r => (r.1, .acquire id name r.2)
    | .release id pc => (releaseStep t s id pc x).map fun r => (r.1, .release id r.2)
  world s _ := some { s with closed := true }

def new (amenities : List (Facility ν)) : Manager κ ν := { amenities }

/-! ## What a move can do -/

/-- Everything a move of `t` can do that another call could notice. -/
structure Guarantee (t : ThreadId) (s s' : Manager κ ν) : Prop where
  /-- A binding stays the Bed's, and closing; while another call holds it, its tenants stay and so
  does its Bed. -/
  binding : ∀ b B, s.bindings b = some B → ∃ B', s'.bindings b = some B' ∧ B'.bed = B.bed ∧
    (B.closing = true → B'.closing = true) ∧
    ∀ u, u ≠ t → B.operation = some u → B'.operation = some u ∧ B'.tenants = B.tenants ∧
      (s.beds.lookup B.bed = some b → s'.beds.lookup B.bed = some b)
  /-- A binding that was forgotten does not come back. -/
  retired : ∀ b B, s.bindings b = some B → s.beds.lookup B.bed ≠ some b →
    s'.beds.lookup B.bed ≠ some b
  /-- A tenant changes under the semaphore of its binding. -/
  tenant : ∀ x T B u, s.tenants x = some T → s.bindings T.binding = some B → u ≠ t →
    B.operation = some u → s'.tenants x = some T
  freshBinding : ∀ u, u ≠ t → s.bindings u = none → s'.bindings u = none
  freshTenant : ∀ u, u ≠ t → s.tenants u = none → s'.tenants u = none

variable {s s' : Manager κ ν} {t u : ThreadId} {b : BindingId} {B B' : Binding κ ν}
  {id : κ} {name : ν}

omit [DecidableEq ν] in
theorem Guarantee.quiet (hbeds : s'.beds = s.beds) (hbindings : s'.bindings = s.bindings)
    (htenants : s'.tenants = s.tenants) : Guarantee t s s' where
  binding _ B hB := ⟨B, hbindings ▸ hB, rfl, id, fun _ _ hu => ⟨hu, rfl, fun h => hbeds ▸ h⟩⟩
  retired _ _ _ h := hbeds ▸ h
  tenant _ _ _ _ hT _ _ _ := htenants ▸ hT
  freshBinding _ _ h := hbindings ▸ h
  freshTenant _ _ h := htenants ▸ h

omit [DecidableEq ν] in
theorem Guarantee.setBinding (hB : s.bindings b = some B) (hbed : B'.bed = B.bed)
    (hclosing : B.closing = true → B'.closing = true)
    (hheld : ∀ u, u ≠ t → B.operation = some u → B'.operation = some u ∧ B'.tenants = B.tenants) :
    Guarantee t s (s.setBinding b B') where
  binding c C hC := by
    refine exists_update hC ?_ fun _ => ⟨rfl, fun h => h, fun u _ hu => ⟨hu, rfl, fun h => h⟩⟩
    rintro rfl
    cases hB.symm.trans hC
    exact ⟨hbed, hclosing, fun u hut hu => ⟨(hheld u hut hu).1, (hheld u hut hu).2, fun h => h⟩⟩
  retired _ _ _ h := h
  tenant _ _ _ _ hT _ _ _ := hT
  freshBinding u _ hnone := update_eq_none hB hnone
  freshTenant _ _ h := h

variable {T : Tenant ν}

omit [DecidableEq ν] in
theorem Guarantee.setTenant {x : TenantId} (hB : s.bindings T.binding = some B)
    (hop : B.operation = some t) (hold : x = t ∨ s.tenants x ≠ none)
    (hbinding : ∀ T', s.tenants x = some T' → T'.binding = T.binding) :
    Guarantee t s (s.setTenant x T) where
  binding c C hC := ⟨C, hC, rfl, fun h => h, fun u _ hu => ⟨hu, rfl, fun h => h⟩⟩
  retired _ _ _ h := h
  tenant y T' C u hT' hC hut hu := by
    have hyx : y ≠ x := by
      rintro rfl
      rw [hbinding T' hT', hB, some.injEq] at hC
      subst hC
      exact held_alone hop hut hu
    exact (update_of_ne hyx ..).trans hT'
  freshBinding _ _ h := h
  freshTenant u hut hnone := by
    have hux : u ≠ x := by
      rintro rfl
      exact hold.elim hut fun hsome => hsome hnone
    exact (update_of_ne hux ..).trans hnone

/-! ## The outline -/

def Alive (s : Manager κ ν) (m : FiniteMap ν TenantId) : Prop :=
  ∀ name x, m.lookup name = some x → ∃ T, s.tenants x = some T ∧ T.closes = 0

structure Inv (s : Manager κ ν) : Prop where
  beds : ∀ id b, s.beds.lookup id = some b → ∃ B, s.bindings b = some B ∧ B.bed = id
  /-- A tenant that is not closed is bound, or in the hand of its creator. -/
  tenant : ∀ x T, s.tenants x = some T → T.closes ≤ 1 ∧ ∃ B, s.bindings T.binding = some B ∧
    (T.closes = 0 → B.tenants.lookup T.name = some x ∨
      B.operation = some x ∧ B.tenants.lookup T.name = none ∧ T.failed = false)
  bound : ∀ b B name x, s.bindings b = some B → B.tenants.lookup name = some x →
    ∃ T, s.tenants x = some T ∧ T.binding = b ∧ T.name = name
  idle : ∀ b B, s.bindings b = some B → B.operation = none → s.Alive B.tenants
  retired : ∀ b B, s.bindings b = some B → s.beds.lookup B.bed ≠ some b →
    B.closing = true ∧ ∀ x T, s.tenants x = some T → T.binding = b → T.closes = 1

def Known (s : Manager κ ν) (b : BindingId) (id : κ) : Prop :=
  ∃ B, s.bindings b = some B ∧ B.bed = id

/-- `t` holds the semaphore of the Bed's binding, whose tenants are `m`. -/
def Held (s : Manager κ ν) (t : ThreadId) (b : BindingId) (id : κ) (m : FiniteMap ν TenantId) :
    Prop :=
  ∃ B, s.bindings b = some B ∧ B.operation = some t ∧ B.bed = id ∧ B.tenants = m

def Closing (s : Manager κ ν) (b : BindingId) : Prop :=
  ∃ B, s.bindings b = some B ∧ B.closing = true

def Retired (s : Manager κ ν) (b : BindingId) : Prop :=
  ∃ B, s.bindings b = some B ∧ s.beds.lookup B.bed ≠ some b

def Admitting (t : ThreadId) (s : Manager κ ν) : AdmitPc κ ν → Prop
  | .start => s.bindings t = none
  | .done _ => True

def Acquiring (t : ThreadId) (s : Manager κ ν) (id : κ) (name : ν) : AcquirePc κ ν → Prop
  | .start => s.tenants t = none
  | .wait b => s.tenants t = none ∧ s.Known b id
  | .check b => s.tenants t = none ∧ ∃ m, s.Held t b id m ∧ s.Alive m
  | .decide b old =>
    s.tenants t = none ∧ s.beds.lookup id = some b ∧ ∃ m, s.Held t b id m ∧ s.Alive m ∧
      m.lookup name = old
  | .create b =>
    s.tenants t = none ∧ s.beds.lookup id = some b ∧ ∃ m, s.Held t b id m ∧ s.Alive m ∧
      m.lookup name = none
  | .store b =>
    s.tenants t = some { binding := b, name := name } ∧ s.beds.lookup id = some b ∧
      ∃ m, s.Held t b id m ∧ s.Alive m ∧ m.lookup name = none
  | .leave b _ =>
    ∃ m, s.Held t b id m ∧ s.Alive m ∧
      ∀ T, s.tenants t = some T → T.binding = b ∧ m.lookup T.name = some t
  | .done _ => True

def Releasing (t : ThreadId) (s : Manager κ ν) (id : κ) : ReleasePc κ ν → Prop
  | .start => True
  | .mark b => s.Known b id
  | .wait b => s.Known b id ∧ s.Closing b
  | .copy b => s.Closing b ∧ ∃ m, s.Held t b id m ∧ s.Alive m
  | .close b rest failed =>
    s.Closing b ∧ ∃ m, s.Held t b id m ∧ s.Alive m ∧
      (∀ n x, rest.lookup n = some x → m.lookup n = some x) ∧
      (failed = [] → ∀ n x, m.lookup n = some x → rest.lookup n = some x)
  | .remove b name rest failed =>
    s.Closing b ∧ ∃ m, s.Held t b id m ∧
      (∃ x T, m.lookup name = some x ∧ s.tenants x = some T ∧ T.closes = 1) ∧
      s.Alive (m.erase name) ∧ (∀ n x, rest.lookup n = some x → (m.erase name).lookup n = some x) ∧
      (failed = [] → ∀ n x, (m.erase name).lookup n = some x → rest.lookup n = some x)
  | .forget b => s.Closing b ∧ ∃ m, s.Held t b id m ∧ ∀ n, m.lookup n = none
  | .leave b err => (∃ m, s.Held t b id m ∧ s.Alive m) ∧ (err = none → s.Retired b)
  | .done b err => err = none → ∀ b', b = some b' → s.Retired b'

def Asserts (t : ThreadId) (s : Manager κ ν) : Option (ManagerPc κ ν) → Prop
  | none => s.bindings t = none ∧ s.tenants t = none
  | some (.admission _ pc) => s.tenants t = none ∧ Admitting t s pc
  | some (.acquire id name pc) => Acquiring t s id name pc
  | some (.release id pc) => s.tenants t = none ∧ Releasing t s id pc

/-! ### What the others leave alone -/

section Other

variable (G : Guarantee t s s') (hut : u ≠ t)
include G

omit [DecidableEq ν] in
theorem Known.other (h : s.Known b id) : s'.Known b id := by
  obtain ⟨B, hB, hbed⟩ := h
  obtain ⟨B', hB', hbed', -⟩ := G.binding b B hB
  exact ⟨B', hB', hbed'.trans hbed⟩

omit [DecidableEq ν] in
theorem Closing.other (h : s.Closing b) : s'.Closing b := by
  obtain ⟨B, hB, hclosing⟩ := h
  obtain ⟨B', hB', -, hmono, -⟩ := G.binding b B hB
  exact ⟨B', hB', hmono hclosing⟩

omit [DecidableEq ν] in
theorem Retired.other (h : s.Retired b) : s'.Retired b := by
  obtain ⟨B, hB, hbeds⟩ := h
  obtain ⟨B', hB', hbed, -⟩ := G.binding b B hB
  exact ⟨B', hB', hbed ▸ G.retired b B hB hbeds⟩

include hut

variable {m : FiniteMap ν TenantId}

omit [DecidableEq ν] in
theorem Held.other (h : s.Held u b id m) : s'.Held u b id m := by
  obtain ⟨B, hB, hop, hbed, hm⟩ := h
  obtain ⟨B', hB', hbed', -, hkept⟩ := G.binding b B hB
  obtain ⟨hop', hm', -⟩ := hkept u hut hop
  exact ⟨B', hB', hop', hbed'.trans hbed, hm'.trans hm⟩

omit [DecidableEq ν] in
theorem Held.admitted_other (h : s.Held u b id m) (hbeds : s.beds.lookup id = some b) :
    s'.beds.lookup id = some b := by
  obtain ⟨B, hB, hop, rfl, -⟩ := h
  obtain ⟨_, _, _, _, hkept⟩ := G.binding b B hB
  exact (hkept u hut hop).2.2 hbeds

theorem Held.tenant_other (hI : Inv s) (h : s.Held u b id m) {n : ν} {x : TenantId}
    (hx : m.lookup n = some x) {T : Tenant ν} (hT : s.tenants x = some T) :
    s'.tenants x = some T := by
  obtain ⟨B, hB, hop, -, rfl⟩ := h
  obtain ⟨T', hT', hbinding, -⟩ := hI.bound b B n x hB hx
  cases hT.symm.trans hT'
  exact G.tenant x T B u hT (hbinding ▸ hB) hut hop

theorem Held.alive_other (hI : Inv s) (h : s.Held u b id m) {m' : FiniteMap ν TenantId}
    (hsub : ∀ n x, m'.lookup n = some x → m.lookup n = some x) (halive : s.Alive m') :
    s'.Alive m' := by
  intro n x hx
  obtain ⟨T, hT, hcloses⟩ := halive n x hx
  exact ⟨T, h.tenant_other G hut hI (hsub n x hx) hT, hcloses⟩

theorem Acquiring.other (hI : Inv s) {pc : AcquirePc κ ν} (h : Acquiring u s id name pc) :
    Acquiring u s' id name pc := by
  have fresh : s.tenants u = none → s'.tenants u = none := G.freshTenant u hut
  cases pc with
  | start => exact fresh h
  | wait b => exact ⟨fresh h.1, h.2.other G⟩
  | check b =>
    obtain ⟨hfresh, m, hheld, halive⟩ := h
    exact ⟨fresh hfresh, m, hheld.other G hut, hheld.alive_other G hut hI (fun _ _ h => h) halive⟩
  | decide b old | create b =>
    obtain ⟨hfresh, hbeds, m, hheld, halive, hold⟩ := h
    exact ⟨fresh hfresh, hheld.admitted_other G hut hbeds, m, hheld.other G hut,
      hheld.alive_other G hut hI (fun _ _ h => h) halive, hold⟩
  | store b =>
    obtain ⟨htenant, hbeds, m, hheld, halive, hnone⟩ := h
    refine ⟨?_, hheld.admitted_other G hut hbeds, m, hheld.other G hut,
      hheld.alive_other G hut hI (fun _ _ h => h) halive, hnone⟩
    obtain ⟨B, hB, hop, -, -⟩ := hheld
    exact G.tenant u _ B u htenant hB hut hop
  | leave b r =>
    obtain ⟨m, hheld, halive, hbound⟩ := h
    refine ⟨m, hheld.other G hut, hheld.alive_other G hut hI (fun _ _ h => h) halive,
      fun T' hT' => ?_⟩
    cases hT : s.tenants u with
    | none =>
      rw [fresh hT] at hT'
      cases hT'
    | some T =>
      obtain ⟨hbinding, hlookup⟩ := hbound T hT
      rw [hheld.tenant_other G hut hI hlookup hT, some.injEq] at hT'
      subst hT'
      exact ⟨hbinding, hlookup⟩
  | done r => trivial

theorem Releasing.other (hI : Inv s) {pc : ReleasePc κ ν} (h : Releasing u s id pc) :
    Releasing u s' id pc := by
  cases pc with
  | start => trivial
  | mark b => exact Known.other G h
  | wait b => exact ⟨h.1.other G, h.2.other G⟩
  | copy b =>
    obtain ⟨hclosing, m, hheld, halive⟩ := h
    exact ⟨hclosing.other G, m, hheld.other G hut,
      hheld.alive_other G hut hI (fun _ _ h => h) halive⟩
  | close b rest failed =>
    obtain ⟨hclosing, m, hheld, halive, hrest⟩ := h
    exact ⟨hclosing.other G, m, hheld.other G hut,
      hheld.alive_other G hut hI (fun _ _ h => h) halive, hrest⟩
  | remove b n rest failed =>
    obtain ⟨hclosing, m, hheld, ⟨x, T, hx, hT, hcloses⟩, halive, hrest⟩ := h
    refine ⟨hclosing.other G, m, hheld.other G hut,
      ⟨x, T, hx, hheld.tenant_other G hut hI hx hT, hcloses⟩,
      hheld.alive_other G hut hI (fun _ _ => lookup_of_erase) halive, hrest⟩
  | forget b =>
    obtain ⟨hclosing, m, hheld, hnone⟩ := h
    exact ⟨hclosing.other G, m, hheld.other G hut, hnone⟩
  | leave b err =>
    obtain ⟨⟨m, hheld, halive⟩, hretired⟩ := h
    exact ⟨⟨m, hheld.other G hut, hheld.alive_other G hut hI (fun _ _ h => h) halive⟩,
      fun herr => (hretired herr).other G⟩
  | done b err => exact fun herr b' hb' => (h herr b' hb').other G

theorem Asserts.other (hI : Inv s) {pc : Option (ManagerPc κ ν)} (h : Asserts u s pc) :
    Asserts u s' pc := by
  match pc with
  | none => exact ⟨G.freshBinding u hut h.1, G.freshTenant u hut h.2⟩
  | some (.admission id .start) => exact ⟨G.freshTenant u hut h.1, G.freshBinding u hut h.2⟩
  | some (.admission id (.done err)) => exact ⟨G.freshTenant u hut h.1, trivial⟩
  | some (.acquire id name pc) => exact Acquiring.other G hut hI h
  | some (.release id pc) => exact ⟨G.freshTenant u hut h.1, Releasing.other G hut hI h.2⟩

end Other

/-! ### The moves keep the invariant -/

theorem Inv.live (hI : Inv s) (hB : s.bindings b = some B) {x : TenantId}
    (hT : s.tenants x = some T) (hbinding : T.binding = b) (hopen : T.closes = 0) :
    B.tenants.lookup T.name = some x ∨ B.operation = some x ∧ B.tenants.lookup T.name = none ∧
    T.failed = false := by
  obtain ⟨-, C, hC, hlive⟩ := hI.tenant x T hT
  rw [hbinding, hB, some.injEq] at hC
  subst hC
  exact hlive hopen

theorem Inv.setBinding (hI : Inv s) (hB : s.bindings b = some B) (hbed : B'.bed = B.bed)
    (hclosing : B.closing = true → B'.closing = true)
    (hopen : ∀ x T, s.tenants x = some T → T.binding = b → T.closes = 0 →
      B'.tenants.lookup T.name = some x ∨
      B'.operation = some x ∧ B'.tenants.lookup T.name = none ∧ T.failed = false)
    (hbound : ∀ n x, B'.tenants.lookup n = some x → B.tenants.lookup n = some x ∨
      ∃ T, s.tenants x = some T ∧ T.binding = b ∧ T.name = n)
    (hidle : B'.operation = none → s.Alive B'.tenants) : Inv (s.setBinding b B') where
  beds id c hc := by
    obtain ⟨C, hC, hid⟩ := hI.beds id c hc
    refine exists_update hC ?_ fun _ => hid
    rintro rfl
    cases hB.symm.trans hC
    exact hbed.trans hid
  tenant x T hT := by
    obtain ⟨hle, C, hC, hlive⟩ := hI.tenant x T hT
    exact ⟨hle, exists_update hC (fun hcb => hopen x T hT hcb) fun _ => hlive⟩
  bound c C n x hC hx := by
    obtain ⟨rfl, rfl⟩ | ⟨-, hC⟩ := update_eq_some.mp hC
    · exact (hbound n x hx).elim (hI.bound c B n x hB) fun h => h
    · exact hI.bound c C n x hC hx
  idle c C hC hop := by
    obtain ⟨rfl, rfl⟩ | ⟨-, hC⟩ := update_eq_some.mp hC
    · exact hidle hop
    · exact hI.idle c C hC hop
  retired c C hC hbeds := by
    obtain ⟨rfl, rfl⟩ | ⟨-, hC⟩ := update_eq_some.mp hC
    · obtain ⟨hc, hall⟩ := hI.retired c B hB (hbed ▸ hbeds)
      exact ⟨hclosing hc, hall⟩
    · exact hI.retired c C hC hbeds

theorem Inv.setTenant {x : TenantId} (hI : Inv s) (hB : s.bindings T.binding = some B)
    (hop : B.operation = some t) (hle : T.closes ≤ 1)
    (hsame : ∀ T', s.tenants x = some T' → T'.binding = T.binding ∧ T'.name = T.name)
    (hopen : T.closes = 0 → B.tenants.lookup T.name = some x ∨
      B.operation = some x ∧ B.tenants.lookup T.name = none ∧ T.failed = false)
    (hretired : s.beds.lookup B.bed ≠ some T.binding → T.closes = 1) : Inv (s.setTenant x T) where
  beds := hI.beds
  tenant y U hU := by
    obtain ⟨rfl, rfl⟩ | ⟨-, hU⟩ := update_eq_some.mp hU
    · exact ⟨hle, B, hB, hopen⟩
    · exact hI.tenant y U hU
  bound c C n y hC hy := by
    obtain ⟨U, hU, hbinding, hname⟩ := hI.bound c C n y hC hy
    refine exists_update hU ?_ fun _ => ⟨hbinding, hname⟩
    rintro rfl
    obtain ⟨hb, hn⟩ := hsame U hU
    exact ⟨hb.symm.trans hbinding, hn.symm.trans hname⟩
  idle c C hC hfree n y hy := by
    replace hC : s.bindings c = some C := hC
    obtain ⟨U, hU, hcloses⟩ := hI.idle c C hC hfree n y hy
    by_cases hyx : y = x
    · -- the binding of `x` is held
      subst hyx
      obtain ⟨U', hU', hbinding, -⟩ := hI.bound c C n y hC hy
      rw [← hbinding, (hsame U' hU').1, hB, some.injEq] at hC
      subst hC
      rw [hop] at hfree
      cases hfree
    · exact ⟨U, (update_of_ne hyx ..).trans hU, hcloses⟩
  retired c C hC hbeds := by
    replace hC : s.bindings c = some C := hC
    obtain ⟨hclosing, hall⟩ := hI.retired c C hC hbeds
    refine ⟨hclosing, fun y U hU hbinding => ?_⟩
    obtain ⟨rfl, rfl⟩ | ⟨-, hU⟩ := update_eq_some.mp hU
    · subst hbinding
      cases hB.symm.trans hC
      exact hretired hbeds
    · exact hall y U hU hbinding

variable {x : ManagerChoice ν}

theorem admitStep_own {pc pc' : AdmitPc κ ν} (hI : Inv s) (hfresh : s.tenants t = none)
    (hA : Admitting t s pc) (h : admitStep t s id pc x = some (s', pc')) :
    Guarantee t s s' ∧ Inv s' ∧ s'.tenants t = none ∧ Admitting t s' pc' := by
  unfold admitStep at h
  split at h
  · split at h
    · cases h
      exact ⟨.quiet rfl rfl rfl, hI, hfresh, trivial⟩
    · split at h
      · cases h
        exact ⟨.quiet rfl rfl rfl, hI, hfresh, trivial⟩
      · next hnone =>
        cases h
        have hA : s.bindings t = none := hA
        have old : ∀ {c C}, s.bindings c = some C →
            update s.bindings t (some { bed := id }) c = some C :=
          update_of_none hA
        have lookup : ∀ {i c}, (s.beds.insert id t).lookup i = some c ↔
            if i = id then c = t else s.beds.lookup i = some c := by
          intro i c
          rw [lookup_insert]
          split_ifs <;> simp [eq_comm]
        have unchanged : ∀ {c C}, s.bindings c = some C →
            ((s.beds.insert id t).lookup C.bed = some c ↔ s.beds.lookup C.bed = some c) := by
          intro c C hC
          rw [lookup]
          split_ifs with hid
          · rw [hid, hnone]
            exact ⟨fun hct => (by rw [hct, hA] at hC; cases hC), fun hcon => by cases hcon⟩
          · rfl
        refine ⟨⟨fun c C hC => ?_, fun c C hC hbeds => ?_, fun x T C u hT _ _ _ => hT,
          fun u hut hu => ?_, fun u _ hu => hu⟩,
          ⟨fun i c hc => ?_, fun x T hT => ?_, fun c C n x hC hx => ?_, fun c C hC hop => ?_,
          fun c C hC hbeds => ?_⟩, hfresh, trivial⟩
        · exact ⟨C, old hC, rfl, fun h => h, fun u _ hu => ⟨hu, rfl, (unchanged hC).mpr⟩⟩
        · exact fun hin => hbeds ((unchanged hC).mp hin)
        · exact (update_of_ne hut ..).trans hu
        · have hc := lookup.mp hc
          split_ifs at hc with hid
          · subst hc
            exact ⟨{ bed := id }, update_self .., hid.symm⟩
          · obtain ⟨C, hC, hbed⟩ := hI.beds i c hc
            exact ⟨C, old hC, hbed⟩
        · obtain ⟨hle, C, hC, hopen⟩ := hI.tenant x T hT
          exact ⟨hle, C, old hC, hopen⟩
        · obtain ⟨rfl, rfl⟩ | ⟨-, hC⟩ := update_eq_some.mp hC
          · cases hx
          · exact hI.bound c C n x hC hx
        · obtain ⟨rfl, rfl⟩ | ⟨-, hC⟩ := update_eq_some.mp hC
          · intro n x hx
            cases hx
          · exact hI.idle c C hC hop
        · obtain ⟨rfl, rfl⟩ | ⟨-, hC⟩ := update_eq_some.mp hC
          · exact absurd (lookup.mpr (if_pos rfl ▸ rfl)) hbeds
          · exact hI.retired c C hC fun hin => hbeds ((unchanged hC).mpr hin)
  · cases h

variable {m : FiniteMap ν TenantId}

theorem lookup_nil (h : m.entries.isEmpty = true) (n : ν) : m.lookup n = none := by
  rw [AList.lookup_eq_none, AList.mem_keys, AList.keys, isEmpty_iff.mp h]
  simp

section

variable (hI : Inv s)
include hI

theorem take_own (hknown : s.Known b id) (h : s.take t b = some s') :
    Guarantee t s s' ∧ Inv s' ∧ s'.tenants = s.tenants ∧ ∃ m, s'.Held t b id m ∧ s'.Alive m := by
  obtain ⟨B, hB, hbed⟩ := hknown
  simp only [take, hB] at h
  split at h
  · next hfree =>
    cases h
    have hnobody : ∀ u, B.operation ≠ some u := by
      intro u hu
      rw [hfree] at hu
      cases hu
    refine ⟨.setBinding hB rfl (fun h => h) fun u _ hu => absurd hu (hnobody u),
      hI.setBinding hB rfl (fun h => h) ?_ (fun _ _ h => .inl h) (by simp), rfl, B.tenants,
      ⟨_, update_self .., rfl, hbed, rfl⟩, hI.idle b B hB hfree⟩
    intro x T hT hbinding hopen
    exact .inl ((hI.live hB hT hbinding hopen).resolve_right fun hhand => hnobody x hhand.1)
  · cases h

theorem leave_own (hheld : s.Held t b id m) (halive : s.Alive m)
    (hbound : ∀ T, s.tenants t = some T → T.binding = b ∧ m.lookup T.name = some t)
    (h : s.leave b = some s') :
    Guarantee t s s' ∧ Inv s' ∧ s'.tenants = s.tenants ∧ (s.Retired b → s'.Retired b) := by
  obtain ⟨B, hB, hop, hbed, rfl⟩ := hheld
  simp only [leave, hB, map_some, some.injEq] at h
  subst h
  have hguarantee : Guarantee t s (s.setBinding b { B with operation := none }) :=
    .setBinding hB rfl (fun h => h) fun _ => held_alone hop
  refine ⟨hguarantee, hI.setBinding hB rfl (fun h => h) ?_ (fun _ _ h => .inl h) fun _ => halive,
    rfl, Retired.other hguarantee⟩
  intro x T hT hbinding hopen
  rcases hI.live hB hT hbinding hopen with hin | ⟨hx, -, -⟩
  · exact .inl hin
  · -- a tenant in the hand of the holder would be the call's own
    cases hop.symm.trans hx
    exact .inl (hbound T hT).2

theorem Held.write (m' : FiniteMap ν TenantId) (hheld : s.Held t b id m)
    (hopen : ∀ x T, s.tenants x = some T → T.binding = b → T.closes = 0 → m'.lookup T.name = some x)
    (hbound : ∀ n x, m'.lookup n = some x → m.lookup n = some x ∨
      ∃ T, s.tenants x = some T ∧ T.binding = b ∧ T.name = n)
    (hB : s.bindings b = some B) :
    let s' := s.setBinding b { B with tenants := m' }
    Guarantee t s s' ∧ Inv s' ∧ s'.Held t b id m' := by
  obtain ⟨B, hB', hop, hbed, rfl⟩ := hheld
  cases hB.symm.trans hB'
  refine ⟨.setBinding hB rfl (fun h => h) fun _ => held_alone hop,
    hI.setBinding hB rfl (fun h => h) (fun x T hT hbinding h => .inl (hopen x T hT hbinding h))
    hbound fun hnone => ?_, _, update_self .., hop, hbed, rfl⟩
  rw [hop] at hnone
  cases hnone

theorem acquireStep_own {pc pc' : AcquirePc κ ν}
    (hA : Acquiring t s id name pc) (h : acquireStep t s id name pc x = some (s', pc')) :
    Guarantee t s s' ∧ Inv s' ∧ Acquiring t s' id name pc' := by
  have quiet : Acquiring t s id name pc' → Guarantee t s s ∧ Inv s ∧ Acquiring t s id name pc' :=
    fun h => ⟨.quiet rfl rfl rfl, hI, h⟩
  -- a call without a tenant may leave
  have leaving : ∀ {b m}, s.tenants t = none → s.Held t b id m → s.Alive m →
      ∃ m, s.Held t b id m ∧ s.Alive m ∧ ∀ T, s.tenants t = some T → T.binding = b ∧
      m.lookup T.name = some t := by
    intro b m hfresh hheld halive
    refine ⟨m, hheld, halive, fun T hT => ?_⟩
    rw [hfresh] at hT
    cases hT
  unfold acquireStep at h
  split at h
  -- the ways to leave without a tenant
  case h_5 | h_6 | h_8 =>
    obtain ⟨hfresh, -, m, hheld, halive, -⟩ := hA
    cases h
    exact quiet (leaving hfresh hheld halive)
  · split at h
    · cases h
      exact quiet trivial
    · next b hb =>
      cases h
      obtain ⟨B, hB, hbed⟩ := hI.beds id b hb
      exact quiet ⟨hA, B, hB, hbed⟩
  · next b =>
    obtain ⟨s₁, htake, heq⟩ := map_eq_some_iff.mp h
    cases heq
    obtain ⟨hG, hI', htenants, hheld⟩ := take_own hI hA.2 htake
    exact ⟨hG, hI', by rw [htenants]; exact hA.1, hheld⟩
  · cases h
    exact quiet trivial
  · next b =>
    obtain ⟨hfresh, m, hheld, halive⟩ := hA
    have hholds := hheld
    obtain ⟨B, hB, hop, hbed, hm⟩ := hholds
    simp only [hB] at h
    split at h
    · cases h
      exact quiet (leaving hfresh hheld halive)
    · next hclosing =>
      cases h
      refine quiet ⟨hfresh, ?_, m, hheld, halive, by rw [hm]⟩
      -- a binding that is not closing is the Bed's
      by_contra hbeds
      exact hclosing (hI.retired b B hB (hbed ▸ hbeds)).1
  · obtain ⟨hfresh, hbeds, m, hheld, halive, hnone⟩ := hA
    split at h
    · cases h
      exact quiet ⟨hfresh, hbeds, m, hheld, halive, hnone⟩
    · cases h
      exact quiet (leaving hfresh hheld halive)
  · next b =>
    obtain ⟨hfresh, hbeds, m, hheld, halive, hnone⟩ := hA
    cases h
    have hholds := hheld
    obtain ⟨B, hB, hop, hbed, rfl⟩ := hholds
    refine ⟨.setTenant hB hop (.inl rfl) ?_, hI.setTenant hB hop (Nat.zero_le _) ?_
      (fun _ => .inr ⟨hop, hnone, rfl⟩) ?_, update_self .., hbeds, B.tenants,
      ⟨B, hB, hop, hbed, rfl⟩, ?_, hnone⟩
    iterate 2
      · intro T' hT'
        rw [hfresh] at hT'
        cases hT'
    · rw [hbed]
      exact fun hne => absurd hbeds hne
    · intro n x hx
      obtain ⟨T, hT, hcloses⟩ := halive n x hx
      exact ⟨T, update_of_none hfresh hT, hcloses⟩
  · next b =>
    obtain ⟨htenant, hbeds, m, hheld, halive, hnone⟩ := hA
    have hholds := hheld
    obtain ⟨B, hB, hop, hbed, rfl⟩ := hholds
    simp only [hB] at h
    cases h
    have hwrite := hheld.write hI (B.tenants.insert name t) ?_ ?_ hB
    · obtain ⟨hG, hI', hheld'⟩ := hwrite
      refine ⟨hG, hI', _, hheld', ?_, fun T hT => ?_⟩
      · intro n x hx
        obtain ⟨-, rfl⟩ | ⟨-, hx⟩ := insert_eq_some.mp hx
        · exact ⟨_, htenant, rfl⟩
        · exact halive n x hx
      · cases htenant.symm.trans hT
        exact ⟨rfl, AList.lookup_insert _⟩
    · intro x T hT hbinding hopen
      rcases hI.live hB hT hbinding hopen with hin | ⟨hx, -, -⟩
      · exact insert_of_none hnone hin
      · cases hop.symm.trans hx
        cases htenant.symm.trans hT
        exact AList.lookup_insert _
    · intro n x hx
      obtain ⟨rfl, rfl⟩ | ⟨-, hx⟩ := insert_eq_some.mp hx
      · exact .inr ⟨_, htenant, rfl, rfl⟩
      · exact .inl hx
  · next b r =>
    obtain ⟨m, hheld, halive, hbound⟩ := hA
    obtain ⟨s₁, hleave, heq⟩ := map_eq_some_iff.mp h
    cases heq
    obtain ⟨hG, hI', -, -⟩ := leave_own hI hheld halive hbound hleave
    exact ⟨hG, hI', trivial⟩
  · cases h

theorem forget_own (hfresh : s.tenants t = none) (hclosing : s.Closing b)
    (hheld : s.Held t b id m) (hnone : ∀ n, m.lookup n = none) {beds : FiniteMap κ BindingId}
    (hbeds : beds = if s.beds.lookup id = some b then s.beds.erase id else s.beds) :
    Guarantee t s { s with beds := beds } ∧ Inv { s with beds := beds } ∧
    Retired { s with beds := beds } b := by
  obtain ⟨B, hB, hop, hbed, rfl⟩ := hheld
  have hmarked : B.closing = true := by
    obtain ⟨B', hB', hclosing⟩ := hclosing
    cases hB.symm.trans hB'
    exact hclosing
  have hclosed : ∀ x T, s.tenants x = some T → T.binding = b → T.closes = 1 := by
    intro x T hT hbinding
    have hle := (hI.tenant x T hT).1
    by_contra hne
    rcases hI.live hB hT hbinding (by omega) with hin | ⟨hx, -, -⟩
    · rw [hnone] at hin
      cases hin
    · cases hop.symm.trans hx
      rw [hfresh] at hT
      cases hT
  have lookup : ∀ i c, beds.lookup i = some c ↔ s.beds.lookup i = some c ∧ (i = id → c ≠ b) := by
    intro i c
    rw [hbeds]
    split_ifs with hin
    · rw [lookup_erase]
      split_ifs with hi
      · subst hi
        rw [hin, some.injEq]
        exact ⟨fun h => (by cases h), fun h => absurd h.1.symm (h.2 rfl)⟩
      · exact ⟨fun h => ⟨h, fun h' => absurd h' hi⟩, fun h => h.1⟩
    · refine ⟨fun h => ⟨h, ?_⟩, fun h => h.1⟩
      rintro rfl rfl
      exact hin h
  refine ⟨⟨fun c C hC => ⟨C, hC, rfl, fun h => h, fun u hut hu => ⟨hu, rfl, fun hin => ?_⟩⟩,
      fun c C _ hout hin => hout ((lookup _ _).mp hin).1, fun _ _ _ _ hT _ _ _ => hT,
      fun _ _ h => h, fun _ _ h => h⟩,
    ⟨fun i c hc => hI.beds i c ((lookup i c).mp hc).1, hI.tenant, hI.bound, hI.idle,
    fun c C hC hout => ?_⟩, B, hB, fun hin => ((lookup _ _).mp hin).2 hbed rfl⟩
  · refine (lookup _ _).mpr ⟨hin, ?_⟩
    rintro - rfl
    cases hB.symm.trans hC
    exact held_alone hop hut hu
  · by_cases hcb : c = b
    · subst hcb
      cases hB.symm.trans hC
      exact ⟨hmarked, hclosed⟩
    · exact hI.retired c C hC fun hin => hout ((lookup _ _).mpr ⟨hin, fun _ => hcb⟩)

/-- The holder of the semaphore closes a bound tenant, or fails to. -/
theorem Held.close {n : ν} {y : TenantId} (T' : Tenant ν)
    (hheld : s.Held t b id m) (halive : s.Alive m) (hy : m.lookup n = some y)
    (hT : s.tenants y = some T) (hsame : T'.binding = T.binding ∧ T'.name = T.name)
    (hle : T'.closes ≤ 1) (hkept : T.closes ≤ T'.closes) :
    let s' := s.setTenant y T'
    Guarantee t s s' ∧ Inv s' ∧ s'.Held t b id m ∧ s'.Alive (m.erase n) ∧
      (T'.closes = 0 → s'.Alive m) := by
  obtain ⟨B, hB, hop, hbed, rfl⟩ := hheld
  obtain ⟨U, hU, hbinding, hname⟩ := hI.bound b B n y hB hy
  cases hT.symm.trans hU
  have hB' : s.bindings T'.binding = some B := by
    rw [hsame.1, hbinding]
    exact hB
  have hothers : ∀ n' x, n' ≠ n → B.tenants.lookup n' = some x → x ≠ y := by
    rintro n' x hn hx rfl
    obtain ⟨U, hU, -, hname'⟩ := hI.bound b B n' x hB hx
    cases hT.symm.trans hU
    exact hn (hname'.symm.trans hname)
  refine ⟨.setTenant hB' hop (.inr ?_) ?_, hI.setTenant hB' hop hle ?_ (fun hopen => .inl ?_)
    fun hout => ?_, ⟨B, hB, hop, hbed, rfl⟩, ?_, ?_⟩
  · rw [hT]
    exact some_ne_none T
  · intro U hU
    cases hT.symm.trans hU
    exact hsame.1.symm
  · intro U hU
    cases hT.symm.trans hU
    exact ⟨hsame.1.symm, hsame.2.symm⟩
  · rw [hsame.2, hname]
    exact hy
  · -- a binding with a tenant that is not closed is the Bed's
    have hclosed :=
      (hI.retired b B hB (by rw [← hbinding, ← hsame.1]; exact hout)).2 y T hT hbinding
    omega
  · intro n' x hx
    rw [lookup_erase] at hx
    split_ifs at hx with hn
    obtain ⟨U, hU, hcloses⟩ := halive n' x hx
    exact ⟨U, (update_of_ne (hothers n' x hn hx) ..).trans hU, hcloses⟩
  · intro hopen n' x hx
    obtain ⟨U, hU, hcloses⟩ := halive n' x hx
    exact exists_update hU (fun _ => hopen) fun _ => hcloses

theorem releaseStep_own {pc pc' : ReleasePc κ ν} (hfresh : s.tenants t = none)
    (hA : Releasing t s id pc) (h : releaseStep t s id pc x = some (s', pc')) :
    Guarantee t s s' ∧ Inv s' ∧ s'.tenants t = none ∧ Releasing t s' id pc' := by
  have quiet : Releasing t s id pc' → Guarantee t s s ∧ Inv s ∧ s.tenants t = none ∧
      Releasing t s id pc' :=
    fun h => ⟨.quiet rfl rfl rfl, hI, hfresh, h⟩
  unfold releaseStep at h
  split at h
  · split at h
    · cases h
      exact quiet fun _ b hb => by cases hb
    · next b hb =>
      cases h
      exact quiet (hI.beds id b hb)
  · next b =>
    obtain ⟨B, hB, heq⟩ := map_eq_some_iff.mp h
    cases heq
    obtain ⟨B', hB', hbed⟩ := hA
    cases hB.symm.trans hB'
    exact ⟨.setBinding hB rfl (fun _ => rfl) fun u _ hu => ⟨hu, rfl⟩,
      hI.setBinding hB rfl (fun _ => rfl) (fun _ _ => hI.live hB) (fun _ _ h => .inl h)
      (hI.idle b B hB), hfresh, ⟨_, update_self .., hbed⟩, _, update_self .., rfl⟩
  · next b =>
    obtain ⟨s₁, htake, heq⟩ := map_eq_some_iff.mp h
    cases heq
    obtain ⟨hG, hI', htenants, hheld⟩ := take_own hI hA.1 htake
    exact ⟨hG, hI', by rw [htenants]; exact hfresh, hA.2.other hG, hheld⟩
  · cases h
    exact quiet fun herr => by cases herr
  · next b =>
    obtain ⟨hclosing, m, hheld, halive⟩ := hA
    have hholds := hheld
    obtain ⟨B, hB, hop, hbed, rfl⟩ := hholds
    simp only [hB, map_some, some.injEq] at h
    cases h
    exact quiet ⟨hclosing, _, hheld, halive, fun _ _ h => h, fun _ _ _ h => h⟩
  · next b rest failed n ok =>
    obtain ⟨hclosing, m, hheld, halive, hsub, hall⟩ := hA
    split at h
    · cases h
    next y hy =>
    split at h
    · cases h
    next T hT =>
    have hm : m.lookup n = some y := hsub n y hy
    have hopen : T.closes = 0 := by
      obtain ⟨U, hU, hcloses⟩ := halive n y hm
      cases hT.symm.trans hU
      exact hcloses
    -- what is left of the copy is what is left of the map
    have hsub' : ∀ n' x, (rest.erase n).lookup n' = some x → (m.erase n).lookup n' = some x := by
      intro n' x hx
      rw [lookup_erase] at hx ⊢
      split_ifs at hx ⊢ with hn
      exact hsub n' x hx
    split at h
    · cases h
      obtain ⟨hG, hI', hheld', halive', -⟩ :=
        hheld.close hI { T with closes := T.closes + 1 } halive hm hT
        ⟨rfl, rfl⟩ (by simp [hopen]) (Nat.le_succ _)
      refine ⟨hG, hI', update_eq_none hT hfresh, hclosing.other hG, m, hheld',
        ⟨y, _, hm, update_self .., by simp [hopen]⟩, halive', hsub', fun hfailed n' x hx => ?_⟩
      rw [lookup_erase] at hx ⊢
      split_ifs at hx ⊢ with hn
      exact hall hfailed n' x hx
    · cases h
      obtain ⟨hG, hI', hheld', -, halive'⟩ := hheld.close hI { T with failed := true } halive hm hT
        ⟨rfl, rfl⟩ (by rw [hopen]; omega) le_rfl
      refine ⟨hG, hI', update_eq_none hT hfresh, hclosing.other hG, m, hheld',
        halive' hopen, fun n' x hx => lookup_of_erase (hsub' n' x hx), fun hfailed => ?_⟩
      simp at hfailed
  · next b rest failed =>
    obtain ⟨hclosing, m, hheld, halive, hsub, hall⟩ := hA
    split at h
    · next hempty =>
      split at h
      · next hfailed =>
        cases h
        refine quiet ⟨hclosing, m, hheld, fun n => eq_none_iff_forall_ne_some.mpr fun y hn => ?_⟩
        have hin := hall (isEmpty_iff.mp hfailed) n y hn
        rw [lookup_nil hempty] at hin
        cases hin
      · next hfailed =>
        cases h
        refine quiet ⟨⟨m, hheld, halive⟩, fun herr => ?_⟩
        rw [joined, if_neg hfailed] at herr
        cases herr
    · cases h
  · next b n rest failed =>
    obtain ⟨hclosing, m, hheld, ⟨y, T, hy, hT, hcloses⟩, halive, hsub, hall⟩ := hA
    have hholds := hheld
    obtain ⟨B, hB, hop, hbed, rfl⟩ := hholds
    simp only [hB, map_some, some.injEq] at h
    cases h
    have hwrite := hheld.write hI (B.tenants.erase n) ?_ ?_ hB
    · obtain ⟨hG, hI', hheld'⟩ := hwrite
      exact ⟨hG, hI', hfresh, hclosing.other hG, _, hheld', halive, hsub, hall⟩
    · intro x U hU hbinding hopen
      rcases hI.live hB hU hbinding hopen with hin | ⟨hx, -, -⟩
      · rw [lookup_erase, if_neg ?_]
        · exact hin
        · rintro hn
          rw [hn, hy, some.injEq] at hin
          subst hin
          cases hT.symm.trans hU
          omega
      · cases hop.symm.trans hx
        rw [hfresh] at hU
        cases hU
    · exact fun _ _ hx => .inl (lookup_of_erase hx)
  · next b =>
    obtain ⟨hclosing, m, hheld, hnone⟩ := hA
    cases h
    obtain ⟨hG, hI', hretired⟩ := forget_own hI hfresh hclosing hheld hnone rfl
    refine ⟨hG, hI', hfresh, ⟨m, hheld, fun n x hx => ?_⟩, fun _ => hretired⟩
    rw [hnone] at hx
    cases hx
  · next b err =>
    obtain ⟨⟨m, hheld, halive⟩, hretired⟩ := hA
    obtain ⟨s₁, hleave, heq⟩ := map_eq_some_iff.mp h
    cases heq
    have hnone : ∀ T, s.tenants t = some T → T.binding = b ∧ m.lookup T.name = some t := by
      intro T hT
      rw [hfresh] at hT
      cases hT
    obtain ⟨hG, hI', htenants, hkept⟩ := leave_own hI hheld halive hnone hleave
    refine ⟨hG, hI', by rw [htenants]; exact hfresh, fun herr b' hb' => ?_⟩
    cases hb'
    exact hkept (hretired herr)
  · cases h

end

variable {pc pc' : ManagerPc κ ν}

theorem move_own (hI : Inv s) (hA : Asserts t s (some pc))
    (h : (program κ ν).move t s pc x = some (s', pc')) :
    Guarantee t s s' ∧ Inv s' ∧ Asserts t s' (some pc') := by
  cases pc with
  | admission id pc =>
    obtain ⟨_, hstep, rfl⟩ := inner_move h
    exact admitStep_own hI hA.1 hA.2 hstep
  | acquire id name pc =>
    obtain ⟨_, hstep, rfl⟩ := inner_move h
    exact acquireStep_own hI hA hstep
  | release id pc =>
    obtain ⟨_, hstep, rfl⟩ := inner_move h
    exact releaseStep_own hI hA.1 hA.2 hstep

theorem outline : (program κ ν).Outline Inv Asserts where
  call {s t p} hI hA hentry := by
    match p, hentry with
    | .admission _ .start, _ => exact ⟨hA.2, hA.1⟩
    | .acquire _ _ .start, _ => exact hA.2
    | .release _ .start, _ => exact ⟨hA.2, trivial⟩
  own hI hA h := (move_own hI hA h).2
  other hI hA h hut hu := hu.other (move_own hI hA h).1 hut hI
  world {s e s'} hI h := by
    cases h
    refine ⟨⟨hI.beds, hI.tenant, hI.bound, hI.idle, hI.retired⟩, fun u q hq => ?_⟩
    exact hq.other (t := u + 1) (.quiet rfl rfl rfl) (Nat.ne_of_lt (Nat.lt_succ_self u)) hI

theorem inv_new (amenities : List (Facility ν)) : Inv (new amenities : Manager κ ν) := by
  refine ⟨fun id b h => ?_, fun x T h => ?_, fun b B n x h => ?_, fun b B h => ?_,
    fun b B h => ?_⟩ <;> cases h

/-! ## Runs -/

abbrev ManagerStep (κ ν : Type) :=
  Config (Manager κ ν) (ManagerPc κ ν) × ThreadAct (ManagerPc κ ν) (ManagerChoice ν) Unit

variable {amenities : List (Facility ν)} {τ : List (ManagerStep κ ν)}
  {c d : Config (Manager κ ν) (ManagerPc κ ν)}

theorem outlined_of_trace (h : (program κ ν).machine.Trace (init (new amenities)) τ c) :
    Outlined Inv Asserts c :=
  outline.proof_outline (inv_new amenities) (fun _ => ⟨rfl, rfl⟩) h

/-- The call found the binding not closing while it held the binding's semaphore. -/
def Checked (τ : List (ManagerStep κ ν)) (t : ThreadId) (b : BindingId) : Prop :=
  ∃ c x id name B, (c, ThreadAct.move t x) ∈ τ ∧ c.threads t = some (.acquire id name (.check b)) ∧
    c.shared.bindings b = some B ∧ B.operation = some t ∧ B.closing = false

/-- The call has passed the check of the binding and has not called the facility yet. -/
def Passed (b : BindingId) : ManagerPc κ ν → Prop
  | .acquire _ _ (.decide b' _) | .acquire _ _ (.create b') => b' = b
  | _ => False

/-- Where a move takes its tenants and its passed checks from. -/
structure Origin (t : ThreadId) (s s' : Manager κ ν) (pc pc' : ManagerPc κ ν) : Prop where
  tenant : ∀ x T', s'.tenants x = some T' → (∃ T, s.tenants x = some T ∧ T.binding = T'.binding) ∨
    x = t ∧ Passed T'.binding pc
  passed : ∀ b, Passed b pc' → Passed b pc ∨
    ∃ id name B, pc = .acquire id name (.check b) ∧ s.bindings b = some B ∧ B.closing = false

omit [DecidableEq κ] [DecidableEq ν] in
theorem Origin.same (htenants : s'.tenants = s.tenants) (hpassed : ∀ b, ¬Passed b pc') :
    Origin t s s' pc pc' :=
  ⟨fun _ T' hT' => .inl ⟨T', htenants ▸ hT', rfl⟩, fun b hb => absurd hb (hpassed b)⟩

omit [DecidableEq κ] [DecidableEq ν] in
theorem tenants_of_take (h : s.take t b = some s') : s'.tenants = s.tenants := by
  unfold take at h
  split at h
  · cases h
  · split at h <;> cases h
    rfl

omit [DecidableEq κ] [DecidableEq ν] in
theorem tenants_of_leave (h : s.leave b = some s') : s'.tenants = s.tenants := by
  obtain ⟨B, -, rfl⟩ := map_eq_some_iff.mp h
  rfl

theorem acquireStep_origin {pc pc' : AcquirePc κ ν}
    (h : acquireStep t s id name pc x = some (s', pc')) :
    Origin t s s' (.acquire id name pc) (.acquire id name pc') := by
  unfold acquireStep at h
  split at h
  case h_2 | h_11 =>
    obtain ⟨s₁, hstep, heq⟩ := map_eq_some_iff.mp h
    cases heq
    first
      | exact .same (tenants_of_take hstep) fun _ => not_false
      | exact .same (tenants_of_leave hstep) fun _ => not_false
  case h_4 =>
    split at h
    · cases h
    next b B hB =>
    split at h
    · cases h
      exact .same rfl fun _ => not_false
    · next hclosing =>
      cases h
      refine ⟨fun x T' hT' => .inl ⟨T', hT', rfl⟩, ?_⟩
      rintro _ rfl
      exact .inr ⟨id, name, B, rfl, hB, by simpa using hclosing⟩
  case h_7 =>
    split at h
    · cases h
      exact ⟨fun x T' hT' => .inl ⟨T', hT', rfl⟩, fun b hb => .inl hb⟩
    · cases h
      exact .same rfl fun _ => not_false
  case h_9 =>
    cases h
    refine ⟨fun y T' hT' => ?_, fun _ h => h.elim⟩
    obtain ⟨rfl, rfl⟩ | ⟨-, hT'⟩ := update_eq_some.mp hT'
    · exact .inr ⟨rfl, rfl⟩
    · exact .inl ⟨T', hT', rfl⟩
  all_goals
    (try split at h) <;> cases h <;> exact .same rfl fun _ => not_false

omit [DecidableEq κ] [DecidableEq ν] in
theorem setTenant_origin {y : TenantId} {T T' : Tenant ν} (hT : s.tenants y = some T)
    (hbinding : T.binding = T'.binding) (hpassed : ∀ b, ¬Passed b pc') :
    Origin t s (s.setTenant y T') pc pc' := by
  refine ⟨fun z U hU => ?_, fun b hb => absurd hb (hpassed b)⟩
  obtain ⟨rfl, rfl⟩ | ⟨-, hU⟩ := update_eq_some.mp hU
  · exact .inl ⟨T, hT, hbinding⟩
  · exact .inl ⟨U, hU, rfl⟩

theorem releaseStep_origin {pc pc' : ReleasePc κ ν} (h : releaseStep t s id pc x = some (s', pc')) :
    Origin t s s' (.release id pc) (.release id pc') := by
  unfold releaseStep at h
  split at h
  case h_2 | h_3 | h_5 | h_8 | h_10 =>
    obtain ⟨s₁, hstep, heq⟩ := map_eq_some_iff.mp h
    cases heq
    first
      | exact .same rfl fun _ => not_false
      | exact .same (tenants_of_take hstep) fun _ => not_false
      | exact .same (tenants_of_leave hstep) fun _ => not_false
  case h_6 =>
    split at h
    · cases h
    · split at h
      · cases h
      next T hT =>
      split at h <;> cases h <;> exact setTenant_origin hT rfl fun _ => not_false
  all_goals
    (try split at h) <;> (try split at h) <;> cases h <;> exact .same rfl fun _ => not_false

theorem move_origin (h : (program κ ν).move t s pc x = some (s', pc')) : Origin t s s' pc pc' := by
  cases pc with
  | admission id pc =>
    obtain ⟨_, hstep, rfl⟩ := inner_move h
    unfold admitStep at hstep
    split at hstep
    · split at hstep
      · cases hstep
        exact .same rfl fun _ => not_false
      · split at hstep <;> cases hstep <;> exact .same rfl fun _ => not_false
    · cases hstep
  | acquire id name pc =>
    obtain ⟨_, hstep, rfl⟩ := inner_move h
    exact acquireStep_origin hstep
  | release id pc =>
    obtain ⟨_, hstep, rfl⟩ := inner_move h
    exact releaseStep_origin hstep

omit [DecidableEq κ] [DecidableEq ν] in
theorem Checked.mono {e : ManagerStep κ ν} (h : Checked τ t b) : Checked (τ ++ [e]) t b := by
  obtain ⟨c, x, id, name, B, hmem, hB⟩ := h
  exact ⟨c, x, id, name, B, mem_append_left _ hmem, hB⟩

/-- Every tenant, and every call about to create one, has its check in the run. -/
structure AllChecked (τ : List (ManagerStep κ ν)) (c : Config (Manager κ ν) (ManagerPc κ ν)) :
    Prop where
  tenant : ∀ x T, c.shared.tenants x = some T → Checked τ x T.binding
  passed : ∀ t pc b, c.threads t = some pc → Passed b pc → Checked τ t b

theorem AllChecked.step {e : ThreadAct (ManagerPc κ ν) (ManagerChoice ν) Unit}
    (hc : Outlined Inv Asserts c) (h : AllChecked τ c)
    (hs : (program κ ν).machine.step c e = some d) : AllChecked (τ ++ [(c, e)]) d := by
  cases e with
  | call t p =>
    obtain ⟨-, hentry, rfl⟩ := step_call.mp hs
    refine ⟨fun x T hT => (h.tenant x T hT).mono, fun u pc b hu hb => ?_⟩
    rcases of_update hu with ⟨rfl, rfl⟩ | ⟨-, hu⟩
    · unfold Passed at hb
      split at hb
      · cases hentry
      · cases hentry
      · exact hb.elim
    · exact (h.passed u pc b hu hb).mono
  | world w =>
    obtain ⟨s, hworld, rfl⟩ := step_world.mp hs
    cases hworld
    exact ⟨fun x T hT => (h.tenant x T hT).mono, fun u pc b hu hb => (h.passed u pc b hu hb).mono⟩
  | move t x =>
    obtain ⟨p, s, p', ht, hmove, rfl⟩ := step_move.mp hs
    have horigin := move_origin hmove
    refine ⟨fun y T' hT' => ?_, fun u pc b hu hb => ?_⟩
    · rcases horigin.tenant y T' hT' with ⟨T, hT, hbinding⟩ | ⟨rfl, hpassed⟩
      · exact hbinding ▸ (h.tenant y T hT).mono
      · exact (h.passed y p _ ht hpassed).mono
    · rcases of_update hu with ⟨rfl, rfl⟩ | ⟨-, hu⟩
      · rcases horigin.passed b hb with hold | ⟨id, name, B, rfl, hB, hclosing⟩
        · exact (h.passed u p b ht hold).mono
        · obtain ⟨-, m, ⟨C, hC, hheld, -⟩, -⟩ := hc.asserts ht
          obtain rfl := Option.some.inj (hB.symm.trans hC)
          exact ⟨c, x, id, name, B, by simp, ht, hB, hheld, hclosing⟩
      · exact (h.passed u pc b hu hb).mono

theorem allChecked (h : (program κ ν).machine.Trace (init (new amenities)) τ c) :
    AllChecked τ c := by
  refine h.always ⟨?_, ?_⟩ fun hτ => AllChecked.step (outlined_of_trace hτ)
  · intro x T hT
    cases hT
  · intro t pc b ht
    cases ht

theorem closing_of_trace (hc : Outlined Inv Asserts c) (hclosing : c.shared.Closing b)
    (h : (program κ ν).machine.Trace c τ d) : d.shared.Closing b := by
  refine outline.stable (Q := fun d => d.shared.Closing b) h hc hclosing
    fun {d₁ e d₂} hd hclosing hs => ?_
  refine hd.step_shared (R := fun _ s => s.Closing b) hs hclosing ?_ ?_
  · exact fun hA hmove => hclosing.other (move_own hd.1 hA hmove).1
  · rintro _ _ ⟨⟩
    exact hclosing

theorem Inv.admitted (hI : Inv s) {x : TenantId} (hT : s.tenants x = some T) (hopen : T.closes = 0)
    (hB : s.bindings T.binding = some B) : s.beds.lookup B.bed = some T.binding := by
  by_contra hout
  have := (hI.retired _ B hB hout).2 x T hT rfl
  omega

theorem Inv.unique (hI : Inv s) {x y : TenantId} {T U : Tenant ν} {B C : Binding κ ν}
    (hT : s.tenants x = some T) (hU : s.tenants y = some U) (hTopen : T.closes = 0)
    (hUopen : U.closes = 0) (hB : s.bindings T.binding = some B)
    (hC : s.bindings U.binding = some C) (hbed : B.bed = C.bed) (hname : T.name = U.name) :
    x = y := by
  have hsame : T.binding = U.binding := by
    have hTbeds := hI.admitted hT hTopen hB
    rw [hbed, hI.admitted hU hUopen hC, some.injEq] at hTbeds
    exact hTbeds.symm
  rcases hI.live hB hT rfl hTopen with hx | ⟨hx, hxnone, -⟩ <;>
    rcases hI.live hB hU hsame.symm hUopen with hy | ⟨hy, hynone, -⟩
  · rw [hname, hy, some.injEq] at hx
    exact hx.symm
  · rw [hname, hynone] at hx
    cases hx
  · rw [hname, hy] at hxnone
    cases hxnone
  · rw [hx, some.injEq] at hy
    exact hy

theorem Inv.stays_bound (hI : Inv s) {x : TenantId} (hT : s.tenants x = some T)
    (hfailed : T.failed = true) (hopen : T.closes = 0) : ∃ B, s.bindings T.binding = some B ∧
      B.tenants.lookup T.name = some x ∧ s.beds.lookup B.bed = some T.binding := by
  obtain ⟨-, B, hB, hlive⟩ := hI.tenant x T hT
  refine ⟨B, hB, (hlive hopen).resolve_right fun hhand => ?_, hI.admitted hT hopen hB⟩
  rw [hfailed] at hhand
  cases hhand.2.2

/-- Over every run: a Bed has at most one tenant of a facility that is not closed; every tenant was
created by a call that found its binding not closing, under the semaphore; a tenant is closed at
most once, and stays bound when its `Close` fails; when `ReleaseBed` has returned `nil`, every
tenant of its binding is closed. -/
theorem tenants_of_runs (h : (program κ ν).machine.Trace (init (new amenities)) τ c) :
    (∀ x y T U B C, c.shared.tenants x = some T → c.shared.tenants y = some U → T.closes = 0 →
      U.closes = 0 →
      c.shared.bindings T.binding = some B → c.shared.bindings U.binding = some C → B.bed = C.bed →
      T.name = U.name → x = y) ∧
    ((∀ x T, c.shared.tenants x = some T → Checked τ x T.binding) ∧
      ∀ b τ' d, c.shared.Closing b → (program κ ν).machine.Trace c τ' d → d.shared.Closing b) ∧
    (∀ x T, c.shared.tenants x = some T → T.closes ≤ 1 ∧ (T.failed = true → T.closes = 0 →
      ∃ B, c.shared.bindings T.binding = some B ∧ B.tenants.lookup T.name = some x ∧
        c.shared.beds.lookup B.bed = some T.binding)) ∧
    ∀ t id b, c.threads t = some (.release id (.done (some b) none)) →
      ∀ x T, c.shared.tenants x = some T → T.binding = b → T.closes = 1 := by
  have hc := outlined_of_trace h
  have hI : Inv c.shared := hc.1
  refine ⟨fun x y T U B C hT hU hTopen hUopen hB hC => hI.unique hT hU hTopen hUopen hB hC,
    ⟨(allChecked h).tenant, fun b τ' d hb hrun => closing_of_trace hc hb hrun⟩,
    fun x T hT => ⟨(hI.tenant x T hT).1, hI.stays_bound hT⟩, fun t id b ht x T hT hbinding => ?_⟩
  have hA := hc.asserts ht
  obtain ⟨B, hB, hout⟩ := hA.2 rfl b rfl
  exact (hI.retired b B hB hout).2 x T hT hbinding

/-- One Bed and one facility. -/
def retriedRelease : List (ThreadAct (ManagerPc Unit Unit) (ManagerChoice Unit) Unit) :=
  [.call 0 (.admission () .start), .move 0 .go, .call 1 (.acquire () () .start), .move 1 .go,
    .move 1 .go, .move 1 .go, .move 1 .go, .move 1 .go, .move 1 .go, .move 1 .go,
    -- the tenant's first `Close` fails and the release is tried again
    .call 2 (.release () .start), .move 2 .go, .move 2 .go, .move 2 .go, .move 2 .go,
    .move 2 (.close () false), .move 2 .go, .move 2 .go, .call 3 (.release () .start), .move 3 .go,
    .move 3 .go, .move 3 .go, .move 3 .go, .move 3 (.close () true), .move 3 .go, .move 3 .go,
    .move 3 .go, .move 3 .go]

def released (c : Config (Manager Unit Unit) (ManagerPc Unit Unit)) (t : ThreadId)
    (b : BindingId) : Bool :=
  match c.threads t with
  | some (.release () (.done (some b') none)) => b' = b
  | _ => false

theorem threads_of_released {c : Config (Manager Unit Unit) (ManagerPc Unit Unit)}
    (h : released c t b = true) : c.threads t = some (.release () (.done (some b) none)) := by
  unfold released at h
  split at h
  · next b' ht => rw [ht, of_decide_eq_true h]
  · cases h

theorem tenants_of_runs_retried : ∃ τ c T,
    (program Unit Unit).machine.Trace (init (new [⟨(), true⟩])) τ c ∧
    c.shared.tenants 1 = some T ∧ T.failed = true ∧
    c.threads 3 = some (.release () (.done (some 0) none)) ∧ T.closes = 1 := by
  obtain ⟨c, h, hreleased, htenant⟩ :=
    (program Unit Unit).machine.trace_of_any (init (new [⟨(), true⟩]))
    retriedRelease (fun c => released c 3 0 ∧ c.shared.tenants 1 = some ⟨0, (), 1, true⟩)
      (by decide +kernel)
  have hthread := threads_of_released hreleased
  obtain ⟨-, -, -, hclosed⟩ := tenants_of_runs h
  exact ⟨_, c, _, h, htenant, rfl, hthread, hclosed 3 () 0 hthread 1 _ htenant rfl⟩

/-- `ReleaseBed` marks the binding while an `Acquire` that passed its check is about to call the
facility. -/
theorem created_while_closing : ∃ τ c d,
    (program Unit Unit).machine.Trace (init (new [⟨(), true⟩])) τ c ∧
    c.shared.Closing 0 ∧ c.shared.tenants 1 = none ∧
    (program Unit Unit).machine.step c (.move 1 .go) = some d ∧
    d.shared.tenants 1 = some { binding := 0, name := () } := by
  obtain ⟨c, h, hclosing, hnone, d, hstep, hd⟩ :=
    (program Unit Unit).machine.trace_of_any (init (new [⟨(), true⟩]))
    [.call 0 (.admission () .start), .move 0 .go, .call 1 (.acquire () () .start),
      .move 1 .go, .move 1 .go, .move 1 .go, .move 1 .go, .call 2 (.release () .start),
      .move 2 .go, .move 2 .go]
    (fun c => (∃ B, c.shared.bindings 0 = some B ∧ B.closing = true) ∧ c.shared.tenants 1 = none ∧
      ∃ d, (program Unit Unit).machine.step c (.move 1 .go) = some d ∧
        d.shared.tenants 1 = some { binding := 0, name := () }) (by decide +kernel)
  exact ⟨_, c, d, h, hclosing, hnone, hstep, hd⟩

end Manager

end Hostel.Amenity
