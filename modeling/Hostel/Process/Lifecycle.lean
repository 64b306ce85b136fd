/-
# Hostel.Process.Lifecycle — the replaceable process realm of one Bed.

`For`, `Current`, `Stop` and `Release` of the executor manager work on one realm: a slot for the
current executor, under a semaphore that `For` and `Stop` keep while they call the executor and the
factory.  What an executor does on its own is an event of the world, and so is the goroutine that
observes its exit, whose body runs under the semaphore.

A `For` call creates at most one executor, so an executor is named by the call that created it.  It
is in the slot from the move that creates it until a later call has shut it down: whatever is not
shut down is in the slot (`Inv.last`), and there is only one slot.
-/
import Hostel.Logic.Threads
import Hostel.Logic.FiniteMap

namespace Hostel.Process

open Hostel.Logic Function Option Program

/-! ## The realm -/

/-- An executor, named by the `For` call that created it. -/
abbrev ExecutorId := ThreadId

inductive ExecutorState
  | starting | ready | draining | stopped | lost
  deriving DecidableEq, Repr

/-- What is known of an executor: its state, how it exited, whether a `Shutdown` of it has returned
`nil`, and whether its bind failed. -/
structure Executor where
  state : ExecutorState
  exit : Option ExecutorState := none
  shutdown : Bool := false
  bindFailed : Bool := false
  deriving DecidableEq, Repr

/-- How an executor is held: as the factory made it, as `bind` returned it, or inside the wrapper
`unpreparedExecutor`. -/
inductive Form
  | raw | bound | unprepared
  deriving DecidableEq, Repr

structure Held where
  id : ExecutorId
  form : Form
  deriving DecidableEq, Repr

/-- `bed.ExecutorStatus`, with no id when no executor runs. -/
structure ExecutorStatus where
  id : Option ExecutorId
  state : ExecutorState
  deriving DecidableEq, Repr

/-- `realm`, with the executors it has had and the status that was published last.  `watchers` are
the goroutines that wait for an exit, each with the value it compares the slot to. -/
structure Realm where
  bind : Bool
  present : Bool := true
  mu : Option ThreadId := none
  executor : Option Held := none
  stopped : Bool := false
  observers : List ExecutorId := []
  watchers : ExecutorId → Option Held := fun _ => none
  executors : ExecutorId → Option Executor := fun _ => none
  status : Option ExecutorStatus := none

inductive RealmError
  | notPrepared | stopped | canceled | cleanup | create | bind | shutdown
  deriving DecidableEq, Repr

inductive ForPc
  | slot
  | lock
  | check
  | shutdown
  | create
  | bind
  | cleanup
  | publish
  | failed (err : RealmError)
  | returned (executor : Held)
  deriving DecidableEq

inductive CurrentPc
  | slot
  | lock
  | returned (executor : Option Held)
  deriving DecidableEq

inductive StopPc
  | slot
  | lock
  | shutdown
  | finish
  | failed (err : RealmError)
  | returned
  deriving DecidableEq

inductive ReleasePc
  | slot
  | lock
  | await (observers : List ExecutorId)
  | failed (err : RealmError)
  | returned
  deriving DecidableEq

inductive RealmPc
  | forBed (pc : ForPc)
  | current (pc : CurrentPc)
  | stop (pc : StopPc)
  | release (pc : ReleasePc)
  deriving DecidableEq

/-- Whether the call a move makes succeeds, or the context is done. -/
inductive Outcome
  | go | fail
  deriving DecidableEq, Repr

inductive RealmEvent
  | state (e : ExecutorId) (st : ExecutorState)
  | exit (e : ExecutorId) (st : ExecutorState)
  /-- Somebody who was given the executor shuts it down. -/
  | shutdown (e : ExecutorId)
  /-- The goroutine that waits for the exit of `e`. -/
  | observe (e : ExecutorId)
  deriving DecidableEq

namespace Realm

/-! ## Writes -/

def setExecutor (r : Realm) (e : ExecutorId) (x : Executor) : Realm :=
  { r with executors := update r.executors e (some x) }

def unlock (r : Realm) : Realm := { r with mu := none }

/-- `State()` of what the slot holds. -/
def heldState (r : Realm) (h : Held) : Option ExecutorState :=
  match h.form with
  | .unprepared => some .lost
  | _ => (r.executors h.id).map (·.state)

/-! ## The calls -/

def forStep (t : ThreadId) (r : Realm) (pc : ForPc) (x : Outcome) : Option (Realm × ForPc) :=
  match pc, x with
  | .slot, .go => some (r, if r.present then .lock else .failed .notPrepared)
  | .lock, .go => if r.mu = none then some ({ r with mu := some t }, .check) else none
  | .lock, .fail => some (r, .failed .canceled)
  | .check, .go =>
    if r.stopped then some (r.unlock, .failed .stopped)
    else match r.executor with
      | none => some (r, .create)
      | some h =>
        if r.heldState h = some .ready then some (r.unlock, .returned h) else some (r, .shutdown)
  | .shutdown, .go =>
    match r.executor with
    | none => none
    | some h =>
      match r.executors h.id with
      | none => none
      | some e => some (r.setExecutor h.id { e with shutdown := true }, .create)
  | .shutdown, .fail => some (r.unlock, .failed .cleanup)
  | .create, .go =>
    some ({ r.setExecutor t { state := .starting } with executor := some ⟨t, .raw⟩ }, .bind)
  | .create, .fail => some (r.unlock, .failed .create)
  | .bind, .go =>
    if r.bind then some ({ r with executor := some ⟨t, .bound⟩ }, .publish) else some (r, .publish)
  | .bind, .fail =>
    if r.bind then
      match r.executors t with
      | none => none
      | some e =>
        some ({ r.setExecutor t { e with bindFailed := true } with
          executor := some ⟨t, .unprepared⟩ }, .cleanup)
    else none
  | .cleanup, .go =>
    match r.executors t with
    | none => none
    | some e => some ((r.setExecutor t { e with shutdown := true }).unlock, .failed .bind)
  | .cleanup, .fail => some (r.unlock, .failed .bind)
  | .publish, .go =>
    match r.executor, r.executors t with
    | some h, some e =>
      some ({ r with
        status := some ⟨some t, e.state⟩
        observers := r.observers.filter (fun o => (r.watchers o).isSome) ++ [t]
        watchers := update r.watchers t (some h)
        mu := none }, .returned h)
    | _, _ => none
  | _, _ => none

def currentStep (r : Realm) (pc : CurrentPc) (x : Outcome) : Option (Realm × CurrentPc) :=
  match pc, x with
  | .slot, .go => some (r, if r.present then .lock else .returned none)
  | .lock, .go => if r.mu = none then some (r, .returned r.executor) else none
  | _, _ => none

def stopStep (t : ThreadId) (r : Realm) (pc : StopPc) (x : Outcome) : Option (Realm × StopPc) :=
  match pc, x with
  | .slot, .go => some (r, if r.present then .lock else .returned)
  | .lock, .go =>
    if r.mu = none then
      some ({ r with mu := some t, stopped := true },
        match r.executor with | some _ => .shutdown | none => .finish)
    else none
  | .lock, .fail => some (r, .failed .canceled)
  | .shutdown, .go =>
    match r.executor with
    | none => none
    | some h =>
      match r.executors h.id with
      | none => none
      | some e =>
        some ({ r.setExecutor h.id { e with shutdown := true } with executor := none }, .finish)
  | .shutdown, .fail => some (r.unlock, .failed .shutdown)
  | .finish, .go => some ({ r with status := some ⟨none, .stopped⟩, mu := none }, .returned)
  | _, _ => none

def releaseStep (r : Realm) (pc : ReleasePc) (x : Outcome) : Option (Realm × ReleasePc) :=
  match pc, x with
  | .slot, .go => some (r, if r.present then .lock else .returned)
  | .lock, .go => if r.mu = none then some (r, .await r.observers) else none
  | .lock, .fail => some (r, .failed .canceled)
  | .await (o :: os), .go => if (r.watchers o).isNone then some (r, .await os) else none
  | .await (_ :: _), .fail => some (r, .failed .canceled)
  | .await [], .go => some ({ r with present := false }, .returned)
  | _, _ => none

def world (r : Realm) : RealmEvent → Option Realm
  | .state e st => (r.executors e).map fun x => r.setExecutor e { x with state := st }
  | .exit e st =>
    match r.executors e with
    | some x =>
      if x.exit = none then some (r.setExecutor e { x with state := st, exit := some st }) else none
    | none => none
  | .shutdown e => (r.executors e).map fun x => r.setExecutor e { x with shutdown := true }
  | .observe e =>
    match r.watchers e, r.executors e with
    | some h, some x =>
      match x.exit with
      | some st =>
        if r.mu = none then
          some { r with
            watchers := update r.watchers e none
            status := if r.executor = some h then some ⟨some e, st⟩ else r.status }
        else none
      | none => none
    | _, _ => none

def program : Program Realm RealmPc Outcome RealmEvent where
  entry
    | .forBed .slot | .current .slot | .stop .slot | .release .slot => true
    | _ => false
  move t r pc x :=
    match pc with
    | .forBed pc => (forStep t r pc x).map fun p => (p.1, .forBed p.2)
    | .current pc => (currentStep r pc x).map fun p => (p.1, .current p.2)
    | .stop pc => (stopStep t r pc x).map fun p => (p.1, .stop p.2)
    | .release pc => (releaseStep r pc x).map fun p => (p.1, .release p.2)
  world := world

def new (bind : Bool) : Realm := { bind }

/-! ## The outline -/

variable {r r' : Realm} {t u : ThreadId} {e : ExecutorId}

def Quiet (r : Realm) : Prop := ∀ e x, r.executors e = some x → x.shutdown = true

structure Inv (r : Realm) : Prop where
  held : ∀ h, r.executor = some h → ∃ x, r.executors h.id = some x
  /-- What has not been shut down is in the slot. -/
  last : ∀ e x, r.executors e = some x → x.shutdown = false → ∃ h, r.executor = some h ∧ h.id = e
  /-- What could not be bound is only held inside the wrapper. -/
  spoiled : ∀ e x h, r.executors e = some x → x.bindFailed = true → r.executor = some h → h.id = e →
    h.form = .unprepared
  /-- The published status is that of the slot, unless its creator has yet to publish it. -/
  shown : ∀ h, r.executor = some h → h.form ≠ .unprepared →
    (∃ st, r.status = some ⟨some h.id, st⟩) ∨ r.mu = some h.id
  watched : ∀ e h, r.watchers e = some h → h.id = e ∧ h.form ≠ .unprepared

/-- The call has made nothing and does not have the lock. -/
structure Outside (r : Realm) (t : ThreadId) : Prop where
  executor : r.executors t = none
  mu : r.mu ≠ some t

/-- The executor exists and its bind has not failed. -/
def Unspoiled (r : Realm) (e : ExecutorId) : Prop :=
  ∃ x, r.executors e = some x ∧ x.bindFailed = false

/-- The same, and the call that created it has released the lock. -/
structure Sound (r : Realm) (e : ExecutorId) : Prop where
  unspoiled : Unspoiled r e
  mu : r.mu ≠ some e

/-- The call has the lock and has made nothing. -/
structure Inside (r : Realm) (t : ThreadId) : Prop where
  executor : r.executors t = none
  mu : r.mu = some t

def Serving (t : ThreadId) (r : Realm) : ForPc → Prop
  | .slot | .lock => Outside r t
  | .check => Inside r t
  | .shutdown => Inside r t ∧ r.stopped = false ∧ ∃ h, r.executor = some h
  | .create => Inside r t ∧ r.stopped = false ∧ Quiet r
  | .bind => r.mu = some t ∧ r.executor = some ⟨t, .raw⟩ ∧ Unspoiled r t
  | .cleanup => r.mu = some t ∧ r.executor = some ⟨t, .unprepared⟩
  | .publish => r.mu = some t ∧ Unspoiled r t ∧
      ∃ form, r.executor = some ⟨t, form⟩ ∧ form ≠ .unprepared
  | .failed _ => r.mu ≠ some t
  | .returned h => r.mu ≠ some t ∧ h.form ≠ .unprepared ∧ Sound r h.id

def Stopping (t : ThreadId) (r : Realm) : StopPc → Prop
  | .shutdown => Inside r t ∧ r.stopped = true ∧ ∃ h, r.executor = some h
  | .finish => Inside r t ∧ r.stopped = true ∧ r.executor = none
  | _ => Outside r t

def Asserts (t : ThreadId) (r : Realm) : Option RealmPc → Prop
  | none => Outside r t
  | some (.forBed pc) => Serving t r pc
  | some (.current pc) => Outside r t ∧
      match pc with
      | .returned (some h) => h.form = .unprepared ∨ Sound r h.id
      | _ => True
  | some (.stop pc) => Stopping t r pc
  | some (.release _) => Outside r t

/-- Everything a move of `t` can do to the realm, in the terms the assertions of the others use. -/
structure Guarantee (t : ThreadId) (r r' : Realm) : Prop where
  /-- While another call has the lock, only the registration of the realm changes. -/
  busy : ∀ u, u ≠ t → r.mu = some u → r' = { r with present := r'.present }
  mu : ∀ u, u ≠ t → r'.mu = some u → r.mu = some u
  stopped : r.stopped = true → r'.stopped = true
  kept : ∀ e x, r.executors e = some x → ∃ x', r'.executors e = some x' ∧
    (e ≠ t → x'.bindFailed = x.bindFailed)
  fresh : ∀ e, e ≠ t → r.executors e = none → r'.executors e = none
  /-- A call that has created its executor and released the lock has ended. -/
  spent : ∀ x, r.executors t = some x → r.mu ≠ some t → r' = r

theorem Guarantee.refl (t : ThreadId) (r : Realm) : Guarantee t r r :=
  ⟨fun _ _ _ => rfl, fun _ _ => id, id, fun _ x h => ⟨x, h, fun _ => rfl⟩, fun _ _ => id,
    fun _ _ _ => rfl⟩

section

variable (hst : r.stopped = true → r'.stopped = true)
include hst

theorem Guarantee.inside (hmu : r.mu = some t) (hmu' : r'.mu = r.mu ∨ r'.mu = none)
    (hkept : ∀ e x, r.executors e = some x → ∃ x', r'.executors e = some x' ∧
      (e ≠ t → x'.bindFailed = x.bindFailed))
    (hfresh : ∀ e, e ≠ t → r.executors e = none → r'.executors e = none) : Guarantee t r r' where
  busy _ := held_alone hmu
  mu u hu h := hmu'.elim (fun hm => hm ▸ h) fun hm => by
    rw [hm] at h
    cases h
  stopped := hst
  kept := hkept
  fresh := hfresh
  spent _ _ h := absurd hmu h

theorem Guarantee.inside_quiet (hmu : r.mu = some t) (hmu' : r'.mu = r.mu ∨ r'.mu = none)
    (hex : r'.executors = r.executors) : Guarantee t r r' :=
  .inside hst hmu hmu' (fun _ x h => ⟨x, hex ▸ h, fun _ => rfl⟩) fun _ _ h => hex ▸ h

/-- A move with the lock that writes an executor, a new one only under the name of the call. -/
theorem Guarantee.inside_write {x : Executor} (hmu : r.mu = some t)
    (hmu' : r'.mu = r.mu ∨ r'.mu = none) (hex : r'.executors = update r.executors e (some x))
    (hx : e = t ∨ ∃ y, r.executors e = some y ∧ x.bindFailed = y.bindFailed) :
    Guarantee t r r' := by
  refine .inside hst hmu hmu' (fun e' y hy => ?_) fun e' he' hn => ?_
  · rw [hex]
    refine exists_update hy ?_ fun _ _ => rfl
    rintro rfl hne
    obtain ⟨z, hz, hb⟩ := hx.resolve_left hne
    cases hy.symm.trans hz
    exact hb
  · rw [hex]
    rcases hx with rfl | ⟨z, hz, -⟩
    · exact (update_of_ne he' ..).trans hn
    · exact update_eq_none hz hn

theorem Guarantee.acquire (hmu : r.mu = none) (hnew : r.executors t = none) (hmu' : r'.mu = some t)
    (hex : r'.executors = r.executors) : Guarantee t r r' where
  busy u _ h := by
    rw [hmu] at h
    cases h
  mu _ := held_alone hmu'
  stopped := hst
  kept e x h := ⟨x, hex ▸ h, fun _ => rfl⟩
  fresh e _ h := hex ▸ h
  spent x h _ := by
    rw [hnew] at h
    cases h

end

/-! ### No interference -/

/-- A change that leaves alone what the assertions of the call `u` are about: whether it has the
lock, and what is under the lock if it has. -/
structure Stable (u : ThreadId) (r r' : Realm) : Prop where
  mu : r'.mu = some u → r.mu = some u
  fresh : r.executors u = none → r'.executors u = none
  sound : ∀ e, Sound r e → Sound r' e
  held : r.mu = some u → r'.mu = some u ∧ r'.executor = r.executor ∧ r'.stopped = r.stopped ∧
    (Quiet r → Quiet r') ∧ (Unspoiled r u → Unspoiled r' u)

section

variable (S : Stable u r r')
include S

theorem Outside.stable (h : Outside r u) : Outside r' u :=
  ⟨S.fresh h.executor, fun hm => h.mu (S.mu hm)⟩

theorem Inside.stable (h : Inside r u) : Inside r' u := ⟨S.fresh h.executor, (S.held h.mu).1⟩

theorem Serving.stable {pc : ForPc} (h : Serving u r pc) : Serving u r' pc := by
  cases pc with
  | slot | lock => exact Outside.stable S h
  | check => exact Inside.stable S h
  | shutdown | create =>
    obtain ⟨-, hslot, hstopped, hquiet, -⟩ := S.held h.1.mu
    exact ⟨h.1.stable S, hstopped ▸ h.2.1, by first | exact hquiet h.2.2 | exact hslot ▸ h.2.2⟩
  | bind | cleanup | publish =>
    obtain ⟨hmu, hslot, -, -, hun⟩ := S.held h.1
    simp only [Serving, hmu, hslot] at h ⊢
    grind
  | failed _ => exact fun hm => h (S.mu hm)
  | returned _ => exact ⟨fun hm => h.1 (S.mu hm), h.2.1, S.sound _ h.2.2⟩

theorem Stopping.stable {pc : StopPc} (h : Stopping u r pc) : Stopping u r' pc := by
  cases pc with
  | shutdown | finish =>
    obtain ⟨-, hslot, hstopped, -, -⟩ := S.held h.1.mu
    exact ⟨h.1.stable S, hstopped ▸ h.2.1, hslot ▸ h.2.2⟩
  | slot | lock | failed _ | returned => exact Outside.stable S h

theorem Asserts.stable {q : Option RealmPc} (h : Asserts u r q) : Asserts u r' q := by
  match q with
  | none => exact Outside.stable S h
  | some (.forBed _) => exact Serving.stable S h
  | some (.current (.returned (some _))) => exact ⟨h.1.stable S, h.2.imp_right (S.sound _)⟩
  | some (.current (.returned none)) | some (.current .slot) | some (.current .lock) =>
    exact ⟨h.1.stable S, trivial⟩
  | some (.stop _) => exact Stopping.stable S h
  | some (.release _) => exact Outside.stable S h

end

theorem Guarantee.stable (G : Guarantee t r r') (hu : u ≠ t) : Stable u r r' where
  mu := G.mu u hu
  fresh := G.fresh u hu
  sound e h := by
    obtain ⟨x, hx, hb⟩ := h.unspoiled
    by_cases he : e = t
    · subst he
      rw [G.spent x hx h.mu]
      exact h
    · obtain ⟨x', hx', hsame⟩ := G.kept e x hx
      exact ⟨⟨x', hx', (hsame he).trans hb⟩, fun hm => h.mu (G.mu e he hm)⟩
  held hmu := by
    rw [G.busy u hu hmu]
    exact ⟨hmu, rfl, rfl, id, id⟩

/-! ### The invariant under the writes -/

theorem Inv.rewrite (hI : Inv r) {x y : Executor} (hx : r.executors e = some x)
    (hb : y.bindFailed = x.bindFailed) (hs : x.shutdown = true → y.shutdown = true) :
    Inv (r.setExecutor e y) where
  held h hh := by
    obtain ⟨z, hz⟩ := hI.held h hh
    exact (exists_update (P := fun _ => True) hz (fun _ => trivial) fun _ => trivial).imp
      fun _ h => h.1
  last e' z hz hnot := by
    obtain ⟨rfl, rfl⟩ | ⟨-, hz⟩ := update_eq_some.mp hz
    · exact hI.last e' x hx (false_of_kept hs hnot)
    · exact hI.last e' z hz hnot
  spoiled e' z h hz hbad hh hid := by
    obtain ⟨rfl, rfl⟩ | ⟨-, hz⟩ := update_eq_some.mp hz
    · exact hI.spoiled e' x h hx (hb ▸ hbad) hh hid
    · exact hI.spoiled e' z h hz hbad hh hid
  shown := hI.shown
  watched := hI.watched

/-- Releasing the lock, with the slot's status published if the slot is the call's own. -/
theorem Inv.release (hI : Inv r) (hmu : r.mu = some t)
    (hown : ∀ h, r.executor = some h → h.id = t → h.form = .unprepared) : Inv r.unlock where
  held := hI.held
  last := hI.last
  spoiled := hI.spoiled
  shown h hh hf := by
    refine .inl ((hI.shown h hh hf).resolve_right fun hm => ?_)
    rw [hmu] at hm
    exact hf (hown h hh (some.inj hm).symm)
  watched := hI.watched

theorem Inv.slot_of_live (hI : Inv r) {h : Held} {z : Executor} (hh : r.executor = some h)
    (hz : r.executors e = some z) (hs : z.shutdown = false) : h.id = e := by
  obtain ⟨h₂, hh₂, hid⟩ := hI.last e z hz hs
  cases hh.symm.trans hh₂
  exact hid

/-- The free lock is taken: whoever had to publish the slot's status has done so. -/
theorem Inv.lock (hI : Inv r) (hmu : r.mu = none) (stopped : Bool) :
    Inv { r with mu := some t, stopped := stopped } where
  held := hI.held
  last := hI.last
  spoiled := hI.spoiled
  shown h hh hf := by
    refine .inl ((hI.shown h hh hf).resolve_right fun hm => ?_)
    rw [hmu] at hm
    cases hm
  watched := hI.watched

theorem Inv.unspoiled (hI : Inv r) {h : Held} (hh : r.executor = some h)
    (hf : h.form ≠ .unprepared) : Unspoiled r h.id := by
  obtain ⟨x, hx⟩ := hI.held h hh
  exact ⟨x, hx, Bool.of_not_eq_true fun hb => hf (hI.spoiled h.id x h hx hb hh rfl)⟩

theorem Inside.foreign (h : Inside r t) (hI : Inv r) :
    ∀ hd, r.executor = some hd → hd.id = t → hd.form = .unprepared := by
  intro hd hh hid
  obtain ⟨x, hx⟩ := hI.held hd hh
  rw [hid, h.executor] at hx
  cases hx

theorem Inside.unlock (h : Inside r t) (hI : Inv r) : Inv r.unlock ∧ Guarantee t r r.unlock :=
  ⟨hI.release h.mu (h.foreign hI), .inside_quiet id h.mu (.inr rfl) rfl⟩

/-! ### The mover -/

theorem unlock_mu : r.unlock.mu ≠ some t := by
  simp [Realm.unlock]

variable {x : Outcome}

theorem forStep_own {pc pc' : ForPc} (hI : Inv r) (hA : Serving t r pc)
    (h : forStep t r pc x = some (r', pc')) : Inv r' ∧ Guarantee t r r' ∧ Serving t r' pc' := by
  revert h
  fun_cases forStep t r pc x <;> intro h <;> try cases h
  case case1.refl =>
    refine ⟨hI, .refl t r, ?_⟩
    split
    · exact hA
    · exact hA.mu
  case case2.refl hmu =>
    exact ⟨hI.lock hmu r.stopped, .acquire id hmu hA.executor rfl rfl, hA.executor, rfl⟩
  case case4.refl => exact ⟨hI, .refl t r, hA.mu⟩
  case case5.refl =>
    obtain ⟨hI', G⟩ := Inside.unlock hA hI
    exact ⟨hI', G, unlock_mu⟩
  case case6.refl hopen hnone =>
    refine ⟨hI, .refl t r, hA, by simpa using hopen, fun e x hx => ?_⟩
    -- the slot is empty, so nothing is left to shut down
    refine Bool.of_not_eq_false fun hs => ?_
    obtain ⟨h, hh, -⟩ := hI.last e x hx hs
    rw [hnone] at hh
    cases hh
  case case7.refl hopen h hh hready =>
    obtain ⟨hI', G⟩ := Inside.unlock hA hI
    have hform : h.form ≠ .unprepared := by
      intro hf
      simp [heldState, hf] at hready
    exact ⟨hI', G, unlock_mu, hform, hI.unspoiled hh hform, unlock_mu⟩
  case case8.refl hopen h hh _ => exact ⟨hI, .refl t r, hA, by simpa using hopen, h, hh⟩
  case case11.refl h hh y hy =>
    obtain ⟨hin, hopen, -⟩ := hA
    have hne : h.id ≠ t := by
      intro hid
      rw [hid, hin.executor] at hy
      cases hy
    refine ⟨hI.rewrite hy rfl fun _ => rfl,
      .inside_write id hin.mu (.inl rfl) rfl (.inr ⟨y, hy, rfl⟩), ⟨?_, hin.mu⟩, hopen,
      fun e z hz => ?_⟩
    · simpa [setExecutor, Ne.symm hne] using hin.executor
    · -- whatever is not shut down was in the slot, and that has just been
      obtain ⟨-, rfl⟩ | ⟨he, hz⟩ := update_eq_some.mp hz
      · rfl
      · refine Bool.of_not_eq_false fun hs => ?_
        exact he (hI.slot_of_live hh hz hs).symm
  case case12.refl | case14.refl =>
    obtain ⟨hI', G⟩ := hA.1.unlock hI
    exact ⟨hI', G, unlock_mu⟩
  case case13.refl =>
    obtain ⟨hin, hopen, hquiet⟩ := hA
    refine ⟨⟨fun h hh => ?_, fun e z hz hs => ?_, fun e z h hz hb hh hid => ?_, fun h hh _ => ?_,
      hI.watched⟩, .inside_write id hin.mu (.inl rfl) rfl (.inl rfl), hin.mu, rfl, _,
      update_self .., rfl⟩
    · cases hh
      exact ⟨_, update_self ..⟩
    · obtain ⟨he, -⟩ | ⟨-, hz⟩ := update_eq_some.mp hz
      · exact ⟨_, rfl, he.symm⟩
      · rw [hquiet e z hz] at hs
        cases hs
    · cases hh
      subst hid
      cases hz.symm.trans (update_self ..)
      cases hb
    · cases hh
      exact .inr hin.mu
  case case15.refl =>
    obtain ⟨hmu, hslot, hun⟩ := hA
    refine ⟨⟨fun h hh => ?_, fun e z hz hs => ?_, fun e z h hz hb hh hid => ?_, fun h hh _ => ?_,
      hI.watched⟩, .inside_quiet id hmu (.inl rfl) rfl, hmu, hun, _, rfl, by simp⟩
    · cases hh
      obtain ⟨x, hx, -⟩ := hun
      exact ⟨x, hx⟩
    · have hid := hI.slot_of_live hslot hz hs
      exact ⟨_, rfl, hid⟩
    · cases hh
      have := hI.spoiled e z _ hz hb hslot hid
      cases this
    · cases hh
      exact .inr hmu
  case case16.refl => exact ⟨hI, .refl t r, hA.1, hA.2.2, _, hA.2.1, by simp⟩
  case case18.refl _ y hy =>
    obtain ⟨hmu, hslot, -⟩ := hA
    refine ⟨⟨fun h hh => ?_, fun e z hz hs => ?_, fun e z h hz hb hh hid => ?_, fun h hh hf => ?_,
      hI.watched⟩, .inside_write id hmu (.inl rfl) rfl (.inl rfl), hmu, rfl⟩
    · cases hh
      exact ⟨_, update_self ..⟩
    · obtain ⟨he, -⟩ | ⟨he, hz⟩ := update_eq_some.mp hz
      · exact ⟨_, rfl, he.symm⟩
      · exact absurd (hI.slot_of_live hslot hz hs).symm he
    · cases hh
      rfl
    · cases hh
      exact absurd rfl hf
  case case21.refl y hy =>
    obtain ⟨hmu, hslot⟩ := hA
    have hshut : Inv (r.setExecutor t { y with shutdown := true }) := hI.rewrite hy rfl fun _ => rfl
    refine ⟨hshut.release hmu (fun h hh _ => ?_),
      .inside_write id hmu (.inr rfl) rfl (.inl rfl), unlock_mu⟩
    cases hslot.symm.trans hh
    rfl
  case case22.refl =>
    obtain ⟨hmu, hslot⟩ := hA
    refine ⟨hI.release hmu fun h hh _ => ?_, .inside_quiet id hmu (.inr rfl) rfl, unlock_mu⟩
    cases hslot.symm.trans hh
    rfl
  case case23.refl h y hy hh =>
    obtain ⟨hmu, ⟨z, hz, hb⟩, form, hslot, hform⟩ := hA
    cases hslot.symm.trans hh
    refine ⟨⟨hI.held, hI.last, hI.spoiled, fun h hh _ => ?_, fun e h hw => ?_⟩,
      .inside_quiet id hmu (.inr rfl) rfl, by simp, hform, ⟨z, hz, hb⟩, by simp⟩
    · cases hslot.symm.trans hh
      exact .inl ⟨_, rfl⟩
    · obtain ⟨he, rfl⟩ | ⟨-, hw⟩ := update_eq_some.mp hw
      · exact ⟨he.symm, hform⟩
      · exact hI.watched e h hw

theorem stopStep_own {pc pc' : StopPc} (hI : Inv r) (hA : Stopping t r pc)
    (h : stopStep t r pc x = some (r', pc')) : Inv r' ∧ Guarantee t r r' ∧ Stopping t r' pc' := by
  revert h
  fun_cases stopStep t r pc x <;> intro h <;> try cases h
  case case1.refl =>
    refine ⟨hI, .refl t r, ?_⟩
    split <;> exact hA
  case case2.refl hmu =>
    refine ⟨hI.lock hmu true, .acquire (fun _ => rfl) hmu hA.executor rfl rfl, ?_⟩
    split
    · next h hh => exact ⟨⟨hA.executor, rfl⟩, rfl, h, hh⟩
    · next hn => exact ⟨⟨hA.executor, rfl⟩, rfl, hn⟩
  case case4.refl => exact ⟨hI, .refl t r, hA⟩
  case case7.refl h hh y hy =>
    obtain ⟨hin, hst, -⟩ := hA
    have hne : h.id ≠ t := by
      intro hid
      rw [hid, hin.executor] at hy
      cases hy
    refine ⟨⟨fun h hn => ?_, fun e z hz hs => ?_, fun e z h _ _ hn => ?_, fun h hn => ?_,
      hI.watched⟩, .inside_write id hin.mu (.inl rfl) rfl (.inr ⟨y, hy, rfl⟩),
      ⟨?_, hin.mu⟩, hst, rfl⟩
    · cases hn
    · -- the executor in the slot was the only one not shut down
      obtain ⟨-, rfl⟩ | ⟨he, hz⟩ := update_eq_some.mp hz
      · cases hs
      · exact absurd (hI.slot_of_live hh hz hs).symm he
    · cases hn
    · cases hn
    · simpa [setExecutor, Ne.symm hne] using hin.executor
  case case8.refl =>
    obtain ⟨hI', G⟩ := hA.1.unlock hI
    exact ⟨hI', G, hA.1.executor, unlock_mu⟩
  case case9.refl =>
    obtain ⟨hin, -, hslot⟩ := hA
    refine ⟨⟨hI.held, hI.last, hI.spoiled, fun h hh => ?_, hI.watched⟩,
      .inside_quiet id hin.mu (.inr rfl) rfl, hin.executor, by simp⟩
    exact absurd (hslot.symm.trans hh) (by simp)

theorem releaseStep_own {pc pc' : ReleasePc} (hI : Inv r) (hA : Outside r t)
    (h : releaseStep r pc x = some (r', pc')) : Inv r' ∧ Guarantee t r r' ∧ Outside r' t := by
  revert h
  fun_cases releaseStep r pc x <;> intro h <;> try cases h
  case case8.refl =>
    refine ⟨⟨hI.held, hI.last, hI.spoiled, hI.shown, hI.watched⟩,
      ⟨fun _ _ _ => rfl, fun _ _ => id, id, fun _ x h => ⟨x, h, fun _ => rfl⟩, fun _ _ => id,
        fun x hx => ?_⟩, hA.executor, hA.mu⟩
    rw [hA.executor] at hx
    cases hx
  all_goals exact ⟨hI, .refl t r, hA⟩

theorem move_own {pc pc' : RealmPc} (hI : Inv r) (hA : Asserts t r (some pc))
    (h : program.move t r pc x = some (r', pc')) :
    Inv r' ∧ Guarantee t r r' ∧ Asserts t r' (some pc') := by
  cases pc with
  | forBed pc =>
    obtain ⟨_, hs, rfl⟩ := inner_move h
    exact forStep_own hI hA hs
  | current pc =>
    obtain ⟨_, hs, rfl⟩ := inner_move h
    revert hs
    fun_cases currentStep r pc x <;> intro hs <;> try cases hs
    · refine ⟨hI, .refl t r, hA.1, ?_⟩
      cases r.present <;> trivial
    · next hmu =>
      refine ⟨hI, .refl t r, hA.1, ?_⟩
      cases hh : r.executor with
      | none => trivial
      | some h =>
        by_cases hf : h.form = .unprepared
        · exact .inl hf
        · exact .inr ⟨hI.unspoiled hh hf, by rw [hmu]; simp⟩
  | stop pc =>
    obtain ⟨_, hs, rfl⟩ := inner_move h
    exact stopStep_own hI hA hs
  | release pc =>
    obtain ⟨_, hs, rfl⟩ := inner_move h
    exact releaseStep_own hI hA hs

/-! ### The world -/

/-- What the world leaves alone: the lock, the slot, and which executors there are and were
bound. -/
structure Idle (r r' : Realm) : Prop where
  mu : r'.mu = r.mu
  executor : r'.executor = r.executor
  stopped : r'.stopped = r.stopped
  fresh : ∀ e, r.executors e = none → r'.executors e = none
  kept : ∀ e x, r.executors e = some x → ∃ x', r'.executors e = some x' ∧
    x'.bindFailed = x.bindFailed ∧ (x.shutdown = true → x'.shutdown = true)

theorem setExecutor_none {d : ExecutorId} {x y : Executor} (hx : r.executors d = some x)
    (hn : r.executors e = none) : (r.setExecutor d y).executors e = none :=
  update_eq_none hx hn

theorem Idle.write {x y : Executor} (hx : r.executors e = some x)
    (hb : y.bindFailed = x.bindFailed) (hs : x.shutdown = true → y.shutdown = true) :
    Idle r (r.setExecutor e y) := by
  refine ⟨rfl, rfl, rfl, fun e' hn => setExecutor_none hx hn, fun e' z hz => ?_⟩
  refine exists_update hz ?_ fun _ => ⟨rfl, id⟩
  rintro rfl
  cases hx.symm.trans hz
  exact ⟨hb, hs⟩

theorem Idle.stable (D : Idle r r') (u : ThreadId) : Stable u r r' := by
  have hun (e : ExecutorId) (h : Unspoiled r e) : Unspoiled r' e := by
    obtain ⟨x, hx, hb⟩ := h
    obtain ⟨x', hx', hb', -⟩ := D.kept e x hx
    exact ⟨x', hx', hb'.trans hb⟩
  have hquiet (h : Quiet r) : Quiet r' := by
    intro e x' hx'
    cases hx : r.executors e with
    | none =>
      rw [D.fresh e hx] at hx'
      cases hx'
    | some x =>
      obtain ⟨x₂, hx₂, -, hs⟩ := D.kept e x hx
      cases hx'.symm.trans hx₂
      exact hs (h e x hx)
  exact ⟨fun h => D.mu ▸ h, D.fresh u, fun e h => ⟨hun e h.unspoiled, D.mu ▸ h.mu⟩,
    fun h => ⟨D.mu.trans h, D.executor, D.stopped, hquiet, hun u⟩⟩

theorem world_own {ev : RealmEvent} (hI : Inv r) (h : r.world ev = some r') :
    Inv r' ∧ Idle r r' := by
  cases ev with
  | state e st =>
    obtain ⟨x, hx, rfl⟩ := map_eq_some_iff.mp h
    exact ⟨hI.rewrite hx rfl id, .write hx rfl id⟩
  | exit e st =>
    simp only [world] at h
    split at h
    · next x hx =>
      split_ifs at h
      cases h
      exact ⟨hI.rewrite hx rfl id, .write hx rfl id⟩
    · cases h
  | shutdown e =>
    obtain ⟨x, hx, rfl⟩ := map_eq_some_iff.mp h
    exact ⟨hI.rewrite hx rfl fun _ => rfl, .write hx rfl fun _ => rfl⟩
  | observe e =>
    simp only [world] at h
    split at h
    · next hd x hw hx =>
      split at h
      · next st hexit =>
        rw [ite_none_right_eq_some] at h
        obtain ⟨hmu, h⟩ := h
        cases h
        refine ⟨⟨hI.held, hI.last, hI.spoiled, fun h hh hf => ?_, fun e' h hw' => ?_⟩,
          rfl, rfl, rfl, fun _ => id, fun _ x h => ⟨x, h, rfl, id⟩⟩
        · dsimp only at hh ⊢
          split_ifs with hcur
          · -- the watcher only writes the status of the executor it watches
            cases hcur.symm.trans hh
            exact .inl ⟨st, by rw [(hI.watched e hd hw).1]⟩
          · exact hI.shown h hh hf
        · by_cases he : e' = e
          · subst he
            simp at hw'
          · exact hI.watched e' h (by simpa [he] using hw')
      · cases h
    · cases h

theorem outline : program.Outline Inv Asserts where
  call {r t pc} _ hf hentry := by
    match pc, hentry with
    | .forBed .slot, _ => exact hf
    | .current .slot, _ => exact ⟨hf, trivial⟩
    | .stop .slot, _ | .release .slot, _ => exact hf
  own hI hA hm := ⟨(move_own hI hA hm).1, (move_own hI hA hm).2.2⟩
  other hI hA hm hu hB := hB.stable ((move_own hI hA hm).2.1.stable hu)
  world hI hw := ⟨(world_own hI hw).1, fun t _ hA => hA.stable ((world_own hI hw).2.stable t)⟩

/-! ## Every run -/

variable {bind : Bool} {c c' d : Config Realm RealmPc}
  {τ : List (Config Realm RealmPc × ThreadAct RealmPc Outcome RealmEvent)}
  {act : ThreadAct RealmPc Outcome RealmEvent}

theorem outlined_of_trace (h : program.machine.Trace (init (new bind)) τ d) :
    Outlined Inv Asserts d := by
  refine outline.proof_outline ⟨?_, ?_, ?_, ?_, ?_⟩ (fun t => ⟨rfl, by simp [new]⟩) h
  all_goals simp [new]

theorem forStep_creates {pc pc' : ForPc} (h : forStep t r pc x = some (r', pc'))
    (hn : r.executors e = none) (hs : r'.executors e ≠ none) : pc = .create := by
  revert h
  fun_cases forStep t r pc x <;> intro h <;> try cases h
  case case13.refl => rfl
  case case11.refl hd _ y hy => exact absurd (setExecutor_none hy hn) hs
  case case18.refl _ y hy => exact absurd (setExecutor_none hy hn) hs
  case case21.refl y hy => exact absurd (setExecutor_none hy hn) hs
  all_goals exact absurd hn hs

theorem stopStep_creates {pc pc' : StopPc} (h : stopStep t r pc x = some (r', pc'))
    (hn : r.executors e = none) : r'.executors e = none := by
  revert h
  fun_cases stopStep t r pc x <;> intro h <;> try cases h
  case case7.refl hd _ y hy => exact setExecutor_none hy hn
  all_goals exact hn

theorem releaseStep_executors {pc pc' : ReleasePc}
    (h : releaseStep r pc x = some (r', pc')) : r'.executors = r.executors := by
  revert h
  fun_cases releaseStep r pc x <;> intro h <;> try cases h
  all_goals rfl

theorem currentStep_executors {pc pc' : CurrentPc}
    (h : currentStep r pc x = some (r', pc')) : r'.executors = r.executors := by
  revert h
  fun_cases currentStep r pc x <;> intro h <;> try cases h
  all_goals rfl

theorem step_creates (hc : Outlined Inv Asserts c) (h : program.machine.step c act = some c')
    (hn : c.shared.executors e = none) (hs : c'.shared.executors e ≠ none) :
    Quiet c.shared ∧ c.shared.stopped = false := by
  cases act with
  | call t pc =>
    obtain ⟨-, -, rfl⟩ := step_call.mp h
    exact absurd hn hs
  | world ev =>
    obtain ⟨r', hw, rfl⟩ := step_world.mp h
    exact absurd ((world_own hc.1 hw).2.fresh e hn) hs
  | move t x =>
    obtain ⟨pc, r', pc', ht, hm, rfl⟩ := step_move.mp h
    have hA := hc.asserts ht
    cases pc with
    | forBed pc =>
      obtain ⟨_, hstep, rfl⟩ := inner_move hm
      cases forStep_creates hstep hn hs
      exact ⟨hA.2.2, hA.2.1⟩
    | current pc =>
      obtain ⟨_, hstep, rfl⟩ := inner_move hm
      exact absurd (by rw [currentStep_executors hstep, hn]) hs
    | stop pc =>
      obtain ⟨_, hstep, rfl⟩ := inner_move hm
      exact absurd (stopStep_creates hstep hn) hs
    | release pc =>
      obtain ⟨_, hstep, rfl⟩ := inner_move hm
      exact absurd (by rw [releaseStep_executors hstep, hn]) hs

theorem step_stopped (hc : Outlined Inv Asserts c) (h : program.machine.step c act = some c')
    (hs : c.shared.stopped = true) : c'.shared.stopped = true :=
  hc.step_shared (R := fun _ r' => r'.stopped = true) h hs
    (fun hA hm => (move_own hc.1 hA hm).2.1.stopped hs)
    fun hw => (world_own hc.1 hw).2.stopped.trans hs

theorem none_after_stop (hc : Outlined Inv Asserts c) (hs : c.shared.stopped = true)
    (hn : c.shared.executors e = none) (h : program.machine.Trace c τ d) :
    d.shared.executors e = none := by
  refine (outline.stable (Q := fun d => d.shared.stopped = true ∧ d.shared.executors e = none) h hc
    ⟨hs, hn⟩ ?_).2
  rintro c₁ act c₂ hout ⟨hst, hnone⟩ hstep
  refine ⟨step_stopped hout hstep hst, ?_⟩
  by_contra hne
  have := (step_creates hout hstep hnone hne).2
  rw [hst] at this
  cases this

theorem stop_begins (h : program.machine.step c (.move t .go) = some c')
    (ht : c.threads t = some (.stop .lock)) :
    c'.shared.stopped = true ∧ c'.shared.executors = c.shared.executors := by
  obtain ⟨pc, r', pc', ht', hm, rfl⟩ := step_move.mp h
  cases ht.symm.trans ht'
  obtain ⟨_, hstep, rfl⟩ := inner_move hm
  simp only [stopStep, ite_none_right_eq_some, some.injEq, Prod.mk.injEq] at hstep
  obtain ⟨-, rfl, -⟩ := hstep
  exact ⟨rfl, rfl⟩

theorem observe_status (hI : Inv r) (h : r.world (.observe e) = some r') {o : ExecutorId}
    {st : ExecutorState} (hs : r.status = some ⟨some o, st⟩) (ho : o ≠ e) :
    r'.status = r.status := by
  simp only [world] at h
  split at h
  · next hd x hw hx =>
    split at h
    · rw [ite_none_right_eq_some] at h
      obtain ⟨hmu, h⟩ := h
      cases h
      dsimp only
      split_ifs with hcur
      · -- the slot is what the observer watches, and its status is published
        obtain ⟨hid, hform⟩ := hI.watched e hd hw
        obtain ⟨st', hst'⟩ := (hI.shown hd hcur hform).resolve_right (by rw [hmu]; simp)
        rw [hs, hid] at hst'
        cases hst'
        exact absurd rfl ho
      · rfl
    · cases h
  · cases h

/-- **One executor at a time.** An executor is created only when every earlier one has been shut
down, so at most one has not; none is created once `Stop` has taken the lock; `For` never returns an
executor whose bind failed, and `Current` returns one only inside the wrapper that reports it lost;
and the observer of an exit leaves the published status of every other executor alone. -/
theorem realm_serial (h : program.machine.Trace (init (new bind)) τ d) :
    (∀ c act c' e, (c, act) ∈ τ → program.machine.step c act = some c' →
      c.shared.executors e = none → c'.shared.executors e ≠ none →
      ∀ o x, c.shared.executors o = some x → x.shutdown = true) ∧
    (∀ e₁ e₂ x₁ x₂, d.shared.executors e₁ = some x₁ → d.shared.executors e₂ = some x₂ →
      x₁.shutdown = false → x₂.shutdown = false → e₁ = e₂) ∧
    (∀ τ₁ c t τ₂, τ = τ₁ ++ (c, .move t .go) :: τ₂ → c.threads t = some (.stop .lock) →
      ∀ e, c.shared.executors e = none → d.shared.executors e = none) ∧
    (∀ t hd, d.threads t = some (.forBed (.returned hd)) →
      hd.form ≠ .unprepared ∧ ∃ x, d.shared.executors hd.id = some x ∧ x.bindFailed = false) ∧
    (∀ t hd, d.threads t = some (.current (.returned (some hd))) →
      (hd.form = .unprepared ∧ d.shared.heldState hd = some .lost) ∨
        ∃ x, d.shared.executors hd.id = some x ∧ x.bindFailed = false) ∧
    (∀ c e c' o st, (c, .world (.observe e)) ∈ τ →
      program.machine.step c (.world (.observe e)) = some c' →
      c.shared.status = some ⟨some o, st⟩ → o ≠ e → c'.shared.status = c.shared.status) := by
  have hout : Outlined Inv Asserts d := outlined_of_trace h
  have hat : ∀ c act, (c, act) ∈ τ → Outlined Inv Asserts c := by
    intro c act hmem
    obtain ⟨τ₁, τ₂, rfl⟩ := List.append_of_mem hmem
    obtain ⟨_, hpre, -, -⟩ := h.split_cons
    exact outlined_of_trace hpre
  refine ⟨?_, ?_, ?_, ?_, ?_, ?_⟩
  · intro c act c' e hmem hstep hn hs
    exact (step_creates (hat c act hmem) hstep hn hs).1
  · intro e₁ e₂ x₁ x₂ h₁ h₂ hs₁ hs₂
    obtain ⟨hd₁, hh₁, rfl⟩ := hout.1.last e₁ x₁ h₁ hs₁
    exact hout.1.slot_of_live hh₁ h₂ hs₂
  · rintro τ₁ c t τ₂ rfl ht e hn
    obtain ⟨c', hpre, hstep, hrest⟩ := h.split_cons
    obtain ⟨hst, hsame⟩ := stop_begins hstep ht
    exact none_after_stop (outline.step (outlined_of_trace hpre) hstep) hst
      (by rw [hsame, hn]) hrest
  · intro t hd ht
    have hA := hout.asserts ht
    exact ⟨hA.2.1, hA.2.2.unspoiled⟩
  · intro t hd ht
    have hA := hout.asserts ht
    rcases hA.2 with hf | hsound
    · exact .inl ⟨hf, by simp [heldState, hf]⟩
    · exact .inr hsound.unspoiled
  · intro c e c' o st hmem hstep hs ho
    obtain ⟨r', hw, rfl⟩ := step_world.mp hstep
    exact observe_status (hat c _ hmem).1 hw hs ho

/-- An executor is lost and replaced, and its exit is observed afterwards. -/
def lateExit : List (ThreadAct RealmPc Outcome RealmEvent) :=
  [.call 0 (.forBed .slot), .move 0 .go, .move 0 .go, .move 0 .go, .move 0 .go,
    .move 0 .go, .move 0 .go, .world (.state 0 .lost),
    .call 1 (.forBed .slot), .move 1 .go, .move 1 .go, .move 1 .go, .move 1 .go,
    .move 1 .go, .move 1 .go, .move 1 .go, .world (.exit 0 .lost), .world (.observe 0)]

theorem realm_serial_late_exit :
    ∃ τ d, program.machine.Trace (init (new true)) τ d ∧
      d.threads 1 = some (.forBed (.returned ⟨1, .bound⟩)) ∧
      d.shared.status = some ⟨some 1, .starting⟩ ∧
      ∀ e x, d.shared.executors e = some x → x.shutdown = false → e = 1 := by
  obtain ⟨d, h, h₁, h₂, h₃⟩ := program.machine.trace_of_any (init (new true)) lateExit
    (fun d => d.threads 1 = some (.forBed (.returned ⟨1, .bound⟩)) ∧
      d.shared.status = some ⟨some 1, .starting⟩ ∧
      d.shared.executors 1 = some { state := .starting }) (by decide +kernel)
  obtain ⟨-, hone, -⟩ := realm_serial h
  exact ⟨_, d, h, h₁, h₂, fun e x hx hs => hone e 1 x _ hx h₃ hs rfl⟩

/-- After a bind and the cleanup that follows it have failed, `Current` returns the executor, in the
wrapper; and an executor is created while a `Stop` that has been called waits for the lock. -/
theorem spoiled_returned :
    (∃ τ d x, program.machine.Trace (init (new true)) τ d ∧
      d.threads 1 = some (.current (.returned (some ⟨0, .unprepared⟩))) ∧
      d.shared.executors 0 = some x ∧ x.bindFailed = true) ∧
    (∃ τ₁ c t τ₂ d, program.machine.Trace (init (new true)) (τ₁ ++ (c, .move t .go) :: τ₂) d ∧
      c.threads 1 = some (.stop .lock) ∧ c.shared.executors t = none ∧
      d.shared.executors t ≠ none) := by
  constructor
  · obtain ⟨d, h, h₁, h₂⟩ := program.machine.trace_of_any (init (new true))
      [.call 0 (.forBed .slot), .move 0 .go, .move 0 .go, .move 0 .go, .move 0 .go, .move 0 .fail,
        .move 0 .fail, .call 1 (.current .slot), .move 1 .go, .move 1 .go]
      (fun d => d.threads 1 = some (.current (.returned (some ⟨0, .unprepared⟩))) ∧
        d.shared.executors 0 = some { state := .starting, bindFailed := true }) (by decide +kernel)
    exact ⟨_, d, _, h, h₁, h₂, rfl⟩
  · obtain ⟨c, τ₂, d, h, -, h₁, h₂, h₃⟩ := program.machine.trace_through (init (new true))
      [.call 0 (.forBed .slot), .move 0 .go, .move 0 .go, .move 0 .go,
      .call 1 (.stop .slot), .move 1 .go]
      (.move 0 .go) []
      (fun c _ d => c.threads 1 = some (.stop .lock) ∧ c.shared.executors 0 = none ∧
        d.shared.executors 0 = some { state := .starting }) (by decide +kernel)
    exact ⟨_, c, 0, τ₂, d, h, h₁, h₂, by rw [h₃]; simp⟩

end Realm

end Hostel.Process
