/-
# Hostel.Network.Pool — the pool of named network allocations.

`Pool.Acquire` creates an endpoint outside the pool's lock, with later callers of the key waiting
for it, and the pool may close meanwhile; `attachment.Close` takes the attachment's own lock and
inside it the pool's; `Pool.Close` waits for the creations it found and then closes the attachments
it finds.  Every critical section of the pool's lock is one move, and so is every call of the
backend or of an endpoint.

An `Acquire` call registers at most one acquisition, creates at most one endpoint and wraps it in at
most one attachment, so all three are named by the call.

The proof outline: while a creation for a key is registered, the key has no allocation and no live
endpoint (`Creator`), and an attachment that is being closed stays the allocation of its key until
its closer removes it (`Closer`).
-/
import Hostel.Logic.Threads
import Hostel.Logic.FiniteMap

namespace Hostel.Network

open Hostel.Logic Function Option FiniteMap Program List

/-! ## The pool -/

/-- An `Acquire` call, and what it made. -/
abbrev CallId := ThreadId

inductive PoolError
  | unavailable | closed | create | release | backend | canceled
  deriving DecidableEq, Repr

/-- A joined error; the empty list is `nil`. -/
abbrev Errors := List PoolError

structure Acquisition where
  done : Bool := false
  lease : Option CallId := none
  err : Errors := []
  deriving DecidableEq, Repr

/-- An endpoint that `Create` returned: whether its `Close` was called, and whether one returned
`nil`. -/
structure Endpoint (κ : Type) where
  key : κ
  closeCalled : Bool := false
  live : Bool := true
  deriving DecidableEq, Repr

/-- `attachment`; `mu` is the call that holds its lock. -/
structure Attachment (κ : Type) where
  key : κ
  active : Bool := true
  mu : Option ThreadId := none
  deriving DecidableEq, Repr

structure Pool (κ : Type) where
  /-- `report.Available`, the verdict of the startup probe. -/
  available : Bool
  closed : Bool := false
  allocations : FiniteMap κ CallId := ∅
  pending : FiniteMap κ CallId := ∅
  acquisitions : CallId → Option Acquisition := fun _ => none
  endpoints : CallId → Option (Endpoint κ) := fun _ => none
  attachments : CallId → Option (Attachment κ) := fun _ => none
  allocationMu : Option ThreadId := none
  closeMu : Option ThreadId := none

inductive ClosePc
  | lock
  | inspect
  | call
  | remove
  | done (err : Errors)
  deriving DecidableEq

inductive AcquirePc
  | start
  | enter
  | check (old : CallId)
  | judge (old : CallId) (active : Bool)
  | retire (old : CallId) (pc : ClosePc)
  | await (creator : CallId)
  | create
  | creating
  | publish (created : Bool)
  | discard
  | discarding
  | settle
  | done (lease : Option CallId) (err : Errors)
  deriving DecidableEq

inductive ShutdownPc
  | lock
  | begin
  | await (waiting : List CallId)
  | list
  | closing (todo : List CallId) (err : Errors)
  | release (a : CallId) (todo : List CallId) (err : Errors) (pc : ClosePc)
  | backend (err : Errors)
  | done (err : Errors)
  deriving DecidableEq

inductive PoolPc (κ : Type)
  | acquire (key : κ) (pc : AcquirePc)
  | close (a : CallId) (pc : ClosePc)
  | shutdown (pc : ShutdownPc)
  deriving DecidableEq

/-- The call has registered as a creator and has not ended its registration. -/
def AcquirePc.creates : AcquirePc → Bool
  | .create | .creating | .publish _ | .discard | .discarding | .settle => true
  | _ => false

/-- The call has an endpoint in hand that it has neither installed nor begun to close. -/
def AcquirePc.inHand : AcquirePc → Bool
  | .publish true | .discard => true
  | _ => false

/-- The attachment a call is closing. -/
def PoolPc.closes {κ : Type} : PoolPc κ → Option CallId
  | .close a _ | .acquire _ (.retire a _) | .shutdown (.release a _ _ _) => some a
  | _ => none

/-- What the outside world decides in a move: a call fails (or the context is done), or which entry
a loop over a map takes next. -/
inductive PoolChoice
  | go
  | fail
  | pick (a : CallId)
  deriving DecidableEq

namespace Pool

variable {κ : Type}

/-! ## Writes -/

def setAttachment (s : Pool κ) (a : CallId) (x : Attachment κ) : Pool κ :=
  { s with attachments := update s.attachments a (some x) }

def setEndpoint (s : Pool κ) (e : CallId) (x : Endpoint κ) : Pool κ :=
  { s with endpoints := update s.endpoints e (some x) }

def setAcquisition (s : Pool κ) (p : CallId) (x : Acquisition) : Pool κ :=
  { s with acquisitions := update s.acquisitions p (some x) }

variable [DecidableEq κ]

/-- `current()`, without its check that the pool is open. -/
def holds (s : Pool κ) (k : κ) (a : CallId) : Bool := s.allocations.lookup k = some a

theorem holds_iff {s : Pool κ} {k : κ} {a : CallId} :
    s.holds k a = true ↔ s.allocations.lookup k = some a :=
  decide_eq_true_iff

/-! ## The calls -/

/-- `attachment.Close` of `a`. -/
def closeStep (t : ThreadId) (s : Pool κ) (a : CallId) (pc : ClosePc) (x : PoolChoice) :
    Option (Pool κ × ClosePc) :=
  match s.attachments a, s.endpoints a with
  | some att, some ep =>
    match pc, x with
    | .lock, .go =>
      if att.mu = none then some (s.setAttachment a { att with mu := some t }, .inspect) else none
    | .inspect, .go =>
      if s.holds att.key a then
        some ((s.setAttachment a { att with active := false }).setEndpoint a
          { ep with closeCalled := true }, .call)
      else some (s.setAttachment a { att with active := false, mu := none }, .done [])
    | .call, .go => some (s.setEndpoint a { ep with live := false }, .remove)
    | .call, .fail => some (s.setAttachment a { att with mu := none }, .done [.release])
    | .remove, .go =>
      some ({ s.setAttachment a { att with mu := none } with
        allocations :=
          if s.holds att.key a then s.allocations.erase att.key else s.allocations }, .done [])
    | _, _ => none
  | _, _ => none

/-- `Acquire` of the key `k`; `t` names the acquisition, endpoint and attachment it makes. -/
def acquireStep (t : ThreadId) (s : Pool κ) (k : κ) (pc : AcquirePc) (x : PoolChoice) :
    Option (Pool κ × AcquirePc) :=
  match pc, x with
  | .start, .go => some (s, if s.available then .enter else .done none [.unavailable])
  | .enter, .go =>
    if s.closed then some (s, .done none [.closed])
    else match s.allocations.lookup k with
      | some old => some (s, .check old)
      | none =>
        match s.pending.lookup k with
        | some p => some (s, .await p)
        | none => some ({ s.setAcquisition t {} with pending := s.pending.insert k t }, .create)
  | .check old, .go =>
    match s.attachments old with
    | some att => if att.mu = none then some (s, .judge old att.active) else none
    | none => none
  | .judge old active, .go =>
    if active && !s.closed && s.holds k old then some (s, .done (some old) [])
    else some (s, .retire old .lock)
  | .retire _ (.done err), .go =>
    if err = [] then some (s, .enter) else some (s, .done none err)
  | .retire old cpc, x =>
    match closeStep t s old cpc x with
    | some (s', cpc') => some (s', .retire old cpc')
    | none => none
  | .await p, .go =>
    match s.acquisitions p with
    | some q => if q.done then some (s, .done q.lease q.err) else none
    | none => none
  | .await _, .fail => some (s, .done none [.canceled])
  | .create, .go =>
    if s.allocationMu = none then some ({ s with allocationMu := some t }, .creating) else none
  | .creating, .go =>
    some ({ s.setEndpoint t { key := k } with allocationMu := none }, .publish true)
  | .creating, .fail => some ({ s with allocationMu := none }, .publish false)
  | .publish created, .go =>
    match s.acquisitions t with
    | none => none
    | some q =>
      if created then
        if s.closed then some (s.setAcquisition t { q with err := [.closed] }, .discard)
        else
          some ({ (s.setAttachment t { key := k }).setAcquisition t { q with lease := some t } with
            allocations := s.allocations.insert k t }, .settle)
      else some (s.setAcquisition t { q with err := [.create] }, .settle)
  | .discard, .go =>
    match s.endpoints t with
    | some ep => some (s.setEndpoint t { ep with closeCalled := true }, .discarding)
    | none => none
  | .discarding, .go =>
    match s.endpoints t with
    | some ep => some (s.setEndpoint t { ep with live := false }, .settle)
    | none => none
  | .discarding, .fail =>
    match s.acquisitions t with
    | some q => some (s.setAcquisition t { q with err := q.err ++ [.release] }, .settle)
    | none => none
  | .settle, .go =>
    match s.acquisitions t with
    | some q =>
      some ({ s.setAcquisition t { q with done := true } with
        pending := if s.pending.lookup k = some t then s.pending.erase k else s.pending },
        .done q.lease q.err)
    | none => none
  | _, _ => none

def shutdownStep (t : ThreadId) (s : Pool κ) (pc : ShutdownPc) (x : PoolChoice) :
    Option (Pool κ × ShutdownPc) :=
  match pc, x with
  | .lock, .go => if s.closeMu = none then some ({ s with closeMu := some t }, .begin) else none
  | .begin, .go => some ({ s with closed := true }, .await s.pending.values)
  | .await waiting, .pick p =>
    -- the entries of the map in whatever order it is ranged over
    if p ∈ waiting ∧ (s.acquisitions p).any (·.done) then some (s, .await (waiting.erase p))
    else none
  | .await waiting, .fail =>
    if waiting = [] then none else some ({ s with closeMu := none }, .done [.canceled])
  | .await waiting, .go => if waiting = [] then some (s, .list) else none
  | .list, .go => some (s, .closing s.allocations.values [])
  | .closing todo err, .pick a =>
    if a ∈ todo then some (s, .release a (todo.erase a) err .lock) else none
  | .closing todo err, .go => if todo = [] then some (s, .backend err) else none
  | .release _ todo err (.done err'), .go => some (s, .closing todo (err ++ err'))
  | .release a todo err cpc, x =>
    match closeStep t s a cpc x with
    | some (s', cpc') => some (s', .release a todo err cpc')
    | none => none
  | .backend err, .go =>
    if s.allocationMu = none then some ({ s with closeMu := none }, .done err) else none
  | .backend err, .fail =>
    if s.allocationMu = none then some ({ s with closeMu := none }, .done (err ++ [.backend]))
    else none
  | _, _ => none

def program (κ : Type) [DecidableEq κ] : Program (Pool κ) (PoolPc κ) PoolChoice Empty where
  entry
    | .acquire _ .start | .close _ .lock | .shutdown .lock => true
    | _ => false
  move t s pc x :=
    match pc with
    | .acquire k pc => (acquireStep t s k pc x).map fun r => (r.1, .acquire k r.2)
    | .close a pc => (closeStep t s a pc x).map fun r => (r.1, .close a r.2)
    | .shutdown pc => (shutdownStep t s pc x).map fun r => (r.1, .shutdown r.2)
  world _ e := nomatch e

def new (available : Bool) : Pool κ := { available }

/-! ## What a move can do -/

/-- No live endpoint of the key is anybody's but `t`'s. -/
def Alone (s : Pool κ) (t : CallId) (k : κ) : Prop :=
  ∀ e ep, e ≠ t → s.endpoints e = some ep → ep.key = k → ep.live = false

/-- Every live endpoint of the key is its allocation. -/
def Covered (s : Pool κ) (k : κ) : Prop :=
  ∀ e ep, s.endpoints e = some ep → ep.key = k → ep.live = true → s.allocations.lookup k = some e

/-- Everything a move of `t` can do to the pool, in the terms the assertions use. -/
structure Guarantee (t : ThreadId) (s s' : Pool κ) : Prop where
  closed : s.closed = true → s'.closed = true
  /-- A new allocation is the endpoint of a creator. -/
  allocated : ∀ k e, s'.allocations.lookup k = some e → s.allocations.lookup k = some e ∨
    e = t ∧ s.pending.lookup k = some t ∧ s.attachments t = none ∧
      ∃ att, s'.attachments t = some att ∧ att.key = k
  /-- An allocation is removed by the holder of the attachment's lock, after its `Close`. -/
  released : ∀ k e, s.allocations.lookup k = some e → s'.allocations.lookup k = some e ∨
    ∃ att ep, s.attachments e = some att ∧ att.mu = some t ∧ s.endpoints e = some ep ∧
      ep.live = false ∧ ep.closeCalled = true
  registered : ∀ k u, s'.pending.lookup k = some u → s.pending.lookup k = some u ∨
    u = t ∧ s.closed = false
  settled : ∀ k u, s.pending.lookup k = some u → s'.pending.lookup k = some u ∨
    u = t ∧ (s.closed = false → s.Covered k)
  waiting : ∀ k, s'.pending.lookup k = some t →
    ∃ q, s'.acquisitions t = some q ∧ q.done = false
  acquired : ∀ q, s.acquisitions t = some q → ∃ q', s'.acquisitions t = some q' ∧
    (q'.done = false → q.done = false ∧
      ∀ k, s.pending.lookup k = some t → s'.pending.lookup k = some t)
  acquisitions : ∀ u, u ≠ t → s'.acquisitions u = s.acquisitions u
  /-- A new endpoint is its creator's, and its key had no live one. -/
  endpoints : ∀ e ep', s'.endpoints e = some ep' →
    (∃ ep, s.endpoints e = some ep ∧ ep'.key = ep.key ∧ (ep'.live = true → ep.live = true)) ∨
    e = t ∧ s.pending.lookup ep'.key = some t ∧ s'.pending.lookup ep'.key = some t ∧
      s.Alone t ep'.key
  kept : ∀ e ep, s.endpoints e = some ep → ∃ ep', s'.endpoints e = some ep' ∧ ep'.key = ep.key ∧
    (ep.closeCalled = true → ep'.closeCalled = true) ∧ (ep.live = false → ep'.live = false)
  attached : ∀ a att', s'.attachments a = some att' →
    (∃ att, s.attachments a = some att ∧ att'.key = att.key) ∨
    a = t ∧ ∃ ep, s.endpoints a = some ep ∧ ep.key = att'.key
  /-- A lock of an attachment is only released by its holder. -/
  attachments : ∀ a att, s.attachments a = some att → ∃ att', s'.attachments a = some att' ∧
    att'.key = att.key ∧ ∀ u, u ≠ t → att.mu = some u → att'.mu = some u

theorem Guarantee.was_open {t : ThreadId} {s s' : Pool κ} (G : Guarantee t s s')
    (h : s'.closed = false) : s.closed = false :=
  false_of_kept G.closed h

theorem Guarantee.registered_other {t u : ThreadId} {s s' : Pool κ} (G : Guarantee t s s')
    (hu : u ≠ t) {k : κ} (h : s'.pending.lookup k = some u) : s.pending.lookup k = some u :=
  (G.registered k u h).resolve_right fun hc => hu hc.1

theorem Guarantee.unlock {t : ThreadId} {s s' : Pool κ} (G : Guarantee t s s')
    (mu : Option ThreadId) : Guarantee t s { s' with allocationMu := mu } :=
  ⟨G.closed, G.allocated, G.released, G.registered, G.settled, G.waiting, G.acquired,
    G.acquisitions, G.endpoints, G.kept, G.attached, G.attachments⟩

/-! ## The outline -/

structure Inv (s : Pool κ) : Prop where
  allocated : ∀ k e, s.allocations.lookup k = some e →
    ∃ att, s.attachments e = some att ∧ att.key = k
  attached : ∀ a att, s.attachments a = some att →
    ∃ ep, s.endpoints a = some ep ∧ ep.key = att.key
  waiting : ∀ k u, s.pending.lookup k = some u → ∃ q, s.acquisitions u = some q ∧ q.done = false
  covered : ∀ k, s.closed = false → s.pending.lookup k = none → s.Covered k
  unique : ∀ e₁ e₂ ep₁ ep₂, s.endpoints e₁ = some ep₁ → s.endpoints e₂ = some ep₂ →
    ep₁.live = true → ep₂.live = true → ep₁.key = ep₂.key → e₁ = e₂

variable {s s' : Pool κ} {t u : ThreadId} {k : κ} {a : CallId}

theorem Covered.step (hcov : s.Covered k) (G : Guarantee t s s')
    (hp : s.pending.lookup k = some t → s'.pending.lookup k ≠ some t) : s'.Covered k := by
  intro e ep' he hk hlive
  rcases G.endpoints e ep' he with ⟨ep, hep, hkey, hl⟩ | ⟨rfl, hpe, hpe', -⟩
  · have hold : s.allocations.lookup k = some e := hcov e ep hep (hkey ▸ hk) (hl hlive)
    rcases G.released k e hold with h | ⟨_, ep₂, -, -, hep₂, hdead, -⟩
    · exact h
    · -- what is removed has been closed, so it is not live
      rw [hep] at hep₂
      cases hep₂
      rw [hl hlive] at hdead
      cases hdead
  · exact absurd (hk ▸ hpe') (hp (hk ▸ hpe))

theorem Inv.step (h : Inv s) (G : Guarantee t s s') : Inv s' where
  allocated k e hk := by
    rcases G.allocated k e hk with hold | ⟨rfl, -, -, att, hatt, hkey⟩
    · obtain ⟨att, hatt, hkey⟩ := h.allocated k e hold
      obtain ⟨att', hatt', hkey', -⟩ := G.attachments e att hatt
      exact ⟨att', hatt', hkey'.trans hkey⟩
    · exact ⟨att, hatt, hkey⟩
  attached a att' ha := by
    have hep : ∃ ep, s.endpoints a = some ep ∧ ep.key = att'.key := by
      rcases G.attached a att' ha with ⟨att, hatt, hkey⟩ | ⟨-, hep⟩
      · obtain ⟨ep, hep, hk⟩ := h.attached a att hatt
        exact ⟨ep, hep, hk.trans hkey.symm⟩
      · exact hep
    obtain ⟨ep, hep, hk⟩ := hep
    obtain ⟨ep', hep', hk', -⟩ := G.kept a ep hep
    exact ⟨ep', hep', hk'.trans hk⟩
  waiting k u hk := by
    by_cases hu : u = t
    · subst hu
      exact G.waiting k hk
    · obtain ⟨q, hq, hd⟩ := h.waiting k u (G.registered_other hu hk)
      exact ⟨q, (G.acquisitions u hu).trans hq, hd⟩
  covered k hopen hnone := by
    have hopen' : s.closed = false := G.was_open hopen
    cases hp : s.pending.lookup k with
    | none => exact (h.covered k hopen' hp).step G fun hpt => absurd (hp.symm.trans hpt) (by simp)
    | some u =>
      -- the registration ended in this move, which is where its creator shows the key covered
      rcases G.settled k u hp with hk | ⟨rfl, hcov⟩
      · rw [hnone] at hk
        cases hk
      · exact (hcov hopen').step G fun _ => by rw [hnone]; simp
  unique e₁ e₂ ep₁ ep₂ h₁ h₂ hl₁ hl₂ hkey := by
    rcases G.endpoints e₁ ep₁ h₁ with ⟨x₁, hx₁, hk₁, hlx₁⟩ | ⟨rfl, -, -, halone₁⟩
    · rcases G.endpoints e₂ ep₂ h₂ with ⟨x₂, hx₂, hk₂, hlx₂⟩ | ⟨rfl, -, -, halone₂⟩
      · exact h.unique e₁ e₂ x₁ x₂ hx₁ hx₂ (hlx₁ hl₁) (hlx₂ hl₂)
          (hk₁.symm.trans (hkey.trans hk₂))
      · by_contra hne
        have := halone₂ e₁ x₁ hne hx₁ (hk₁.symm.trans hkey)
        rw [hlx₁ hl₁] at this
        cases this
    · rcases G.endpoints e₂ ep₂ h₂ with ⟨x₂, hx₂, hk₂, hlx₂⟩ | ⟨rfl, -, -, -⟩
      · by_contra hne
        have := halone₁ e₂ x₂ (Ne.symm hne) hx₂ (hk₂.symm.trans hkey.symm)
        rw [hlx₂ hl₂] at this
        cases this
      · rfl

/-! ### Assertions -/

/-- The call has made nothing. -/
structure Fresh (s : Pool κ) (t : CallId) : Prop where
  acquisition : s.acquisitions t = none
  endpoint : s.endpoints t = none
  unregistered : ∀ k, s.pending.lookup k ≠ some t

/-- The call is the one creation registered for the key. -/
structure Creator (s : Pool κ) (t : CallId) (k : κ) : Prop where
  registered : s.pending.lookup k = some t
  only : ∀ j, s.pending.lookup j = some t → j = k
  acquisition : ∃ q, s.acquisitions t = some q ∧ q.done = false

/-- What the call created is the allocation of its key, or was closed. -/
def Kept (s : Pool κ) (t : CallId) : Prop :=
  ∀ ep, s.endpoints t = some ep → ep.closeCalled = true ∨ s.allocations.lookup ep.key = some t

def Closer (t : ThreadId) (s : Pool κ) (a : CallId) : ClosePc → Prop
  | .lock => True
  | .inspect => ∃ att, s.attachments a = some att ∧ att.mu = some t
  | .call => ∃ att ep, s.attachments a = some att ∧ att.mu = some t ∧
      s.allocations.lookup att.key = some a ∧ s.endpoints a = some ep ∧ ep.closeCalled = true
  | .remove => ∃ att ep, s.attachments a = some att ∧ att.mu = some t ∧
      s.allocations.lookup att.key = some a ∧ s.endpoints a = some ep ∧ ep.closeCalled = true ∧
      ep.live = false
  | .done err => err = [] → ∃ att, s.attachments a = some att ∧
      s.allocations.lookup att.key ≠ some a

def Acquiring (t : ThreadId) (s : Pool κ) (k : κ) : AcquirePc → Prop
  | .start | .enter | .check _ | .judge _ _ => Fresh s t
  | .retire old pc => Fresh s t ∧ Closer t s old pc
  | .await p => Fresh s t ∧
      ∃ q, s.acquisitions p = some q ∧ (q.done = false → s.pending.lookup k = some p)
  | .create | .creating | .publish false =>
    Creator s t k ∧ s.allocations.lookup k = none ∧ s.endpoints t = none ∧ Alone s t k
  | .publish true =>
    Creator s t k ∧ s.allocations.lookup k = none ∧ s.attachments t = none ∧ Alone s t k ∧
      ∃ ep, s.endpoints t = some ep ∧ ep.key = k
  | .discard => Creator s t k ∧ s.closed = true ∧ s.attachments t = none ∧
      ∃ ep, s.endpoints t = some ep ∧ ep.key = k
  | .discarding => Creator s t k ∧ s.closed = true ∧
      ∃ ep, s.endpoints t = some ep ∧ ep.key = k ∧ ep.closeCalled = true
  | .settle => Creator s t k ∧ (s.closed = false → Covered s k) ∧ Kept s t
  | .done _ _ => (∀ j, s.pending.lookup j ≠ some t) ∧ Kept s t

/-- The pool is closed and nothing is being created. -/
structure Drained (s : Pool κ) : Prop where
  closed : s.closed = true
  pending : ∀ k, s.pending.lookup k = none

/-- The assertions of `Pool.Close`: unless an error was met, what is left to close is in the
list. -/
def ShuttingDown (t : ThreadId) (s : Pool κ) : ShutdownPc → Prop
  | .lock | .begin => True
  | .await waiting => s.closed = true ∧ ∀ k u, s.pending.lookup k = some u → u ∈ waiting
  | .list => Drained s
  | .closing todo err => Drained s ∧
      (err = [] → ∀ k e, s.allocations.lookup k = some e → e ∈ todo)
  | .release a todo err pc => Drained s ∧ Closer t s a pc ∧
      (err = [] → ∀ k e, s.allocations.lookup k = some e → e = a ∨ e ∈ todo)
  | .backend err | .done err => err = [] → Drained s ∧ ∀ k, s.allocations.lookup k = none

def Asserts (t : ThreadId) (s : Pool κ) : Option (PoolPc κ) → Prop
  | none => Fresh s t
  | some (.acquire k pc) => Acquiring t s k pc
  | some (.close a pc) => Fresh s t ∧ Closer t s a pc
  | some (.shutdown pc) => Fresh s t ∧ ShuttingDown t s pc

/-! ### No interference -/

theorem Creator.ne (h : Creator s u k) (hu : u ≠ t) : s.pending.lookup k ≠ some t := by
  rw [h.registered]
  intro hc
  exact hu (some.inj hc)

section

variable (G : Guarantee t s s')
include G

theorem endpoint_other (h : ∃ ep, s.endpoints u = some ep ∧ ep.key = k) :
    ∃ ep, s'.endpoints u = some ep ∧ ep.key = k := by
  obtain ⟨ep, hep, hk⟩ := h
  obtain ⟨ep', hep', hk', -⟩ := G.kept u ep hep
  exact ⟨ep', hep', hk'.trans hk⟩

theorem Drained.step (h : Drained s) : Drained s' where
  closed := G.closed h.closed
  pending k := by
    refine eq_none_iff_forall_ne_some.mpr fun u hk => ?_
    rcases G.registered k u hk with hold | ⟨-, hopen⟩
    · rw [h.pending k] at hold
      cases hold
    · rw [h.closed] at hopen
      cases hopen

/-- Once nothing is being created, allocations only go. -/
theorem Drained.allocated (h : Drained s) {e : CallId}
    (he : s'.allocations.lookup k = some e) : s.allocations.lookup k = some e := by
  rcases G.allocated k e he with hold | ⟨-, hp, -⟩
  · exact hold
  · rw [h.pending k] at hp
    cases hp

theorem Drained.unallocated (h : Drained s)
    (hn : ∀ k, s.allocations.lookup k = none) (k : κ) : s'.allocations.lookup k = none := by
  refine eq_none_iff_forall_ne_some.mpr fun e hk => ?_
  have hold := h.allocated G hk
  rw [hn k] at hold
  cases hold

variable (hu : u ≠ t)
include hu

theorem endpoint_none_other (h : s.endpoints u = none) : s'.endpoints u = none := by
  refine eq_none_iff_forall_ne_some.mpr fun ep he => ?_
  rcases G.endpoints u ep he with ⟨ep, hep, -⟩ | ⟨hut, -⟩
  · rw [h] at hep
    cases hep
  · exact hu hut

theorem Fresh.other (h : Fresh s u) : Fresh s' u where
  acquisition := (G.acquisitions u hu).trans h.acquisition
  endpoint := endpoint_none_other G hu h.endpoint
  unregistered j hj := h.unregistered j (G.registered_other hu hj)

theorem Creator.other (h : Creator s u k) : Creator s' u k where
  registered := (G.settled k u h.registered).resolve_right fun hc => hu hc.1
  only j hj := h.only j (G.registered_other hu hj)
  acquisition := by
    obtain ⟨q, hq, hd⟩ := h.acquisition
    exact ⟨q, (G.acquisitions u hu).trans hq, hd⟩

theorem Creator.unallocated_other (h : Creator s u k) (hn : s.allocations.lookup k = none) :
    s'.allocations.lookup k = none := by
  refine eq_none_iff_forall_ne_some.mpr fun e hk => ?_
  rcases G.allocated k e hk with hold | ⟨-, hp, -⟩
  · rw [hn] at hold
    cases hold
  · exact h.ne hu hp

theorem Creator.alone_other (h : Creator s u k) (ha : Alone s u k) : Alone s' u k := by
  intro e ep' he hep hkey
  rcases G.endpoints e ep' hep with ⟨ep, hep₀, hk, hl⟩ | ⟨rfl, hp, -, -⟩
  · exact false_of_kept hl (ha e ep he hep₀ (hk ▸ hkey))
  · exact absurd (hkey ▸ hp) (h.ne hu)

theorem Kept.other (h : Kept s u) : Kept s' u := by
  intro ep' hep'
  rcases G.endpoints u ep' hep' with ⟨ep, hep, hk, -⟩ | ⟨hut, -⟩
  · obtain ⟨ep₂, hep₂, -, hcalled, -⟩ := G.kept u ep hep
    rw [hep'] at hep₂
    cases hep₂
    rcases h ep hep with hc | hal
    · exact .inl (hcalled hc)
    · rcases G.released ep.key u hal with hal' | ⟨_, ep₃, -, -, hep₃, -, hc⟩
      · exact .inr (hk ▸ hal')
      · rw [hep] at hep₃
        cases hep₃
        exact .inl (hcalled hc)
  · exact absurd hut hu

theorem unattached_other (h : s.attachments u = none) : s'.attachments u = none := by
  refine eq_none_iff_forall_ne_some.mpr fun att ha => ?_
  rcases G.attached u att ha with ⟨att, hatt, -⟩ | ⟨hut, -⟩
  · rw [h] at hatt
    cases hatt
  · exact hu hut

theorem Closer.other {pc : ClosePc} (h : Closer u s a pc) : Closer u s' a pc := by
  -- the lock is `u`'s, so the attachment is still the allocation that `u` found
  have hheld : ∀ att, s.attachments a = some att → att.mu = some u →
      s.allocations.lookup att.key = some a → s'.allocations.lookup att.key = some a := by
    intro att hatt hmu hal
    rcases G.released att.key a hal with h' | ⟨att₂, _, hatt₂, hmu₂, -⟩
    · exact h'
    · rw [hatt] at hatt₂
      cases hatt₂
      exact held_alone hmu₂ hu hmu
  cases pc with
  | lock => trivial
  | inspect =>
    obtain ⟨att, hatt, hmu⟩ := h
    obtain ⟨att', hatt', -, hmu'⟩ := G.attachments a att hatt
    exact ⟨att', hatt', hmu' u hu hmu⟩
  | call =>
    obtain ⟨att, ep, hatt, hmu, hal, hep, hc⟩ := h
    obtain ⟨att', hatt', hkey, hmu'⟩ := G.attachments a att hatt
    obtain ⟨ep', hep', -, hc', -⟩ := G.kept a ep hep
    exact ⟨att', ep', hatt', hmu' u hu hmu, hkey ▸ hheld att hatt hmu hal, hep', hc' hc⟩
  | remove =>
    obtain ⟨att, ep, hatt, hmu, hal, hep, hc, hl⟩ := h
    obtain ⟨att', hatt', hkey, hmu'⟩ := G.attachments a att hatt
    obtain ⟨ep', hep', -, hc', hl'⟩ := G.kept a ep hep
    exact ⟨att', ep', hatt', hmu' u hu hmu, hkey ▸ hheld att hatt hmu hal, hep', hc' hc, hl' hl⟩
  | done err =>
    intro herr
    obtain ⟨att, hatt, hal⟩ := h herr
    obtain ⟨att', hatt', hkey, -⟩ := G.attachments a att hatt
    refine ⟨att', hatt', fun hc => ?_⟩
    rcases G.allocated att'.key a hc with hold | ⟨rfl, -, hnone, -⟩
    · exact hal (hkey ▸ hold)
    · rw [hatt] at hnone
      cases hnone

theorem Acquiring.other {pc : AcquirePc} (h : Acquiring u s k pc) : Acquiring u s' k pc := by
  cases pc with
  | start | enter | check _ | judge _ _ => exact Fresh.other G hu h
  | retire old cpc => exact ⟨h.1.other G hu, h.2.other G hu⟩
  | await p =>
    obtain ⟨hf, q, hq, hwait⟩ := h
    refine ⟨hf.other G hu, ?_⟩
    by_cases hp : p = t
    · subst hp
      obtain ⟨q', hq', hd⟩ := G.acquired q hq
      exact ⟨q', hq', fun hnd => (hd hnd).2 k (hwait (hd hnd).1)⟩
    · refine ⟨q, (G.acquisitions p hp).trans hq, fun hnd => ?_⟩
      exact (G.settled k p (hwait hnd)).resolve_right fun hc => hp hc.1
  | create | creating =>
    obtain ⟨hc, hn, hep, hal⟩ := h
    exact ⟨hc.other G hu, hc.unallocated_other G hu hn, endpoint_none_other G hu hep,
      hc.alone_other G hu hal⟩
  | publish created =>
    cases created with
    | false =>
      obtain ⟨hc, hn, hep, hal⟩ := h
      exact ⟨hc.other G hu, hc.unallocated_other G hu hn, endpoint_none_other G hu hep,
        hc.alone_other G hu hal⟩
    | true =>
      obtain ⟨hc, hn, hat, hal, hep⟩ := h
      exact ⟨hc.other G hu, hc.unallocated_other G hu hn, unattached_other G hu hat,
        hc.alone_other G hu hal, endpoint_other G hep⟩
  | discard =>
    obtain ⟨hc, hcl, hat, hep⟩ := h
    exact ⟨hc.other G hu, G.closed hcl, unattached_other G hu hat, endpoint_other G hep⟩
  | discarding =>
    obtain ⟨hc, hcl, ep, hep, hk, hcalled⟩ := h
    obtain ⟨ep', hep', hk', hcalled', -⟩ := G.kept u ep hep
    exact ⟨hc.other G hu, G.closed hcl, ep', hep', hk'.trans hk, hcalled' hcalled⟩
  | settle =>
    obtain ⟨hc, hcov, hkept⟩ := h
    exact ⟨hc.other G hu, fun hopen => (hcov (G.was_open hopen)).step G
      fun hpt => absurd hpt (hc.ne hu), hkept.other G hu⟩
  | done lease err =>
    exact ⟨fun j hj => h.1 j (G.registered_other hu hj), h.2.other G hu⟩

theorem ShuttingDown.other {pc : ShutdownPc} (h : ShuttingDown u s pc) : ShuttingDown u s' pc := by
  cases pc with
  | lock | begin => trivial
  | await waiting =>
    refine ⟨G.closed h.1, fun k p hp => ?_⟩
    rcases G.registered k p hp with hold | ⟨-, hopen⟩
    · exact h.2 k p hold
    · rw [h.1] at hopen
      cases hopen
  | list => exact Drained.step G h
  | closing todo err =>
    exact ⟨h.1.step G, fun herr k e he => h.2 herr k e (h.1.allocated G he)⟩
  | release a todo err cpc =>
    exact ⟨h.1.step G, h.2.1.other G hu, fun herr k e he => h.2.2 herr k e (h.1.allocated G he)⟩
  | backend err | done err =>
    intro herr
    obtain ⟨hd, hn⟩ := h herr
    exact ⟨hd.step G, hd.unallocated G hn⟩

variable {q : Option (PoolPc κ)}

theorem Asserts.other (h : Asserts u s q) : Asserts u s' q := by
  match q with
  | none => exact Fresh.other G hu h
  | some (.acquire _ _) => exact Acquiring.other G hu h
  | some (.close _ _) | some (.shutdown _) => exact ⟨h.1.other G hu, h.2.other G hu⟩

end

/-! ### The mover -/

theorem update_same {α β : Type} [DecidableEq α] {f : α → β} {x : α} {y : β} (h : f x = y) :
    update f x y = f :=
  update_eq_self_iff.mpr h.symm

/-- A write to one attachment and its endpoint; the allocation goes only if the call holds the
attachment's lock and has closed the endpoint. -/
theorem Fresh.closing {att att' : Attachment κ} {ep ep' : Endpoint κ} (hf : Fresh s t)
    (hatt : s.attachments a = some att) (hep : s.endpoints a = some ep)
    (hs' : s'.attachments = update s.attachments a (some att') ∧
      s'.endpoints = update s.endpoints a (some ep') ∧ s'.closed = s.closed ∧
      s'.pending = s.pending ∧ s'.acquisitions = s.acquisitions)
    (hatt' : att'.key = att.key ∧ ∀ u, u ≠ t → att.mu = some u → att'.mu = some u)
    (hep' : ep'.key = ep.key ∧ (ep.closeCalled = true → ep'.closeCalled = true) ∧
      (ep.live = false → ep'.live = false))
    (hal : s'.allocations = s.allocations ∨ s'.allocations = s.allocations.erase att.key ∧
      s.allocations.lookup att.key = some a ∧ att.mu = some t ∧ ep.live = false ∧
      ep.closeCalled = true) :
    Guarantee t s s' ∧ Fresh s' t := by
  obtain ⟨hats, heps, hcl, hpe, hac⟩ := hs'
  have hne : t ≠ a := by
    rintro rfl
    rw [hf.endpoint] at hep
    cases hep
  refine ⟨?_, ?_⟩
  · refine
      { closed := fun h => hcl ▸ h
        allocated := fun k e h => ?_
        released := fun k e h => ?_
        registered := fun k u h => .inl (hpe ▸ h)
        settled := fun k u h => .inl (hpe ▸ h)
        waiting := fun k h => absurd (hpe ▸ h) (hf.unregistered k)
        acquired := fun q h => ?_
        acquisitions := fun u _ => by rw [hac]
        endpoints := fun e ep₂ h => ?_
        kept := fun e ep₂ h => ?_
        attached := fun b att₂ h => ?_
        attachments := fun b att₂ h => ?_ }
    · rcases hal with hal | ⟨hal, -⟩
      · exact .inl (hal ▸ h)
      · exact .inl (lookup_of_erase (hal ▸ h))
    · rcases hal with hal | ⟨hal, hcur, hmu, hl, hc⟩
      · exact .inl (hal ▸ h)
      · rw [hal, lookup_erase]
        by_cases hk : k = att.key
        · subst hk
          rw [hcur] at h
          cases h
          exact .inr ⟨att, ep, hatt, hmu, hep, hl, hc⟩
        · rw [if_neg hk]
          exact .inl h
    · rw [hf.acquisition] at h
      cases h
    · rw [heps] at h
      obtain ⟨rfl, rfl⟩ | ⟨-, h⟩ := update_eq_some.mp h
      · exact .inl ⟨ep, hep, hep'.1, true_of_kept hep'.2.2⟩
      · exact .inl ⟨ep₂, h, rfl, id⟩
    · rw [heps]
      refine exists_update h ?_ fun _ => ⟨rfl, id, id⟩
      rintro rfl
      cases hep.symm.trans h
      exact hep'
    · rw [hats] at h
      obtain ⟨rfl, rfl⟩ | ⟨-, h⟩ := update_eq_some.mp h
      · exact .inl ⟨att, hatt, hatt'.1⟩
      · exact .inl ⟨att₂, h, rfl⟩
    · rw [hats]
      refine exists_update h ?_ fun _ => ⟨rfl, fun _ _ => id⟩
      rintro rfl
      cases hatt.symm.trans h
      exact hatt'
  · exact ⟨hac ▸ hf.acquisition, by rw [heps, update_of_ne hne, hf.endpoint],
      fun k h => hf.unregistered k (hpe ▸ h)⟩

variable {x : PoolChoice}

theorem closeStep_own {pc pc' : ClosePc} (hf : Fresh s t)
    (hA : Closer t s a pc) (h : closeStep t s a pc x = some (s', pc')) :
    (Guarantee t s s' ∧ Fresh s' t) ∧ Closer t s' a pc' := by
  revert h
  fun_cases closeStep t s a pc x <;> intro h <;> cases h
  case case1 att ep hep hatt hmu =>
    refine ⟨hf.closing hatt hep ⟨rfl, (update_same hep).symm, rfl, rfl, rfl⟩ ⟨rfl, ?_⟩
      ⟨rfl, id, id⟩ (.inl rfl), ?_⟩
    · intro u _ hu
      rw [hmu] at hu
      cases hu
    · exact ⟨_, update_self .., rfl⟩
  case case3 att ep hep hatt hcur =>
    have hmu : att.mu = some t := by simpa [Closer, hatt] using hA
    refine ⟨hf.closing hatt hep ⟨rfl, rfl, rfl, rfl, rfl⟩ ⟨rfl, fun _ _ => id⟩
      ⟨rfl, fun _ => rfl, id⟩ (.inl rfl), ?_⟩
    exact ⟨_, _, update_self .., hmu, holds_iff.mp hcur, update_self .., rfl⟩
  case case4 att ep hep hatt hcur =>
    have hmu : att.mu = some t := by simpa [Closer, hatt] using hA
    refine ⟨hf.closing hatt hep ⟨rfl, (update_same hep).symm, rfl, rfl, rfl⟩ ⟨rfl,
      fun _ => held_alone hmu⟩
      ⟨rfl, id, id⟩ (.inl rfl), fun _ => ⟨_, update_self .., mt holds_iff.mpr hcur⟩⟩
  case case5 att ep hep hatt =>
    obtain ⟨hmu, hal, hc⟩ : att.mu = some t ∧ s.allocations.lookup att.key = some a ∧
      ep.closeCalled = true := by
      simpa [Closer, hatt, hep] using hA
    refine ⟨hf.closing hatt hep ⟨(update_same hatt).symm, rfl, rfl, rfl, rfl⟩
      ⟨rfl, fun _ _ => id⟩ ⟨rfl, id, fun _ => rfl⟩ (.inl rfl), ?_⟩
    exact ⟨att, _, hatt, hmu, hal, update_self .., hc, rfl⟩
  case case6 att ep hep hatt =>
    obtain ⟨hmu, -⟩ : att.mu = some t ∧ _ := by simpa [Closer, hatt] using hA
    refine ⟨hf.closing hatt hep ⟨rfl, (update_same hep).symm, rfl, rfl, rfl⟩ ⟨rfl,
      fun _ => held_alone hmu⟩
      ⟨rfl, id, id⟩ (.inl rfl), fun herr => by cases herr⟩
  case case7 att ep hep hatt =>
    obtain ⟨hmu, hal, hc, hl⟩ : att.mu = some t ∧ s.allocations.lookup att.key = some a ∧
      ep.closeCalled = true ∧
        ep.live = false := by simpa [Closer, hatt, hep] using hA
    have hholds : s.holds att.key a = true := holds_iff.mpr hal
    refine ⟨hf.closing hatt hep ⟨rfl, (update_same hep).symm, rfl, rfl, rfl⟩ ⟨rfl,
      fun _ => held_alone hmu⟩
      ⟨rfl, id, id⟩ (.inr ⟨if_pos hholds, hal, hmu, hl, hc⟩), fun _ => ?_⟩
    refine ⟨_, update_self .., ?_⟩
    simp [hholds]

theorem Inv.quiet (hI : Inv s) (hc : s.closed = true → s'.closed = true)
    (hs : s'.allocations = s.allocations ∧ s'.pending = s.pending ∧
      s'.acquisitions = s.acquisitions ∧ s'.endpoints = s.endpoints ∧
      s'.attachments = s.attachments) : Guarantee t s s' := by
  obtain ⟨hal, hpe, hac, hen, hat⟩ := hs
  exact {
    closed := hc
    allocated := fun k e h => .inl (hal ▸ h)
    released := fun k e h => .inl (hal ▸ h)
    registered := fun k u h => .inl (hpe ▸ h)
    settled := fun k u h => .inl (hpe ▸ h)
    waiting := fun k h => hac ▸ hI.waiting k t (hpe ▸ h)
    acquired := fun q h => ⟨q, hac ▸ h, fun hq => ⟨hq, fun k hk => hpe ▸ hk⟩⟩
    acquisitions := fun u _ => by rw [hac]
    endpoints := fun e ep h => .inl ⟨ep, hen ▸ h, rfl, id⟩
    kept := fun e ep h => ⟨ep, hen ▸ h, rfl, id, id⟩
    attached := fun a att h => .inl ⟨att, hat ▸ h, rfl⟩
    attachments := fun a att h => ⟨att, hat ▸ h, rfl, fun _ _ => id⟩ }

theorem Inv.stay (hI : Inv s) : Guarantee t s s := hI.quiet id ⟨rfl, rfl, rfl, rfl, rfl⟩

theorem Fresh.done (h : Fresh s t) (lease : Option CallId) (err : Errors) :
    Acquiring t s k (.done lease err) :=
  ⟨h.unregistered, fun ep hep => by rw [h.endpoint] at hep; cases hep⟩

section

variable (hI : Inv s)
include hI

theorem Inv.register (hf : Fresh s t) (hopen : s.closed = false)
    (hal : s.allocations.lookup k = none) (hpe : s.pending.lookup k = none) :
    let s' : Pool κ := { s.setAcquisition t {} with pending := s.pending.insert k t }
    Guarantee t s s' ∧ Acquiring t s' k .create := by
  have hq : update s.acquisitions t (some {}) t = some ({} : Acquisition) := update_self ..
  refine ⟨?_, ⟨?_, ?_, ?_⟩, hal, hf.endpoint, ?_⟩
  · refine
      { hI.stay (t := t) with
        registered := fun j u h => ?_
        settled := fun j u h => ?_
        waiting := fun _ _ => ⟨_, hq, rfl⟩
        acquired := fun q h => ?_
        acquisitions := fun u hu => update_of_ne hu ..
        endpoints := fun e ep h => .inl ⟨ep, h, rfl, id⟩ }
    · obtain ⟨-, rfl⟩ | ⟨-, h⟩ := insert_eq_some.mp h
      · exact .inr ⟨rfl, hopen⟩
      · exact .inl h
    · exact .inl (insert_of_none hpe h)
    · rw [hf.acquisition] at h
      cases h
  · exact AList.lookup_insert _
  · intro j hj
    obtain ⟨hjk, -⟩ | ⟨-, hj⟩ := insert_eq_some.mp hj
    · exact hjk
    · exact absurd hj (hf.unregistered j)
  · exact ⟨_, hq, rfl⟩
  · -- the key is covered and has no allocation, so none of its endpoints is live
    intro e ep _ hep hkey
    refine Bool.of_not_eq_true fun hl => ?_
    have hcov := hI.covered k hopen hpe e ep hep hkey hl
    rw [hal] at hcov
    cases hcov

variable {q : Acquisition}

theorem Creator.record (hc : Creator s t k) (hq : s.acquisitions t = some q)
    (q' : Acquisition) (hd : q'.done = q.done) :
    Guarantee t s (s.setAcquisition t q') ∧ Creator (s.setAcquisition t q') t k := by
  have hq' : (s.setAcquisition t q').acquisitions t = some q' := update_self ..
  have hopen : q'.done = false := by
    obtain ⟨q₂, hq₂, hd₂⟩ := hc.acquisition
    rw [hq] at hq₂
    cases hq₂
    exact hd.trans hd₂
  refine ⟨?_, hc.registered, hc.only, q', hq', hopen⟩
  exact
    { hI.stay (t := t) with
      waiting := fun _ _ => ⟨q', hq', hopen⟩
      acquired := fun q₂ h => ⟨q', hq', fun _ => by
        rw [hq] at h
        cases h
        exact ⟨hd ▸ hopen, fun _ => id⟩⟩
      acquisitions := fun u hu => update_of_ne hu .. }

/-- A creator writes its endpoint: a new one for a key that has no live one, or a later state of the
same. -/
theorem Creator.write (hc : Creator s t k) (ep' : Endpoint κ) (hkey : ep'.key = k)
    (hep : s.endpoints t = none ∧ Alone s t k ∨ ∃ ep, s.endpoints t = some ep ∧ ep.key = k ∧
      (ep.closeCalled = true → ep'.closeCalled = true) ∧ (ep.live = false → ep'.live = false)) :
    Guarantee t s (s.setEndpoint t ep') ∧ Creator (s.setEndpoint t ep') t k := by
  refine ⟨?_, hc.registered, hc.only, hc.acquisition⟩
  refine
    { hI.stay (t := t) with
      endpoints := fun e ep h => ?_
      kept := fun e ep h => ?_ }
  · obtain ⟨rfl, rfl⟩ | ⟨-, h⟩ := update_eq_some.mp h
    · rcases hep with ⟨-, halone⟩ | ⟨ep₀, hep₀, hk₀, -, hl⟩
      · exact .inr ⟨rfl, hkey ▸ hc.registered, hkey ▸ hc.registered, hkey ▸ halone⟩
      · exact .inl ⟨ep₀, hep₀, hkey.trans hk₀.symm, true_of_kept hl⟩
    · exact .inl ⟨ep, h, rfl, id⟩
  · refine exists_update h ?_ fun _ => ⟨rfl, id, id⟩
    rintro rfl
    rcases hep with ⟨hnone, -⟩ | ⟨ep₀, hep₀, hk₀, hrest⟩
    · cases hnone.symm.trans h
    · cases h.symm.trans hep₀
      exact ⟨hkey.trans hk₀.symm, hrest⟩

theorem Creator.install (hc : Creator s t k) (hal : s.allocations.lookup k = none)
    (hat : s.attachments t = none) (halone : Alone s t k)
    (hep : ∃ ep, s.endpoints t = some ep ∧ ep.key = k) (hq : s.acquisitions t = some q) :
    let s' : Pool κ :=
      { (s.setAttachment t { key := k }).setAcquisition t { q with lease := some t } with
        allocations := s.allocations.insert k t }
    Guarantee t s s' ∧ Acquiring t s' k .settle := by
  have hrec := hc.record hI hq { q with lease := some t } rfl
  obtain ⟨ep, hep, hkey⟩ := hep
  refine ⟨?_, ⟨hc.registered, hc.only, hrec.2.acquisition⟩, fun _ e ep₂ he hk hl => ?_,
    fun ep₂ he => ?_⟩
  · refine
      { hrec.1 with
        allocated := fun j e h => ?_
        released := fun j e h => ?_
        attached := fun a att h => ?_
        attachments := fun a att h => ?_ }
    · obtain ⟨rfl, rfl⟩ | ⟨-, h⟩ := insert_eq_some.mp h
      · exact .inr ⟨rfl, hc.registered, hat, _, update_self .., rfl⟩
      · exact .inl h
    · exact .inl (insert_of_none hal h)
    · obtain ⟨rfl, rfl⟩ | ⟨-, h⟩ := update_eq_some.mp h
      · exact .inr ⟨rfl, ep, hep, hkey⟩
      · exact .inl ⟨att, h, rfl⟩
    · exact ⟨att, update_of_none hat h, rfl, fun _ _ => id⟩
  · -- whatever of the key is live is the endpoint just installed
    by_cases het : e = t
    · subst het
      exact AList.lookup_insert _
    · have := halone e ep₂ het he hk
      rw [hl] at this
      cases this
  · have : ep₂ = ep := some.inj (he.symm.trans hep)
    subst this
    subst hkey
    exact .inr (AList.lookup_insert _)

theorem Creator.settle (hc : Creator s t k)
    (hcov : s.closed = false → Covered s k) (hkept : Kept s t) :
    let s' : Pool κ := { s.setAcquisition t { q with done := true } with
      pending := if s.pending.lookup k = some t then s.pending.erase k else s.pending }
    Guarantee t s s' ∧ Acquiring t s' k (.done q.lease q.err) := by
  have hpe : ∀ j, (if s.pending.lookup k = some t then s.pending.erase k else s.pending).lookup j =
      if j = k then none else s.pending.lookup j := fun j => by
    rw [if_pos hc.registered, lookup_erase]
  have hnone : ∀ j, (if s.pending.lookup k = some t then s.pending.erase k
      else s.pending).lookup j ≠ some t := by
    intro j hj
    rw [hpe] at hj
    split_ifs at hj with hjk
    exact hjk (hc.only j hj)
  refine ⟨?_, hnone, hkept⟩
  refine
    { hI.stay (t := t) with
      registered := fun j u h => ?_
      settled := fun j u h => ?_
      waiting := fun j h => absurd h (hnone j)
      acquired := fun _ _ => ⟨_, update_self .., fun h => by cases h⟩
      acquisitions := fun u hu => update_of_ne hu ..
      endpoints := fun e ep h => .inl ⟨ep, h, rfl, id⟩ }
  · rw [hpe] at h
    split_ifs at h
    exact .inl h
  · rw [hpe]
    split_ifs with hj
    · subst hj
      rw [hc.registered] at h
      exact .inr ⟨(some.inj h).symm, hcov⟩
    · exact .inl h

theorem acquireStep_own {pc pc' : AcquirePc}
    (hA : Acquiring t s k pc) (h : acquireStep t s k pc x = some (s', pc')) :
    Guarantee t s s' ∧ Acquiring t s' k pc' := by
  revert h
  fun_cases acquireStep t s k pc x <;> intro h <;> try cases h
  case case1.refl =>
    refine ⟨hI.stay, ?_⟩
    split
    · exact hA
    · exact Fresh.done hA _ _
  case case2.refl | case9.refl => exact ⟨hI.stay, Fresh.done hA _ _⟩
  case case3.refl | case6.refl => exact ⟨hI.stay, hA⟩
  case case4.refl hopen hal p hp =>
    obtain ⟨q, hq, hd⟩ := hI.waiting k p hp
    exact ⟨hI.stay, hA, q, hq, fun _ => hp⟩
  case case5.refl hopen hal hp => exact hI.register hA (by simpa using hopen) hal hp
  case case10.refl => exact ⟨hI.stay, hA, trivial⟩
  case case11.refl => exact ⟨hI.stay, hA.1⟩
  case case12.refl | case15.refl | case18.refl => exact ⟨hI.stay, hA.1.done _ _⟩
  case case13.refl old cpc cpc' hs =>
    obtain ⟨⟨G, hf⟩, hcl⟩ := closeStep_own hA.1 hA.2 hs
    exact ⟨G, hf, hcl⟩
  case case19.refl | case22.refl =>
    obtain ⟨hc, hrest⟩ := hA
    exact ⟨hI.quiet id ⟨rfl, rfl, rfl, rfl, rfl⟩, ⟨hc.registered, hc.only, hc.acquisition⟩, hrest⟩
  case case21.refl =>
    obtain ⟨hc, hal, hep, halone⟩ := hA
    obtain ⟨G, hc'⟩ := hc.write hI { key := k } rfl (.inl ⟨hep, halone⟩)
    refine ⟨G.unlock none, ⟨hc'.registered, hc'.only, hc'.acquisition⟩, hal, ?_,
      fun e ep he h => ?_, _, update_self .., rfl⟩
    · refine eq_none_iff_forall_ne_some.mpr fun att hat => ?_
      obtain ⟨ep, hep', -⟩ := hI.attached t att hat
      rw [hep] at hep'
      cases hep'
    · exact halone e ep he ((update_of_ne he ..).symm.trans h)
  case case24.refl q hq hclosed =>
    obtain ⟨hc, -, hat, -, hep⟩ := hA
    obtain ⟨G, hc'⟩ := hc.record hI hq { q with err := [.closed] } rfl
    exact ⟨G, hc', hclosed, hat, hep⟩
  case case25.refl q hq hopen =>
    obtain ⟨hc, hal, hat, halone, hep⟩ := hA
    exact hc.install hI hal hat halone hep hq
  case case26.refl created q hq hfail =>
    cases created with
    | true => exact absurd rfl hfail
    | false =>
      obtain ⟨hc, hal, hep, halone⟩ := hA
      obtain ⟨G, hc'⟩ := hc.record hI hq { q with err := [.create] } rfl
      refine ⟨G, hc', fun _ e ep he hk hl => ?_, fun ep he => ?_⟩
      · have het : e ≠ t := by
          rintro rfl
          exact absurd (hep.symm.trans he) (by simp)
        have := halone e ep het he hk
        rw [hl] at this
        cases this
      · exact absurd (hep.symm.trans he) (by simp)
  case case27.refl ep hep =>
    obtain ⟨hc, hclosed, -, ep₂, hep₂, hk⟩ := hA
    rw [hep] at hep₂
    cases hep₂
    obtain ⟨G, hc'⟩ := hc.write hI { ep with closeCalled := true } hk
      (.inr ⟨ep, hep, hk, fun _ => rfl, id⟩)
    exact ⟨G, hc', hclosed, _, update_self .., hk, rfl⟩
  case case29.refl ep hep =>
    obtain ⟨hc, hclosed, ep₂, hep₂, hk, hcalled⟩ := hA
    rw [hep] at hep₂
    cases hep₂
    obtain ⟨G, hc'⟩ := hc.write hI { ep with live := false } hk
      (.inr ⟨ep, hep, hk, id, fun _ => rfl⟩)
    refine ⟨G, hc', fun hopen => ?_, fun ep₃ hep₃ => ?_⟩
    · rw [show s.closed = false from hopen] at hclosed
      cases hclosed
    · cases hep₃.symm.trans (update_self ..)
      exact .inl hcalled
  case case31.refl q hq =>
    obtain ⟨hc, hclosed, ep, hep, -, hcalled⟩ := hA
    obtain ⟨G, hc'⟩ := hc.record hI hq { q with err := q.err ++ [.release] } rfl
    refine ⟨G, hc', fun hopen => ?_, fun ep₂ hep₂ => ?_⟩
    · rw [show s.closed = false from hopen] at hclosed
      cases hclosed
    · cases hep.symm.trans hep₂
      exact .inl hcalled
  case case33.refl q hq =>
    obtain ⟨hc, hcov, hkept⟩ := hA
    exact hc.settle hI hcov hkept

theorem shutdownStep_own {pc pc' : ShutdownPc} (hf : Fresh s t)
    (hA : ShuttingDown t s pc) (h : shutdownStep t s pc x = some (s', pc')) :
    (Guarantee t s s' ∧ Fresh s' t) ∧ ShuttingDown t s' pc' := by
  have relock : ∀ mu, Guarantee t s { s with closeMu := mu } ∧
    Fresh { s with closeMu := mu } t := fun _ =>
    ⟨hI.quiet id ⟨rfl, rfl, rfl, rfl, rfl⟩, hf.acquisition, hf.endpoint, hf.unregistered⟩
  revert h
  fun_cases shutdownStep t s pc x <;> intro h <;> try cases h
  case case1.refl => exact ⟨relock _, trivial⟩
  case case3.refl =>
    refine ⟨⟨hI.quiet (fun _ => rfl) ⟨rfl, rfl, rfl, rfl, rfl⟩, hf.acquisition, hf.endpoint,
      hf.unregistered⟩, rfl, fun k u hk => ?_⟩
    exact mem_values.mpr ⟨k, hk⟩
  case case4.refl waiting p hp =>
    refine ⟨⟨hI.stay, hf⟩, hA.1, fun k u hk => ?_⟩
    -- what is registered is not done, so it is not what was waited for
    obtain ⟨q, hq, hd⟩ := hI.waiting k u hk
    have hne : u ≠ p := by
      rintro rfl
      simp [hq, hd] at hp
    exact (mem_erase_of_ne hne).mpr (hA.2 k u hk)
  case case7.refl => exact ⟨relock _, fun herr => by cases herr⟩
  case case8.refl =>
    refine ⟨⟨hI.stay, hf⟩, hA.1, fun k => eq_none_iff_forall_ne_some.mpr fun u hk => ?_⟩
    exact absurd (hA.2 k u hk) (by simp)
  case case10.refl =>
    exact ⟨⟨hI.stay, hf⟩, hA, fun _ k e he => mem_values.mpr ⟨k, he⟩⟩
  case case11.refl todo err a ha =>
    refine ⟨⟨hI.stay, hf⟩, hA.1, trivial, fun herr k e he => ?_⟩
    by_cases hea : e = a
    · exact .inl hea
    · exact .inr ((mem_erase_of_ne hea).mpr (hA.2 herr k e he))
  case case13.refl err =>
    refine ⟨⟨hI.stay, hf⟩,
      fun herr => ⟨hA.1, fun k => eq_none_iff_forall_ne_some.mpr fun e hk => ?_⟩⟩
    exact absurd (hA.2 herr k e hk) (by simp)
  case case15.refl a todo err err' =>
    refine ⟨⟨hI.stay, hf⟩, hA.1, fun herr k e he => ?_⟩
    obtain ⟨herr₁, herr₂⟩ := append_eq_nil_iff.mp herr
    obtain ⟨att, hatt, hne⟩ := hA.2.1 herr₂
    rcases hA.2.2 herr₁ k e he with rfl | hmem
    · -- its closer returned `nil`, so it is no allocation any more
      obtain ⟨att₂, hatt₂, hkey⟩ := hI.allocated k e he
      rw [hatt] at hatt₂
      cases hatt₂
      exact absurd (hkey ▸ he) hne
    · exact hmem
  case case16.refl a todo err cpc cpc' _ hs =>
    obtain ⟨⟨G, hf'⟩, hcl⟩ := closeStep_own hf hA.2.1 hs
    exact ⟨⟨G, hf'⟩, hA.1.step G, hcl, fun herr k e he => hA.2.2 herr k e (hA.1.allocated G he)⟩
  case case18.refl =>
    refine ⟨relock _, fun herr => ?_⟩
    obtain ⟨hd, hn⟩ := hA herr
    exact ⟨⟨hd.closed, hd.pending⟩, hn⟩
  case case20.refl => exact ⟨relock _, fun herr => by simp at herr⟩

theorem move_own {pc pc' : PoolPc κ} (hA : Asserts t s (some pc))
    (h : (program κ).move t s pc x = some (s', pc')) :
    Guarantee t s s' ∧ Asserts t s' (some pc') := by
  cases pc with
  | acquire k pc =>
    obtain ⟨_, hs, rfl⟩ := inner_move h
    exact acquireStep_own hI hA hs
  | close a pc =>
    obtain ⟨_, hs, rfl⟩ := inner_move h
    obtain ⟨⟨G, hf⟩, hcl⟩ := closeStep_own hA.1 hA.2 hs
    exact ⟨G, hf, hcl⟩
  | shutdown pc =>
    obtain ⟨_, hs, rfl⟩ := inner_move h
    obtain ⟨⟨G, hf⟩, hsd⟩ := shutdownStep_own hI hA.1 hA.2 hs
    exact ⟨G, hf, hsd⟩

end

theorem outline : (program κ).Outline Inv Asserts where
  call {s t pc} _ hf hentry := by
    match pc, hentry with
    | .acquire _ .start, _ => exact hf
    | .close _ .lock, _ | .shutdown .lock, _ => exact ⟨hf, trivial⟩
  own hI hA hm := by
    obtain ⟨G, hA'⟩ := move_own hI hA hm
    exact ⟨hI.step G, hA'⟩
  other hI hA hm hu hB := hB.other (move_own hI hA hm).1 hu
  world {_ e _} := nomatch e

theorem inv_new (available : Bool) : Inv (new available : Pool κ) := by
  refine ⟨?_, ?_, ?_, ?_, ?_⟩ <;> simp [new, Covered]

/-! ## Every run -/

variable {available : Bool} {c d : Config (Pool κ) (PoolPc κ)}
  {τ τ' : List (Config (Pool κ) (PoolPc κ) × ThreadAct (PoolPc κ) PoolChoice Empty)}

theorem outlined_of_trace (h : (program κ).machine.Trace (init (new available)) τ d) :
    Outlined Inv Asserts d :=
  outline.proof_outline (inv_new available) (fun t => ⟨rfl, rfl, by simp [new]⟩) h

theorem Acquiring.creator {pc : AcquirePc} (h : Acquiring t s k pc) (hc : pc.creates = true) :
    s.pending.lookup k = some t := by
  match pc, h, hc with
  | .create, h, _ | .creating, h, _ | .publish false, h, _ | .publish true, h, _ | .discard, h, _
  | .discarding, h, _ | .settle, h, _ => exact h.1.registered

theorem Asserts.creates (h : Asserts t s q)
    (hp : s.pending.lookup k = some t) : ∃ pc, q = some (.acquire k pc) ∧ pc.creates = true := by
  match q, h with
  | none, h | some (.close _ _), ⟨h, _⟩ | some (.shutdown _), ⟨h, _⟩ =>
    exact absurd hp (h.unregistered k)
  | some (.acquire j pc), h =>
    match pc, h with
    | .start, h | .enter, h | .check _, h | .judge _ _, h | .retire _ _, ⟨h, _⟩
    | .await _, ⟨h, _⟩ => exact absurd hp (Fresh.unregistered h k)
    | .done _ _, h => exact absurd hp (h.1 k)
    | .create, h | .creating, h | .publish false, h | .publish true, h | .discard, h
    | .discarding, h | .settle, h =>
      have hj : k = j := h.1.only k hp
      subst hj
      exact ⟨_, rfl, rfl⟩

theorem Asserts.owned (h : Asserts t s q) {ep : Endpoint κ} (hep : s.endpoints t = some ep) :
    ep.closeCalled = true ∨ s.allocations.lookup ep.key = some t ∨
      ∃ pc, q = some (.acquire ep.key pc) ∧ pc.inHand = true := by
  have hfresh : ¬Fresh s t := fun hf => by
    rw [hf.endpoint] at hep
    cases hep
  match q, h with
  | none, h | some (.close _ _), ⟨h, _⟩ | some (.shutdown _), ⟨h, _⟩ => exact absurd h hfresh
  | some (.acquire j pc), h =>
    match pc, h with
    | .start, h | .enter, h | .check _, h | .judge _ _, h | .retire _ _, ⟨h, _⟩
    | .await _, ⟨h, _⟩ => exact absurd h hfresh
    | .create, h | .creating, h | .publish false, h =>
      exact absurd (h.2.2.1.symm.trans hep) (by simp)
    | .publish true, ⟨_, _, _, _, ep₂, hep₂, hk⟩ | .discard, ⟨_, _, _, ep₂, hep₂, hk⟩ =>
      cases hep.symm.trans hep₂
      exact .inr (.inr ⟨_, by rw [hk], rfl⟩)
    | .discarding, ⟨_, _, ep₂, hep₂, _, hcalled⟩ =>
      cases hep.symm.trans hep₂
      exact .inl hcalled
    | .settle, ⟨_, _, hkept⟩ | .done _ _, ⟨_, hkept⟩ => exact (hkept ep hep).imp_right .inl

theorem closeStep_frame {pc pc' : ClosePc}
    (h : closeStep t s a pc x = some (s', pc')) {b : CallId} (hb : b ≠ a) :
    (∀ k, s.allocations.lookup k = some b → s'.allocations.lookup k = some b) ∧
      s'.endpoints b = s.endpoints b ∧ s'.attachments b = s.attachments b := by
  revert h
  fun_cases closeStep t s a pc x <;> intro h <;> cases h
  case case7 att ep hep hatt =>
    refine ⟨fun k hk => ?_, rfl, update_of_ne hb ..⟩
    dsimp only
    split_ifs with hcur
    · rw [lookup_erase, if_neg ?_]
      · exact hk
      · rintro rfl
        rw [holds_iff.mp hcur] at hk
        exact hb (some.inj hk).symm
    · exact hk
  all_goals
    refine ⟨fun _ => id, ?_, ?_⟩
    · first | rfl | exact update_of_ne hb ..
    · first | rfl | exact update_of_ne hb ..

theorem move_closes {pc pc' : PoolPc κ}
    (h : (program κ).move t s pc x = some (s', pc')) (hc : pc.closes = some a) {b : CallId}
    (hb : b ≠ a) :
    (∀ k, s.allocations.lookup k = some b → s'.allocations.lookup k = some b) ∧
      s'.endpoints b = s.endpoints b ∧ s'.attachments b = s.attachments b := by
  match pc, hc with
  | .close _ pc, rfl =>
    obtain ⟨_, hs, rfl⟩ := inner_move h
    exact closeStep_frame hs hb
  | .acquire k (.retire _ cpc), rfl =>
    obtain ⟨_, hs, rfl⟩ := inner_move h
    revert hs
    generalize hpc : AcquirePc.retire a cpc = pc
    fun_cases acquireStep t s k pc x <;> intro hs <;> cases hpc <;> cases hs
    · exact ⟨fun _ => id, rfl, rfl⟩
    · exact ⟨fun _ => id, rfl, rfl⟩
    · next hs => exact closeStep_frame hs hb
  | .shutdown (.release _ todo err cpc), rfl =>
    obtain ⟨_, hs, rfl⟩ := inner_move h
    revert hs
    generalize hpc : ShutdownPc.release a todo err cpc = pc
    fun_cases shutdownStep t s pc x <;> intro hs <;> cases hpc <;> cases hs
    · exact ⟨fun _ => id, rfl, rfl⟩
    · next hs => exact closeStep_frame hs hb

/-- The counters an `Acquire` that begins on a closed pool can reach. -/
def Refused (pc : AcquirePc) : Prop :=
  pc = .start ∨ pc = .enter ∨ ∃ lease err, pc = .done lease err ∧ err ≠ []

theorem refused_of_trace (hc : Outlined Inv Asserts c) (hclosed : c.shared.closed = true)
    {pc : AcquirePc} (hu : c.threads u = some (.acquire k pc)) (hpc : Refused pc)
    (h : (program κ).machine.Trace c τ d) :
    ∃ pc', d.threads u = some (.acquire k pc') ∧ Refused pc' := by
  refine (outline.stable (Q := fun d => d.shared.closed = true ∧
    ∃ pc', d.threads u = some (.acquire k pc') ∧ Refused pc') h hc ⟨hclosed, pc, hu, hpc⟩ ?_).2
  rintro c' act d' hout ⟨hcl, pc', hu', hpc'⟩ hstep
  cases act with
  | call t q =>
    obtain ⟨ht, -, rfl⟩ := step_call.mp hstep
    have hne : u ≠ t := by
      rintro rfl
      rw [ht] at hu'
      cases hu'
    exact ⟨hcl, pc', by simpa [hne] using hu', hpc'⟩
  | move t x =>
    obtain ⟨q, s₁, q', ht, hm, rfl⟩ := step_move.mp hstep
    refine ⟨(move_own hout.1 (hout.asserts ht) hm).1.closed hcl, ?_⟩
    by_cases hne : u = t
    · subst hne
      rw [hu'] at ht
      cases ht
      obtain ⟨_, hs, rfl⟩ := inner_move hm
      refine ⟨_, update_self .., ?_⟩
      rcases hpc' with rfl | rfl | ⟨lease, err, rfl, -⟩
      · cases x <;> simp only [acquireStep] at hs <;> cases hs
        split
        · exact .inr (.inl rfl)
        · exact .inr (.inr ⟨_, _, rfl, by simp⟩)
      · cases x <;> simp only [acquireStep, hcl] at hs <;> cases hs
        exact .inr (.inr ⟨_, _, rfl, by simp⟩)
      · cases x <;> simp only [acquireStep] at hs <;> cases hs
    · exact ⟨pc', by simpa [hne] using hu', hpc'⟩
  | world e => cases e

theorem waits_for_creator (h : Outlined Inv Asserts d) {p : CallId}
    (ht : d.threads t = some (.acquire k (.await p))) :
    (∃ q, d.shared.acquisitions p = some q ∧ q.done = true) ∨
      ∃ pc, d.threads p = some (.acquire k pc) ∧ pc.creates = true := by
  obtain ⟨-, q, hq, hwait⟩ := h.asserts ht
  cases hd : q.done with
  | true => exact .inl ⟨q, hq, hd⟩
  | false => exact .inr ((h.2 p).creates (hwait hd))

theorem await_returns {p : CallId} (ht : c.threads t = some (.acquire k (.await p)))
    (h : (program κ).machine.step c (.move t x) = some d) :
    d.threads t = some (.acquire k (.done none [.canceled])) ∨
      ∃ q, c.shared.acquisitions p = some q ∧ q.done = true ∧
        d.threads t = some (.acquire k (.done q.lease q.err)) := by
  obtain ⟨pc, s₁, pc', ht', hm, rfl⟩ := step_move.mp h
  rw [ht] at ht'
  cases ht'
  obtain ⟨_, hs, rfl⟩ := inner_move hm
  revert hs
  generalize hpc : AcquirePc.await p = pc
  fun_cases acquireStep t c.shared k pc x <;> intro hs <;> cases hpc <;> cases hs
  · next q hd hq => exact .inr ⟨q, hq, hd, update_self ..⟩
  · exact .inl (update_self ..)

/-- **Ownership of endpoints in every run.** At most one live endpoint exists per key.  Creations
for a key exclude one another, and a caller that waits for one gets its outcome unless its context
ends.  Closing an attachment leaves every other one, its allocation and its endpoint alone.  An
endpoint that was created is its key's allocation, has had `Close` called, or is in the hand of the
`Acquire` that created it, before its next critical section or the `Close` that follows.  Once a
`Close` of the pool has returned `nil` there is no allocation, and an `Acquire` that begins then
fails. -/
theorem endpoints_owned (h : (program κ).machine.Trace (init (new available)) τ d) :
    (∀ e₁ e₂ ep₁ ep₂, d.shared.endpoints e₁ = some ep₁ → d.shared.endpoints e₂ = some ep₂ →
      ep₁.live = true → ep₂.live = true → ep₁.key = ep₂.key → e₁ = e₂) ∧
    (∀ k t₁ t₂ pc₁ pc₂, d.threads t₁ = some (.acquire k pc₁) →
      d.threads t₂ = some (.acquire k pc₂) →
      pc₁.creates = true → pc₂.creates = true → t₁ = t₂) ∧
    (∀ k t p, d.threads t = some (.acquire k (.await p)) →
      (∃ q, d.shared.acquisitions p = some q ∧ q.done = true) ∨
        ∃ pc, d.threads p = some (.acquire k pc) ∧ pc.creates = true) ∧
    (∀ c t x c' k p, (c, .move t x) ∈ τ → (program κ).machine.step c (.move t x) = some c' →
      c.threads t = some (.acquire k (.await p)) →
      c'.threads t = some (.acquire k (.done none [.canceled])) ∨
        ∃ q, c.shared.acquisitions p = some q ∧ q.done = true ∧
          c'.threads t = some (.acquire k (.done q.lease q.err))) ∧
    (∀ c t x c' pc a b, (c, .move t x) ∈ τ → (program κ).machine.step c (.move t x) = some c' →
      c.threads t = some pc → pc.closes = some a → b ≠ a →
      (∀ k, c.shared.allocations.lookup k = some b → c'.shared.allocations.lookup k = some b) ∧
        c'.shared.endpoints b = c.shared.endpoints b ∧
        c'.shared.attachments b = c.shared.attachments b) ∧
    (∀ e ep, d.shared.endpoints e = some ep →
      ep.closeCalled = true ∨ d.shared.allocations.lookup ep.key = some e ∨
        ∃ pc, d.threads e = some (.acquire ep.key pc) ∧ pc.inHand = true) ∧
    (∀ t, d.threads t = some (.shutdown (.done [])) → ∀ k, d.shared.allocations.lookup k = none) ∧
    (∀ τ₁ c t u k τ₂, τ = τ₁ ++ (c, .call u (.acquire k .start)) :: τ₂ →
      c.threads t = some (.shutdown (.done [])) →
      ∀ lease err, d.threads u = some (.acquire k (.done lease err)) → err ≠ []) := by
  have hout : Outlined Inv Asserts d := outlined_of_trace h
  refine ⟨hout.1.unique, ?_, fun k t p => waits_for_creator hout, ?_, ?_,
    fun e ep => (hout.2 e).owned, ?_, ?_⟩
  · intro k t₁ t₂ pc₁ pc₂ h₁ h₂ hc₁ hc₂
    have hp₁ := Acquiring.creator (hout.asserts h₁) hc₁
    exact some.inj (hp₁.symm.trans (Acquiring.creator (hout.asserts h₂) hc₂))
  · intro c t x c' k p _ hstep ht
    exact await_returns ht hstep
  · intro c t x c' pc a b _ hstep ht hclose hb
    obtain ⟨pc₁, s₁, pc', ht', hm, rfl⟩ := step_move.mp hstep
    rw [ht] at ht'
    cases ht'
    exact move_closes hm hclose hb
  · intro t ht
    exact ((hout.asserts ht).2 rfl).2
  · rintro τ₁ c t u k τ₂ rfl ht lease err hu
    obtain ⟨c', hpre, hstep, hrest⟩ := h.split_cons
    have hout' : Outlined Inv Asserts c := outlined_of_trace hpre
    have hclosed : c.shared.closed = true := ((hout'.asserts ht).2 rfl).1.closed
    have hout'' : Outlined Inv Asserts c' := outline.step hout' hstep
    obtain ⟨-, -, rfl⟩ := step_call.mp hstep
    obtain ⟨pc', hu', hpc'⟩ := refused_of_trace hout'' hclosed (update_self ..) (.inl rfl) hrest
    rw [hu] at hu'
    cases hu'
    rcases hpc' with h | h | ⟨_, _, h, herr⟩
    · cases h
    · cases h
    · cases h
      exact herr

/-- Three callers and the `Close` of the pool. -/
def sharedThenClosed : List (ThreadAct (PoolPc Unit) PoolChoice Empty) :=
  [.call 0 (.acquire () .start), .move 0 .go, .move 0 .go, .move 0 .go,
    -- the second caller waits for the creation of the first
    .call 1 (.acquire () .start), .move 1 .go, .move 1 .go,
    .move 0 .go, .move 0 .go, .move 0 .go, .move 1 .go,
    .call 2 (.shutdown .lock), .move 2 .go, .move 2 .go, .move 2 .go, .move 2 .go,
    .move 2 (.pick 0), .move 2 .go, .move 2 .go, .move 2 .go, .move 2 .go, .move 2 .go,
    .move 2 .go, .move 2 .go,
    -- the third caller fails
    .call 3 (.acquire () .start), .move 3 .go, .move 3 .go]

theorem endpoints_owned_closed :
    ∃ τ d, (program Unit).machine.Trace (init (new true)) τ d ∧
      d.threads 1 = some (.acquire () (.done (some 0) [])) ∧
      d.threads 2 = some (.shutdown (.done [])) ∧
      d.threads 3 = some (.acquire () (.done none [.closed])) ∧
      ∀ k, d.shared.allocations.lookup k = none := by
  obtain ⟨d, h, h₁, h₂, h₃⟩ :=
    (program Unit).machine.trace_of_any (init (new true)) sharedThenClosed
    (fun d => d.threads 1 = some (.acquire () (.done (some 0) [])) ∧
      d.threads 2 = some (.shutdown (.done [])) ∧
      d.threads 3 = some (.acquire () (.done none [.closed]))) (by decide +kernel)
  obtain ⟨-, -, -, -, -, -, hclosed, -⟩ := endpoints_owned h
  exact ⟨_, d, h, h₁, h₂, h₃, hclosed 2 h₂⟩

/-- Between the return of `Create` and the critical section that installs it, an endpoint is
nobody's allocation and has not been closed. -/
theorem endpoint_in_hand :
    ∃ τ d ep, (program Unit).machine.Trace (init (new true)) τ d ∧
      d.shared.endpoints 0 = some ep ∧ ep.closeCalled = false ∧
      d.shared.allocations.lookup ep.key ≠ some 0 := by
  obtain ⟨d, h, hep, hal⟩ := (program Unit).machine.trace_of_any (init (new true))
    [.call 0 (.acquire () .start), .move 0 .go, .move 0 .go, .move 0 .go, .move 0 .go]
    (fun d => d.shared.endpoints 0 = some { key := () } ∧ d.shared.allocations.lookup () = none)
    (by decide +kernel)
  exact ⟨_, d, _, h, hep, rfl, by rw [hal]; simp⟩

end Pool

end Hostel.Network
