/-
# Hostel.McpProxy.Proxy — one Bed's pool of remote MCP connections.

A tool call takes an entry of the pool by its key, waits at the entry's gate, connects a client if
the entry has none, and uses it.  References to an entry are counted under the lock of the proxy;
the client is behind the gate.  An entry leaves the pool when it is evicted for a new one, reaped
after an idle time, or taken by `Close` with the whole pool, and whoever took it out closes its
client, behind the gate too.

`Close` cancels the calls, but a call that waits at a gate may win over its cancellation and connect
a client in an entry that `Close` has closed already.  What keeps that client from leaking is
`release`, which closes the entry once more when it finds the proxy closed.

Every critical section is one move, and so is every call of a client.  `acquire` makes at most one
entry and a call connects at most one client, so both are named by the call.  The context of a call
is read where the code reads it, and the outside world chooses whether it is done.

The gates, the flags and the clients are one proof outline (`outline`); the reference counts and the
duty to close are about all calls together (`Accounted`).
-/
import Hostel.Logic.Threads
import Hostel.Logic.FiniteMap

namespace Hostel.McpProxy

open Hostel.Logic Function Option FiniteMap

/-! ## The proxy -/

/-- An entry, named by the call whose `acquire` made it. -/
abbrev EntryId := ThreadId

/-- A client, named by the call that connected it. -/
abbrev ClientId := ThreadId

abbrev Time := Nat

structure ConnectionKey (ς : Type) where
  revision : ς
  digest : ς
  server : ς
  deriving DecidableEq, Repr

/-- `preparedBundle`, with the names of its servers. -/
structure PreparedBundle (ς : Type) where
  revision : ς
  digest : ς
  servers : List ς
  deriving DecidableEq, Repr

/-- `connection`; `gate` is the call whose token is in the channel.  The client and its `cancel`
function are set and cleared together. -/
structure Connection where
  gate : Option ThreadId := none
  client : Option ClientId := none
  refs : Nat
  used : Time
  deriving DecidableEq, Repr

/-- A client that `connect` made for an entry: whether its handshake succeeded, and whether `Close`
was called. -/
structure Client where
  entry : EntryId
  connected : Bool := false
  closed : Bool := false
  deriving DecidableEq, Repr

/-- `sync.Once`. -/
inductive Once
  | fresh
  | running (t : ThreadId)
  | finished
  deriving DecidableEq, Repr

/-- `closed` is the cancelled context of the proxy, `reaper` its goroutine and `reaped` the closed
channel `done`. -/
structure Proxy (ς : Type) where
  maxConnections : Nat
  idleTimeout : Time
  current : PreparedBundle ς
  connections : FiniteMap (ConnectionKey ς) EntryId := ∅
  entries : EntryId → Option Connection := fun _ => none
  clients : ClientId → Option Client := fun _ => none
  closed : Bool := false
  reaper : Option ThreadId := none
  reaped : Bool := false
  once : Once := .fresh

inductive ProxyError
  | invalid | notFound | capacity | closed | upstream
  /-- `ctx.Err()`. -/
  | context
  deriving DecidableEq, Repr

/-- `closeConnection`; `shut` has the gate and read the client. -/
inductive ShutPc
  | enter
  | shut (client : Option ClientId)
  | leave
  deriving DecidableEq

/-- A loop that closes entries taken out of the pool. -/
inductive DrainPc (ς : Type)
  | pick (rest : FiniteMap (ConnectionKey ς) EntryId)
  | shut (e : EntryId) (pc : ShutPc) (rest : FiniteMap (ConnectionKey ς) EntryId)

/-- `run`, with `acquire`, `connect` and `release`; its result is an error or none. -/
inductive RunPc (ς : Type)
  | start
  | acquire (k : ConnectionKey ς)
  | evict (e old : EntryId) (pc : ShutPc)
  | gate (e : EntryId)
  | check (e : EntryId)
  | connect (e : EntryId)
  | handshake (e : EntryId)
  | op (e : EntryId) (c : ClientId)
  | leave (e : EntryId) (err : Option ProxyError)
  | release (e : EntryId) (err : Option ProxyError)
  | shut (e : EntryId) (pc : ShutPc) (err : Option ProxyError)
  | done (err : Option ProxyError)
  deriving DecidableEq

inductive ConfigurePc
  | start
  | done (result : Except ProxyError Bool)

inductive ReapPc (ς : Type)
  | start
  | idle
  | drain (pc : DrainPc ς)
  | done

inductive ClosePc (ς : Type)
  | start
  | cancel
  | wait
  | take
  | drain (pc : DrainPc ς)
  | finish
  | done

inductive ProxyPc (ς β : Type)
  | run (name : ς) (bundle : Option β) (pc : RunPc ς)
  | configure (bundle : β) (pc : ConfigurePc)
  | reap (pc : ReapPc ς)
  | close (pc : ClosePc ς)

/-- What the outside world decides in a move: a context is done, a remote call fails, what the clock
says, and which entry a loop over a map takes next or ends with. -/
inductive ProxyChoice (ς : Type)
  | go
  | canceled
  | fail
  | now (now : Time)
  | victim (now : Time) (k : Option (ConnectionKey ς))
  | pick (k : ConnectionKey ς)
  deriving DecidableEq

namespace Proxy

variable {ς β : Type}

def setEntry (s : Proxy ς) (e : EntryId) (E : Connection) : Proxy ς :=
  { s with entries := update s.entries e (some E) }

def setClient (s : Proxy ς) (c : ClientId) (C : Client) : Proxy ς :=
  { s with clients := update s.clients c (some C) }

def idle (s : Proxy ς) (e : EntryId) : Bool := (s.entries e).any fun E => E.refs = 0

def used (s : Proxy ς) (e : EntryId) : Time := ((s.entries e).map Connection.used).getD 0

def refs (s : Proxy ς) (e : EntryId) : Option Nat := (s.entries e).map Connection.refs

/-- What the reaper takes out at a tick. -/
def stale (s : Proxy ς) (now : Time) (e : EntryId) : Bool :=
  s.idle e && decide (s.used e + s.idleTimeout ≤ now)

section

variable [DecidableEq ς]

/-- The entry `acquire` may evict: nobody refers to it, and no other such entry was used before
it. -/
def oldest (s : Proxy ς) (k : ConnectionKey ς) : Option EntryId :=
  (s.connections.lookup k).filter fun e =>
    s.idle e && s.connections.values.all fun e' => !s.idle e' || decide (s.used e ≤ s.used e')

/-- A new entry in the pool, with one reference. -/
def add (s : Proxy ς) (e : EntryId) (k : ConnectionKey ς) (now : Time) : Proxy ς :=
  { s.setEntry e { refs := 1, used := now } with connections := s.connections.insert k e }

/-! ## The calls -/

/-- The gate of an entry, when it is free; the second component is the client behind it. -/
def enter (s : Proxy ς) (t : ThreadId) (e : EntryId) : Option (Proxy ς × Option ClientId) :=
  match s.entries e with
  | none => none
  | some E =>
    if E.gate = none then some (s.setEntry e { E with gate := some t }, E.client) else none

def leave (s : Proxy ς) (e : EntryId) : Option (Proxy ς) :=
  (s.entries e).map fun E => s.setEntry e { E with gate := none }

/-- `entry.cancel()`, `entry.client.Close()` and `entry.client = nil`. -/
def closeClient (s : Proxy ς) (e : EntryId) (c : ClientId) : Option (Proxy ς) :=
  match s.entries e, s.clients c with
  | some E, some C =>
    some ((s.setEntry e { E with client := none }).setClient c { C with closed := true })
  | _, _ => none

/-- `closeConnection`; it has returned when there is no next counter. -/
def shutStep (t : ThreadId) (s : Proxy ς) (e : EntryId) :
    ShutPc → ProxyChoice ς → Option (Proxy ς × Option ShutPc)
  | .enter, .go => (s.enter t e).map fun r => (r.1, some (.shut r.2))
  | .shut none, .go => some (s, some .leave)
  | .shut (some c), .go => (s.closeClient e c).map fun s' => (s', some .leave)
  | .leave, .go => (s.leave e).map fun s' => (s', none)
  | _, _ => none

def drainStep (t : ThreadId) (s : Proxy ς) : DrainPc ς → ProxyChoice ς →
    Option (Proxy ς × Option (DrainPc ς))
  | .pick rest, .pick k => (rest.lookup k).map fun e => (s, some (.shut e .enter (rest.erase k)))
  | .pick rest, .go => if rest.entries.isEmpty then some (s, none) else none
  | .shut e pc rest, x =>
    (shutStep t s e pc x).map fun r =>
      (r.1, some (match r.2 with
        | some pc' => .shut e pc' rest
        | none => .pick rest))
  | _, _ => none

/-- `acquire`, up to `closeConnection(evicted)`. -/
def acquireStep (t : ThreadId) (s : Proxy ς) (k : ConnectionKey ς) (now : Time)
    (victim : Option (ConnectionKey ς)) : Option (Proxy ς × RunPc ς) :=
  if s.closed then some (s, .done (some .closed))
  else match s.connections.lookup k with
    | some e => (s.entries e).map fun E => (s.setEntry e { E with refs := E.refs + 1 }, .gate e)
    | none =>
      if s.connections.size < s.maxConnections then some (s.add t k now, .gate t)
      else match victim with
        | none =>
          if s.connections.values.all (fun e => !s.idle e) then
            some (s, .done (some .capacity)) else none
        | some v =>
          (s.oldest v).map fun old =>
            (add { s with connections := s.connections.erase v } t k now, .evict t old .enter)

/-- The error of a remote call that failed, or whose context was done. -/
def failure : ProxyChoice ς → Option ProxyError
  | .fail => some .upstream
  | .canceled => some .context
  | _ => none

/-- `prepare` is whatever accepts and names bundles. -/
def runStep (prepare : β → Nat → Option (PreparedBundle ς)) (t : ThreadId) (s : Proxy ς) (name : ς)
    (bundle : Option β) : RunPc ς → ProxyChoice ς → Option (Proxy ς × RunPc ς)
  | .start, .go =>
    if s.closed then some (s, .done (some .closed))
    else match bundle.elim (some s.current) (prepare · s.maxConnections) with
      | none => some (s, .done (some .invalid))
      | some selected =>
        if selected.servers.contains name then
          some (s, .acquire ⟨selected.revision, selected.digest, name⟩)
        else some (s, .done (some .notFound))
  | .acquire k, .victim now victim => acquireStep t s k now victim
  | .evict e old pc, x =>
    (shutStep t s old pc x).map fun r =>
      (r.1, match r.2 with
        | some pc' => .evict e old pc'
        | none => .gate e)
  | .gate e, .go => (s.enter t e).map fun r => (r.1, .check e)
  | .gate e, .canceled => some (s, .release e (some .context))
  | .check e, .canceled => some (s, .leave e (some .context))
  | .check e, .go =>
    (s.entries e).map fun E =>
      (s, match E.client with
        | some c => .op e c
        | none => .connect e)
  | .connect e, .go => some (s.setClient t { entry := e }, .handshake e)
  | .connect e, x => (failure x).map fun err => (s, .leave e (some err))
  | .handshake e, .go =>
    (s.entries e).map fun E =>
      ((s.setEntry e { E with client := some t }).setClient t { entry := e, connected := true },
        .op e t)
  | .handshake e, x =>
    (failure x).map fun err => (s.setClient t { entry := e, closed := true }, .leave e (some err))
  | .op e _, .go => some (s, .leave e none)
  | .op e c, x => (failure x).bind fun err => (s.closeClient e c).map fun s' =>
    (s', .leave e (some err))
  | .leave e err, .go => (s.leave e).map fun s' => (s', .release e err)
  | .release e err, .now now =>
    (s.entries e).map fun E =>
      (s.setEntry e { E with refs := E.refs - 1, used := now },
        if s.closed then .shut e .enter err else .done err)
  | .shut e pc err, x =>
    (shutStep t s e pc x).map fun r =>
      (r.1, match r.2 with
        | some pc' => .shut e pc' err
        | none => .done err)
  | _, _ => none

def configureStep (prepare : β → Nat → Option (PreparedBundle ς)) (s : Proxy ς) (bundle : β) :
    ConfigurePc → ProxyChoice ς → Option (Proxy ς × ConfigurePc)
  | .start, .go =>
    match prepare bundle s.maxConnections with
    | none => some (s, .done (.error .invalid))
    | some prepared =>
      if s.closed then some (s, .done (.error .closed))
      else some ({ s with current := prepared }, .done (.ok
        (!decide (s.current.revision = prepared.revision) ||
        !decide (s.current.digest = prepared.digest))))
  | _, _ => none

/-- `reap`; `New` starts one goroutine. -/
def reapStep (t : ThreadId) (s : Proxy ς) : ReapPc ς → ProxyChoice ς → Option (Proxy ς × ReapPc ς)
  | .start, .go => if s.reaper = none then some ({ s with reaper := some t }, .idle) else none
  | .idle, .canceled => if s.closed then some ({ s with reaped := true }, .done) else none
  | .idle, .now now =>
    some ({ s with connections := s.connections.filter fun _ e => !s.stale now e },
      .drain (.pick (s.connections.filter fun _ e => s.stale now e)))
  | .drain pc, x =>
    (drainStep t s pc x).map fun r =>
      (r.1, match r.2 with
        | some pc' => .drain pc'
        | none => .idle)
  | _, _ => none

def closeStep [Inhabited ς] (t : ThreadId) (s : Proxy ς) : ClosePc ς → ProxyChoice ς →
    Option (Proxy ς × ClosePc ς)
  | .start, .go =>
    match s.once with
    | .fresh => some ({ s with once := .running t }, .cancel)
    | .running _ => none
    | .finished => some (s, .done)
  | .cancel, .go => some ({ s with closed := true }, .wait)
  | .wait, .go => if s.reaped then some (s, .take) else none
  | .take, .go =>
    some ({ s with connections := ∅, current := ⟨default, default, []⟩ },
      .drain (.pick s.connections))
  | .drain pc, x =>
    (drainStep t s pc x).map fun r =>
      (r.1, match r.2 with
        | some pc' => .drain pc'
        | none => .finish)
  | .finish, .go => some ({ s with once := .finished }, .done)
  | _, _ => none

def program [Inhabited ς] (prepare : β → Nat → Option (PreparedBundle ς)) :
    Program (Proxy ς) (ProxyPc ς β) (ProxyChoice ς) Empty where
  entry
    | .run _ _ .start | .configure _ .start | .reap .start | .close .start => true
    | _ => false
  move t s pc x :=
    match pc with
    | .run name bundle pc => (runStep prepare t s name bundle pc x).map fun r =>
      (r.1, .run name bundle r.2)
    | .configure bundle pc => (configureStep prepare s bundle pc x).map fun r =>
      (r.1, .configure bundle r.2)
    | .reap pc => (reapStep t s pc x).map fun r => (r.1, .reap r.2)
    | .close pc => (closeStep t s pc x).map fun r => (r.1, .close r.2)
  world _ e := e.elim

/-- `New`, with its defaults: 32 connections, and five minutes in nanoseconds. -/
def new [Inhabited ς] (maxConnections idleTimeout : Int) : Proxy ς where
  maxConnections := if maxConnections ≤ 0 then 32 else maxConnections.toNat
  idleTimeout := if idleTimeout ≤ 0 then 300000000000 else idleTimeout.toNat
  current := ⟨default, default, []⟩

end

/-! ## What a move can do -/

/-- The clients, but for those of the call `t`, change only by being closed after they were
connected. -/
structure Calm (t : Option ThreadId) (s s' : Proxy ς) : Prop where
  client : ∀ c C, some c ≠ t → s.clients c = some C →
    s'.clients c = some C ∨ C.connected = true ∧ s'.clients c = some { C with closed := true }
  fresh : ∀ c, some c ≠ t → s.clients c = none → s'.clients c = none

/-- Everything a move of `t` can do to the flags that another call could notice. -/
structure Flags (t : ThreadId) (s s' : Proxy ς) : Prop where
  max : s'.maxConnections = s.maxConnections
  closed : s.closed = true → s'.closed = true
  reaper : ∀ u, u ≠ t → s.reaper = some u → s'.reaper = some u ∧ s'.reaped = s.reaped
  reaped : s.reaped = true → s'.reaped = true
  running : ∀ u, u ≠ t → s.once = .running u → s'.once = .running u
  finished : s.once = .finished → s'.once = .finished
  emptied : s.closed = true → s.connections = ∅ → s'.connections = ∅

/-- Everything a move of `t` can do that another call could notice. -/
structure Guarantee (t : ThreadId) (s s' : Proxy ς) : Prop where
  /-- An entry stays, and while another call is behind its gate, so do the gate and the client. -/
  entry : ∀ e E, s.entries e = some E → ∃ E', s'.entries e = some E' ∧
    ∀ u, u ≠ t → E.gate = some u → E'.gate = some u ∧ E'.client = E.client
  freshEntry : ∀ u, u ≠ t → s.entries u = none → s'.entries u = none
  calm : Calm (some t) s s'
  flags : Flags t s s'

variable {s s' : Proxy ς} {t u : ThreadId} {e : EntryId} {c : ClientId}
  {E E' : Connection} {C : Client}

theorem Calm.of_eq {t : Option ThreadId} (h : s'.clients = s.clients) : Calm t s s' where
  client _ _ _ hC := .inl (h ▸ hC)
  fresh _ _ hc := h ▸ hc

theorem Calm.but (h : Calm none s s') : Calm (some t) s s' where
  client c C _ hC := h.client c C (by simp) hC
  fresh c _ hc := h.fresh c (by simp) hc

theorem Calm.setClient (h : Calm (some t) s s') : Calm (some t) s (s'.setClient t C) := by
  have hothers : ∀ c, some c ≠ some t → (s'.setClient t C).clients c = s'.clients c := fun c hc =>
    update_of_ne (fun hct => hc (congrArg some hct)) ..
  constructor
  · intro c D hc hD
    rw [hothers c hc]
    exact h.client c D hc hD
  · intro c hc hnone
    rw [hothers c hc]
    exact h.fresh c hc hnone

theorem Flags.of_eq (hmax : s'.maxConnections = s.maxConnections) (hclosed : s'.closed = s.closed)
    (hreaper : s'.reaper = s.reaper) (hreaped : s'.reaped = s.reaped) (honce : s'.once = s.once)
    (hemptied : s.closed = true → s.connections = ∅ → s'.connections = ∅) : Flags t s s' where
  max := hmax
  closed h := hclosed ▸ h
  reaper _ _ h := ⟨hreaper ▸ h, hreaped⟩
  reaped h := hreaped ▸ h
  running _ _ h := honce ▸ h
  finished h := honce ▸ h
  emptied := hemptied

theorem Guarantee.of_flags (hentries : s'.entries = s.entries) (hclients : s'.clients = s.clients)
    (hflags : Flags t s s') : Guarantee t s s' where
  entry _ E hE := ⟨E, hentries ▸ hE, fun _ _ hu => ⟨hu, rfl⟩⟩
  freshEntry _ _ hu := hentries ▸ hu
  calm := .of_eq hclients
  flags := hflags

theorem Guarantee.refl : Guarantee t s s :=
  .of_flags rfl rfl (.of_eq rfl rfl rfl rfl rfl fun _ => id)

theorem Guarantee.setEntry (hE : s.entries e = some E)
    (hgate : ∀ u, u ≠ t → E.gate = some u → E'.gate = some u ∧ E'.client = E.client) :
    Guarantee t s (s.setEntry e E') where
  entry f F hF := by
    refine exists_update hF ?_ fun _ u _ hu => ⟨hu, rfl⟩
    rintro rfl
    cases hE.symm.trans hF
    exact hgate
  freshEntry u _ hnone := update_eq_none hE hnone
  calm := .of_eq rfl
  flags := .of_eq rfl rfl rfl rfl rfl fun _ h => h

theorem Guarantee.setClient (h : Guarantee t s s') : Guarantee t s (s'.setClient t C) where
  entry := h.entry
  freshEntry := h.freshEntry
  calm := h.calm.setClient
  flags := ⟨h.flags.max, h.flags.closed, h.flags.reaper, h.flags.reaped, h.flags.running,
    h.flags.finished, h.flags.emptied⟩

/-! ## The outline -/

structure Inv [DecidableEq ς] (s : Proxy ς) : Prop where
  size : s.connections.size ≤ s.maxConnections
  pooled : ∀ k e, s.connections.lookup k = some e → ∃ E, s.entries e = some E
  /-- An entry is in the pool once. -/
  key : ∀ k j e, s.connections.lookup k = some e → s.connections.lookup j = some e → k = j
  /-- The client of an entry is connected and open. -/
  client : ∀ e E c, s.entries e = some E → E.client = some c →
    s.clients c = some { entry := e, connected := true }
  /-- A client that was connected is closed, or the client of its entry. -/
  connected : ∀ c C, s.clients c = some C → C.connected = true → C.closed = false →
    ∃ E, s.entries C.entry = some E ∧ E.client = some c
  unreaped : s.reaper = none → s.reaped = false
  finished : s.once = .finished → s.closed = true ∧ s.reaped = true ∧ s.connections = ∅

def Known (s : Proxy ς) (e : EntryId) : Prop := ∃ E, s.entries e = some E

/-- `t` is behind the gate of the entry, whose client is `client`. -/
def Held (s : Proxy ς) (t : ThreadId) (e : EntryId) (client : Option ClientId) : Prop :=
  ∃ E, s.entries e = some E ∧ E.gate = some t ∧ E.client = client

/-- The handshake of the client that `t` made, if it made one, is over. -/
def Joined (s : Proxy ς) (t : ThreadId) : Prop :=
  ∀ C, s.clients t = some C → C.connected = true ∨ C.closed = true

def Shutting (t : ThreadId) (s : Proxy ς) (e : EntryId) : ShutPc → Prop
  | .enter => s.Known e
  | .shut client => s.Held t e client
  | .leave => s.Held t e none

def Draining [DecidableEq ς] (t : ThreadId) (s : Proxy ς) : DrainPc ς → Prop
  | .pick rest => ∀ k e, rest.lookup k = some e → s.Known e
  | .shut e pc rest => Shutting t s e pc ∧ ∀ k e, rest.lookup k = some e → s.Known e

def Running (t : ThreadId) (s : Proxy ς) : RunPc ς → Prop
  | .start | .acquire _ => s.entries t = none ∧ s.clients t = none
  | .evict e old pc => s.clients t = none ∧ s.Known e ∧ Shutting t s old pc
  | .gate e => s.clients t = none ∧ s.Known e
  | .check e => s.clients t = none ∧ ∃ client, s.Held t e client
  | .connect e => s.clients t = none ∧ s.Held t e none
  | .handshake e => s.clients t = some { entry := e } ∧ s.Held t e none
  | .op e c => s.Joined t ∧ s.Held t e (some c)
  | .leave e _ => s.Joined t ∧ ∃ client, s.Held t e client
  | .release e _ => s.Joined t ∧ s.Known e
  | .shut e pc _ => s.Joined t ∧ Shutting t s e pc
  | .done _ => s.Joined t

def Reaping [DecidableEq ς] (t : ThreadId) (s : Proxy ς) : ReapPc ς → Prop
  | .start | .done => True
  | .idle => s.reaper = some t ∧ s.reaped = false
  | .drain pc => (s.reaper = some t ∧ s.reaped = false) ∧ Draining t s pc

def Ending [DecidableEq ς] (t : ThreadId) (s : Proxy ς) : ClosePc ς → Prop
  | .start => True
  | .cancel => s.once = .running t
  | .wait => s.once = .running t ∧ s.closed = true
  | .take => s.once = .running t ∧ s.closed = true ∧ s.reaped = true
  | .drain pc => (s.once = .running t ∧ s.closed = true ∧ s.reaped = true ∧ s.connections = ∅) ∧
    Draining t s pc
  | .finish => s.once = .running t ∧ s.closed = true ∧ s.reaped = true ∧ s.connections = ∅
  | .done => s.once = .finished

def Asserts [DecidableEq ς] (t : ThreadId) (s : Proxy ς) : Option (ProxyPc ς β) → Prop
  | none => s.entries t = none ∧ s.clients t = none
  | some (.run _ _ pc) => Running t s pc
  | some (.configure _ _) => s.clients t = none
  | some (.reap pc) => s.clients t = none ∧ Reaping t s pc
  | some (.close pc) => s.clients t = none ∧ Ending t s pc

/-! ### What the others leave alone -/

theorem Joined.of_none (h : s.clients t = none) : s.Joined t := fun C hC => by
  rw [h] at hC
  cases hC

theorem Joined.calm {v : Option ThreadId} (h : s.Joined t) (hcalm : Calm v s s')
    (htv : some t ≠ v) : s'.Joined t := by
  intro C' hC'
  cases hC : s.clients t with
  | none =>
    rw [hcalm.fresh t htv hC] at hC'
    cases hC'
  | some C =>
    rcases hcalm.client t C htv hC with hsame | ⟨-, hclosed⟩
    · rw [hsame, some.injEq] at hC'
      exact hC' ▸ h C hC
    · rw [hclosed, some.injEq] at hC'
      exact .inr (hC' ▸ rfl)

section Other

variable (G : Guarantee t s s') (hut : u ≠ t)
include G

theorem Known.after (h : s.Known e) : s'.Known e := by
  obtain ⟨E, hE⟩ := h
  obtain ⟨E', hE', -⟩ := G.entry e E hE
  exact ⟨E', hE'⟩

include hut

theorem Held.other {client : Option ClientId} (h : s.Held u e client) : s'.Held u e client := by
  obtain ⟨E, hE, hgate, hclient⟩ := h
  obtain ⟨E', hE', hkept⟩ := G.entry e E hE
  exact ⟨E', hE', (hkept u hut hgate).1, (hkept u hut hgate).2.trans hclient⟩

theorem Shutting.other {pc : ShutPc} (h : Shutting u s e pc) : Shutting u s' e pc := by
  cases pc with
  | enter => exact Known.after G h
  | shut client | leave => exact Held.other G hut h

theorem Draining.other [DecidableEq ς] {pc : DrainPc ς} (h : Draining u s pc) :
    Draining u s' pc := by
  cases pc with
  | pick rest => exact fun k e he => Known.after G (h k e he)
  | shut e pc rest => exact ⟨h.1.other G hut, fun k e he => Known.after G (h.2 k e he)⟩

theorem Running.other {pc : RunPc ς} (h : Running u s pc) : Running u s' pc := by
  have hsu : some u ≠ some t := fun h => hut (some.inj h)
  have hnone : s.clients u = none → s'.clients u = none := G.calm.fresh u hsu
  have hjoined : s.Joined u → s'.Joined u := fun h => h.calm G.calm hsu
  cases pc with
  | start | acquire k => exact ⟨G.freshEntry u hut h.1, hnone h.2⟩
  | evict e old pc => exact ⟨hnone h.1, Known.after G h.2.1, h.2.2.other G hut⟩
  | gate e => exact ⟨hnone h.1, Known.after G h.2⟩
  | check e => exact ⟨hnone h.1, h.2.imp fun client => Held.other G hut⟩
  | connect e => exact ⟨hnone h.1, Held.other G hut h.2⟩
  | handshake e =>
    refine ⟨?_, Held.other G hut h.2⟩
    -- a client that is not connected yet is its maker's alone
    rcases G.calm.client u _ hsu h.1 with hsame | ⟨hconnected, -⟩
    · exact hsame
    · cases hconnected
  | op e c => exact ⟨hjoined h.1, Held.other G hut h.2⟩
  | leave e err => exact ⟨hjoined h.1, h.2.imp fun client => Held.other G hut⟩
  | release e err => exact ⟨hjoined h.1, Known.after G h.2⟩
  | shut e pc err => exact ⟨hjoined h.1, h.2.other G hut⟩
  | done err => exact hjoined h

theorem Reaping.other [DecidableEq ς] {pc : ReapPc ς} (h : Reaping u s pc) : Reaping u s' pc := by
  have hflags : s.reaper = some u ∧ s.reaped = false → s'.reaper = some u ∧ s'.reaped = false :=
    fun h =>
    ⟨(G.flags.reaper u hut h.1).1, (G.flags.reaper u hut h.1).2.trans h.2⟩
  cases pc with
  | start => trivial
  | idle => exact hflags h
  | drain pc => exact ⟨hflags h.1, h.2.other G hut⟩
  | done => trivial

theorem Ending.other [DecidableEq ς] {pc : ClosePc ς} (h : Ending u s pc) : Ending u s' pc := by
  have F := G.flags
  cases pc with
  | start => trivial
  | cancel => exact F.running u hut h
  | wait => exact ⟨F.running u hut h.1, F.closed h.2⟩
  | take => exact ⟨F.running u hut h.1, F.closed h.2.1, F.reaped h.2.2⟩
  | drain pc =>
    obtain ⟨⟨honce, hclosed, hreaped, hempty⟩, hpc⟩ := h
    exact ⟨⟨F.running u hut honce, F.closed hclosed, F.reaped hreaped, F.emptied hclosed hempty⟩,
      hpc.other G hut⟩
  | finish =>
    obtain ⟨honce, hclosed, hreaped, hempty⟩ := h
    exact ⟨F.running u hut honce, F.closed hclosed, F.reaped hreaped, F.emptied hclosed hempty⟩
  | done => exact F.finished h

theorem Asserts.other [DecidableEq ς] {pc : Option (ProxyPc ς β)} (h : Asserts u s pc) :
    Asserts u s' pc := by
  have hsu : some u ≠ some t := fun h => hut (some.inj h)
  match pc, h with
  | none, h => exact ⟨G.freshEntry u hut h.1, G.calm.fresh u hsu h.2⟩
  | some (.run _ _ pc), h => exact Running.other G hut h
  | some (.configure _ _), h => exact G.calm.fresh u hsu h
  | some (.reap pc), h | some (.close pc), h => exact ⟨G.calm.fresh u hsu h.1, h.2.other G hut⟩

end Other

/-! ### Writes that keep the invariant -/

variable {k : ConnectionKey ς}

theorem setEntry_self : (s.setEntry e E').entries e = some E' := update_self ..

theorem setEntry_of_ne {f : EntryId} (h : f ≠ e) : (s.setEntry e E').entries f = s.entries f :=
  update_of_ne h ..

theorem setClient_self : (s.setClient c C).clients c = some C := update_self ..

theorem setClient_of_ne {d : ClientId} (h : d ≠ c) : (s.setClient c C).clients d = s.clients d :=
  update_of_ne h ..

theorem Known.setEntry {f : EntryId} (h : s.Known f) : (s.setEntry e E').Known f := by
  by_cases hfe : f = e
  · subst hfe
    exact ⟨E', setEntry_self⟩
  · exact h.imp fun F hF => (setEntry_of_ne hfe).trans hF

section

variable [DecidableEq ς] (hI : Inv s)
include hI

theorem Inv.setEntry (hE : s.entries e = some E) (hclient : E'.client = E.client) :
    Inv (s.setEntry e E') where
  size := hI.size
  pooled k f hf := Known.setEntry (hI.pooled k f hf)
  key := hI.key
  client f F c hF hc := by
    obtain ⟨rfl, rfl⟩ | ⟨-, hF⟩ := update_eq_some.mp hF
    · exact hI.client f E c hE (hclient ▸ hc)
    · exact hI.client f F c hF hc
  connected c C hC hconnected hopen := by
    obtain ⟨F, hF, hc⟩ := hI.connected c C hC hconnected hopen
    by_cases hfe : C.entry = e
    · rw [hfe, hE, some.injEq] at hF
      subst hF
      exact ⟨E', hfe ▸ setEntry_self, hclient.trans hc⟩
    · exact ⟨F, (setEntry_of_ne hfe).trans hF, hc⟩
  unreaped := hI.unreaped
  finished := hI.finished

theorem Inv.restrict {m : FiniteMap (ConnectionKey ς) EntryId}
    (hm : ∀ k e, m.lookup k = some e → s.connections.lookup k = some e)
    (hsize : m.size ≤ s.connections.size) (hempty : s.connections = ∅ → m = ∅) :
    Inv { s with connections := m } where
  size := Nat.le_trans hsize hI.size
  pooled k e he := hI.pooled k e (hm k e he)
  key k j e hk hj := hI.key k j e (hm k e hk) (hm j e hj)
  client := hI.client
  connected := hI.connected
  unreaped := hI.unreaped
  finished h := ⟨(hI.finished h).1, (hI.finished h).2.1, hempty (hI.finished h).2.2⟩

theorem Inv.add (ht : s.entries t = none) (hsize : s.connections.size < s.maxConnections)
    (hopen : s.closed = false) {now : Time} : Inv (s.add t k now) where
  size := Nat.le_trans size_insert_le hsize
  pooled j e he := by
    obtain ⟨-, rfl⟩ | ⟨-, he⟩ := insert_eq_some.mp he
    · exact ⟨_, setEntry_self⟩
    · exact Known.setEntry (hI.pooled j e he)
  key j i e hj hi := by
    have hnew : ∀ j, s.connections.lookup j ≠ some t := by
      intro j hj
      obtain ⟨E, hE⟩ := hI.pooled j t hj
      rw [ht] at hE
      cases hE
    obtain ⟨hjk, hj⟩ | ⟨-, hj⟩ := insert_eq_some.mp hj <;>
      obtain ⟨hik, hi⟩ | ⟨-, hi⟩ := insert_eq_some.mp hi
    · exact hjk.trans hik.symm
    · exact absurd (hj ▸ hi) (hnew i)
    · exact absurd (hi ▸ hj) (hnew j)
    · exact hI.key j i e hj hi
  client e E c hE hc := by
    obtain ⟨-, rfl⟩ | ⟨-, hE⟩ := update_eq_some.mp hE
    · cases hc
    · exact hI.client e E c hE hc
  connected c C hC hconnected hC' := by
    obtain ⟨E, hE, hc⟩ := hI.connected c C hC hconnected hC'
    have het : C.entry ≠ t := by
      intro het
      rw [het, ht] at hE
      cases hE
    exact ⟨E, (setEntry_of_ne het).trans hE, hc⟩
  unreaped := hI.unreaped
  finished h := by
    have hclosed := (hI.finished h).1
    rw [hopen] at hclosed
    cases hclosed

theorem Inv.setClient (hold : ∀ C, s.clients t = some C → C.connected = false)
    (hnew : C.connected = false) : Inv (s.setClient t C) where
  size := hI.size
  pooled := hI.pooled
  key := hI.key
  client e E c hE hc := by
    have hopen := hI.client e E c hE hc
    have hct : c ≠ t := by
      rintro rfl
      cases hold _ hopen
    exact (setClient_of_ne hct).trans hopen
  connected c D hD hconnected hopen := by
    obtain ⟨-, rfl⟩ | ⟨-, hD⟩ := update_eq_some.mp hD
    · rw [hnew] at hconnected
      cases hconnected
    · exact hI.connected c D hD hconnected hopen
  unreaped := hI.unreaped
  finished := hI.finished

theorem Inv.store (hE : s.entries e = some E) (hnone : E.client = none)
    (hold : s.clients t = some { entry := e }) :
    Inv ((s.setEntry e { E with client := some t }).setClient t
      { entry := e, connected := true }) where
  size := hI.size
  pooled k f hf := Known.setEntry (hI.pooled k f hf)
  key := hI.key
  client f F c hF hc := by
    obtain ⟨rfl, rfl⟩ | ⟨-, hF⟩ := update_eq_some.mp hF
    · cases hc
      exact setClient_self
    · have hopen := hI.client f F c hF hc
      have hct : c ≠ t := by
        rintro rfl
        rw [hold] at hopen
        cases hopen
      exact (setClient_of_ne hct).trans hopen
  connected c C hC hconnected hopen := by
    obtain ⟨rfl, rfl⟩ | ⟨-, hC⟩ := update_eq_some.mp hC
    · exact ⟨_, setEntry_self, rfl⟩
    · obtain ⟨F, hF, hc⟩ := hI.connected c C hC hconnected hopen
      have hfe : C.entry ≠ e := by
        intro hfe
        rw [hfe, hE, some.injEq] at hF
        rw [← hF, hnone] at hc
        cases hc
      exact ⟨F, (setEntry_of_ne hfe).trans hF, hc⟩
  unreaped := hI.unreaped
  finished := hI.finished

theorem Inv.closed (hE : s.entries e = some E) (hc : E.client = some c) (hC : C.closed = true) :
    Inv ((s.setEntry e { E with client := none }).setClient c C) where
  size := hI.size
  pooled k f hf := Known.setEntry (hI.pooled k f hf)
  key := hI.key
  client f F d hF hd := by
    obtain ⟨-, rfl⟩ | ⟨hfe, hF⟩ := update_eq_some.mp hF
    · cases hd
    have hopen := hI.client f F d hF hd
    have hdc : d ≠ c := by
      rintro rfl
      rw [hI.client e E d hE hc, some.injEq, Client.mk.injEq] at hopen
      exact hfe hopen.1.symm
    exact (setClient_of_ne hdc).trans hopen
  connected d D hD hconnected hopen := by
    obtain ⟨-, rfl⟩ | ⟨hdc, hD⟩ := update_eq_some.mp hD
    · rw [hC] at hopen
      cases hopen
    obtain ⟨F, hF, hd⟩ := hI.connected d D hD hconnected hopen
    have hfe : D.entry ≠ e := by
      intro hfe
      rw [hfe, hE, some.injEq] at hF
      rw [← hF, hc, some.injEq] at hd
      exact hdc hd.symm
    exact ⟨F, (setEntry_of_ne hfe).trans hF, hd⟩
  unreaped := hI.unreaped
  finished := hI.finished

end

/-! ### Moves behind a gate -/

/-- No entry gets a client. -/
def Sheds (s s' : Proxy ς) : Prop :=
  ∀ e E' c, s'.entries e = some E' → E'.client = some c → ∃ E, s.entries e = some E ∧
    E.client = some c

theorem Sheds.of_eq (h : s'.entries = s.entries) : Sheds s s' := fun _ E _ hE hc => ⟨E, h ▸ hE, hc⟩

theorem Sheds.setEntry (hE : s.entries e = some E)
    (hclient : E'.client = none ∨ E'.client = E.client) : Sheds s (s.setEntry e E') := by
  intro f F c hF hc
  obtain ⟨rfl, rfl⟩ | ⟨-, hF⟩ := update_eq_some.mp hF
  · rcases hclient with hnone | hsame
    · rw [hnone] at hc
      cases hc
    · exact ⟨E, hE, hsame ▸ hc⟩
  · exact ⟨F, hF, hc⟩

/-- A move behind a gate that connects no client: nothing that the lock of the proxy protects
changes, and no flag does. -/
structure Behind (s s' : Proxy ς) : Prop where
  connections : s'.connections = s.connections
  closed : s'.closed = s.closed
  reaper : s'.reaper = s.reaper
  reaped : s'.reaped = s.reaped
  once : s'.once = s.once
  refs : ∀ f, s'.refs f = s.refs f
  sheds : Sheds s s'

theorem Behind.refl : Behind s s := ⟨rfl, rfl, rfl, rfl, rfl, fun _ => rfl, .of_eq rfl⟩

theorem refs_setEntry (f : EntryId) :
    (s.setEntry e E').refs f = if f = e then some E'.refs else s.refs f := by
  split
  · next h =>
    subst h
    rw [refs, setEntry_self, map_some]
  · next h => rw [refs, setEntry_of_ne h, refs]

theorem Behind.setEntry (hE : s.entries e = some E) (hrefs : E'.refs = E.refs)
    (hclient : E'.client = none ∨ E'.client = E.client) : Behind s (s.setEntry e E') where
  connections := rfl
  closed := rfl
  reaper := rfl
  reaped := rfl
  once := rfl
  refs f := by
    rw [refs_setEntry]
    split
    · next h => rw [h, hrefs, Proxy.refs, hE, map_some]
    · rfl
  sheds := .setEntry hE hclient

theorem Behind.setClient (h : Behind s s') : Behind s (s'.setClient c C) :=
  ⟨h.connections, h.closed, h.reaper, h.reaped, h.once, h.refs, h.sheds⟩

/-! ### What a mover reaches -/

variable [DecidableEq ς]

/-- What a move of `t` from an outlined state leads to: the invariant, the next assertion and the
guarantee. -/
abbrev Leads (t : ThreadId) (s s' : Proxy ς) (next : Prop) : Prop :=
  Inv s' ∧ Guarantee t s s' ∧ next

theorem enter_own (hI : Inv s) {r : Proxy ς × Option ClientId} (h : s.enter t e = some r) :
    Leads t s r.1 (Behind s r.1 ∧ r.1.clients = s.clients ∧ r.1.Held t e r.2) := by
  unfold enter at h
  split at h
  · cases h
  next E hE =>
  obtain ⟨hfree, h⟩ := ite_none_right_eq_some.mp h
  cases h
  refine ⟨hI.setEntry hE rfl, .setEntry hE fun u _ hu => ?_, .setEntry hE rfl (.inr rfl), rfl, _,
    setEntry_self, rfl, rfl⟩
  rw [hfree] at hu
  cases hu

theorem leave_own (hI : Inv s) {client : Option ClientId} (hheld : s.Held t e client)
    (h : s.leave e = some s') :
    Leads t s s' (Behind s s' ∧ s'.clients = s.clients ∧ s'.Known e) := by
  obtain ⟨E, hE, hgate, -⟩ := hheld
  rw [leave, hE, map_some, some.injEq] at h
  subst h
  exact ⟨hI.setEntry hE rfl, .setEntry hE fun _ => held_alone hgate, .setEntry hE rfl (.inr rfl),
    rfl, _, setEntry_self⟩

theorem closeClient_own (hI : Inv s) (hheld : s.Held t e (some c))
    (h : s.closeClient e c = some s') :
    Leads t s s' (Behind s s' ∧ Calm none s s' ∧ s'.Held t e none) := by
  obtain ⟨E, hE, hgate, hc⟩ := hheld
  have hopen := hI.client e E c hE hc
  rw [closeClient, hE, hopen] at h
  cases h
  have hcalm : Calm none s ((s.setEntry e { E with client := none }).setClient c
      { entry := e, connected := true, closed := true }) := by
    constructor
    · intro d D _ hD
      by_cases hdc : d = c
      · subst hdc
        rw [hopen, some.injEq] at hD
        subst hD
        exact .inr ⟨rfl, setClient_self⟩
      · exact .inl ((setClient_of_ne hdc).trans hD)
    · exact fun d _ hnone => update_eq_none hopen hnone
  have hentry : Guarantee t s (s.setEntry e { E with client := none }) := .setEntry hE
    fun _ => held_alone hgate
  refine ⟨hI.closed hE hc rfl, ⟨hentry.entry, hentry.freshEntry, hcalm.but, ?_⟩,
    Behind.setClient (.setEntry hE rfl (.inl rfl)), hcalm, _, setEntry_self, hgate, rfl⟩
  exact .of_eq rfl rfl rfl rfl rfl fun _ h => h

theorem shut_own (hI : Inv s) {pc : ShutPc} {x : ProxyChoice ς} {r : Proxy ς × Option ShutPc}
    (hpc : Shutting t s e pc) (h : shutStep t s e pc x = some r) :
    Leads t s r.1 (Behind s r.1 ∧ Calm none s r.1 ∧ ∀ pc', r.2 = some pc' →
      Shutting t r.1 e pc') := by
  unfold shutStep at h
  split at h
  · obtain ⟨q, hq, rfl⟩ := map_eq_some_iff.mp h
    obtain ⟨hI', G, B, hclients, hheld⟩ := enter_own hI hq
    exact ⟨hI', G, B, .of_eq hclients, fun _ hr => by cases hr; exact hheld⟩
  · cases h
    exact ⟨hI, .refl, .refl, .of_eq rfl, fun _ hr => by cases hr; exact hpc⟩
  · obtain ⟨q, hq, rfl⟩ := map_eq_some_iff.mp h
    obtain ⟨hI', G, B, hcalm, hheld⟩ := closeClient_own hI hpc hq
    exact ⟨hI', G, B, hcalm, fun _ hr => by cases hr; exact hheld⟩
  · obtain ⟨q, hq, rfl⟩ := map_eq_some_iff.mp h
    obtain ⟨hI', G, B, hclients, -⟩ := leave_own hI hpc hq
    exact ⟨hI', G, B, .of_eq hclients, fun _ hr => by cases hr⟩
  · cases h

theorem drain_own (hI : Inv s) {pc : DrainPc ς} {x : ProxyChoice ς}
    {r : Proxy ς × Option (DrainPc ς)} (hpc : Draining t s pc) (h : drainStep t s pc x = some r) :
    Leads t s r.1 (Behind s r.1 ∧ Calm none s r.1 ∧ ∀ pc', r.2 = some pc' →
      Draining t r.1 pc') := by
  unfold drainStep at h
  split at h
  · next rest k =>
    obtain ⟨e, he, rfl⟩ := map_eq_some_iff.mp h
    refine ⟨hI, .refl, .refl, .of_eq rfl, fun _ hr => ?_⟩
    cases hr
    exact ⟨hpc k e he, fun j f hf => hpc j f (lookup_of_erase hf)⟩
  · obtain ⟨-, h⟩ := ite_none_right_eq_some.mp h
    cases h
    exact ⟨hI, .refl, .refl, .of_eq rfl, fun _ hr => by cases hr⟩
  · next e pc rest =>
    obtain ⟨q, hq, rfl⟩ := map_eq_some_iff.mp h
    obtain ⟨hI', G, B, hcalm, hnext⟩ := shut_own hI hpc.1 hq
    have hrest : ∀ k e, rest.lookup k = some e → q.1.Known e := fun k e he => (hpc.2 k e he).after G
    refine ⟨hI', G, B, hcalm, fun _ hr => ?_⟩
    cases hr
    cases hq2 : q.2 with
    | none => exact hrest
    | some pc' => exact ⟨hnext pc' hq2, hrest⟩
  · cases h

theorem Guarantee.add (ht : s.entries t = none) (hopen : s.closed = false) {now : Time}
    {m : FiniteMap (ConnectionKey ς) EntryId} :
    Guarantee t s (add { s with connections := m } t k now) where
  entry e E hE := ⟨E, update_of_none ht hE, fun u _ hu => ⟨hu, rfl⟩⟩
  freshEntry u hut hnone := (update_of_ne hut ..).trans hnone
  calm := .of_eq rfl
  flags := .of_eq rfl rfl rfl rfl rfl fun hclosed _ => by
    rw [hopen] at hclosed
    cases hclosed

theorem oldest_eq {old : EntryId} (h : s.oldest k = some old) :
    s.connections.lookup k = some old ∧ s.idle old = true := by
  obtain ⟨hlookup, htest⟩ := filter_eq_some_iff.mp h
  exact ⟨hlookup, (Bool.and_eq_true_iff.mp htest).1⟩

section

variable (hI : Inv s)
include hI

theorem acquire_own {now : Time} {victim : Option (ConnectionKey ς)} {r : Proxy ς × RunPc ς}
    (hpc : s.entries t = none ∧ s.clients t = none) (h : acquireStep t s k now victim = some r) :
    Leads t s r.1 (Running t r.1 r.2) := by
  obtain ⟨hentry, hclient⟩ := hpc
  unfold acquireStep at h
  split at h
  · cases h
    exact ⟨hI, .refl, .of_none hclient⟩
  · next hopen =>
    rw [Bool.not_eq_true] at hopen
    split at h
    · next e _ =>
      obtain ⟨E, hE, rfl⟩ := map_eq_some_iff.mp h
      exact ⟨hI.setEntry hE rfl, .setEntry hE fun _ _ hu => ⟨hu, rfl⟩, hclient, _, setEntry_self⟩
    · split at h
      · next hsize =>
        cases h
        exact ⟨hI.add hentry hsize hopen, .add (m := s.connections) hentry hopen, hclient, _,
          setEntry_self⟩
      · split at h
        · obtain ⟨-, h⟩ := ite_none_right_eq_some.mp h
          cases h
          exact ⟨hI, .refl, .of_none hclient⟩
        · next v =>
          obtain ⟨old, hold, rfl⟩ := map_eq_some_iff.mp h
          have hlookup := (oldest_eq hold).1
          have hsize : size (s.connections.erase v) + 1 = s.connections.size :=
            size_erase (AList.lookup_isSome.mp (by rw [hlookup]; rfl))
          have hI' : Inv { s with connections := s.connections.erase v } := by
            refine hI.restrict (fun j e => lookup_of_erase) (by omega) fun hempty => ?_
            rw [hempty] at hlookup
            cases hlookup
          have hroom : size (s.connections.erase v) < s.maxConnections := by
            have := hI.size
            omega
          refine ⟨hI'.add hentry hroom hopen, .add hentry hopen, hclient, ⟨_, setEntry_self⟩, ?_⟩
          exact Known.setEntry (s := { s with connections := s.connections.erase v })
            (hI.pooled v old hlookup)

variable {prepare : β → Nat → Option (PreparedBundle ς)} {name : ς} {bundle : Option β}
  {x : ProxyChoice ς}

theorem run_own {pc : RunPc ς} {r : Proxy ς × RunPc ς} (hpc : Running t s pc)
    (h : runStep prepare t s name bundle pc x = some r) : Leads t s r.1 (Running t r.1 r.2) := by
  unfold runStep at h
  split at h
  · -- start
    split at h <;> (try split at h) <;> (try split at h) <;> cases h <;>
      first | exact ⟨hI, .refl, hpc⟩ | exact ⟨hI, .refl, .of_none hpc.2⟩
  · exact acquire_own hI hpc h
  · -- evict
    obtain ⟨q, hq, rfl⟩ := map_eq_some_iff.mp h
    obtain ⟨hI', G, -, hcalm, hnext⟩ := shut_own hI hpc.2.2 hq
    have hclient := hcalm.fresh t (by simp) hpc.1
    refine ⟨hI', G, ?_⟩
    cases hq2 : q.2 with
    | none => exact ⟨hclient, hpc.2.1.after G⟩
    | some pc' => exact ⟨hclient, hpc.2.1.after G, hnext pc' hq2⟩
  · obtain ⟨q, hq, rfl⟩ := map_eq_some_iff.mp h
    obtain ⟨hI', G, -, hclients, hheld⟩ := enter_own hI hq
    exact ⟨hI', G, hclients ▸ hpc.1, _, hheld⟩
  iterate 2
    · cases h
      exact ⟨hI, .refl, .of_none hpc.1, hpc.2⟩
  · -- check
    obtain ⟨E, hE, rfl⟩ := map_eq_some_iff.mp h
    obtain ⟨hclient, client, E', hE', hgate, -⟩ := hpc
    rw [hE, some.injEq] at hE'
    subst hE'
    refine ⟨hI, .refl, ?_⟩
    cases hc : E.client with
    | none => exact ⟨hclient, E, hE, hgate, hc⟩
    | some c => exact ⟨.of_none hclient, E, hE, hgate, hc⟩
  · -- connect
    cases h
    refine ⟨hI.setClient (fun C hC => ?_) rfl, Guarantee.refl.setClient, setClient_self, hpc.2⟩
    rw [hpc.1] at hC
    cases hC
  · obtain ⟨err, -, rfl⟩ := map_eq_some_iff.mp h
    exact ⟨hI, .refl, .of_none hpc.1, _, hpc.2⟩
  · -- the handshake succeeds
    obtain ⟨E, hE, rfl⟩ := map_eq_some_iff.mp h
    obtain ⟨hclient, E', hE', hgate, hnone⟩ := hpc
    rw [hE, some.injEq] at hE'
    subst hE'
    refine ⟨hI.store hE hnone hclient, Guarantee.setClient (.setEntry hE fun _ => held_alone hgate),
      ?_, ?_⟩
    · intro C hC
      rw [setClient_self, some.injEq] at hC
      exact .inl (hC ▸ rfl)
    · exact ⟨_, setEntry_self, hgate, rfl⟩
  · -- and fails
    obtain ⟨err, -, rfl⟩ := map_eq_some_iff.mp h
    refine ⟨hI.setClient (fun C hC => ?_) rfl, Guarantee.refl.setClient, fun C hC => ?_, _, hpc.2⟩
    · rw [hpc.1, some.injEq] at hC
      exact hC ▸ rfl
    · rw [setClient_self, some.injEq] at hC
      exact .inr (hC ▸ rfl)
  · cases h
    exact ⟨hI, .refl, hpc.1, _, hpc.2⟩
  · obtain ⟨err, -, h⟩ := bind_eq_some_iff.mp h
    obtain ⟨s', hs', rfl⟩ := map_eq_some_iff.mp h
    obtain ⟨hI', G, -, hcalm, hheld⟩ := closeClient_own hI hpc.2 hs'
    exact ⟨hI', G, hpc.1.calm hcalm (by simp), _, hheld⟩
  · obtain ⟨s', hs', rfl⟩ := map_eq_some_iff.mp h
    obtain ⟨hjoined, client, hheld⟩ := hpc
    obtain ⟨hI', G, -, hclients, hknown⟩ := leave_own hI hheld hs'
    exact ⟨hI', G, hjoined.calm (.of_eq (t := none) hclients) (by simp), hknown⟩
  · -- release
    obtain ⟨E, hE, rfl⟩ := map_eq_some_iff.mp h
    refine ⟨hI.setEntry hE rfl, .setEntry hE fun _ _ hu => ⟨hu, rfl⟩, ?_⟩
    dsimp only
    split
    · exact ⟨hpc.1, _, setEntry_self⟩
    · exact hpc.1
  · -- shut
    obtain ⟨q, hq, rfl⟩ := map_eq_some_iff.mp h
    obtain ⟨hI', G, -, hcalm, hnext⟩ := shut_own hI hpc.2 hq
    have hjoined : q.1.Joined t := hpc.1.calm hcalm (by simp)
    refine ⟨hI', G, ?_⟩
    cases hq2 : q.2 with
    | none => exact hjoined
    | some pc' => exact ⟨hjoined, hnext pc' hq2⟩
  · cases h

theorem reap_own {pc : ReapPc ς} {r : Proxy ς × ReapPc ς} (hclient : s.clients t = none)
    (hpc : Reaping t s pc) (h : reapStep t s pc x = some r) :
    Leads t s r.1 (r.1.clients t = none ∧ Reaping t r.1 r.2) := by
  unfold reapStep at h
  split at h
  · obtain ⟨hnone, h⟩ := ite_none_right_eq_some.mp h
    cases h
    refine ⟨{ hI with unreaped := fun h => nomatch h }, .of_flags rfl rfl ?_, hclient, rfl,
      hI.unreaped hnone⟩
    refine ⟨rfl, id, fun u _ hu => ?_, id, fun _ _ => id, id, fun _ => id⟩
    rw [hnone] at hu
    cases hu
  · obtain ⟨hclosed, h⟩ := ite_none_right_eq_some.mp h
    cases h
    have hreaper := hpc.1
    refine ⟨{ hI with unreaped := fun h => ?_, finished := fun h => ?_ }, .of_flags rfl rfl ?_,
      hclient, trivial⟩
    · rw [show s.reaper = some t from hreaper] at h
      cases h
    · exact ⟨hclosed, rfl, (hI.finished h).2.2⟩
    · exact ⟨rfl, id, fun _ => held_alone hreaper, fun _ => rfl, fun _ _ => id, id, fun _ => id⟩
  · next now =>
    cases h
    have hempty : s.connections = ∅ → (s.connections.filter fun _ e => !s.stale now e) = ∅ :=
      fun h => by
      rw [h]
      rfl
    refine ⟨hI.restrict (fun k e he => (lookup_filter.mp he).1) (size_filter_le ..) hempty,
      .of_flags rfl rfl (.of_eq rfl rfl rfl rfl rfl fun _ => hempty), hclient, hpc,
      fun k e he => ?_⟩
    exact hI.pooled k e (lookup_filter.mp he).1
  · obtain ⟨q, hq, rfl⟩ := map_eq_some_iff.mp h
    obtain ⟨hI', G, B, hcalm, hnext⟩ := drain_own hI hpc.2 hq
    have hflags : q.1.reaper = some t ∧ q.1.reaped = false :=
      ⟨B.reaper.trans hpc.1.1, B.reaped.trans hpc.1.2⟩
    refine ⟨hI', G, hcalm.fresh t (by simp) hclient, ?_⟩
    cases hq2 : q.2 with
    | none => exact hflags
    | some pc' => exact ⟨hflags, hnext pc' hq2⟩
  · cases h

theorem close_own [Inhabited ς] {pc : ClosePc ς} {r : Proxy ς × ClosePc ς}
    (hclient : s.clients t = none) (hpc : Ending t s pc) (h : closeStep t s pc x = some r) :
    Leads t s r.1 (r.1.clients t = none ∧ Ending t r.1 r.2) := by
  unfold closeStep at h
  split at h
  · split at h
    · next hfresh =>
      cases h
      refine ⟨{ hI with finished := fun h => nomatch h }, .of_flags rfl rfl ?_, hclient, rfl⟩
      refine ⟨rfl, id, fun _ _ h => ⟨h, rfl⟩, id, fun u _ hu => ?_, fun h => ?_, fun _ => id⟩
      · rw [hfresh] at hu
        cases hu
      · rw [hfresh] at h
        cases h
    · cases h
    · next hfinished =>
      cases h
      exact ⟨hI, .refl, hclient, hfinished⟩
  · cases h
    refine ⟨{ hI with finished := fun h => ⟨rfl, (hI.finished h).2⟩ }, .of_flags rfl rfl ?_,
      hclient, hpc, rfl⟩
    refine ⟨rfl, fun _ => rfl, fun _ _ h => ⟨h, rfl⟩, id, fun _ _ => id, id, fun _ => id⟩
  · obtain ⟨hreaped, h⟩ := ite_none_right_eq_some.mp h
    cases h
    exact ⟨hI, .refl, hclient, hpc.1, hpc.2, hreaped⟩
  · cases h
    have hI' : Inv { s with connections := ∅ } :=
      hI.restrict (fun _ _ he => nomatch he) (Nat.zero_le _) fun _ => rfl
    refine ⟨⟨hI'.size, hI'.pooled, hI'.key, hI'.client, hI'.connected, hI'.unreaped, hI'.finished⟩,
      .of_flags rfl rfl (.of_eq rfl rfl rfl rfl rfl fun _ _ => rfl), hclient,
      ⟨hpc.1, hpc.2.1, hpc.2.2, rfl⟩, ?_⟩
    exact hI.pooled
  · obtain ⟨q, hq, rfl⟩ := map_eq_some_iff.mp h
    obtain ⟨hI', G, B, hcalm, hnext⟩ := drain_own hI hpc.2 hq
    obtain ⟨honce, hclosed, hreaped, hempty⟩ := hpc.1
    have hflags : q.1.once = .running t ∧ q.1.closed = true ∧ q.1.reaped = true ∧
        q.1.connections = ∅ :=
      ⟨B.once.trans honce, B.closed.trans hclosed, B.reaped.trans hreaped,
        B.connections.trans hempty⟩
    refine ⟨hI', G, hcalm.fresh t (by simp) hclient, ?_⟩
    cases hq2 : q.2 with
    | none => exact hflags
    | some pc' => exact ⟨hflags, hnext pc' hq2⟩
  · cases h
    refine ⟨{ hI with finished := fun _ => hpc.2 }, .of_flags rfl rfl ?_, hclient, rfl⟩
    refine ⟨rfl, id, fun _ _ h => ⟨h, rfl⟩, id, fun u hut hu => ?_, fun _ => rfl, fun _ => id⟩
    rw [hpc.1, Once.running.injEq] at hu
    exact absurd hu.symm hut
  · cases h

theorem configure_own {b : β} {pc : ConfigurePc} {r : Proxy ς × ConfigurePc}
    (hclient : s.clients t = none) (h : configureStep prepare s b pc x = some r) :
    Leads t s r.1 (r.1.clients t = none) := by
  unfold configureStep at h
  split at h
  · split at h
    · cases h
      exact ⟨hI, .refl, hclient⟩
    · split at h
      · cases h
        exact ⟨hI, .refl, hclient⟩
      · cases h
        refine ⟨⟨hI.size, hI.pooled, hI.key, hI.client, hI.connected, hI.unreaped, hI.finished⟩, ?_,
          hclient⟩
        exact .of_flags rfl rfl (.of_eq rfl rfl rfl rfl rfl fun _ => id)
  · cases h

theorem move_own [Inhabited ς] {pc pc' : ProxyPc ς β} (hpc : Asserts t s (some pc))
    (h : (program prepare).move t s pc x = some (s', pc')) :
    Leads t s s' (Asserts t s' (some pc')) := by
  cases pc with
  | run name bundle pc =>
    obtain ⟨_, hr, rfl⟩ := inner_move h
    exact run_own hI hpc hr
  | configure b pc =>
    obtain ⟨_, hr, rfl⟩ := inner_move h
    exact configure_own hI hpc hr
  | reap pc =>
    obtain ⟨_, hr, rfl⟩ := inner_move h
    exact reap_own hI hpc.1 hpc.2 hr
  | close pc =>
    obtain ⟨_, hr, rfl⟩ := inner_move h
    exact close_own hI hpc.1 hpc.2 hr

end

theorem outline [Inhabited ς] (prepare : β → Nat → Option (PreparedBundle ς)) :
    (program prepare).Outline Inv Asserts where
  call {s t p} _ hnone hp := by
    cases p with
    | run name bundle pc =>
      cases pc with
      | start => exact hnone
      | _ => cases hp
    | configure b pc => exact hnone.2
    | reap pc | close pc =>
      cases pc with
      | start => exact ⟨hnone.2, trivial⟩
      | _ => cases hp
  own hI hpc hm := ⟨(move_own hI hpc hm).1, (move_own hI hpc hm).2.2⟩
  other hI hpc hm hut hu := hu.other (move_own hI hpc hm).2.1 hut
  world {_ e _} _ _ := e.elim

end Proxy

end Hostel.McpProxy
