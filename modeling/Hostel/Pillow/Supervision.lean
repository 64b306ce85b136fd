/-
# Hostel.Pillow.Supervision — one supervised Pillow.

`supervise` is a loop of runs.  A run reserves the ports, starts the process, probes it until it
ends, a restart is asked for or the Pillow is stopped, and then, whatever happened, stops the
process and releases the ports, each again and again until it succeeds.  Around the run stand a loop
of three attempts for conflicts over dynamic ports, and the budget of automatic restarts, which only
an explicit restart renews.

The supervisor is one goroutine, so its counter is a part of the state.  Beside it there are calls
of `Restart`, which put at most one request into a channel, calls of `Stop`, which cancel the
supervisor's context and wait for its end, and processes that end when they like.

A process is *alive* while a member of its group is.  The executors report an exit after the group
is drained, but a process that is lost with its executor may have living members.
`pillowProcess.Stop` returns `nil` as soon as the end was reported, so it takes a lost process for a
stopped one: with the next run two processes are alive (`lost_process_alive`).  Where no process is
lost with living members, one at most is (`supervised_runs`).
-/
import Hostel.Logic.FiniteMap
import Hostel.Logic.Machine

namespace Hostel.Pillow

open Hostel.Logic Option Nat Bool List

/-! ## The declaration -/

inductive RestartPolicy
  | never
  | onFailure
  | always
  deriving DecidableEq, Repr

structure PillowPort where
  name : String
  dynamic : Bool
  deriving DecidableEq, Repr

structure Probe where
  successThreshold : Nat
  failureThreshold : Nat
  deriving DecidableEq, Repr

/-- What supervision reads of `PillowSpec`. -/
structure PillowSpec where
  ports : List PillowPort
  restartPolicy : RestartPolicy
  maxRestarts : Nat
  readinessProbe : Option Probe
  deriving DecidableEq, Repr

/-! ## Outcomes, errors and the status -/

inductive ProcessOutcomeKind
  | unset
  | exited
  | signaled
  | lost
  deriving DecidableEq, Repr

structure ProcessOutcome where
  kind : ProcessOutcomeKind := .unset
  exitCode : Int := 0
  deriving DecidableEq, Repr

inductive RunError
  | canceled
  | resolve
  | network
  | reserve (port : String)
  | start
  | conflict (port : String)
  | contract
  | publish (port : String)
  | withdraw (port : String)
  deriving DecidableEq, Repr

/-- The port of the first conflict in a joined error. -/
def conflictIn : List RunError → Option String
  | [] => none
  | .conflict port :: _ => some port
  | _ :: errs => conflictIn errs

def retryPortConflict (errs : List RunError) (spec : PillowSpec) : Bool :=
  match conflictIn errs with
  | none => false
  | some port => (spec.ports.find? fun p => p.name = port).any PillowPort.dynamic

inductive Phase
  | starting
  | running
  | stopping
  | backoff
  | failed
  | completed
  | stopped
  deriving DecidableEq, Repr

inductive Reason
  | none
  | restartScheduled
  | processExited
  | errors (errs : List RunError)
  | processCleanupPending
  | portCleanupPending
  | probe (text : String)
  deriving DecidableEq, Repr

/-- An execution, numbered in the order of their starts. -/
abbrev ExecutionId := Nat

structure Status where
  phase : Phase := .starting
  ready : Bool := false
  executionID : Option ExecutionId := none
  restarts : Nat := 0
  reason : Reason := .none
  outcome : Option ProcessOutcome := none
  deriving DecidableEq, Repr

/-- The end of `update`: only a running Pillow is ready. -/
def Status.settled (s : Status) : Status :=
  if s.phase = .running then s else { s with ready := false }

/-! ## Readiness -/

structure ReadinessResult where
  ready : Bool := false
  reason : String := ""
  deriving DecidableEq, Repr

structure ReadinessTracker where
  ready : Bool := false
  successes : Nat := 0
  failures : Nat := 0
  deriving DecidableEq, Repr

/-- `observe`, first what it does to the counters. -/
def ReadinessTracker.count (s : ReadinessTracker) (result : ReadinessResult)
    (probe : Option Probe) : ReadinessTracker :=
  let success := (probe.map Probe.successThreshold).getD 1
  let failure := (probe.map Probe.failureThreshold).getD 1
  if result.ready then
    let successes := min (s.successes + 1) success
    { ready := s.ready || decide (success ≤ successes), successes := successes, failures := 0 }
  else
    let failures := min (s.failures + 1) failure
    { ready := s.ready && !decide (failure ≤ failures), successes := 0, failures := failures }

/-- `observe`, what it returns. -/
def ReadinessTracker.report (s : ReadinessTracker) (result : ReadinessResult) : ReadinessResult :=
  if s.ready then { ready := true }
  else if result.ready then { reason := "ReadinessSuccessThresholdPending" }
  else result

/-! ## The Pillow and its supervisor -/

structure Process where
  alive : Bool := true
  /-- What `Outcome` returns once `Done` is closed. -/
  outcome : Option ProcessOutcome := none
  deriving DecidableEq, Repr

/-- A port mapping, with the run that reserved it. -/
structure Mapping where
  port : String
  run : Nat
  deriving DecidableEq, Repr

/-- The variables of `run`; `ports` and `todo` are where its loops over ports and mappings are. -/
structure Locals where
  ports : List PillowPort := []
  mappings : List Mapping := []
  todo : List Mapping := []
  proc : Option ExecutionId := none
  tracker : ReadinessTracker := {}
  result : ReadinessResult := {}
  published : Bool := false
  explicit : Bool := false
  outcome : ProcessOutcome := {}
  errs : List RunError := []
  deriving DecidableEq

/-- `tracker.observe` of the last result. -/
def Locals.observe (l : Locals) (probe : Option Probe) : Locals :=
  { l with
    tracker := l.tracker.count l.result probe
    result := (l.tracker.count l.result probe).report l.result }

inductive RunPc
  | begin
  | resolve
  | network
  | reserve
  | record
  | start
  | bind
  | select
  | check
  | settle
  | publish
  | report
  | stopping
  | withdraw
  | stop
  | outcome
  | release
  | forget
  deriving DecidableEq

/-- `supervise`; `restarts` and `attempt` are its variables. -/
inductive SupervisorPc
  | top (restarts : Nat)
  | run (restarts attempt : Nat) (l : Locals) (pc : RunPc)
  | judge (restarts attempt : Nat) (explicit : Bool) (outcome : ProcessOutcome)
    (errs : List RunError)
  | backoff (restarts : Nat)
  | ended (restarts : Nat)
  | done
  deriving DecidableEq

/-- The `record` of a Pillow, with its supervisor. -/
structure Record where
  status : Status := {}
  /-- A request in the channel `restart`. -/
  restart : Bool := false
  /-- `stopped` of the group; the supervisor's context is cancelled in the same critical section. -/
  stopped : Bool := false
  /-- `mappings` of the record. -/
  mappings : List Mapping := []
  /-- The Pillow's mappings that are reserved and not released. -/
  reserved : List Mapping := []
  /-- Runs begun so far. -/
  runs : Nat := 0
  /-- Processes started so far. -/
  started : Nat := 0
  processes : ExecutionId → Option Process := fun _ => none
  pc : SupervisorPc := .top 0

/-- What the environment decides in a move of the supervisor. -/
inductive SupervisorChoice
  | go
  | fail
  /-- A case of a `select`: the context, a restart request, the end of the process, the probe's
  timer, the timer of the backoff. -/
  | canceled
  | request
  | exited
  | tick
  | elapsed
  /-- `Start` returns a process. -/
  | started
  /-- A check of readiness ends with a result, with a conflict, or because a contract is broken. -/
  | checked (result : ReadinessResult)
  | conflicting (port : String)
  | broken
  deriving DecidableEq

namespace Record

def update (s : Record) (fn : Status → Status) : Record :=
  { s with status := (fn s.status).settled }

def setProcess (s : Record) (e : ExecutionId) (p : Process) : Record :=
  { s with processes := Function.update s.processes e (some p) }

/-- The outcome of the run's process, when its `Done` is closed. -/
def exitOf (s : Record) (l : Locals) : Option ProcessOutcome :=
  l.proc.bind fun e => (s.processes e).bind Process.outcome

/-- How a move within a run ends: inside it, or with the run's results. -/
inductive RunNext
  | inside (l : Locals) (pc : RunPc)
  | returned (explicit : Bool) (outcome : ProcessOutcome) (errs : List RunError)

/-- Where a move inside a run leaves the supervisor. -/
def RunNext.counter (restarts attempt : Nat) : RunNext → SupervisorPc
  | .inside l pc => .run restarts attempt l pc
  | .returned explicit outcome errs => .judge restarts attempt explicit outcome errs

/-- Leave the loop of a run, with its deferred cleanup to come. -/
def finish (l : Locals) : RunNext := .inside { l with todo := l.mappings } .stopping

/-- A mapping of the run's loop was handled. -/
def next (l : Locals) (pc : RunPc) : RunNext := .inside { l with todo := l.todo.tail } pc

/-- A result of the tracker is on its way to the status. -/
def observed (l : Locals) : RunNext :=
  -- the first one that is ready publishes the ports
  if l.result.ready && !l.published then .inside { l with todo := l.mappings } .publish
  else .inside l .report

def runStep (spec : PillowSpec) (s : Record) (l : Locals) : RunPc → SupervisorChoice →
    Option (Record × RunNext)
  | .begin, .go =>
    if s.stopped then some (s, .returned false {} [.canceled])
    else
      some ({ s with runs := s.runs + 1 }.update fun st => { st with phase := .starting },
        .inside {} .resolve)
  | .resolve, .fail => some (s, .returned false {} [.resolve])
  | .resolve, .go => some (s, .inside l (if spec.ports.isEmpty then .start else .network))
  | .network, .fail => some (s, .inside { l with errs := [.network] } .release)
  | .network, .go => some (s, .inside { l with ports := spec.ports } .reserve)
  | .reserve, x =>
    match l.ports, x with
    | [], .go => some (s, .inside l .record)
    | p :: rest, .go =>
      let m : Mapping := ⟨p.name, s.runs⟩
      some ({ s with reserved := s.reserved ++ [m] },
        .inside { l with ports := rest, mappings := l.mappings ++ [m] } .reserve)
    | p :: _, .fail =>
      some (s, .inside { l with todo := l.mappings, errs := [.reserve p.name] } .release)
    | _, _ => none
  | .record, .go => some ({ s with mappings := l.mappings }, .inside l .start)
  | .start, .fail => some (s, .inside { l with todo := l.mappings, errs := [.start] } .release)
  | .start, .started =>
    some ({ s with started := s.started + 1 }.setProcess s.started {},
      .inside { l with proc := some s.started } .bind)
  | .bind, .go =>
    some (s.update fun st => { st with phase := .running, executionID := l.proc, outcome := none },
      .inside l .select)
  | .select, .canceled =>
    if s.stopped then some (s, finish { l with errs := [.canceled] }) else none
  | .select, .request =>
    if s.restart then some ({ s with restart := false }, finish { l with explicit := true })
    else none
  | .select, .exited => (s.exitOf l).map fun o => (s, finish { l with outcome := o })
  | .select, .tick => some (s, .inside l .check)
  | .check, .checked result => some (s, .inside { l with result := result } .settle)
  | .check, .conflicting port => some (s, finish { l with errs := [.conflict port] })
  | .check, .broken => some (s, finish { l with errs := [.contract] })
  | .settle, .canceled =>
    if s.stopped then some (s, finish { l with errs := [.canceled] }) else none
  | .settle, .exited => (s.exitOf l).map fun o => (s, finish { l with outcome := o })
  | .settle, .go =>
    -- the default case, when no other is ready
    if s.stopped || (s.exitOf l).isSome then none
    else some (s, observed (l.observe spec.readinessProbe))
  | .publish, x =>
    match l.todo, x with
    | [], .go => some (s, .inside { l with published := true } .report)
    | _ :: _, .go => some (s, next l .publish)
    | m :: _, .fail => some (s, finish { l with errs := [.publish m.port] })
    | _, _ => none
  | .report, .go =>
    some (s.update fun st => { st with ready := l.result.ready, reason := .probe l.result.reason },
      .inside l .select)
  | .stopping, .go => some (s.update fun st => { st with phase := .stopping }, .inside l .withdraw)
  | .withdraw, x =>
    match l.todo, x with
    | [], .go => some (s, .inside l .stop)
    | _ :: _, .go => some (s, next l .withdraw)
    | m :: _, .fail => some (s, next { l with errs := l.errs ++ [.withdraw m.port] } .withdraw)
    | _, _ => none
  | .stop, .fail =>
    some (s.update fun st => { st with reason := .processCleanupPending }, .inside l .stop)
  -- `Stop` signals the group, but returns `nil` once `Done` is closed, whoever is left of it
  | .stop, .go => (s.exitOf l).map fun _ => (s, .inside l .outcome)
  | .outcome, .go =>
    (s.exitOf l).map fun o =>
      (s.update fun st => { st with outcome := some o },
        .inside { l with outcome := o, todo := l.mappings } .release)
  | .release, x =>
    match l.todo, x with
    | [], .go => some (s, .inside l .forget)
    | m :: _, .go => some ({ s with reserved := s.reserved.erase m }, next l .release)
    | _ :: _, .fail =>
      some (s.update fun st => { st with reason := .portCleanupPending }, .inside l .release)
    | _, _ => none
  | .forget, .go => some ({ s with mappings := [] }, .returned l.explicit l.outcome l.errs)
  | _, _ => none

def isFailure (outcome : ProcessOutcome) (errs : List RunError) : Bool :=
  !errs.isEmpty || outcome.kind != .exited || outcome.exitCode != 0

/-- Whether the run that ended is followed by another one of its own. -/
def automatic (spec : PillowSpec) (outcome : ProcessOutcome) (errs : List RunError) : Bool :=
  spec.restartPolicy == .always || (spec.restartPolicy == .onFailure && isFailure outcome errs) ||
    outcome.kind == .lost

def stoppedStatus (st : Status) : Status := { st with phase := .stopped }

def supervisorStep (spec : PillowSpec) (s : Record) : SupervisorPc → SupervisorChoice →
    Option (Record × SupervisorPc)
  | .top restarts, .go =>
    some (s.update fun st => { st with phase := .starting, reason := .none, restarts := restarts },
      .run restarts 0 {} .begin)
  | .run restarts attempt l pc, x =>
    (runStep spec s l pc x).map fun r => (r.1, r.2.counter restarts attempt)
  | .judge restarts attempt explicit outcome errs, .go =>
    if retryPortConflict errs spec && decide (attempt + 1 < 3) then
      some (s, .run restarts (attempt + 1) {} .begin)
    else if s.stopped then some (s.update stoppedStatus, .done)
    else if explicit then some (s, .top 0)
    else if automatic spec outcome errs && decide (restarts < spec.maxRestarts) then
      some (s.update fun st =>
        { st with phase := .backoff, restarts := restarts + 1, reason := .restartScheduled },
        .backoff (restarts + 1))
    else
      some (s.update fun st =>
        { st with
          phase := if isFailure outcome errs then .failed else .completed
          reason := if errs.isEmpty then .processExited else .errors errs
          outcome := some outcome }, .ended restarts)
  | .backoff restarts, .canceled => if s.stopped then some (s, .top restarts) else none
  | .backoff _, .request => if s.restart then some ({ s with restart := false }, .top 0) else none
  | .backoff restarts, .elapsed => some (s, .top restarts)
  | .ended _, .canceled => if s.stopped then some (s.update stoppedStatus, .done) else none
  | .ended _, .request => if s.restart then some ({ s with restart := false }, .top 0) else none
  | _, _ => none

/-- Steps: a move of the supervisor, calls of `Restart` and `Stop`, the return of a `Stop` with
`nil`, the report of a process's end, for a lost one with living members or not, and the end of the
last of those. -/
inductive PillowAct
  | supervisor (x : SupervisorChoice)
  | restart
  | stop
  | stopReturns
  | exit (e : ExecutionId) (outcome : ProcessOutcome) (alive : Bool)
  | vanish (e : ExecutionId)
  deriving DecidableEq

def machine (spec : PillowSpec) : Machine Record PillowAct where
  step s
    | .supervisor x => (supervisorStep spec s s.pc x).map fun r => { r.1 with pc := r.2 }
    | .restart => some (if s.stopped then s else { s with restart := true })
    | .stop => some { s with stopped := true }
    | .stopReturns => if s.stopped && decide (s.pc = .done) then some s else none
    | .exit e outcome alive =>
      match s.processes e with
      | none => none
      | some p =>
        if p.outcome.isNone && (!alive || outcome.kind == .lost) then
          some (s.setProcess e { alive := p.alive && alive, outcome := some outcome })
        else none
    | .vanish e => (s.processes e).map fun p => s.setProcess e { p with alive := false }

def new : Record := {}

/-! ## Where a run stands -/

/-- The process that a run is answerable for. -/
def process (l : Locals) : RunPc → Option ExecutionId
  | .bind | .select | .check | .settle | .publish | .report | .stopping | .withdraw | .stop =>
    l.proc
  | _ => none

/-- The execution that a run may report as running. -/
def execution (l : Locals) : RunPc → Option ExecutionId
  | .select | .check | .settle | .publish | .report | .stopping => l.proc
  | _ => none

def holding (l : Locals) : RunPc → List Mapping
  | .begin | .resolve | .network | .forget => []
  | .release => l.todo
  | _ => l.mappings

namespace RunNext

def process : RunNext → Option ExecutionId
  | .inside l pc => Record.process l pc
  | .returned .. => none

def execution : RunNext → Option ExecutionId
  | .inside l pc => Record.execution l pc
  | .returned .. => none

def holding : RunNext → List Mapping
  | .inside l pc => Record.holding l pc
  | .returned .. => []

end RunNext

/-- The counters at which a run has a process. -/
def live : RunPc → Bool
  | .bind | .select | .check | .settle | .publish | .report | .stopping | .withdraw | .stop => true
  | _ => false

def cleaning : RunPc → Bool
  | .stopping | .withdraw | .stop | .outcome | .release | .forget => true
  | _ => false

structure LocalsOk (l : Locals) (pc : RunPc) : Prop where
  empty : pc = .resolve ∨ pc = .network → l.mappings = [] ∧ l.todo = []
  proc : live pc = true → l.proc.isSome = true
  explicit : cleaning pc = false → l.explicit = false ∧ l.errs = []
  /-- A run that ends for a restart request has no conflict to report. -/
  conflict : l.explicit = true → conflictIn l.errs = none

def RunNext.Ok : RunNext → Prop
  | .inside l pc => LocalsOk l pc
  | .returned explicit _ errs => explicit = true → conflictIn errs = none

end Record

namespace SupervisorPc

def process : SupervisorPc → Option ExecutionId
  | .run _ _ l pc => Record.process l pc
  | _ => none

def execution : SupervisorPc → Option ExecutionId
  | .run _ _ l pc => Record.execution l pc
  | _ => none

def holding : SupervisorPc → List Mapping
  | .run _ _ l pc => Record.holding l pc
  | _ => []

def Ok (spec : PillowSpec) : SupervisorPc → Prop
  | .run _ attempt l pc => attempt < 3 ∧ Record.LocalsOk l pc
  | .judge _ attempt explicit _ errs => attempt < 3 ∧ (explicit = true → conflictIn errs = none)
  | .backoff restarts => 0 < restarts ∧ restarts ≤ spec.maxRestarts
  | _ => True

end SupervisorPc

namespace Record

variable {spec : PillowSpec} {s s₀ s' : Record} {l : Locals} {pc : RunPc} {pc' : SupervisorPc}
  {x : SupervisorChoice}
  {n : RunNext} {fn : Status → Status} {τ : List (Record × PillowAct)}

/-! ## What a move of a run does -/

@[simp] theorem process_counter (r k : Nat) : (n.counter r k).process = n.process := by
    cases n <;> rfl

@[simp] theorem execution_counter (r k : Nat) : (n.counter r k).execution = n.execution := by
    cases n <;> rfl

@[simp] theorem holding_counter (r k : Nat) : (n.counter r k).holding = n.holding := by
    cases n <;> rfl

theorem runStep_processes (h : runStep spec s l pc x = some (s', n)) :
    (pc = .start ∧ s' = { s with started := s.started + 1 }.setProcess s.started {} ∧
      n = .inside { l with proc := some s.started } .bind) ∨
    (s'.processes = s.processes ∧ s'.started = s.started ∧
      (n.process = process l pc ∨ n.process = none ∧ pc = .stop ∧ (s.exitOf l).isSome = true)) := by
  unfold runStep observed at h
  split at h <;> (try split at h) <;> (try split at h) <;>
    (try (first | cases h | (obtain ⟨_, hsome, h⟩ := map_eq_some_iff.mp h; cases h))) <;>
    first
    | exact .inr ⟨rfl, rfl, .inl rfl⟩
    | exact .inl ⟨rfl, rfl, rfl⟩
    | exact .inr ⟨rfl, rfl, .inr ⟨rfl, rfl, by simp [hsome]⟩⟩

/-- Ready only while running, and running only the execution at hand. -/
structure StatusOk (st : Status) (e : Option ExecutionId) : Prop where
  ready : st.ready = true → st.phase = .running
  running : st.phase = .running → st.executionID = e ∧ e.isSome = true

theorem settled_ready {st : Status} (h : st.settled.ready = true) :
    st.settled.phase = .running := by
  unfold Status.settled at h ⊢
  split at h
  · next hphase =>
    rw [if_pos hphase]
    exact hphase
  · cases h

theorem phase_settled (st : Status) : st.settled.phase = st.phase := by
  unfold Status.settled
  split <;> rfl

theorem executionID_settled (st : Status) : st.settled.executionID = st.executionID := by
  unfold Status.settled
  split <;> rfl

theorem StatusOk.off (h : (fn s.status).phase ≠ .running) (e : Option ExecutionId) :
    StatusOk (s.update fn).status e := by
  refine ⟨settled_ready, fun hrunning => ?_⟩
  exact absurd ((phase_settled _).symm.trans hrunning) h

theorem StatusOk.other {e : Option ExecutionId} (h : StatusOk s.status e)
    (hphase : (fn s.status).phase = s.status.phase)
    (hexecution : (fn s.status).executionID = s.status.executionID) :
    StatusOk (s.update fn).status e := by
  refine ⟨settled_ready, fun hrunning => ?_⟩
  obtain ⟨he, hsome⟩ := h.running (hphase.symm.trans ((phase_settled _).symm.trans hrunning))
  exact ⟨(executionID_settled _).trans (hexecution.trans he), hsome⟩

theorem StatusOk.on {e : Option ExecutionId} (hexecution : (fn s.status).executionID = e)
    (he : e.isSome = true) : StatusOk (s.update fn).status e :=
  ⟨settled_ready, fun _ => ⟨(executionID_settled _).trans hexecution, he⟩⟩

theorem runStep_status (h : runStep spec s l pc x = some (s', n))
    (hst : StatusOk s.status (execution l pc)) (hbind : pc = .bind → l.proc.isSome = true) :
    StatusOk s'.status n.execution := by
  unfold runStep observed at h
  split at h <;> (try split at h) <;> (try split at h) <;>
    (try (first | cases h | (obtain ⟨_, hsome, h⟩ := map_eq_some_iff.mp h; cases h))) <;>
    first
    | exact hst
    | exact hst.other rfl rfl
    | exact StatusOk.on (e := l.proc) rfl (hbind rfl)
    | (apply StatusOk.off; simp)

/-- A run reserves a mapping, releases one, or holds what it held; what is reserved is reserved by
the run at hand. -/
theorem runStep_reserved (h : runStep spec s l pc x = some (s', n))
    (hreserved : s.reserved = holding l pc)
    (hempty : pc = .resolve ∨ pc = .network → l.mappings = [] ∧ l.todo = [])
    (hrun : ∀ m ∈ s.reserved, m.run = s.runs) :
    s'.reserved = n.holding ∧ ∀ m ∈ s'.reserved, m.run = s'.runs := by
  unfold runStep observed at h
  split at h <;> (try split at h) <;> (try split at h) <;>
    (try (first | cases h | (obtain ⟨_, hsome, h⟩ := map_eq_some_iff.mp h; cases h))) <;>
    first
    | exact ⟨hreserved, hrun⟩
    | (refine ⟨by first | exact hreserved | simp_all [RunNext.holding, holding, next], ?_⟩
       first
       | exact hrun
       | exact fun m hm => hrun m (mem_of_mem_erase hm)
       | (intro m hm; rw [update, hreserved] at hm; cases hm)
       | (intro m hm; rcases mem_append.mp hm with hm | hm
          · exact hrun m hm
          · rw [mem_singleton.mp hm]))

theorem conflictIn_withdraw (errs : List RunError) (port : String) :
    conflictIn (errs ++ [.withdraw port]) = conflictIn errs := by
  induction errs with
  | nil => rfl
  | cons e errs ih => cases e <;> first | rfl | exact ih

theorem runStep_locals (h : runStep spec s l pc x = some (s', n)) (hl : LocalsOk l pc) : n.Ok := by
  obtain ⟨hempty, hproc, hexplicit, hconflict⟩ := hl
  unfold runStep observed at h
  split at h <;> (try split at h) <;> (try split at h) <;>
    (try (first | cases h | (obtain ⟨_, hsome, h⟩ := map_eq_some_iff.mp h; cases h))) <;>
    first
    | exact hconflict
    | (constructor <;>
      simp_all [finish, live, cleaning, conflictIn, conflictIn_withdraw, Locals.observe])
    | simp [RunNext.Ok]

/-! ## What every run of the supervisor keeps -/

structure Sound (spec : PillowSpec) (s : Record) : Prop where
  started : ∀ e p, s.processes e = some p → e < s.started
  status : StatusOk s.status s.pc.execution
  reserved : s.reserved = s.pc.holding
  run : ∀ m ∈ s.reserved, m.run = s.runs
  counter : s.pc.Ok spec

section

variable (h : Sound spec s)
include h

theorem Sound.runStep {r k : Nat} (hpc : s.pc = .run r k l pc)
    (hstep : runStep spec s l pc x = some (s', n)) :
    Sound spec { s' with pc := n.counter r k } := by
  obtain ⟨hstarted, hstatus, hreserved, hrun, hlocal⟩ := h
  rw [hpc] at hstatus hreserved hlocal
  have hlocals : LocalsOk l pc := hlocal.2
  have hbind : pc = .bind → l.proc.isSome = true := by
    rintro rfl
    exact hlocals.proc rfl
  obtain ⟨hreserved', hruns⟩ := runStep_reserved hstep hreserved hlocals.empty hrun
  refine ⟨?_, ?_, ?_, hruns, ?_⟩
  · rcases runStep_processes hstep with ⟨rfl, rfl, rfl⟩ | ⟨hsame, hnext, -⟩
    · intro e p he
      obtain ⟨rfl, -⟩ | ⟨-, he⟩ := update_eq_some.mp he
      · exact lt_succ_self _
      · exact lt_succ_of_lt (hstarted e p he)
    · rw [hsame, hnext]
      exact hstarted
  · simpa using runStep_status hstep hstatus hbind
  · simpa using hreserved'
  · have hok := runStep_locals hstep hlocals
    cases n <;> exact ⟨hlocal.1, hok⟩

theorem Sound.outside (hpc : s.pc.holding = [])
    (hkept : s'.processes = s.processes ∧ s'.started = s.started ∧ s'.reserved = s.reserved)
    (hstatus : StatusOk s'.status pc'.execution) (hholding : pc'.holding = []) (hok : pc'.Ok spec) :
    Sound spec { s' with pc := pc' } := by
  obtain ⟨hprocesses, hstarted, hreserved⟩ := hkept
  have hnone : s'.reserved = [] := by
    rw [hreserved, h.reserved, hpc]
  refine ⟨fun e p he => ?_, hstatus, hnone.trans hholding.symm, fun m hm => ?_, hok⟩
  · rw [hstarted]
    exact h.started e p (hprocesses ▸ he)
  · rw [hnone] at hm
    cases hm

theorem Sound.supervisor
    (hstep : supervisorStep spec s s.pc x = some (s', pc')) : Sound spec { s' with pc := pc' } := by
  have hstatus := h.status
  generalize hpc : s.pc = pc at hstep hstatus
  unfold supervisorStep at hstep
  split at hstep
  · cases hstep
    refine h.outside (by rw [hpc]; rfl) ⟨rfl, rfl, rfl⟩ (StatusOk.off (by simp) _) rfl ?_
    exact ⟨by decide, by simp, by simp [live], by simp, by simp⟩
  · obtain ⟨⟨s₁, n⟩, hrun, heq⟩ := map_eq_some_iff.mp hstep
    cases heq
    exact h.runStep hpc hrun
  · next r k explicit outcome errs =>
    have hidle : s.pc.holding = [] := by
      rw [hpc]
      rfl
    split at hstep
    · next hretry =>
      cases hstep
      refine h.outside hidle ⟨rfl, rfl, rfl⟩ hstatus rfl ⟨?_,
        by simp, by simp [live], by simp, by simp⟩
      simp only [and_eq_true, decide_eq_true_eq] at hretry
      exact hretry.2
    · split at hstep
      · cases hstep
        exact h.outside hidle ⟨rfl, rfl, rfl⟩ (StatusOk.off (by simp [stoppedStatus]) _) rfl trivial
      · split at hstep
        · cases hstep
          exact h.outside hidle ⟨rfl, rfl, rfl⟩ hstatus rfl trivial
        · split at hstep
          · next hautomatic =>
            cases hstep
            simp only [and_eq_true, decide_eq_true_eq] at hautomatic
            exact h.outside hidle ⟨rfl, rfl, rfl⟩ (StatusOk.off (by simp) _) rfl
              ⟨succ_pos r, hautomatic.2⟩
          · cases hstep
            refine h.outside hidle ⟨rfl, rfl, rfl⟩ (StatusOk.off ?_ _) rfl trivial
            simp only
            split <;> decide
  case h_4 | h_5 | h_6 | h_8 =>
    (try split at hstep) <;> cases hstep
    exact h.outside (by rw [hpc]; rfl) ⟨rfl, rfl, rfl⟩ hstatus rfl trivial
  · split at hstep <;> cases hstep
    exact h.outside (by rw [hpc]; rfl) ⟨rfl, rfl,
      rfl⟩ (StatusOk.off (by simp [stoppedStatus]) _) rfl trivial
  · cases hstep

theorem Sound.setProcess {e : ExecutionId} {p p' : Process} (hp : s.processes e = some p) :
    Sound spec (s.setProcess e p') where
  started e' q he' := by
    obtain ⟨rfl, -⟩ | ⟨-, he'⟩ := update_eq_some.mp he'
    · exact h.started e' p hp
    · exact h.started e' q he'
  status := h.status
  reserved := h.reserved
  run := h.run
  counter := h.counter

theorem Sound.step {a : PillowAct} (hstep : (machine spec).step s a = some s') : Sound spec s' := by
  cases a with
  | supervisor x =>
    obtain ⟨⟨s₁, pc'⟩, hsup, rfl⟩ := map_eq_some_iff.mp hstep
    exact h.supervisor hsup
  | restart =>
    cases hstep
    split
    · exact h
    · exact ⟨h.started, h.status, h.reserved, h.run, h.counter⟩
  | stop =>
    cases hstep
    exact ⟨h.started, h.status, h.reserved, h.run, h.counter⟩
  | stopReturns =>
    simp only [machine, ite_none_right_eq_some, some.injEq] at hstep
    rw [← hstep.2]
    exact h
  | exit e outcome alive =>
    simp only [machine] at hstep
    split at hstep
    · cases hstep
    next p hp =>
    split at hstep <;> cases hstep
    exact h.setProcess hp
  | vanish e =>
    obtain ⟨p, hp, rfl⟩ := map_eq_some_iff.mp hstep
    exact h.setProcess hp

end

theorem sound_new (spec : PillowSpec) : Sound spec new where
  started e p h := by cases h
  status := ⟨fun h => (by cases h), fun h => (by cases h)⟩
  reserved := rfl
  run m h := by cases h
  counter := trivial

/-! ## One living process -/

/-- The step does not report the loss of a process that has living members. -/
def Reaped (e : Record × PillowAct) : Prop :=
  match e.2 with
  | .exit x _ alive => alive = true → (e.1.processes x).any Process.alive = false
  | _ => True

instance (e : Record × PillowAct) : Decidable (Reaped e) := by
  unfold Reaped
  split <;> infer_instance

/-- The run at hand is answerable for what is alive, and nothing is that has ended. -/
structure Lone (s : Record) : Prop where
  alive : ∀ e p, s.processes e = some p → p.alive = true → s.pc.process = some e
  ended : ∀ e p, s.processes e = some p → p.outcome.isSome = true → p.alive = false

theorem Lone.runStep {r k : Nat} (h : Lone s) (hpc : s.pc = .run r k l pc)
    (hstep : Record.runStep spec s l pc x = some (s', n)) :
    Lone { s' with pc := n.counter r k } := by
  have halive := h.alive
  rw [hpc] at halive
  rcases runStep_processes hstep with ⟨rfl, rfl, rfl⟩ | ⟨hsame, -, hproc⟩
  · -- the new process is the only living one
    refine ⟨fun e p he hp => ?_, fun e p he hend => ?_⟩ <;>
      obtain ⟨rfl, rfl⟩ | ⟨-, he⟩ := update_eq_some.mp he
    · rfl
    · cases halive e p he hp
    · cases hend
    · exact h.ended e p he hend
  · refine ⟨fun e p he hp => ?_, fun e p he => h.ended e p (hsame ▸ he)⟩
    have he' : s.processes e = some p := hsame ▸ he
    rw [process_counter]
    rcases hproc with hproc | ⟨-, rfl, hexit⟩
    · exact hproc.trans (halive e p he' hp)
    · -- the end of the run's process was reported
      have hl : l.proc = some e := halive e p he' hp
      simp only [exitOf, hl, bind_some, he'] at hexit
      rw [h.ended e p he' hexit] at hp
      cases hp

theorem supervisorStep_processes (h : supervisorStep spec s s.pc x = some (s', pc')) :
    (∃ r k l pc n, s.pc = .run r k l pc ∧ runStep spec s l pc x = some (s', n) ∧
      pc' = n.counter r k) ∨
      s.pc.process = none ∧ s'.processes = s.processes := by
  generalize s.pc = pc at h
  unfold supervisorStep at h
  split at h <;> (try split at h) <;> (try split at h) <;> (try split at h) <;> (try split at h) <;>
    first
    | (cases h; done)
    | (cases h; exact .inr ⟨rfl, rfl⟩)
    | (obtain ⟨⟨s₁, n⟩, hrun, heq⟩ := map_eq_some_iff.mp h
       cases heq
       exact .inl ⟨_, _, _, _, n, rfl, hrun, rfl⟩)

theorem Lone.setProcess {e : ExecutionId} {p p' : Process} (h : Lone s)
    (hp : s.processes e = some p) (halive : p'.alive = true → p.alive = true)
    (hended : p'.outcome.isSome = true → p'.alive = false) : Lone (s.setProcess e p') := by
  refine ⟨fun e' q he' hq => ?_, fun e' q he' hend => ?_⟩ <;>
    obtain ⟨rfl, rfl⟩ | ⟨-, he'⟩ := update_eq_some.mp he'
  · exact h.alive e' p hp (halive hq)
  · exact h.alive e' q he' hq
  · exact hended hend
  · exact h.ended e' q he' hend

theorem Lone.step {a : PillowAct} (h : Lone s) (hreaped : Reaped (s, a))
    (hstep : (machine spec).step s a = some s') : Lone s' := by
  cases a with
  | supervisor x =>
    obtain ⟨⟨s₁, pc'⟩, hsup, rfl⟩ := map_eq_some_iff.mp hstep
    rcases supervisorStep_processes hsup with ⟨r, k, l, pc, n, hpc, hrun, rfl⟩ | ⟨hidle, hsame⟩
    · exact h.runStep hpc hrun
    · refine ⟨fun e p he hp => ?_, fun e p he => h.ended e p (hsame ▸ he)⟩
      have hproc := h.alive e p (hsame ▸ he) hp
      rw [hidle] at hproc
      cases hproc
  | restart =>
    cases hstep
    split
    · exact h
    · exact ⟨h.alive, h.ended⟩
  | stop =>
    cases hstep
    exact ⟨h.alive, h.ended⟩
  | stopReturns =>
    simp only [machine, ite_none_right_eq_some, some.injEq] at hstep
    rw [← hstep.2]
    exact h
  | exit e outcome alive =>
    simp only [machine] at hstep
    split at hstep
    · cases hstep
    next p hp =>
    split at hstep <;> cases hstep
    refine h.setProcess hp (fun hq => (and_eq_true_iff.mp hq).1) fun _ => ?_
    cases alive with
    | false => exact and_false _
    | true => simpa [hp] using hreaped rfl
  | vanish e =>
    obtain ⟨p, hp, rfl⟩ := map_eq_some_iff.mp hstep
    exact h.setProcess hp (fun hq => by cases hq) fun _ => rfl

/-! ## Budgets -/

/-- How many calls of `Start` the current round of attempts has left. -/
def startsLeft : SupervisorPc → Nat
  | .run _ attempt _ pc =>
    match pc with
    | .begin | .resolve | .network | .reserve | .record | .start => 3 - attempt
    | _ => 2 - attempt
  | .judge _ attempt _ _ _ => 2 - attempt
  | _ => 0

/-- How many automatic restarts the current budget has left. -/
def restartsLeft (spec : PillowSpec) : SupervisorPc → Nat
  | .top restarts | .ended restarts => spec.maxRestarts - restarts
  | .run restarts _ l _ => if l.explicit then spec.maxRestarts else spec.maxRestarts - restarts
  | .judge restarts _ explicit _ _ =>
    if explicit then spec.maxRestarts else spec.maxRestarts - restarts
  | .backoff restarts => spec.maxRestarts - restarts + 1
  | .done => 0

def callsStart (e : Record × PillowAct) : Bool :=
  match e.1.pc, e.2 with
  | .run _ _ _ .start, .supervisor _ => true
  | _, _ => false

def beginsRound (e : Record × PillowAct) : Bool :=
  match e.1.pc, e.2 with
  | .top _, .supervisor _ => true
  | _, _ => false

def explicitRestart (e : Record × PillowAct) : Bool := e.2 = .supervisor .request

/-- The step restarts because a backoff has elapsed. -/
def automaticRestart (e : Record × PillowAct) : Bool := e.2 = .supervisor .elapsed

theorem runStep_budgets {r k : Nat} (h : Record.runStep spec s l pc x = some (s', n)) (hk : k < 3)
    (hl : LocalsOk l pc) :
    startsLeft (n.counter r k) + (if pc = .start then 1 else 0) ≤ startsLeft (.run r k l pc) ∧
      (x ≠ .request → restartsLeft spec (n.counter r k) ≤ restartsLeft spec (.run r k l pc)) := by
  have hexplicit := hl.explicit
  unfold Record.runStep observed at h
  split at h <;> (try split at h) <;> (try split at h) <;>
    (try (first | cases h | (obtain ⟨_, hsome, h⟩ := map_eq_some_iff.mp h; cases h)))
  all_goals
    refine ⟨?_, fun hx => ?_⟩
    · simp [RunNext.counter, startsLeft, finish, next] <;> (try omega)
    · first
        | exact absurd rfl hx
        | simp_all [RunNext.counter, restartsLeft, finish, next, cleaning, Locals.observe]

theorem runStep_elapsed : Record.runStep spec s l pc .elapsed = none := by
  cases pc with
  | reserve => cases hports : l.ports <;> simp [Record.runStep, hports]
  | publish | withdraw | release => cases htodo : l.todo <;> simp [Record.runStep, htodo]
  | _ => rfl

/-- A move of the supervisor takes each call of `Start` from what the round has left, unless it
begins a round, and each automatic restart from the budget, unless it restarts on request. -/
theorem supervisorStep_budgets (hok : s.pc.Ok spec)
    (h : supervisorStep spec s s.pc x = some (s', pc')) : (beginsRound (s, .supervisor x) = false →
      startsLeft pc' + (if callsStart (s, .supervisor x) then 1 else 0) ≤ startsLeft s.pc) ∧
    (x ≠ .request →
      restartsLeft spec pc' + (if x = .elapsed then 1 else 0) ≤ restartsLeft spec s.pc) := by
  unfold beginsRound callsStart
  generalize s.pc = pc at h hok ⊢
  unfold supervisorStep at h
  split at h
  · cases h
    exact ⟨fun hround => (by cases hround), fun _ => le_refl _⟩
  · next r k l rpc =>
    obtain ⟨⟨s₁, n⟩, hrun, heq⟩ := map_eq_some_iff.mp h
    have hpc' : pc' = n.counter r k := by
      cases n <;> cases heq <;> rfl
    have hne : x ≠ .elapsed := by
      rintro rfl
      rw [runStep_elapsed] at hrun
      cases hrun
    rw [hpc', if_neg hne]
    obtain ⟨hstarts, hrestarts⟩ := runStep_budgets (r := r) hrun hok.1 hok.2
    refine ⟨fun _ => ?_, hrestarts⟩
    cases rpc <;> exact hstarts
  · next r k explicit outcome errs =>
    split at h
    · cases h
      refine ⟨fun _ => ?_, fun _ => by cases explicit <;> simp [restartsLeft]⟩
      simp only [startsLeft, false_eq_true, if_false]
      omega
    · split at h
      · cases h
        exact ⟨fun _ => zero_le _, fun _ => zero_le _⟩
      · split at h
        · next hexplicit =>
          cases h
          exact ⟨fun _ => zero_le _, by simp [restartsLeft, hexplicit]⟩
        · next hexplicit =>
          split at h
          · next hautomatic =>
            cases h
            simp only [and_eq_true, decide_eq_true_eq] at hautomatic
            refine ⟨fun _ => zero_le _, fun _ => ?_⟩
            simp only [restartsLeft, hexplicit]
            simp
            omega
          · cases h
            exact ⟨fun _ => zero_le _, by simp [restartsLeft, hexplicit]⟩
  all_goals
    (try split at h) <;> cases h <;> exact ⟨fun _ => le_refl _, by simp [restartsLeft]⟩

theorem restartsLeft_le (h : s.pc.Ok spec) : restartsLeft spec s.pc ≤ spec.maxRestarts := by
  generalize s.pc = pc at h ⊢
  cases pc with
  | top r | ended r => exact sub_le _ _
  | run r k l pc | judge r k explicit outcome errs =>
    simp only [restartsLeft]
    split <;> simp
  | backoff r =>
    obtain ⟨hpos, hle⟩ := h
    simp only [restartsLeft]
    omega
  | done => exact zero_le _

theorem startsLeft_le (pc : SupervisorPc) : startsLeft pc ≤ 3 := by
  unfold startsLeft
  split
  · split <;> omega
  · omega
  · omega

/-! ## Runs -/

theorem sound_of_trace (h₀ : Sound spec s₀) (h : (machine spec).Trace s₀ τ s) : Sound spec s :=
  h.always h₀ fun _ h hs => h.step hs

theorem lone_of_trace (h : (machine spec).Trace new τ s) (hreaped : ∀ e ∈ τ, Reaped e) : Lone s :=
  h.invariant_state ⟨fun e p h => (by cases h), fun e p h => (by cases h)⟩
    (fun _ _ _ hlone hr hstep => hlone.step hr hstep) hreaped

/-- Only the supervisor moves its counter, and only it starts processes. -/
theorem step_supervisor {a : PillowAct} (h : (machine spec).step s a = some s') :
    (∃ x r, a = .supervisor x ∧ supervisorStep spec s s.pc x = some r ∧
      s' = { r.1 with pc := r.2 }) ∨
      (∀ x, a ≠ .supervisor x) ∧ s'.pc = s.pc ∧ s'.started = s.started := by
  cases a with
  | supervisor x =>
    obtain ⟨r, hsup, rfl⟩ := map_eq_some_iff.mp h
    exact .inl ⟨x, r, rfl, hsup, rfl⟩
  | restart =>
    cases h
    refine .inr ⟨by simp, ?_⟩
    split <;> simp
  | stop =>
    cases h
    exact .inr ⟨by simp, rfl, rfl⟩
  | stopReturns =>
    simp only [machine, ite_none_right_eq_some, some.injEq] at h
    rw [← h.2]
    exact .inr ⟨by simp, rfl, rfl⟩
  | exit e outcome alive =>
    simp only [machine] at h
    split at h
    · cases h
    · split at h
      · cases h
        exact .inr ⟨by simp, rfl, rfl⟩
      · cases h
  | vanish e =>
    obtain ⟨p, -, rfl⟩ := map_eq_some_iff.mp h
    exact .inr ⟨by simp, rfl, rfl⟩

theorem starts_le (h₀ : Sound spec s₀) (h : (machine spec).Trace s₀ τ s)
    (hround : ∀ e ∈ τ, beginsRound e = false) : τ.countP callsStart ≤ 3 := by
  have hcount :=
    (Machine.Trace.count_le (C := fun e => beginsRound e = false) (I := Sound spec) callsStart
    (fun s => startsLeft s.pc) h₀ (fun _ _ _ hs hstep => hs.step hstep) ?_ h hround).2
  · have := startsLeft_le s₀.pc
    omega
  · intro s a s' hs hround hstep
    rcases step_supervisor hstep with ⟨x, r, rfl, hsup, rfl⟩ | ⟨hother, hpc, -⟩
    · exact (supervisorStep_budgets hs.counter hsup).1 hround
    · have hnot : callsStart (s, a) = false := by
        unfold callsStart
        split
        · next x _ hx => exact absurd hx (hother x)
        · rfl
      rw [hpc, hnot]
      simp

theorem restarts_le (h₀ : Sound spec s₀) (h : (machine spec).Trace s₀ τ s)
    (hrequest : ∀ e ∈ τ, explicitRestart e = false) :
    τ.countP automaticRestart ≤ spec.maxRestarts := by
  have hcount :=
    (Machine.Trace.count_le (C := fun e => explicitRestart e = false) (I := Sound spec)
      automaticRestart
    (fun s => restartsLeft spec s.pc) h₀ (fun _ _ _ hs hstep => hs.step hstep) ?_ h hrequest).2
  · have := restartsLeft_le h₀.counter
    omega
  · intro s a s' hs hrequest hstep
    rcases step_supervisor hstep with ⟨x, r, rfl, hsup, rfl⟩ | ⟨hother, hpc, -⟩
    · have hx : x ≠ .request := by
        rintro rfl
        simp [explicitRestart] at hrequest
      have hleft := (supervisorStep_budgets hs.counter hsup).2 hx
      simpa [automaticRestart] using hleft
    · have hnot : automaticRestart (s, a) = false := by
        simpa [automaticRestart] using hother .elapsed
      rw [hpc, hnot]
      simp

theorem done_of_trace (h₀ : s₀.pc = .done) (h : (machine spec).Trace s₀ τ s) :
    s.pc = .done ∧ s.started = s₀.started := by
  refine h.always ⟨h₀, rfl⟩ fun _ ⟨hdone, hstarted⟩ hstep => ?_
  rcases step_supervisor hstep with ⟨x, r, -, hsup, -⟩ | ⟨-, hpc, hstarted'⟩
  · rw [hdone] at hsup
    cases hsup
  · exact ⟨hpc.trans hdone, hstarted'.trans hstarted⟩

theorem done_of_stopReturns (h : (machine spec).step s .stopReturns = some s') : s.pc = .done := by
  simp only [machine, ite_none_right_eq_some, and_eq_true, decide_eq_true_eq] at h
  exact h.1.2

def oneDynamicPort : PillowSpec where
  ports := [⟨"http", true⟩]
  restartPolicy := .always
  maxRestarts := 1
  readinessProbe := none

/-- From the beginning of a run to its loop. -/
def startUp : List PillowAct :=
  [.supervisor .go, .supervisor .go, .supervisor .go, .supervisor .go, .supervisor .go,
    .supervisor .go, .supervisor .started, .supervisor .go]

/-- The cleanup of a run, with a first failure of each of its loops; `reports` is how the process
ends in it. -/
def cleanUp (reports : List PillowAct) : List PillowAct :=
  [.supervisor .go, .supervisor .go, .supervisor .go, .supervisor .fail] ++ reports ++
    [.supervisor .go, .supervisor .go, .supervisor .fail, .supervisor .go, .supervisor .go,
    .supervisor .go]

/-- A conflict over the port, a restart and a stop. -/
def conflictThenRestart : List PillowAct :=
  [.supervisor .go] ++ startUp ++ [.supervisor .tick, .supervisor (.conflicting "http")] ++
    -- the second attempt becomes ready, and its process is lost when no member is left
    cleanUp [.exit 0 ⟨.signaled, 0⟩ false] ++ [.supervisor .go] ++ startUp ++
    [.supervisor .tick, .supervisor (.checked { ready := true }), .supervisor .go, .supervisor .go,
      .supervisor .go, .supervisor .go, .vanish 1, .exit 1 ⟨.lost, 0⟩ true, .supervisor .exited] ++
    cleanUp [] ++ [.supervisor .go, .supervisor .elapsed, .supervisor .go] ++ startUp ++
    [.restart, .stop, .supervisor .canceled] ++ cleanUp [.exit 2 ⟨.exited, 0⟩ false] ++
    [.supervisor .go, .stopReturns]

/-- A process is lost with its executor while members of its group live. -/
def lostThenRestart : List PillowAct :=
  [.supervisor .go] ++ startUp ++ [.exit 0 ⟨.lost, 0⟩ true, .supervisor .exited] ++ cleanUp [] ++
    -- it is restarted, and two processes are alive
    [.supervisor .go, .supervisor .elapsed, .supervisor .go] ++ startUp ++
    -- the second one ends, and `Stop` returns `nil` with a member of the first one alive
    [.stop, .supervisor .canceled] ++ cleanUp [.exit 1 ⟨.exited, 0⟩ false] ++
    [.supervisor .go, .stopReturns]

/-- Before its process ends, the second attempt is ready. -/
example : ((machine oneDynamicPort).run new (conflictThenRestart.take 37)).any
    (fun s => s.status.ready && decide (s.started = 2)) = true := by decide +kernel

end Record

end Hostel.Pillow
