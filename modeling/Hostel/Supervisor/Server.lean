/-
# Hostel.Supervisor.Server — one supervisor, its request handlers, its reaper and its callers.

Every connection has a handler that reads one message, serves it under the lock and writes one
reply.  The children exit, are adopted and are reaped in events of the world, and the reaper's
critical sections are events too.  A caller of `Start` sends its message twice if the first reply is
lost; which handler answers it, and whether the answer arrives, is decided outside.  A handler may
be given any bytes at all, so whatever a caller sends is among what is handled.

A record is made by the critical section that forks its child and is never removed; what it says of
the request never changes, and its status changes once (`Later`).  So an accepted `Start` has the
fingerprint of the child's own specification.

`forks` is what the kernel remembers: every child, and whether its handler kept it or killed its
process group before it let go of the lock.
-/
import Hostel.Logic.FiniteMap
import Hostel.Logic.Threads
import Hostel.Supervisor.Protocol

namespace Hostel.Supervisor

open Hostel.Logic Hostel.Logic.Utf8 Function List Option

/-! ## The supervisor's state -/

inductive ExitStatusKind
  | exited | signaled
  deriving DecidableEq, Repr

structure ExitStatus where
  kind : ExitStatusKind
  exitCode : Int := 0
  signal : Int := 0
  coreDumped : Bool := false
  deriving DecidableEq, Repr

/-- `syscall.WaitStatus`, as far as it is read. -/
structure WaitStatus where
  exitStatus : Int
  signaled : Option (Int × Bool) := none
  deriving DecidableEq, Repr

/-- The terminal fact `publishExitLocked` records. -/
def WaitStatus.toExit (ws : WaitStatus) : ExitStatus :=
  match ws.signaled with
  | none => { kind := .exited, exitCode := ws.exitStatus }
  | some (signal, core) => { kind := .signaled, signal, coreDumped := core }

/-- `processRecord`; the channel `done` is closed when `status` is set. -/
structure ProcessRecord where
  extraFileHash : Bytes
  parentPID : Int
  drainGroup : Bool
  cleaning : Bool := false
  id : Bytes
  specHash : Bytes
  pid : Nat
  status : Option ExitStatus := none
  deriving DecidableEq, Repr

/-- A child a handler forked; `hostPID` is what `parentPID` said of it. -/
structure Fork where
  processID : Bytes
  spec : StartSpec
  drainGroup : Bool
  extraFileHash : Bytes
  pid : Nat
  hostPID : Int
  /-- The handler did not kill it again. -/
  kept : Bool
  deriving DecidableEq, Repr

inductive ProcessState
  | running | exited
  deriving DecidableEq, Repr

structure Reply where
  executorID : Bytes
  processID : Bytes := []
  state : Option ProcessState := none
  pid : Int := 0
  exit : Option ExitStatus := none
  error : String := ""
  deriving DecidableEq, Repr

/-- `server`, with the children the kernel has for it (`some none` runs, `some (some ws)` has exited
and was not waited for), the children its handlers have forked, and the replies they have
written. -/
structure Server where
  executorID : Bytes
  draining : Bool := false
  processes : Bytes → Option ProcessRecord := fun _ => none
  byPID : Nat → Option Bytes := fun _ => none
  children : Nat → Option (Option WaitStatus) := fun _ => none
  childrenStopped : Bool := false
  forks : List Fork := []
  replies : ThreadId → Option (Message × Reply) := fun _ => none

namespace Server

def setRecord (s : Server) (id : Bytes) (p : ProcessRecord) : Server :=
  { s with processes := update s.processes id (some p) }

/-- `replyForLocked`. -/
def replyFor (s : Server) (p : ProcessRecord) : Reply where
  executorID := s.executorID
  processID := p.id
  pid := if p.parentPID = 0 then p.pid else p.parentPID
  state := some (if p.status.isSome then .exited else .running)
  exit := p.status

def refuse (s : Server) (id : Bytes) (message : String) : Reply where
  executorID := s.executorID
  processID := id
  error := message

/-- How `ForkExec` ends, and for a child what `parentPID` says of it. -/
inductive ForkOutcome
  | failed (detail : String)
  | forked (pid : Nat) (parent : Except String Int)
  deriving DecidableEq

def newRecord (r : Request) (fileHash : Bytes) (pid : Nat) (parent : Int) : ProcessRecord where
  extraFileHash := fileHash
  parentPID := parent
  drainGroup := r.drainGroup
  id := r.processID
  specHash := r.specHash
  pid

def keepChild (s : Server) (p : ProcessRecord) (f : Fork) : Server :=
  { s with
    processes := update s.processes p.id (some p)
    byPID := update s.byPID p.pid (some p.id)
    forks := f :: s.forks }

/-- `start` under the lock; a child gets a pid that no other child has. -/
def startLocked (r : Request) (spec : StartSpec) (fileHash : Bytes) (out : ForkOutcome)
    (s : Server) : Option (Server × Reply) :=
  match s.processes r.processID with
  | some p =>
    if p.specHash ≠ r.specHash ∨ p.drainGroup ≠ r.drainGroup ∨ p.extraFileHash ≠ fileHash then
      some (s, s.refuse r.processID StartError.reused.message)
    else some (s, s.replyFor p)
  | none =>
    if s.draining then some (s, s.refuse r.processID StartError.draining.message)
    else
      match out with
      | .failed detail => some (s, s.refuse r.processID (StartError.fork detail).message)
      | .forked pid parent =>
        if (s.children pid).isSome then none
        else
          let f (hostPID : Int) (kept : Bool) : Fork :=
            ⟨r.processID, spec, r.drainGroup, fileHash, pid, hostPID, kept⟩
          let s := { s with children := update s.children pid (some none) }
          match parent with
          | .error detail =>
            -- the handler kills the process group of the child, and keeps no record
            some ({ s with forks := f 0 false :: s.forks },
              s.refuse r.processID (StartError.childPID detail).message)
          | .ok hostPID =>
            let p := newRecord r fileHash pid hostPID
            some (s.keepChild p (f hostPID true), s.replyFor p)

def get (id : Bytes) (s : Server) : Reply :=
  match s.processes id with
  | none => s.refuse id "process not found"
  | some p => s.replyFor p

def sigkill : Int := 9

def sigterm : Int := 15

/-- `signal`; what the signal does to the group is an event of the world. -/
def signal (id : Bytes) (sig : Int) (s : Server) : Reply :=
  if sig ≠ sigkill ∧ sig ≠ sigterm then s.refuse id "only SIGTERM and SIGKILL are supported"
  else
    match s.processes id with
    | none => s.refuse id "process not found"
    | some p => s.replyFor p

def publishExit (pid : Nat) (ws : WaitStatus) (s : Server) : Server :=
  match s.byPID pid with
  | none => s
  | some id =>
    match s.processes id with
    | none => s
    | some p =>
      { s.setRecord id { p with status := some ws.toExit } with
        byPID := update s.byPID pid none }

/-- `wait4` of a child that has exited, and its publication. -/
def reapChild (pid : Nat) (ws : WaitStatus) (s : Server) : Server :=
  publishExit pid ws { s with children := update s.children pid none }

/-- The record of a child, if it has one. -/
def recordOf (s : Server) (pid : Nat) : Option (Bytes × ProcessRecord) :=
  (s.byPID pid).bind fun id => (s.processes id).map fun p => (id, p)

/-! ## Handlers, callers and the world -/

inductive Pc
  | serve (m : Message)
  | starting (m : Message) (r : Request) (spec : StartSpec) (fileHash : Bytes)
  | getting (m : Message) (id : Bytes)
  | wait (m : Message) (id : Bytes)
  | waiting (m : Message) (id : Bytes)
  | signaling (m : Message) (id : Bytes) (signal : Int)
  | shutdown (m : Message)
  | stopping (m : Message)
  | writing (m : Message) (rep : Reply)
  | served (m : Message) (rep : Reply)
  | caller (call : StartCall)
  | attempt (call : StartCall) (m : Message) (n : Nat)
  | returned (call : StartCall) (pid : Option Int)
  deriving DecidableEq

inductive Choice
  | go
  | fork (out : ForkOutcome)
  /-- The caller gives up before it sends: its context is done, or the executor is not ready. -/
  | unready
  /-- The reply of a handler reaches the caller. -/
  | reply (u : ThreadId)
  /-- The connection fails, before or after the request was read. -/
  | lost
  /-- The connection fails, and the executor is known to be gone. -/
  | gone
  deriving DecidableEq

section Calls

variable (sum : Bytes → Bytes)

/-- `serve` after the message was read. -/
def dispatch (m : Message) (r : Request) (s : Server) : Pc :=
  if r.executorID ≠ s.executorID then
    .writing m { executorID := s.executorID, error := "stale executor identity" }
  else
    match r.operation with
    | .describe => .writing m { executorID := s.executorID }
    | .start =>
      match checkStart sum r m.fds with
      | .error e => .writing m (s.refuse r.processID e.message)
      | .ok (spec, fileHash) => .starting m r spec fileHash
    | .get => .getting m r.processID
    | .wait => .wait m r.processID
    | .signal => .signaling m r.processID r.signal
    | .shutdown => .shutdown m
    | .unknown _ => .writing m { executorID := s.executorID, error := "unknown operation" }

def maxAttempts : Nat := 2

/-- The next attempt after a transport error, or none. -/
def retry (call : StartCall) (m : Message) (n : Nat) : Pc :=
  if n < maxAttempts then .attempt call m (n + 1) else .returned call none

/-- `client.call` and `Client.start` at the reply. -/
def accept (call : StartCall) (m : Message) (n : Nat) (rep : Reply) : Pc :=
  if Utf8.repair rep.executorID ≠ call.executorID then retry call m n
  else if rep.error ≠ "" then .returned call none
  else if rep.pid ≤ 0 then retry call m n
  else .returned call (some rep.pid)

def move (t : ThreadId) (s : Server) (pc : Pc) (x : Choice) : Option (Server × Pc) :=
  match pc, x with
  | .serve m, .go =>
    some (s, match readMsg m.frame with
      | .error _ => .writing m { executorID := s.executorID, error := "read request: " }
      | .ok r => dispatch sum m r s)
  | .starting m r spec fileHash, .fork out =>
    (startLocked r spec fileHash out s).map fun p => (p.1, .writing m p.2)
  | .getting m id, .go => some (s, .writing m (s.get id))
  | .wait m id, .go =>
    some (s, match s.processes id with
      | none => .writing m (s.refuse id "process not found")
      | some _ => .waiting m id)
  | .waiting m id, .go =>
    -- the channel is closed once the status is there
    if (s.processes id).any fun p => p.status.isSome then some (s, .getting m id) else none
  | .signaling m id sig, .go => some (s, .writing m (s.signal id sig))
  | .shutdown m, .go => some ({ s with draining := true }, .stopping m)
  | .stopping m, .go =>
    if s.childrenStopped then some (s, .writing m { executorID := s.executorID }) else none
  | .writing m rep, .go =>
    some ({ s with replies := update s.replies t (some (m, rep)) }, .served m rep)
  | .caller call, .unready => some (s, .returned call none)
  | .caller call, .go =>
    -- a command needs a process id, arguments and an explicit environment
    if call.processID = [] ∨ call.spec.argv.getD [] = [] ∨ call.spec.env = none then
      some (s, .returned call none)
    else
      some (s, match call.send sum with
        | .error _ => .returned call none
        | .ok m => .attempt call m 1)
  | .attempt call m n, .reply u =>
    (s.replies u).bind fun p => if p.1 = m then some (s, accept call m n p.2) else none
  | .attempt call m n, .lost => some (s, retry call m n)
  | .attempt call _ _, .gone => some (s, .returned call none)
  | _, _ => none

inductive Event
  /-- A child exits. -/
  | exit (pid : Nat) (ws : WaitStatus)
  /-- An orphan is adopted. -/
  | adopt (pid : Nat)
  /-- The reaper waits for a child without a record, or whose group need not be drained. -/
  | reap (pid : Nat)
  /-- The reaper sees that a main process has exited and starts `drainMain`. -/
  | notice (pid : Nat)
  /-- `drainMain` has drained the group and waits for the main process. -/
  | drained (pid : Nat)
  /-- A signal makes the supervisor shut down. -/
  | term
  /-- `killAll` has returned. -/
  | stopped
  deriving DecidableEq

def world (s : Server) : Event → Option Server
  | .exit pid ws =>
    if s.children pid = some none then
      some { s with children := update s.children pid (some (some ws)) }
    else none
  | .adopt pid =>
    if s.children pid = none then
      some { s with children := update s.children pid (some none) }
    else none
  | .reap pid =>
    match s.children pid with
    | some (some ws) =>
      if (s.recordOf pid).any fun q => q.2.drainGroup then none else some (s.reapChild pid ws)
    | _ => none
  | .notice pid =>
    match s.children pid, s.recordOf pid with
    | some (some _), some (id, p) =>
      if p.drainGroup && !p.cleaning then some (s.setRecord id { p with cleaning := true })
      else none
    | _, _ => none
  | .drained pid =>
    match s.children pid, s.recordOf pid with
    | some (some ws), some (_, p) => if p.cleaning then some (s.reapChild pid ws) else none
    | _, _ => none
  | .term => some { s with draining := true }
  | .stopped => if s.draining then some { s with childrenStopped := true } else none

def program : Program Server Pc Choice Event where
  entry
    | .serve _ | .caller _ => true
    | _ => false
  move := move sum
  world := world

def new (executorID : Bytes) : Server := { executorID }

end Calls

/-! ## Records -/

variable {sum : Bytes → Bytes} {s s' : Server} {t u : ThreadId} {id : Bytes}
  {p p' : ProcessRecord} {m : Message}
  {rep : Reply} {r : Request} {spec : StartSpec} {fileHash : Bytes} {call : StartCall}

/-- What becomes of a record: it stays about the same request and child, and its status is final. -/
structure Later (p p' : ProcessRecord) : Prop where
  id : p'.id = p.id
  specHash : p'.specHash = p.specHash
  drainGroup : p'.drainGroup = p.drainGroup
  extraFileHash : p'.extraFileHash = p.extraFileHash
  pid : p'.pid = p.pid
  parentPID : p'.parentPID = p.parentPID
  status : ∀ st, p.status = some st → p'.status = some st

theorem Later.refl (p : ProcessRecord) : Later p p := ⟨rfl, rfl, rfl, rfl, rfl, rfl, fun _ h => h⟩

theorem Later.trans {p'' : ProcessRecord} (h : Later p p') (h' : Later p' p'') : Later p p'' :=
  ⟨h'.id.trans h.id, h'.specHash.trans h.specHash, h'.drainGroup.trans h.drainGroup,
    h'.extraFileHash.trans h.extraFileHash, h'.pid.trans h.pid, h'.parentPID.trans h.parentPID,
    fun st hs => h'.status st (h.status st hs)⟩

/-- What the time that passes leaves: records go on, and a supervisor that is draining forks no
more. -/
structure Grows (s s' : Server) : Prop where
  executorID : s'.executorID = s.executorID
  records : ∀ id p, s.processes id = some p → ∃ p', s'.processes id = some p' ∧ Later p p'
  forks : ∀ f ∈ s.forks, f ∈ s'.forks
  draining : s.draining = true → s'.draining = true ∧ s'.forks = s.forks

theorem Grows.refl (s : Server) : Grows s s :=
  ⟨rfl, fun _ p h => ⟨p, h, .refl p⟩, fun _ h => h, fun h => ⟨h, rfl⟩⟩

theorem Grows.trans {s'' : Server} (h : Grows s s') (h' : Grows s' s'') : Grows s s'' := by
  refine ⟨h'.executorID.trans h.executorID, fun id p hp => ?_,
    fun f hf => h'.forks f (h.forks f hf), fun hd => ?_⟩
  · obtain ⟨p₁, hp₁, hl₁⟩ := h.records id p hp
    obtain ⟨p₂, hp₂, hl₂⟩ := h'.records id p₁ hp₁
    exact ⟨p₂, hp₂, hl₁.trans hl₂⟩
  · have h₁ := h.draining hd
    have h₂ := h'.draining h₁.1
    exact ⟨h₂.1, h₂.2.trans h₁.2⟩

theorem Grows.of_same (he : s'.executorID = s.executorID) (hp : s'.processes = s.processes)
    (hf : s'.forks = s.forks) (hd : s.draining = true → s'.draining = true) : Grows s s' :=
  ⟨he, fun _ p h => ⟨p, hp ▸ h, .refl p⟩, fun _ h => hf ▸ h, fun h => ⟨hd h, hf⟩⟩

/-! ## The outline -/

/-- The record of a request: made for the same specification, drain flag and files, and of a child
with this pid. -/
def Accepted (s : Server) (r : Request) (pid : Int) : Prop :=
  ∃ p, s.processes r.processID = some p ∧ p.specHash = r.specHash ∧ p.drainGroup = r.drainGroup ∧
    p.extraFileHash = r.extraFileHash ∧ pid = if p.parentPID = 0 then (p.pid : Int) else p.parentPID

theorem Accepted.grows {pid : Int} (h : Accepted s r pid) (hg : Grows s s') :
    Accepted s' r pid := by
  obtain ⟨p, hp, h₁, h₂, h₃, h₄⟩ := h
  obtain ⟨p', hp', hl⟩ := hg.records _ p hp
  exact ⟨p', hp', hl.specHash.trans h₁, hl.drainGroup.trans h₂, hl.extraFileHash.trans h₃,
    by rw [hl.parentPID, hl.pid, h₄]⟩

/-- A reply to a start request accepts it only if its record is there. -/
def Answers (s : Server) (m : Message) (rep : Reply) : Prop :=
  ∀ r, readMsg m.frame = .ok r → r.operation = .start → rep.error = "" → Accepted s r rep.pid

theorem Answers.grows (h : Answers s m rep) (hg : Grows s s') : Answers s' m rep :=
  fun r hr hop he => (h r hr hop he).grows hg

/-- The child of a record: forked with a specification that has its fingerprint. -/
structure ForkOf (sum : Bytes → Bytes) (p : ProcessRecord) (f : Fork) : Prop where
  kept : f.kept = true
  id : f.processID = p.id
  hash : specHash sum f.spec = p.specHash
  valid : f.spec.Valid
  drainGroup : f.drainGroup = p.drainGroup
  files : f.extraFileHash = p.extraFileHash
  pid : f.pid = p.pid
  hostPID : f.hostPID = p.parentPID

theorem ForkOf.later {f : Fork} (h : ForkOf sum p f) (hl : Later p p') : ForkOf sum p' f :=
  ⟨h.kept, h.id.trans hl.id.symm, h.hash.trans hl.specHash.symm, h.valid,
    h.drainGroup.trans hl.drainGroup.symm, h.files.trans hl.extraFileHash.symm,
    h.pid.trans hl.pid.symm, h.hostPID.trans hl.parentPID.symm⟩

structure Inv (sum : Bytes → Bytes) (s : Server) : Prop where
  record : ∀ id p, s.processes id = some p → p.id = id ∧ ∃ f ∈ s.forks, ForkOf sum p f
  kept : ∀ f ∈ s.forks, f.kept = true → ∃ p, s.processes f.processID = some p
  once : s.forks.Pairwise fun f g => f.kept = true → g.kept = true → f.processID ≠ g.processID
  running : ∀ pid id, s.byPID pid = some id →
    (∃ p, s.processes id = some p ∧ p.pid = pid ∧ p.status = none) ∧ (s.children pid).isSome = true
  answered : ∀ u m rep, s.replies u = some (m, rep) → Answers s m rep

/-- The child with this pid was forked with the caller's own files and specification, unless the
hash has a collision there. -/
def Started (sum : Bytes → Bytes) (s : Server) (call : StartCall) (pid : Int) : Prop :=
  ∃ f ∈ s.forks, f.kept = true ∧ f.processID = Utf8.repair call.processID ∧
    f.drainGroup = call.drainGroup ∧ (∃ files, call.Sent sum files f.extraFileHash) ∧
    pid = (if f.hostPID = 0 then (f.pid : Int) else f.hostPID) ∧
    (call.spec = f.spec ∨ Collision sum call.spec f.spec)

def Asserts (sum : Bytes → Bytes) (s : Server) : Option Pc → Prop
  | some (.starting m r spec fileHash) => readMsg m.frame = .ok r ∧ Checked sum r spec fileHash
  | some (.getting m _) | some (.wait m _) | some (.waiting m _) | some (.signaling m _ _)
  | some (.shutdown m) | some (.stopping m) => ∀ r, readMsg m.frame = .ok r → r.operation ≠ .start
  | some (.writing m rep) | some (.served m rep) => Answers s m rep
  | some (.attempt call m _) =>
    call.send sum = .ok m ∧ call.processID ≠ [] ∧ call.spec.argv.getD [] ≠ []
  | some (.returned call (some pid)) => Started sum s call pid
  | _ => True

theorem Asserts.grows {q : Option Pc} (h : Asserts sum s q) (hg : Grows s s') :
    Asserts sum s' q := by
  match q with
  | some (.writing m rep) | some (.served m rep) => exact Answers.grows h hg
  | some (.returned call (some _)) =>
    obtain ⟨f, hf, hrest⟩ := h
    exact ⟨f, hg.forks f hf, hrest⟩
  | some (.starting ..) | some (.getting ..) | some (.wait ..) | some (.waiting ..)
  | some (.signaling ..) | some (.shutdown _) | some (.stopping _) | some (.attempt ..) => exact h
  | none | some (.serve _) | some (.caller _) | some (.returned _ none) => trivial

/-! ### Start -/

theorem message_ne_empty (e : StartError) : e.message ≠ "" := by
  cases e
  case specUnreadable detail | fork detail | childPID detail =>
    exact fun h => absurd (String.append_eq_empty_iff.mp h).1 (by decide)
  all_goals decide

theorem Answers.refused {message : String} (h : message ≠ "") :
    Answers s m (s'.refuse id message) :=
  fun _ _ _ he => absurd he h

theorem Inv.children {children : Nat → Option (Option WaitStatus)} (h : Inv sum s)
    (hc : ∀ pid id, s.byPID pid = some id → (s.children pid).isSome = true →
      (children pid).isSome = true) : Inv sum { s with children } :=
  ⟨h.record, h.kept, h.once,
    fun pid id hp => ⟨(h.running pid id hp).1, hc pid id hp (h.running pid id hp).2⟩,
    fun u m rep hu => (h.answered u m rep hu).grows (.of_same rfl rfl rfl fun h => h)⟩

theorem Inv.child (h : Inv sum s) (pid : Nat) (x : Option WaitStatus) :
    Inv sum { s with children := update s.children pid (some x) } ∧
      Grows s { s with children := update s.children pid (some x) } := by
  refine ⟨h.children fun pid' id _ hc => ?_, .of_same rfl rfl rfl fun h => h⟩
  by_cases hp : pid' = pid
  · simp [hp]
  · simpa [hp] using hc

theorem Inv.killed {f : Fork} (h : Inv sum s) (hf : f.kept = false) (hd : s.draining = false) :
    Inv sum { s with forks := f :: s.forks } ∧ Grows s { s with forks := f :: s.forks } := by
  have hg : Grows s { s with forks := f :: s.forks } :=
    ⟨rfl, fun _ p hp => ⟨p, hp, .refl p⟩, fun _ hg => mem_cons_of_mem _ hg,
      fun h => by simp [hd] at h⟩
  refine ⟨⟨fun id p hp => ?_, ?_, ?_, h.running,
    fun u m rep hu => (h.answered u m rep hu).grows hg⟩, hg⟩
  · obtain ⟨hid, g, hg, hof⟩ := h.record id p hp
    exact ⟨hid, g, mem_cons_of_mem _ hg, hof⟩
  · rintro g (- | ⟨_, hg⟩) hk
    · simp [hf] at hk
    · exact h.kept g hg hk
  · exact pairwise_cons.mpr ⟨fun g _ hk => by simp [hf] at hk, h.once⟩

theorem Inv.recorded {f : Fork} (h : Inv sum s) (hof : ForkOf sum p f)
    (hnone : s.processes p.id = none) (hd : s.draining = false) (hst : p.status = none)
    (hpid : (s.children p.pid).isSome = true) :
    Inv sum (s.keepChild p f) ∧ Grows s (s.keepChild p f) := by
  have hother : ∀ id q, s.processes id = some q → id ≠ p.id := by
    rintro id q hq rfl
    rw [hnone] at hq
    cases hq
  have hg : Grows s (s.keepChild p f) := by
    refine ⟨rfl, fun id q hq => ⟨q, ?_, .refl q⟩, fun _ hg => mem_cons_of_mem _ hg,
      fun h => by simp [hd] at h⟩
    simpa [keepChild, hother id q hq] using hq
  refine ⟨⟨fun id q hq => ?_, ?_, ?_, fun pid id hp => ?_,
    fun u m rep hu => (h.answered u m rep hu).grows hg⟩, hg⟩
  · obtain ⟨rfl, rfl⟩ | ⟨-, hq⟩ := update_eq_some.mp hq
    · exact ⟨rfl, f, mem_cons_self, hof⟩
    · obtain ⟨hid', g, hg, hof'⟩ := h.record id q hq
      exact ⟨hid', g, mem_cons_of_mem _ hg, hof'⟩
  · rintro g (- | ⟨_, hg⟩) hk
    · exact ⟨p, by simp [keepChild, hof.id]⟩
    · obtain ⟨q, hq⟩ := h.kept g hg hk
      exact ⟨q, by simpa [keepChild, hother _ q hq] using hq⟩
  · -- a kept fork of the same id would have a record
    refine pairwise_cons.mpr ⟨fun g hg _ hk heq => ?_, h.once⟩
    obtain ⟨q, hq⟩ := h.kept g hg hk
    exact hother _ q hq (heq.symm.trans hof.id)
  · obtain ⟨rfl, rfl⟩ | ⟨-, hp⟩ := update_eq_some.mp hp
    · exact ⟨⟨p, by simp [keepChild], rfl, hst⟩, hpid⟩
    · obtain ⟨⟨q, hq₁, hq₂⟩, hc⟩ := h.running pid id hp
      exact ⟨⟨q, by simpa [keepChild, hother id q hq₁] using hq₁, hq₂⟩, hc⟩

theorem startLocked_own {out : ForkOutcome} (hI : Inv sum s) (hr : readMsg m.frame = .ok r)
    (hc : Checked sum r spec fileHash) (h : startLocked r spec fileHash out s = some (s', rep)) :
    (Inv sum s' ∧ Grows s s') ∧ Answers s' m rep := by
  have hquiet : Inv sum s ∧ Grows s s := ⟨hI, .refl s⟩
  have haccepted : ∀ {s' : Server}, Accepted s' r rep.pid → Answers s' m rep := by
    intro s' ha r' hr' _ _
    cases hr.symm.trans hr'
    exact ha
  revert h
  fun_cases startLocked r spec fileHash out s <;> intro h
  case case1 | case3 | case4 => cases h; exact ⟨hquiet, .refused (message_ne_empty _)⟩
  case case2 p hp hsame =>
    cases h
    simp only [not_or, not_not] at hsame
    exact ⟨hquiet, haccepted ⟨p, hp, hsame.1, hsame.2.1, hsame.2.2.trans hc.files, rfl⟩⟩
  case case5 => cases h
  case case6 _ hdrain pid hfree f s₁ detail =>
    cases h
    obtain ⟨h₁, hg₁⟩ := hI.child pid none
    obtain ⟨h₂, hg₂⟩ := h₁.killed (f := f 0 false) rfl (by simpa using hdrain)
    exact ⟨⟨h₂, hg₁.trans hg₂⟩, .refused (message_ne_empty _)⟩
  case case7 hnone hdrain pid hfree f s₁ hostPID p =>
    cases h
    obtain ⟨h₁, hg₁⟩ := hI.child pid none
    obtain ⟨h₂, hg₂⟩ := h₁.recorded (p := p) (f := f hostPID true)
      ⟨rfl, rfl, hc.hash.symm, hc.valid, rfl, rfl, rfl, rfl⟩
      hnone (by simpa using hdrain) rfl (by simp [p, newRecord])
    exact ⟨⟨h₂, hg₁.trans hg₂⟩,
      haccepted ⟨p, by simp [keepChild, p, newRecord], rfl, rfl, hc.files, rfl⟩⟩

/-! ### Handlers and callers -/

theorem dispatch_asserts (hr : readMsg m.frame = .ok r) :
    Asserts sum s (some (dispatch sum m r s)) := by
  have hfail : ∀ message, message ≠ "" →
      Answers s m { executorID := s.executorID, error := message } :=
    fun _ he _ _ _ h => absurd h he
  have hnot : r.operation ≠ .start → ∀ r', readMsg m.frame = .ok r' → r'.operation ≠ .start := by
    intro hop r' hr'
    cases hr.symm.trans hr'
    exact hop
  unfold dispatch
  split_ifs with hid
  · exact hfail _ (by decide)
  · split
    · next hop => exact fun r' hr' hs _ => absurd hs (hnot (by simp [hop]) r' hr')
    · split
      · exact Answers.refused (message_ne_empty _)
      · next hcheck => exact ⟨hr, checked_of_checkStart hr hcheck⟩
    all_goals next hop => first
      | exact hnot (by simp [hop])
      | exact hfail _ (by decide)

/-- A caller that is told of a process is told of one forked with its own specification. -/
theorem started_of_answer (hI : Inv sum s) (ha : Answers s m rep)
    (hsend : call.send sum = .ok m) (hid : call.processID ≠ [])
    (hargv : call.spec.argv.getD [] ≠ []) (he : rep.error = "") : Started sum s call rep.pid := by
  obtain ⟨files, fileHash, offloaded, r, hsent, -, hread, -, hpid, hop, hdrain, hhash, hfiles, -⟩ :=
    checkStart_send hid hargv hsend
  obtain ⟨p, hp, hph, hpd, hpf, hpp⟩ := ha r hread hop he
  obtain ⟨hp', f, hf, hof⟩ := hI.record _ p hp
  refine ⟨f, hf, hof.kept, hof.id.trans (hp'.trans hpid),
    hof.drainGroup.trans (hpd.trans hdrain), ⟨files, ?_⟩, by rw [hof.hostPID, hof.pid, hpp],
    spec_eq_or_collision hof.valid (hhash.symm.trans (hph.symm.trans hof.hash.symm))⟩
  rw [hof.files.trans (hpf.trans hfiles)]
  exact hsent

theorem retry_asserts {n : Nat} (h : Asserts sum s (some (.attempt call m n))) :
    Asserts sum s (some (retry call m n)) := by
  unfold retry
  split_ifs
  · exact h
  · trivial

section

variable (hI : Inv sum s)
include hI

theorem accept_asserts {n : Nat} (ha : Answers s m rep)
    (h : Asserts sum s (some (.attempt call m n))) :
    Asserts sum s (some (accept call m n rep)) := by
  unfold accept
  split_ifs with h₁ h₂ h₃
  · exact retry_asserts h
  · trivial
  · exact retry_asserts h
  · exact started_of_answer hI ha h.1 h.2.1 h.2.2 (not_not.mp h₂)

theorem Inv.reply (ha : Answers s m rep) :
    Inv sum { s with replies := update s.replies t (some (m, rep)) } := by
  have hg : Grows s { s with replies := update s.replies t (some (m, rep)) } :=
    .of_same rfl rfl rfl fun h => h
  refine ⟨hI.record, hI.kept, hI.once, hI.running, fun u m' rep' hu => ?_⟩
  obtain ⟨rfl, heq⟩ | ⟨-, hu⟩ := update_eq_some.mp hu
  · cases heq
    exact ha.grows hg
  · exact (hI.answered u m' rep' hu).grows hg

theorem Inv.drain : Inv sum { s with draining := true } :=
  ⟨hI.record, hI.kept, hI.once, hI.running,
    fun u m rep hu => (hI.answered u m rep hu).grows (.of_same rfl rfl rfl fun _ => rfl)⟩

theorem move_own {pc pc' : Pc} {x : Choice}
    (hA : Asserts sum s (some pc)) (h : move sum t s pc x = some (s', pc')) :
    (Inv sum s' ∧ Grows s s') ∧ Asserts sum s' (some pc') := by
  have hquiet : Inv sum s ∧ Grows s s := ⟨hI, .refl s⟩
  have hother : ∀ {m rep}, (∀ r, readMsg m.frame = .ok r → r.operation ≠ .start) →
      Answers s m rep :=
    fun hne r hr hs => absurd hs (hne r hr)
  revert h
  fun_cases move sum t s pc x <;> intro h
  case case1 m =>
    cases h
    refine ⟨hquiet, ?_⟩
    split
    · next hr => exact fun r hr' => by cases hr.symm.trans hr'
    · next hr => exact dispatch_asserts hr
  case case2 m r spec fileHash out =>
    obtain ⟨q, hq, heq⟩ := map_eq_some_iff.mp h
    cases heq
    exact startLocked_own hI hA.1 hA.2 hq
  case case3 | case7 | case9 => cases h; exact ⟨hquiet, hother hA⟩
  case case4 m id =>
    cases h
    refine ⟨hquiet, ?_⟩
    split
    · exact hother hA
    · exact hA
  case case5 => cases h; exact ⟨hquiet, hA⟩
  case case8 => cases h; exact ⟨⟨hI.drain, .of_same rfl rfl rfl fun _ => rfl⟩, hA⟩
  case case11 m rep =>
    cases h
    have hg : Grows s { s with replies := update s.replies t (some (m, rep)) } :=
      .of_same rfl rfl rfl fun h => h
    exact ⟨⟨hI.reply hA, hg⟩, Answers.grows hA hg⟩
  case case14 call hcall =>
    cases h
    refine ⟨hquiet, ?_⟩
    simp only [not_or] at hcall
    split
    · trivial
    · next hsend => exact ⟨hsend, hcall.1, hcall.2.1⟩
  case case15 call m n u =>
    obtain ⟨⟨m', rep⟩, hu, h⟩ := bind_eq_some_iff.mp h
    obtain ⟨rfl, h⟩ := (ite_none_right_eq_some ..).mp h
    cases h
    exact ⟨hquiet, accept_asserts hI (hI.answered u _ rep hu) hA⟩
  case case16 => cases h; exact ⟨hquiet, retry_asserts hA⟩
  case case12 | case13 | case17 => cases h; exact ⟨hquiet, trivial⟩
  all_goals cases h

/-! ### The world -/

/-- One record goes on; `hrun` says what it does to the children that run. -/
theorem Inv.rewrite (hp : s.processes id = some p) (hl : Later p p')
    (hr : s'.processes = update s.processes id (some p'))
    (hsame : s'.executorID = s.executorID ∧ s'.forks = s.forks ∧ s'.replies = s.replies ∧
      s'.draining = s.draining)
    (hrun : ∀ pid id', s'.byPID pid = some id' →
      (∃ q, s'.processes id' = some q ∧ q.pid = pid ∧ q.status = none) ∧
      (s'.children pid).isSome = true) :
    Inv sum s' ∧ Grows s s' := by
  obtain ⟨he, hf, hreplies, hd⟩ := hsame
  have hg : Grows s s' := by
    refine ⟨he, fun id' q hq => ?_, fun _ h => hf ▸ h, fun h => ⟨hd.trans h, hf⟩⟩
    by_cases hid : id' = id
    · subst hid
      cases hp.symm.trans hq
      exact ⟨p', by simp [hr], hl⟩
    · exact ⟨q, by simpa [hr, hid] using hq, .refl q⟩
  refine ⟨⟨fun id' q hq => ?_, fun f hfork hk => ?_, hf ▸ hI.once, hrun, fun u m rep hu => ?_⟩, hg⟩
  · rw [hf]
    rw [hr] at hq
    obtain ⟨rfl, rfl⟩ | ⟨-, hq⟩ := update_eq_some.mp hq
    · obtain ⟨hid, f, hfork, hof⟩ := hI.record _ p hp
      exact ⟨hl.id.trans hid, f, hfork, hof.later hl⟩
    · exact hI.record id' q hq
  · obtain ⟨q, hq⟩ := hI.kept f (hf ▸ hfork) hk
    obtain ⟨q', hq', -⟩ := hg.records _ q hq
    exact ⟨q', hq'⟩
  · exact (hI.answered u m rep (hreplies ▸ hu)).grows hg

theorem reapChild_own {pid : Nat} {ws : WaitStatus} :
    Inv sum (s.reapChild pid ws) ∧ Grows s (s.reapChild pid ws) := by
  unfold reapChild publishExit
  split
  · next hnone =>
    refine ⟨hI.children fun pid' id hp hc => ?_, .of_same rfl rfl rfl fun h => h⟩
    have hne : pid' ≠ pid := by
      rintro rfl
      rw [show s.byPID pid' = none from hnone] at hp
      cases hp
    simpa [hne] using hc
  · next id hid =>
    obtain ⟨⟨p, hp, hpid, hst⟩, -⟩ := hI.running pid id hid
    have hp' : ({ s with children := update s.children pid none } : Server).processes id =
      some p := hp
    rw [hp']
    have hl : Later p { p with status := some ws.toExit } :=
      ⟨rfl, rfl, rfl, rfl, rfl, rfl, fun st h => by rw [hst] at h; cases h⟩
    refine hI.rewrite hp hl rfl ⟨rfl, rfl, rfl, rfl⟩ fun pid' id' hrun => ?_
    have hne : pid' ≠ pid := by
      rintro rfl
      simp at hrun
    obtain ⟨⟨q, hq, hqpid, hqst⟩, hc⟩ := hI.running pid' id' (by simpa [hne] using hrun)
    -- another child has another record
    have hid' : id' ≠ id := by
      rintro rfl
      cases hp.symm.trans hq
      exact hne (hqpid.symm.trans hpid)
    exact ⟨⟨q, by simpa [setRecord, hid'] using hq, hqpid, hqst⟩,
      by simpa [setRecord, hne] using hc⟩

end

theorem recordOf_eq_some {pid : Nat} (h : s.recordOf pid = some (id, p)) :
    s.byPID pid = some id ∧ s.processes id = some p := by
  obtain ⟨id', hid, h⟩ := bind_eq_some_iff.mp h
  obtain ⟨p', hp, heq⟩ := map_eq_some_iff.mp h
  cases heq
  exact ⟨hid, hp⟩

theorem Inv.later (hI : Inv sum s) (hp : s.processes id = some p) (hl : Later p p')
    (hst : p'.status = p.status) : Inv sum (s.setRecord id p') ∧ Grows s (s.setRecord id p') := by
  refine hI.rewrite hp hl rfl ⟨rfl, rfl, rfl, rfl⟩ fun pid id' hpid => ?_
  obtain ⟨⟨q, hq, hqpid, hqst⟩, hc⟩ := hI.running pid id' hpid
  refine ⟨exists_update hq ?_ fun _ => ⟨hqpid, hqst⟩, hc⟩
  rintro rfl
  cases hp.symm.trans hq
  exact ⟨hl.pid.trans hqpid, hst.trans hqst⟩

theorem world_own {e : Event} (hI : Inv sum s) (h : s.world e = some s') :
    Inv sum s' ∧ Grows s s' := by
  revert h
  fun_cases world s e <;> intro h
  case case1 pid ws _ => cases h; exact hI.child pid (some ws)
  case case3 pid _ => cases h; exact hI.child pid none
  case case6 | case11 => cases h; exact reapChild_own hI
  case case8 pid _ id p hrec _ _ =>
    cases h
    exact hI.later (recordOf_eq_some hrec).2 ⟨rfl, rfl, rfl, rfl, rfl, rfl, fun _ h => h⟩ rfl
  case case14 => cases h; exact ⟨hI.drain, .of_same rfl rfl rfl fun _ => rfl⟩
  case case15 =>
    cases h
    have hg : Grows s { s with childrenStopped := true } := .of_same rfl rfl rfl fun h => h
    exact ⟨⟨hI.record, hI.kept, hI.once, hI.running,
      fun u m rep hu => (hI.answered u m rep hu).grows hg⟩, hg⟩
  all_goals cases h

theorem outline : (program sum).Outline (Inv sum) fun _ => Asserts sum where
  call {s t pc} _ _ hentry := by
    cases pc
    case serve | caller => trivial
    all_goals cases hentry
  own hI hA hm := ⟨(move_own hI hA hm).1.1, (move_own hI hA hm).2⟩
  other hI hA hm _ hB := Asserts.grows hB (move_own hI hA hm).1.2
  world hI hw := ⟨(world_own hI hw).1, fun _ _ hA => Asserts.grows hA (world_own hI hw).2⟩

/-! ## Runs -/

section Runs

variable {executorID : Bytes} {c d d' : Config Server Pc} {act : ThreadAct Pc Choice Event}
  {τ τ₁ τ₂ : List (Config Server Pc × ThreadAct Pc Choice Event)}

theorem inv_new (executorID : Bytes) : Inv sum (new executorID) where
  record _ _ h := by cases h
  kept _ h := by cases h
  once := .nil
  running _ _ h := by cases h
  answered _ _ _ h := by cases h

theorem outlined_of_trace (h : (program sum).machine.Trace (Program.init (new executorID)) τ d) :
    Program.Outlined (Inv sum) (fun _ => Asserts sum) d :=
  outline.proof_outline (inv_new executorID) (fun _ => trivial) h

theorem grows_of_trace (hc : Program.Outlined (Inv sum) (fun _ => Asserts sum) c)
    (h : (program sum).machine.Trace c τ d) : Grows c.shared d.shared := by
  refine outline.stable (Q := fun d => Grows c.shared d.shared) h hc (.refl _) ?_
  intro c₁ act c₂ hout hg hstep
  refine hg.trans (hout.step_shared hstep (.refl _) (fun hA hm => ?_)
    fun hw => (world_own hout.1 hw).2)
  exact (move_own hout.1 hA hm).1.2

theorem getting_reports {st : ExitStatus} (hp : d.shared.processes id = some p)
    (hst : p.status = some st) (ht : d.threads t = some (.getting m id))
    (h : (program sum).machine.step d (.move t .go) = some d') :
    ∃ rep, d'.threads t = some (.writing m rep) ∧ rep.exit = some st ∧ rep.error = "" := by
  obtain ⟨pc, s', pc', ht', hm, rfl⟩ := Program.step_move.mp h
  cases ht.symm.trans ht'
  have hm' : some (d.shared, Pc.writing m (d.shared.get id)) = some (s', pc') := hm
  cases hm'
  refine ⟨d.shared.get id, by simp, ?_, ?_⟩
  · rw [get, hp]
    exact hst
  · rw [get, hp]
    rfl

/-- **Exactly-once start.** At every moment `d` of a run, and for every moment `c` before it: at
most one child per process id was forked and not killed again by its handler; an accepted start
request has the fingerprints and the drain flag of that child; nothing is forked once the supervisor
is draining; a recorded status stays, and is what `Get` and `Wait` report; and a caller of `Start`
that returned a pid has a child with that pid, of its own files and specification, or two
specifications with one SHA-256. -/
theorem starts_exactly_once (hc : (program sum).machine.Trace (Program.init (new executorID)) τ₁ c)
    (hd : (program sum).machine.Trace c τ₂ d) :
    (d.shared.forks.Pairwise fun f g => f.kept = true → g.kept = true → f.processID ≠ g.processID) ∧
    (∀ t m rep r, d.threads t = some (.served m rep) → readMsg m.frame = .ok r →
      r.operation = .start →
      rep.error = "" → ∃ f ∈ d.shared.forks, f.kept = true ∧ f.processID = r.processID ∧
        specHash sum f.spec = r.specHash ∧ f.drainGroup = r.drainGroup ∧
        f.extraFileHash = r.extraFileHash) ∧
    (c.shared.draining = true → d.shared.forks = c.shared.forks) ∧
    (∀ id p st, c.shared.processes id = some p → p.status = some st →
      (∃ p', d.shared.processes id = some p' ∧ p'.status = some st) ∧
      ∀ t m d', d.threads t = some (.getting m id) →
        (program sum).machine.step d (.move t .go) = some d' →
        ∃ rep, d'.threads t = some (.writing m rep) ∧ rep.exit = some st ∧ rep.error = "") ∧
    (∀ t call pid, d.threads t = some (.returned call (some pid)) →
      ∃ f ∈ d.shared.forks, f.kept = true ∧ f.processID = Utf8.repair call.processID ∧
        f.drainGroup = call.drainGroup ∧ (∃ files, call.Sent sum files f.extraFileHash) ∧
        pid = (if f.hostPID = 0 then (f.pid : Int) else f.hostPID) ∧
        (call.spec = f.spec ∨ Collision sum call.spec f.spec)) := by
  have hout := outlined_of_trace (hc.append hd)
  have hg := grows_of_trace (outlined_of_trace hc) hd
  refine ⟨hout.1.once, ?_, fun hdrain => (hg.draining hdrain).2, ?_, ?_⟩
  · intro t m rep r ht hr hop he
    have ha : Answers d.shared m rep := by
      have := hout.2 t
      rwa [ht] at this
    obtain ⟨p, hp, hph, hpd, hpf, -⟩ := ha r hr hop he
    obtain ⟨hid, f, hf, hof⟩ := hout.1.record _ p hp
    exact ⟨f, hf, hof.kept, hof.id.trans hid, hof.hash.trans hph, hof.drainGroup.trans hpd,
      hof.files.trans hpf⟩
  · intro id p st hp hst
    obtain ⟨p', hp', hl⟩ := hg.records id p hp
    exact ⟨⟨p', hp', hl.status st hst⟩, fun t m d' ht hstep =>
      getting_reports hp' (hl.status st hst) ht hstep⟩
  · intro t call pid ht
    have hs := hout.2 t
    rw [ht] at hs
    exact hs

end Runs

end Server

namespace Server

/-- The message a call sends, if it sends one. -/
def messageOf (call : StartCall) : Message := (call.send id).toOption.getD ⟨[], []⟩

/-- A caller sends its request twice. -/
def retried (call : StartCall) : List (ThreadAct Pc Choice Event) :=
  [.call 0 (.caller call), .move 0 .go,
    .call 1 (.serve (messageOf call)), .move 1 .go,
    -- the reply to the first one is lost
    .move 1 (.fork (.forked 7 (.ok 7))), .move 1 .go, .move 0 .lost,
    .call 2 (.serve (messageOf call)), .move 2 .go,
    .move 2 (.fork (.forked 8 (.ok 8))), .move 2 .go, .move 0 (.reply 2),
    -- the child exits and is reaped
    .world (.exit 7 ⟨0, none⟩), .world (.reap 7)]

theorem starts_exactly_once_retried :
    ∃ τ d f, (program id).machine.Trace (Program.init (new (ascii "e"))) τ d ∧
      d.threads 0 = some (.returned (plainCall [ascii "ls"] [ascii "A=1"]) (some 7)) ∧
      d.shared.forks = [f] ∧ f.spec = (plainCall [ascii "ls"] [ascii "A=1"]).spec ∧
      (d.shared.processes (ascii "p")).any (fun p => p.status.isSome) = true := by
  obtain ⟨d, h, h₀, h₁, h₂⟩ := (program id).machine.trace_of_any (Program.init (new (ascii "e")))
    (retried (plainCall [ascii "ls"] [ascii "A=1"]))
    (fun d => d.threads 0 = some (.returned (plainCall [ascii "ls"] [ascii "A=1"]) (some 7)) ∧
      d.shared.forks.length = 1 ∧
      (d.shared.processes (ascii "p")).any (fun p => p.status.isSome) = true) (by decide +kernel)
  obtain ⟨f, hf⟩ := length_eq_one_iff.mp h₁
  obtain ⟨-, -, -, -, hcaller⟩ := starts_exactly_once h .nil
  obtain ⟨g, hg, -, -, -, -, -, hspec⟩ := hcaller 0 _ 7 h₀
  rw [hf, mem_singleton] at hg
  have hspec' := hspec.resolve_right fun hcol => hcol.1 hcol.2
  exact ⟨_, d, f, h, h₀, hf, hg ▸ hspec'.symm, h₂⟩

end Server

end Hostel.Supervisor
