/-
# Hostel.Store.Transfers — the registry of file transfers.

`StartTransfer` under the registry's lock answers a repeated request from its record, checks the
limit, pins the Bed, makes room in the history and records the run; the copy runs in a goroutine,
which releases the pin before it publishes the terminal state under the lock.  `TransferStatus`,
`CancelTransfer` and `StopTransfers` read the same map.

Each critical section is one move.  A `StartTransfer` call starts at most one run, so a run is named
by its call.  The copy of a run and the passing of time are events of the world; a run goes through
`Phase` in the order of the goroutine.

A record is only dropped once it is finished, so whatever runs is in the map (`Inv.running`); the
limits are then counts of the map.
-/
import Hostel.Logic.Threads
import Hostel.Logic.FiniteMap
import Hostel.Bed.Lifecycle
import Mathlib.Data.List.Perm.Subperm

namespace Hostel.Store

open Hostel.Logic Function List Option FiniteMap Program
open Hostel.Bed (SyncKind)

/-! ## Requests -/

abbrev Text := List Char

inductive EndpointType
  | bed | s3 | other (name : Text)
  deriving DecidableEq, Repr

structure TransferEndpoint where
  ref : Text := []
  type : EndpointType
  path : Text := []
  key : Text := []
  deriving DecidableEq, Repr

/-- `TransferRequest`; an omitted kind is `none`, and the timeout is in nanoseconds. -/
structure TransferRequest where
  parentRef : Text := []
  sync : Option SyncKind := none
  id : Text
  instanceID : Text := []
  source : TransferEndpoint
  destination : TransferEndpoint
  overwrite : Bool := false
  timeout : Int := 0
  deriving DecidableEq, Repr

inductive TransferError
  | invalid (message : String)
  | unavailable
  | conflict (instanceChanged : Bool)
  | notFound
  | capacity
  | remote
  | restic
  | acquire
  deriving DecidableEq, Repr

def millisecond : Int := 1000000

def defaultTransferTimeout : Int := 5 * 60 * 1000 * millisecond

def maxTransferTimeout : Int := 2 * 60 * 60 * 1000 * millisecond

/-- `^[A-Za-z0-9][A-Za-z0-9._-]{0,127}$`. -/
def transferIDPattern : Text → Bool
  | [] => false
  | c :: cs => c.isAlphanum && decide (cs.length ≤ 127) &&
      cs.all fun c => c.isAlphanum || c = '.' || c = '_' || c = '-'

/-- `^[0-9a-f]{64}$`. -/
def resticRefPattern (ref : Text) : Bool :=
  decide (ref.length = 64) && ref.all fun c => c.isDigit || ('a' ≤ c && c ≤ 'f')

/-- `strings.TrimSuffix(key, "/")`. -/
def trimSlash (key : Text) : Text := if key.getLast? = some '/' then key.dropLast else key

def validTransferKey (key : Text) : Bool :=
  if key = [] || key.contains '\\' || key.contains '\x00' then false
  else ((trimSlash key).splitOn '/').all fun part =>
    decide (part ≠ [] ∧ part ≠ ['.'] ∧ part ≠ ['.', '.'])

/-- The checks `ValidateTransfer` makes of one endpoint. -/
def validateEndpoint (e : TransferEndpoint) : Except TransferError Unit :=
  match e.type with
  | .bed =>
    if e.path = [] ∨ e.key ≠ [] ∨ e.ref ≠ [] then
      .error (.invalid "bed endpoint requires path only")
    else .ok ()
  | .s3 =>
    if e.path ≠ [] ∨ validTransferKey e.key = false then
      .error (.invalid
        "s3 endpoint requires a relative key without empty, dot or parent segments")
    else .ok ()
  | .other _ => .error (.invalid "endpoint type must be bed or s3")

/-- The checks `ValidateTransfer` makes of the snapshot references. -/
def validateRefs (kind : SyncKind) (r : TransferRequest) : Except TransferError Unit :=
  if kind = .copy then
    if r.source.ref ≠ [] ∨ r.destination.ref ≠ [] ∨ r.parentRef ≠ [] then
      .error (.invalid "copy does not accept snapshot references")
    else .ok ()
  else if r.destination.ref ≠ [] then
    .error (.invalid "destination ref is assigned by the transfer")
  else if r.source.type = .s3 then
    if resticRefPattern r.source.ref = false ∨ r.parentRef ≠ [] then
      .error (.invalid "restic download requires a full source ref and no parent_ref")
    else .ok ()
  else if r.parentRef ≠ [] ∧ resticRefPattern r.parentRef = false then
    .error (.invalid "parent_ref must be a full restic snapshot id")
  else .ok ()

/-- `ValidateTransfer`: the kind of the operation. -/
def validateOptions (r : TransferRequest) : Except TransferError SyncKind :=
  let kind := r.sync.getD .copy
  if kind ≠ .copy ∧ kind ≠ .restic then .error (.invalid "sync must be copy or restic")
  else if r.source.type = r.destination.type then
    .error (.invalid "one endpoint must be bed and the other s3")
  else do
    validateEndpoint r.source
    validateEndpoint r.destination
    validateRefs kind r
    return kind

def validateTransfer (r : TransferRequest) : Except TransferError TransferRequest := do
  let kind ← validateOptions r
  if transferIDPattern r.id = false then
    throw (.invalid "id must be 1-128 safe identifier characters")
  let timeout := if r.timeout = 0 then defaultTransferTimeout else r.timeout
  if timeout < millisecond ∨ timeout > maxTransferTimeout then
    throw (.invalid "timeout must be within 1ms and 2h")
  return { r with sync := some kind, timeout }

/-! ## The registry -/

/-- A run, named by the `StartTransfer` call that started it. -/
abbrev RunId := ThreadId

inductive TransferState
  | running | succeeded | failed | canceled
  deriving DecidableEq, Repr

/-- `Transfer`; times are readings of the clock. -/
structure Transfer where
  ref : Text := []
  sync : SyncKind
  id : Text
  bedID : Text
  instanceID : Text
  state : TransferState := .running
  files : Int := 0
  bytes : Int := 0
  error : Text := []
  startedAt : Nat
  finishedAt : Option Nat := none
  deriving DecidableEq, Repr

/-- What the copy of a run returned: the reference, the counters a restic upload reports, and the
error with whether it is `context.Canceled`. -/
structure CopyResult where
  ref : Text := []
  counters : Int × Int := (0, 0)
  err : Option (Text × Bool) := none
  deriving DecidableEq, Repr

/-- Where the goroutine of a run is. -/
inductive Phase
  | copying
  | copied (result : CopyResult)
  | released (result : CopyResult)
  | finished
  deriving DecidableEq, Repr

/-- `transferRun`; `releases` counts the calls of the pin's `release`, and `canceled` says whether
its context was cancelled. -/
structure Run where
  request : TransferRequest
  status : Transfer
  canceled : Bool := false
  phase : Phase := .copying
  releases : Nat := 0
  deriving DecidableEq, Repr

/-- `transferRegistry`, with the runs it has started and the clock. -/
structure Registry where
  instanceID : Text
  runs : FiniteMap Text RunId := ∅
  closed : Bool := false
  records : RunId → Option Run := fun _ => none
  clock : Nat := 0

def transferLimit : Nat := 4

def transferHistoryLimit : Nat := 1024

/-- 24 hours in nanoseconds. -/
def transferRetention : Nat := 24 * 60 * 60 * 1000 * 1000000

/-- `bedID + "\x00" + id`. -/
def transferKey (bedID id : Text) : Text := bedID ++ '\x00' :: id

namespace Registry

def setRecord (r : Registry) (n : RunId) (run : Run) : Registry :=
  { r with records := update r.records n (some run) }

def finishedAt (r : Registry) (n : RunId) : Option Nat :=
  (r.records n).bind fun run => run.status.finishedAt

def isRunning (r : Registry) (n : RunId) : Bool :=
  (r.records n).any fun run => decide (run.status.state = .running)

def pruneLocked (r : Registry) : Registry :=
  { r with runs := r.runs.filter fun _ n =>
      (r.finishedAt n).all fun f => decide (r.clock - f < transferRetention) }

/-- The loop of `makeRoomLocked` over the map: the key of the record that finished first. -/
def oldest (r : Registry) : List (Sigma fun _ : Text => RunId) → Option (Text × Nat)
  | [] => none
  | e :: es =>
    match r.finishedAt e.2, oldest r es with
    | some f, some (k, g) => if g < f then some (k, g) else some (e.1, f)
    | some f, none => some (e.1, f)
    | none, o => o

/-- `makeRoomLocked`, for at most `fuel` removals. -/
def makeRoom : Nat → Registry → Registry
  | 0, r => r
  | fuel + 1, r =>
    if transferHistoryLimit ≤ r.runs.size then
      match r.oldest r.runs.entries with
      | none => r
      | some (k, _) => makeRoom fuel { r with runs := r.runs.erase k }
    else r

/-- Every removal makes the map smaller, so its size bounds their number. -/
def makeRoomLocked (r : Registry) : Registry := makeRoom r.runs.size r

/-- The number of running transfers `StartTransfer` counts. -/
def active (r : Registry) : Nat := (r.runs.values.filter r.isRunning).length

/-- What the outside world decides while `StartTransfer` has the lock: whether the object store,
restic and the Bed are available. -/
inductive Admission
  | ok | remote | restic | acquire
  deriving DecidableEq

/-- The request as it is recorded: an omitted guard is normalized, so that guarded retries compare
the actual operation. -/
def guarded (r : Registry) (req : TransferRequest) : TransferRequest :=
  { req with instanceID := r.instanceID }

/-- The record of a run that is admitted. -/
def admitted (r : Registry) (bedID : Text) (req : TransferRequest) : Run where
  request := r.guarded req
  status :=
    { sync := req.sync.getD .copy, id := req.id, bedID, instanceID := r.instanceID,
      startedAt := r.clock }

/-- `StartTransfer` of a validated request under the lock; `t` names the run. -/
def startTransfer (t : RunId) (bedID : Text) (req : TransferRequest) (x : Admission)
    (r : Registry) : Option (Registry × Except TransferError Transfer) :=
  if r.closed then some (r, .error .unavailable)
  else if req.instanceID ≠ [] ∧ req.instanceID ≠ r.instanceID then
    some (r, .error (.conflict true))
  else
    let r := r.pruneLocked
    match r.runs.lookup (transferKey bedID req.id) with
    | some n =>
      match r.records n with
      | some run =>
        if run.request ≠ r.guarded req then some (r, .error (.conflict false))
        else some (r, .ok run.status)
      | none => none
    | none =>
      if transferLimit ≤ r.active then some (r, .error .capacity)
      else match x with
        | .remote => some (r, .error .remote)
        | .restic => if req.sync = some .restic then some (r, .error .restic) else none
        | .acquire => some (r, .error .acquire)
        | .ok =>
          some ({ r.makeRoomLocked.setRecord t (r.admitted bedID req) with
            runs := r.makeRoomLocked.runs.insert (transferKey bedID req.id) t },
            .ok (r.admitted bedID req).status)

def transferStatus (bedID id : Text) (r : Registry) : Registry × Except TransferError Transfer :=
  let r := r.pruneLocked
  match (r.runs.lookup (transferKey bedID id)).bind r.records with
  | some run => (r, .ok run.status)
  | none => (r, .error .notFound)

def cancelTransfer (bedID id instanceID : Text) (r : Registry) :
    Registry × Except TransferError Transfer :=
  if instanceID ≠ [] ∧ instanceID ≠ r.instanceID then (r, .error (.conflict true))
  else
    let r := r.pruneLocked
    match r.runs.lookup (transferKey bedID id) with
    | none => (r, .error .notFound)
    | some n =>
      match r.records n with
      | none => (r, .error .notFound)
      | some run => (r.setRecord n { run with canceled := true }, .ok run.status)

/-- The runs `StopTransfers` waits for. -/
def stopSet (r : Registry) (bedID : Text) : List RunId :=
  r.runs.values.filter fun n =>
    r.isRunning n && (decide (bedID = []) || (r.records n).any fun run => run.status.bedID = bedID)

def stopTransfers (bedID : Text) (r : Registry) : Registry × List RunId :=
  ({ r with
      closed := r.closed || decide (bedID = [])
      records := fun n =>
        if n ∈ r.stopSet bedID then (r.records n).map fun run => { run with canceled := true }
        else r.records n },
    r.stopSet bedID)

/-! ## The calls and the goroutines -/

inductive TransferPc
  | start (bedID : Text) (req : TransferRequest)
  | enter (bedID : Text) (req : TransferRequest)
  | started (result : Except TransferError Transfer)
  | status (bedID id : Text)
  | cancel (bedID id instanceID : Text)
  | reported (result : Except TransferError Transfer)
  | stop (bedID : Text)
  | stopping (pending : List RunId)
  | stopped (ok : Bool)
  deriving DecidableEq

inductive TransferChoice
  | go
  | admission (x : Admission)
  | joined (n : RunId)
  | canceled
  deriving DecidableEq

def move (t : ThreadId) (r : Registry) (pc : TransferPc) (x : TransferChoice) :
    Option (Registry × TransferPc) :=
  match pc, x with
  | .start bedID req, .go =>
    some (r, match validateTransfer req with
      | .error e => .started (.error e)
      | .ok v => .enter bedID v)
  | .enter bedID req, .admission x =>
    (startTransfer t bedID req x r).map fun p => (p.1, .started p.2)
  | .status bedID id, .go =>
    let p := transferStatus bedID id r
    some (p.1, .reported p.2)
  | .cancel bedID id instanceID, .go =>
    let p := cancelTransfer bedID id instanceID r
    some (p.1, .reported p.2)
  | .stop bedID, .go =>
    let p := stopTransfers bedID r
    some (p.1, .stopping p.2)
  | .stopping pending, .joined n =>
    -- the channel of the run is closed; the order of the map is whatever it was
    if n ∈ pending ∧ (r.records n).any (fun run => decide (run.phase = .finished)) then
      some (r, .stopping (pending.erase n))
    else none
  | .stopping pending, .canceled => if pending = [] then none else some (r, .stopped false)
  | .stopping pending, .go => if pending = [] then some (r, .stopped true) else none
  | _, _ => none

inductive TransferEvent
  | tick (elapsed : Nat)
  /-- A file was published. -/
  | progress (n : RunId) (bytes : Int)
  /-- The copy returned. -/
  | copied (n : RunId) (result : CopyResult)
  | release (n : RunId)
  | publish (n : RunId)
  deriving DecidableEq

/-- The status a run publishes at the end. -/
def terminal (s : Transfer) (c : CopyResult) (now : Nat) : Transfer :=
  { s with
    ref := c.ref
    state := match c.err with
      | none => .succeeded
      | some (_, canceled) => if canceled then .canceled else .failed
    error := match c.err with
      | none => s.error
      | some (message, _) => message
    finishedAt := some now }

/-- What the goroutine of a run does next. -/
def goroutine (run : Run) (now : Nat) : TransferEvent → Option Run
  | .progress _ bytes =>
    if run.phase = .copying then
      some { run with status :=
        { run.status with files := run.status.files + 1, bytes := run.status.bytes + bytes } }
    else none
  | .copied _ c =>
    if run.phase = .copying then
      some { run with
        phase := .copied c
        status :=
          if run.request.sync = some .restic ∧ c.err = none ∧ run.request.source.type = .bed then
            { run.status with files := c.counters.1, bytes := c.counters.2 }
          else run.status }
    else none
  | .release _ =>
    match run.phase with
    | .copied c => some { run with phase := .released c, releases := run.releases + 1 }
    | _ => none
  | .publish _ =>
    match run.phase with
    | .released c => some { run with phase := .finished, status := terminal run.status c now }
    | _ => none
  | .tick _ => none

/-- The run an event is about. -/
def TransferEvent.run : TransferEvent → Option RunId
  | .tick _ => none
  | .progress n _ | .copied n _ | .release n | .publish n => some n

def world (r : Registry) (e : TransferEvent) : Option Registry :=
  match e with
  | .tick elapsed => some { r with clock := r.clock + elapsed }
  | e =>
    match e.run with
    | none => none
    | some n =>
      match r.records n with
      | none => none
      | some run => (goroutine run r.clock e).map (r.setRecord n)

def program : Program Registry TransferPc TransferChoice TransferEvent where
  entry
    | .start .. | .status .. | .cancel .. | .stop _ => true
    | _ => false
  move := move
  world := world

/-! ## The invariant -/

variable {r r' : Registry} {t u : ThreadId} {n : RunId} {run : Run} {k : Text}

/-- The record agrees with where the goroutine is: the pin is released once, before the terminal
state is published, and a record is terminal when its goroutine is done. -/
def Coherent (run : Run) : Prop :=
  match run.phase with
  | .copying | .copied _ => run.status.state = .running ∧ run.status.finishedAt = none ∧
    run.releases = 0
  | .released _ => run.status.state = .running ∧ run.status.finishedAt = none ∧ run.releases = 1
  | .finished =>
    run.status.state ≠ .running ∧ (∃ f, run.status.finishedAt = some f) ∧ run.releases = 1

def Limited (r : Registry) : Prop :=
  ∀ l : List RunId, l.Nodup → (∀ n ∈ l, r.isRunning n = true) → l.length ≤ transferLimit

structure Inv (r : Registry) : Prop where
  recorded : ∀ k n, r.runs.lookup k = some n →
    ∃ run, r.records n = some run ∧ k = transferKey run.status.bedID run.request.id
  /-- What runs is in the map. -/
  running : ∀ n run, r.records n = some run → run.status.state = .running →
    r.runs.lookup (transferKey run.status.bedID run.request.id) = some n
  coherent : ∀ n run, r.records n = some run → Coherent run
  bounded : r.runs.size ≤ transferHistoryLimit
  limited : Limited r

theorem isRunning_iff : r.isRunning n = true ↔
    ∃ run, r.records n = some run ∧ run.status.state = .running := by
  simp [isRunning, Option.any_eq_true]

theorem Inv.finishedAt_none (hI : Inv r) (hn : r.records n = some run) :
    r.finishedAt n = none ↔ run.status.state = .running := by
  have hc := hI.coherent n run hn
  simp only [finishedAt, hn, bind_some]
  unfold Coherent at hc
  split at hc
  · simp [hc]
  · simp [hc]
  · simp [hc]
  · obtain ⟨hs, ⟨f, hf⟩, -⟩ := hc
    simp [hs, hf]

theorem Inv.drop (hI : Inv r) {runs : FiniteMap Text RunId}
    (hsub : ∀ k n, runs.lookup k = some n → r.runs.lookup k = some n)
    (hkeep : ∀ k n, r.runs.lookup k = some n → r.isRunning n = true → runs.lookup k = some n)
    (hsize : runs.size ≤ r.runs.size) : Inv { r with runs := runs } where
  recorded k n h := hI.recorded k n (hsub k n h)
  running n run hn hs := hkeep _ n (hI.running n run hn hs) (isRunning_iff.mpr ⟨run, hn, hs⟩)
  coherent := hI.coherent
  bounded := hsize.trans hI.bounded
  limited := hI.limited

theorem Inv.prune (hI : Inv r) : Inv r.pruneLocked := by
  refine hI.drop (fun k n h => (lookup_filter.mp h).1) (fun k n h hr => ?_)
    (size_filter_le ..)
  obtain ⟨run, hn, hs⟩ := isRunning_iff.mp hr
  exact lookup_filter.mpr ⟨h, by rw [(hI.finishedAt_none hn).mpr hs]; rfl⟩

theorem oldest_eq_none {es : List (Sigma fun _ : Text => RunId)} :
    r.oldest es = none ↔ ∀ e ∈ es, r.finishedAt e.2 = none := by
  induction es with
  | nil => simp [oldest]
  | cons e es ih =>
    cases hf : r.finishedAt e.2 with
    | none => simp [oldest, hf, ih]
    | some f =>
      cases ho : r.oldest es with
      | none => simp [oldest, hf, ho]
      | some p =>
        have : r.oldest (e :: es) ≠ none := by
          simp only [oldest, hf, ho]
          split_ifs <;> simp
        simp [this, hf]

theorem oldest_mem {es : List (Sigma fun _ : Text => RunId)} {f : Nat}
    (h : r.oldest es = some (k, f)) : ∃ n, ⟨k, n⟩ ∈ es ∧ r.finishedAt n ≠ none := by
  induction es generalizing k f with
  | nil => simp [oldest] at h
  | cons e es ih =>
    have hrest : ∀ {k f}, r.oldest es = some (k, f) → ∃ n, ⟨k, n⟩ ∈ e :: es ∧
        r.finishedAt n ≠ none := by
      intro k f hk
      obtain ⟨n, hn, hf⟩ := ih hk
      exact ⟨n, mem_cons_of_mem _ hn, hf⟩
    cases hf : r.finishedAt e.2 with
    | none => exact hrest (by simpa [oldest, hf] using h)
    | some g =>
      have hhere : ∃ n, ⟨e.1, n⟩ ∈ e :: es ∧ r.finishedAt n ≠ none :=
        ⟨e.2, mem_cons_self, by simp [hf]⟩
      cases ho : r.oldest es with
      | none =>
        simp only [oldest, hf, ho, some.injEq, Prod.mk.injEq] at h
        obtain ⟨rfl, -⟩ := h
        exact hhere
      | some p =>
        obtain ⟨k', f'⟩ := p
        simp only [oldest, hf, ho] at h
        split_ifs at h
        · cases h
          exact hrest ho
        · cases h
          exact hhere

theorem Inv.oldest_ne_none (hI : Inv r) (ha : r.active < transferLimit)
    (hfull : transferHistoryLimit ≤ r.runs.size) : r.oldest r.runs.entries ≠ none := by
  intro hnone
  have hall : ∀ n ∈ r.runs.values, r.isRunning n = true := by
    intro n hn
    obtain ⟨e, he, rfl⟩ := mem_map.mp hn
    obtain ⟨run, hrun, -⟩ := hI.recorded e.1 e.2 (AList.mem_lookup_iff.mpr he)
    exact isRunning_iff.mpr
      ⟨run, hrun, (hI.finishedAt_none hrun).mp (oldest_eq_none.mp hnone e he)⟩
  have hactive : r.active = r.runs.size := by
    rw [active, filter_eq_self.mpr hall, length_values]
  simp only [transferLimit, transferHistoryLimit] at ha hfull
  omega

theorem makeRoom_spec (fuel : Nat) (hI : Inv r) (ha : r.active < transferLimit)
    (hfuel : r.runs.size ≤ fuel) :
    Inv (makeRoom fuel r) ∧ (makeRoom fuel r).runs.size < transferHistoryLimit ∧
      (∃ runs, makeRoom fuel r = { r with runs := runs }) ∧
      ∀ k n, (makeRoom fuel r).runs.lookup k = some n → r.runs.lookup k = some n := by
  induction fuel generalizing r with
  | zero =>
    refine ⟨hI, ?_, ⟨r.runs, rfl⟩, fun _ _ => id⟩
    show r.runs.size < 1024
    omega
  | succ fuel ih =>
    unfold makeRoom
    split_ifs with hfull
    · split
      · next hnone => exact absurd hnone (hI.oldest_ne_none ha hfull)
      · next k f hold =>
        obtain ⟨n, hmem, hfin⟩ := oldest_mem hold
        have hk : r.runs.lookup k = some n := AList.mem_lookup_iff.mpr hmem
        have hsize := size_erase (AList.lookup_isSome.mp (by rw [hk]; rfl))
        -- what is dropped is finished, so whatever runs stays
        have hI' : Inv { r with runs := r.runs.erase k } := by
          refine hI.drop (fun j m => lookup_of_erase) (fun j m hj hrun => ?_) (by omega)
          rw [lookup_erase, if_neg ?_]
          · exact hj
          · rintro rfl
            rw [hk] at hj
            cases hj
            obtain ⟨run, hn, hs⟩ := isRunning_iff.mp hrun
            exact hfin ((hI.finishedAt_none hn).mpr hs)
        have ha' : active { r with runs := r.runs.erase k } < transferLimit :=
          lt_of_le_of_lt (values_erase_sublist.filter _).length_le ha
        obtain ⟨h₁, h₂, ⟨runs, h₃⟩, h₄⟩ := ih hI' ha' (by simp only; omega)
        exact ⟨h₁, h₂, ⟨runs, h₃⟩, fun j m hj => lookup_of_erase (h₄ j m hj)⟩
    · exact ⟨hI, by omega, ⟨r.runs, rfl⟩, fun _ _ => id⟩

theorem Inv.length_le_active (hI : Inv r) {l : List RunId} (hl : l.Nodup)
    (hr : ∀ n ∈ l, r.isRunning n = true) : l.length ≤ r.active := by
  refine (subperm_of_subset hl fun n hn => mem_filter.mpr ⟨?_, hr n hn⟩).length_le
  obtain ⟨run, hrun, hs⟩ := isRunning_iff.mp (hr n hn)
  exact mem_values.mpr ⟨_, hI.running n run hrun hs⟩

/-! ### A record moves on -/

/-- A later state of the same record. -/
structure Later (run run' : Run) : Prop where
  request : run'.request = run.request
  bedID : run'.status.bedID = run.status.bedID
  running : run'.status.state = .running → run.status.state = .running
  coherent : Coherent run → Coherent run'
  finished : run.phase = .finished → run'.phase = .finished ∧ run'.status = run.status

theorem Later.refl (run : Run) : Later run run := ⟨rfl, rfl, id, id, fun h => ⟨h, rfl⟩⟩

theorem Later.canceled (run : Run) : Later run { run with canceled := true } :=
  ⟨rfl, rfl, id, id, fun h => ⟨h, rfl⟩⟩

theorem goroutine_later {run' : Run} {now : Nat} {e : TransferEvent}
    (h : goroutine run now e = some run') : Later run run' := by
  cases e with
  | tick elapsed => cases h
  | progress m bytes =>
    simp only [goroutine, ite_none_right_eq_some] at h
    obtain ⟨hp, h⟩ := h
    cases h
    refine ⟨rfl, rfl, id, fun hc => ?_, fun hf => ?_⟩
    · simpa [Coherent, hp] using hc
    · rw [hp] at hf
      cases hf
  | copied m c =>
    simp only [goroutine, ite_none_right_eq_some] at h
    obtain ⟨hp, h⟩ := h
    cases h
    refine ⟨rfl, ?_, fun hr => ?_, fun hc => ?_, fun hf => ?_⟩
    · dsimp only
      split_ifs <;> rfl
    · dsimp only at hr
      split_ifs at hr <;> exact hr
    · simp only [Coherent, hp] at hc
      simp only [Coherent]
      split_ifs <;> exact hc
    · rw [hp] at hf
      cases hf
  | release m =>
    simp only [goroutine] at h
    split at h
    · next c hp =>
      cases h
      refine ⟨rfl, rfl, id, fun hc => ?_, fun hf => ?_⟩
      · simp only [Coherent, hp] at hc
        exact ⟨hc.1, hc.2.1, by rw [hc.2.2]⟩
      · rw [hp] at hf
        cases hf
    · cases h
  | publish m =>
    simp only [goroutine] at h
    split at h
    · next c hp =>
      cases h
      have hterm : (terminal run.status c now).state ≠ .running := by
        simp only [terminal]
        split
        · simp
        · split_ifs <;> simp
      refine ⟨rfl, rfl, fun hr => absurd hr hterm, fun hc => ?_, fun hf => ?_⟩
      · simp only [Coherent, hp] at hc
        exact ⟨hterm, ⟨now, rfl⟩, hc.2.2⟩
      · rw [hp] at hf
        cases hf
    · cases h

/-- The records move on, and there is no new one. -/
structure Onward (r r' : Registry) : Prop where
  later : ∀ n run, r.records n = some run → ∃ run', r'.records n = some run' ∧ Later run run'
  fresh : ∀ n, r.records n = none → r'.records n = none

theorem Inv.later (hI : Inv r) (hruns : r'.runs = r.runs) (h : Onward r r') : Inv r' := by
  have hback : ∀ n run', r'.records n = some run' → ∃ run, r.records n = some run ∧
      Later run run' := by
    intro n run' hn
    cases hold : r.records n with
    | none =>
      rw [h.fresh n hold] at hn
      cases hn
    | some run =>
      obtain ⟨run₂, hn₂, hl⟩ := h.later n run hold
      cases hn.symm.trans hn₂
      exact ⟨run, rfl, hl⟩
  refine ⟨fun k n hk => ?_, fun n run' hn hs => ?_, fun n run' hn => ?_, ?_, fun l hl hr => ?_⟩
  · obtain ⟨run, hrun, hkey⟩ := hI.recorded k n (hruns ▸ hk)
    obtain ⟨run', hrun', hlater⟩ := h.later n run hrun
    exact ⟨run', hrun', by rw [hlater.request, hlater.bedID, hkey]⟩
  · obtain ⟨run, hrun, hlater⟩ := hback n run' hn
    rw [hruns, hlater.request, hlater.bedID]
    exact hI.running n run hrun (hlater.running hs)
  · obtain ⟨run, hrun, hlater⟩ := hback n run' hn
    exact hlater.coherent (hI.coherent n run hrun)
  · rw [hruns]
    exact hI.bounded
  · refine hI.limited l hl fun n hn => ?_
    obtain ⟨run', hrun', hs⟩ := isRunning_iff.mp (hr n hn)
    obtain ⟨run, hrun, hlater⟩ := hback n run' hrun'
    exact isRunning_iff.mpr ⟨run, hrun, hlater.running hs⟩

theorem setRecord_later {run' : Run} (hn : r.records n = some run) (hl : Later run run') :
    Onward r (r.setRecord n run') := by
  refine ⟨fun m x hm => exists_update hm ?_ fun _ => .refl x, fun m hm => update_eq_none hn hm⟩
  rintro rfl
  cases hn.symm.trans hm
  exact hl

/-! ### Starting a transfer -/

/-- Everything `StartTransfer` can do under the lock: refuse, answer from a record, or start a
run. -/
inductive Starts (t : RunId) (bedID : Text) (req : TransferRequest) (r : Registry) :
    Registry → Except TransferError Transfer → Prop
  | closed : r.closed = true → Starts t bedID req r r (.error .unavailable)
  | guard : r.closed = false → req.instanceID ≠ [] → req.instanceID ≠ r.instanceID →
      Starts t bedID req r r (.error (.conflict true))
  | conflict {m : RunId} {x : Run} : r.closed = false →
      r.pruneLocked.runs.lookup (transferKey bedID req.id) = some m →
      r.records m = some x → x.request ≠ r.guarded req →
      Starts t bedID req r r.pruneLocked (.error (.conflict false))
  | replay {m : RunId} {x : Run} : r.closed = false →
      r.pruneLocked.runs.lookup (transferKey bedID req.id) = some m →
      r.records m = some x → x.request = r.guarded req →
      Starts t bedID req r r.pruneLocked (.ok x.status)
  | refused {e : TransferError} : r.closed = false →
    r.pruneLocked.runs.lookup (transferKey bedID req.id) = none →
      Starts t bedID req r r.pruneLocked (.error e)
  | started : r.closed = false → r.pruneLocked.runs.lookup (transferKey bedID req.id) = none →
      r.pruneLocked.active < transferLimit →
      Starts t bedID req r
        { r.pruneLocked.makeRoomLocked.setRecord t (r.pruneLocked.admitted bedID req) with
          runs := r.pruneLocked.makeRoomLocked.runs.insert (transferKey bedID req.id) t }
        (.ok (r.pruneLocked.admitted bedID req).status)

variable {bedID : Text} {req : TransferRequest}

theorem startTransfer_starts {x : Admission}
    {res : Except TransferError Transfer} (h : startTransfer t bedID req x r = some (r', res)) :
    Starts t bedID req r r' res := by
  unfold startTransfer at h
  by_cases hc : r.closed = true
  · rw [if_pos hc] at h
    cases h
    exact .closed hc
  by_cases hg : req.instanceID ≠ [] ∧ req.instanceID ≠ r.instanceID
  · rw [if_neg hc, if_pos hg] at h
    cases h
    exact .guard (by simpa using hc) hg.1 hg.2
  rw [if_neg hc, if_neg hg] at h
  have hc' : r.closed = false := by simpa using hc
  dsimp only at h
  split at h
  · next n hn =>
    split at h
    · next run hrun =>
      split_ifs at h with hreq
      · cases h
        exact .conflict hc' hn hrun hreq
      · cases h
        exact .replay hc' hn hrun (not_ne_iff.mp hreq)
    · cases h
  · next hn =>
    by_cases hfull : transferLimit ≤ r.pruneLocked.active
    · rw [if_pos hfull] at h
      cases h
      exact .refused hc' hn
    rw [if_neg hfull] at h
    cases x with
    | remote | acquire =>
      cases h
      exact .refused hc' hn
    | restic =>
      simp only [ite_none_right_eq_some] at h
      cases h.2
      exact .refused hc' hn
    | ok =>
      cases h
      exact .started hc' hn (by omega)

theorem makeRoomLocked_spec (hI : Inv r) (ha : r.active < transferLimit) :
    Inv r.makeRoomLocked ∧ r.makeRoomLocked.runs.size < transferHistoryLimit ∧
      (∃ runs, r.makeRoomLocked = { r with runs := runs }) ∧
      ∀ k n, r.makeRoomLocked.runs.lookup k = some n → r.runs.lookup k = some n :=
  makeRoom_spec _ hI ha le_rfl

theorem Inv.start (hI : Inv r) (hnew : r.records t = none)
    (hk : r.runs.lookup (transferKey bedID req.id) = none) (ha : r.active < transferLimit) :
    Inv { r.makeRoomLocked.setRecord t (r.admitted bedID req) with
      runs := r.makeRoomLocked.runs.insert (transferKey bedID req.id) t } := by
  obtain ⟨hI', hsize, ⟨runs, hroom⟩, hsub⟩ := makeRoomLocked_spec hI ha
  have hnew' : r.makeRoomLocked.records t = none := by rw [hroom]; exact hnew
  have hk' : r.makeRoomLocked.runs.lookup (transferKey bedID req.id) = none := by
    refine eq_none_iff_forall_ne_some.mpr fun n h => ?_
    rw [hsub _ n h] at hk
    cases hk
  have hrun : ∀ n, n ≠ t → r.makeRoomLocked.isRunning n = r.isRunning n := by
    intro n _
    rw [isRunning, isRunning, hroom]
  generalize r.makeRoomLocked = q at *
  refine ⟨fun k n hkn => ?_, fun n run hn hs => ?_, fun n run hn => ?_, ?_, fun l hl hr => ?_⟩
  · obtain ⟨hkey, rfl⟩ | ⟨-, hkn⟩ := insert_eq_some.mp hkn
    · exact ⟨_, update_self .., hkey⟩
    · obtain ⟨run, hrec, hkey'⟩ := hI'.recorded k n hkn
      exact ⟨run, update_of_none hnew' hrec, hkey'⟩
  · obtain ⟨rfl, rfl⟩ | ⟨-, hrec⟩ := update_eq_some.mp hn
    · exact AList.lookup_insert _
    · exact insert_of_none hk' (hI'.running n run hrec hs)
  · obtain ⟨rfl, rfl⟩ | ⟨-, hrec⟩ := update_eq_some.mp hn
    · exact ⟨rfl, rfl, rfl⟩
    · exact hI'.coherent n run hrec
  · exact size_insert_le.trans hsize
  · -- without the new run, what runs was counted before
    have hrest : (l.erase t).length ≤ r.active := by
      refine hI.length_le_active (hl.erase t) fun n hn => ?_
      have hne : n ≠ t := fun h => by
        rw [h] at hn
        exact hl.not_mem_erase hn
      have := hr n (mem_of_mem_erase hn)
      rw [← hrun n hne]
      simpa [isRunning, setRecord, hne] using this
    have hlen : l.length ≤ (l.erase t).length + 1 := by
      by_cases ht : t ∈ l
      · rw [length_erase_of_mem ht]
        omega
      · rw [erase_of_not_mem ht]
        omega
    omega

/-! ### The outline -/

/-- What moves leave: the records that were there go on, and a new one is the mover's. -/
structure Moves (t : ThreadId) (r r' : Registry) : Prop where
  later : ∀ n run, r.records n = some run → ∃ run', r'.records n = some run' ∧ Later run run'
  fresh : ∀ n, n ≠ t → r.records n = none → r'.records n = none

theorem Moves.of_records (h : r'.records = r.records) : Moves t r r' :=
  ⟨fun _ run hn => ⟨run, h ▸ hn, .refl run⟩, fun _ _ hn => h ▸ hn⟩

/-- A call that has not been admitted has no run. -/
def Asserts (t : ThreadId) (r : Registry) : Option TransferPc → Prop
  | none | some (.start ..) | some (.enter ..) => r.records t = none
  | _ => True

section

variable (hI : Inv r)
include hI

theorem Starts.own {res : Except TransferError Transfer} (hnew : r.records t = none)
    (h : Starts t bedID req r r' res) : Inv r' ∧ Moves t r r' := by
  cases h with
  | closed _ | guard _ _ _ => exact ⟨hI, .of_records rfl⟩
  | conflict _ _ _ _ | replay _ _ _ _ | refused _ _ => exact ⟨hI.prune, .of_records rfl⟩
  | started _ hk ha =>
    obtain ⟨-, -, ⟨runs, hroom⟩, -⟩ := makeRoomLocked_spec hI.prune ha
    have hrec : r.pruneLocked.makeRoomLocked.records = r.records := by rw [hroom]; rfl
    refine ⟨hI.prune.start hnew hk ha, fun n run hn => ⟨run, ?_, .refl run⟩, fun n hne hn => ?_⟩
    · exact update_of_none (hrec ▸ hnew) (hrec ▸ hn)
    · simpa [setRecord, hne, hrec] using hn

theorem cancelTransfer_own {bedID id instanceID : Text} :
    Inv (cancelTransfer bedID id instanceID r).1 ∧
    Moves t r (cancelTransfer bedID id instanceID r).1 := by
  unfold cancelTransfer
  split_ifs
  · exact ⟨hI, .of_records rfl⟩
  · dsimp only
    split
    · exact ⟨hI.prune, .of_records rfl⟩
    · next n hn =>
      split
      · exact ⟨hI.prune, .of_records rfl⟩
      · next run hrun =>
        have h := setRecord_later hrun (.canceled run)
        exact ⟨hI.prune.later rfl h, h.later, fun m _ => h.fresh m⟩

theorem transferStatus_own {bedID id : Text} :
    Inv (transferStatus bedID id r).1 ∧ Moves t r (transferStatus bedID id r).1 := by
  have h : (transferStatus bedID id r).1 = r.pruneLocked := by
    unfold transferStatus
    dsimp only
    split <;> rfl
  rw [h]
  exact ⟨hI.prune, .of_records rfl⟩

theorem stopTransfers_own :
    Inv (stopTransfers bedID r).1 ∧ Moves t r (stopTransfers bedID r).1 := by
  have h : Onward r (stopTransfers bedID r).1 := by
    refine ⟨fun n run hn => ?_, fun n hn => by simp [stopTransfers, hn]⟩
    by_cases hmem : n ∈ r.stopSet bedID
    · exact ⟨{ run with canceled := true }, by simp [stopTransfers, hmem, hn], .canceled run⟩
    · exact ⟨run, by simp [stopTransfers, hmem, hn], .refl run⟩
  exact ⟨hI.later rfl h, h.later, fun n _ => h.fresh n⟩

theorem move_own {pc pc' : TransferPc} {x : TransferChoice}
    (hA : Asserts t r (some pc)) (h : move t r pc x = some (r', pc')) :
    (Inv r' ∧ Moves t r r') ∧ Asserts t r' (some pc') := by
  revert h
  fun_cases move t r pc x <;> intro h
  case case1 bedID req =>
    cases h
    refine ⟨⟨hI, .of_records rfl⟩, ?_⟩
    split
    · trivial
    · exact hA
  case case2 bedID req x =>
    obtain ⟨p, hp, hr⟩ := map_eq_some_iff.mp h
    cases hr
    exact ⟨(startTransfer_starts hp).own hI hA, trivial⟩
  case case3 bedID id =>
    cases h
    exact ⟨transferStatus_own hI, trivial⟩
  case case4 bedID id instanceID =>
    cases h
    exact ⟨cancelTransfer_own hI, trivial⟩
  case case5 bedID =>
    cases h
    exact ⟨stopTransfers_own hI, trivial⟩
  all_goals first | (cases h; exact ⟨⟨hI, .of_records rfl⟩, trivial⟩) | cases h

theorem world_own {e : TransferEvent} (h : r.world e = some r') : Inv r' ∧ Onward r r' := by
  unfold world at h
  split at h
  · cases h
    exact ⟨⟨hI.recorded, hI.running, hI.coherent, hI.bounded, hI.limited⟩,
      fun _ run hn => ⟨run, hn, .refl run⟩, fun _ => id⟩
  · split at h
    · cases h
    next n _ =>
    split at h
    · cases h
    next run hrun =>
    obtain ⟨run', hg, rfl⟩ := map_eq_some_iff.mp h
    have h := setRecord_later hrun (goroutine_later hg)
    exact ⟨hI.later rfl h, h⟩

end

theorem Asserts.other {q : Option TransferPc} (h : Asserts u r q)
    (hf : r.records u = none → r'.records u = none) : Asserts u r' q := by
  match q with
  | none | some (.start ..) | some (.enter ..) => exact hf h
  | some (.started _) | some (.status ..) | some (.cancel ..) | some (.reported _) | some (.stop _)
  | some (.stopping _) | some (.stopped _) => trivial

theorem outline : program.Outline Inv Asserts where
  call {r t pc} _ hf hentry := by
    match pc, hentry with
    | .start .., _ => exact hf
    | .status .., _ | .cancel .., _ | .stop _, _ => trivial
  own hI hA hm := ⟨(move_own hI hA hm).1.1, (move_own hI hA hm).2⟩
  other hI hA hm hu hB := hB.other ((move_own hI hA hm).1.2.fresh _ hu)
  world hI hw := ⟨(world_own hI hw).1, fun u _ hA => hA.other ((world_own hI hw).2.fresh u)⟩

def new (instanceID : Text) : Registry := { instanceID }

variable {instanceID : Text} {c c' d : Config Registry TransferPc}
  {τ : List (Config Registry TransferPc × ThreadAct TransferPc TransferChoice TransferEvent)}
  {act : ThreadAct TransferPc TransferChoice TransferEvent}

theorem outlined_of_trace (h : program.machine.Trace (init (new instanceID)) τ d) :
    Outlined Inv Asserts d := by
  refine outline.proof_outline ⟨?_, ?_, ?_, ?_, ?_⟩
    (fun t => show (new instanceID).records t = none from rfl) h
  · simp [new]
  · simp [new]
  · simp [new]
  · exact Nat.zero_le _
  · intro l _ hr
    cases l with
    | nil => exact Nat.zero_le _
    | cons n l => exact absurd (hr n mem_cons_self) (by simp [new, isRunning])

/-! ## Every run of the registry -/

theorem step_later (hc : Outlined Inv Asserts c) (h : program.machine.step c act = some d)
    (hn : c.shared.records n = some run) :
    ∃ run', d.shared.records n = some run' ∧ Later run run' :=
  hc.step_shared (R := fun _ s' => ∃ run', s'.records n = some run' ∧ Later run run') h ⟨run,
    hn, .refl run⟩
    (fun hA hm => (move_own hc.1 hA hm).1.2.later n run hn) fun hw =>
      (world_own hc.1 hw).2.later n run hn

section

variable {x : Admission} (ht : c.threads t = some (.enter bedID req))
  (h : program.machine.step c (.move t (.admission x)) = some d) (hopen : c.shared.closed = false)
include ht h hopen

/-- A repeated request is answered from its record, a differing one is refused, and neither has
another effect than to drop expired records. -/
theorem enter_recorded (hguard : req.instanceID = [] ∨ req.instanceID = c.shared.instanceID)
    (hk : c.shared.pruneLocked.runs.lookup (transferKey bedID req.id) = some n)
    (hn : c.shared.records n = some run) :
    d.shared = c.shared.pruneLocked ∧
      (run.request = c.shared.guarded req → d.threads t = some (.started (.ok run.status))) ∧
      (run.request ≠ c.shared.guarded req →
        d.threads t = some (.started (.error (.conflict false)))) := by
  obtain ⟨pc, r', pc', ht', hm, rfl⟩ := step_move.mp h
  cases ht.symm.trans ht'
  obtain ⟨_, hs, rfl⟩ := inner_move hm
  cases startTransfer_starts hs with
  | closed hc =>
    rw [hopen] at hc
    cases hc
  | guard _ hg₁ hg₂ => exact absurd hguard (by simp [hg₁, hg₂])
  | conflict _ hk' hx hne =>
    cases hk.symm.trans hk'
    cases hn.symm.trans hx
    exact ⟨rfl, fun he => absurd he hne, fun _ => update_self ..⟩
  | replay _ hk' hx heq =>
    cases hk.symm.trans hk'
    cases hn.symm.trans hx
    exact ⟨rfl, fun _ => update_self .., fun hne => absurd heq hne⟩
  | refused _ hk' | started _ hk' _ =>
    rw [hk] at hk'
    cases hk'

theorem enter_guarded (hguard : req.instanceID ≠ [] ∧ req.instanceID ≠ c.shared.instanceID) :
    d.shared = c.shared ∧ d.threads t = some (.started (.error (.conflict true))) := by
  obtain ⟨pc, r', pc', ht', hm, rfl⟩ := step_move.mp h
  cases ht.symm.trans ht'
  obtain ⟨_, hs, rfl⟩ := inner_move hm
  simp only [startTransfer, hopen, hguard, Bool.false_eq_true, if_false, ne_eq,
    not_false_eq_true, and_self, if_true, some.injEq] at hs
  cases hs
  exact ⟨rfl, update_self ..⟩

end

/-- What a `StopTransfers` of the Bed still has to wait for. -/
def Joining (bedID : Text) (n : RunId) (r : Registry) : Option TransferPc → Prop
  | some (.stop b) => b = bedID
  | some (.stopping pending) => r.isRunning n = true → n ∈ pending
  | some (.stopped ok) => ok = true → r.isRunning n = false
  | _ => False

theorem Joining.later {q : Option TransferPc} (h : Joining bedID n r q)
    (hr : r'.isRunning n = true → r.isRunning n = true) : Joining bedID n r' q := by
  match q with
  | some (.stop b) => exact h
  | some (.stopping pending) => exact fun hrun => h (hr hrun)
  | some (.stopped ok) => exact fun hok => false_of_kept hr (h hok)

theorem Joining.own {pc pc' : TransferPc} {x : TransferChoice} (hI : Inv r)
    (hn : r.records n = some run) (hbed : bedID = [] ∨ run.status.bedID = bedID)
    (h : Joining bedID n r (some pc)) (hm : move t r pc x = some (r', pc'))
    (hr : r'.isRunning n = true → r.isRunning n = true) : Joining bedID n r' (some pc') := by
  revert hm
  fun_cases move t r pc x <;> intro hm
  case case5 b =>
    cases hm
    cases h
    intro hrun
    obtain ⟨run₂, hn₂, hs⟩ := isRunning_iff.mp (hr hrun)
    cases hn.symm.trans hn₂
    refine mem_filter.mpr ⟨mem_values.mpr ⟨_, hI.running n run hn hs⟩, ?_⟩
    rw [hr hrun]
    rcases hbed with hb | hb
    · simp [hb]
    · simp [hn, hb]
  case case6 pending m hmem =>
    cases hm
    intro hrun
    -- what was joined is finished, so it is not what still runs
    have hne : n ≠ m := by
      rintro rfl
      have hfin := hmem.2
      obtain ⟨run₂, hn₂, hs⟩ := isRunning_iff.mp hrun
      have hc := hI.coherent n run₂ hn₂
      simp only [hn₂, any_some, decide_eq_true_eq] at hfin
      simp only [Coherent, hfin] at hc
      exact hc.1 hs
    exact (mem_erase_of_ne hne).mpr (h hrun)
  case case9 pending hne =>
    cases hm
    intro hok
    cases hok
  case case10 =>
    cases hm
    exact fun _ => Bool.of_not_eq_true fun hrun => absurd (h hrun) (by simp)
  all_goals first | cases hm; done | exact absurd h (by simp [Joining])

/-- Whoever joins the transfers of a Bed has joined what ran when it was called. -/
theorem joining_of_trace (hc : Outlined Inv Asserts c)
    (hn : c.shared.records n = some run) (hbed : bedID = [] ∨ run.status.bedID = bedID)
    (hj : Joining bedID n c.shared (c.threads t)) (h : program.machine.Trace c τ d) :
    Joining bedID n d.shared (d.threads t) := by
  refine (outline.stable (Q := fun d => (∃ run', d.shared.records n = some run' ∧
      (bedID = [] ∨ run'.status.bedID = bedID)) ∧ Joining bedID n d.shared (d.threads t)) h hc
    ⟨⟨run, hn, hbed⟩, hj⟩ ?_).2
  rintro c₁ act c₂ hout ⟨⟨x, hx, hxbed⟩, hj⟩ hstep
  obtain ⟨x', hx', hlater⟩ := step_later hout hstep hx
  have hback : c₂.shared.isRunning n = true → c₁.shared.isRunning n = true := by
    intro hrun
    obtain ⟨x₂, hx₂, hs⟩ := isRunning_iff.mp hrun
    cases hx'.symm.trans hx₂
    exact isRunning_iff.mpr ⟨x, hx, hlater.running hs⟩
  refine ⟨⟨x', hx', hlater.bedID ▸ hxbed⟩, ?_⟩
  cases act with
  | call u pc =>
    obtain ⟨hu, -, rfl⟩ := step_call.mp hstep
    have hne : t ≠ u := by
      rintro rfl
      rw [hu] at hj
      exact hj
    simpa [hne] using hj
  | move u y =>
    obtain ⟨pc, r', pc', hu, hm, rfl⟩ := step_move.mp hstep
    by_cases hne : t = u
    · subst hne
      rw [hu] at hj
      simpa using hj.own hout.1 hx hxbed hm hback
    · simpa [hne] using hj.later hback
  | world e =>
    obtain ⟨r', hw, rfl⟩ := step_world.mp hstep
    exact hj.later hback

/-- **The registry in every run.** At most four transfers run at once, the map holds at most 1024
records, and whatever runs is in it.  While admission is open, a valid request for a recorded Bed
and id is answered from the record if it is the same operation and refused as a conflict if it is
not, with nothing but expired records changed; one that is guarded by another instance is a
conflict.  A pin is released at most once, and exactly once by the time the state is terminal.  When
`StopTransfers` returns `nil`, what ran for the Bed when it was called runs no more. -/
theorem transfers_bounded (h : program.machine.Trace (init (new instanceID)) τ d) :
    (∀ l : List RunId, l.Nodup → (∀ n ∈ l, ∃ run, d.shared.records n = some run ∧
      run.status.state = .running) → l.length ≤ transferLimit) ∧
    d.shared.runs.size ≤ transferHistoryLimit ∧
    (∀ n run, d.shared.records n = some run → run.status.state = .running →
      d.shared.runs.lookup (transferKey run.status.bedID run.request.id) = some n) ∧
    (∀ c t x c' bedID req n run, (c, .move t (.admission x)) ∈ τ →
      program.machine.step c (.move t (.admission x)) = some c' →
      c.threads t = some (.enter bedID req) → c.shared.closed = false →
      (req.instanceID = [] ∨ req.instanceID = c.shared.instanceID) →
      c.shared.pruneLocked.runs.lookup (transferKey bedID req.id) = some n →
      c.shared.records n = some run →
      c'.shared = c.shared.pruneLocked ∧
        (run.request = c.shared.guarded req → c'.threads t = some (.started (.ok run.status))) ∧
        (run.request ≠ c.shared.guarded req →
          c'.threads t = some (.started (.error (.conflict false))))) ∧
    (∀ c t x c' bedID req, (c, .move t (.admission x)) ∈ τ →
      program.machine.step c (.move t (.admission x)) = some c' →
      c.threads t = some (.enter bedID req) → c.shared.closed = false →
      req.instanceID ≠ [] ∧ req.instanceID ≠ c.shared.instanceID →
      c'.shared = c.shared ∧ c'.threads t = some (.started (.error (.conflict true)))) ∧
    (∀ n run, d.shared.records n = some run → run.releases ≤ 1 ∧
      (run.status.state ≠ .running → run.releases = 1)) ∧
    (∀ τ₁ c t bedID τ₂ n run, τ = τ₁ ++ (c, .call t (.stop bedID)) :: τ₂ →
      c.shared.records n = some run → run.status.state = .running →
      (bedID = [] ∨ run.status.bedID = bedID) → d.threads t = some (.stopped true) →
      ∀ run', d.shared.records n = some run' → run'.status.state ≠ .running) := by
  have hout : Outlined Inv Asserts d := outlined_of_trace h
  refine ⟨fun l hl hr => hout.1.limited l hl fun n hn => isRunning_iff.mpr (hr n hn),
    hout.1.bounded, hout.1.running, ?_, ?_, ?_, ?_⟩
  · intro c t x c' bedID req n run _ hstep ht hopen hguard hk hn
    exact enter_recorded ht hstep hopen hguard hk hn
  · intro c t x c' bedID req _ hstep ht hopen hguard
    exact enter_guarded ht hstep hopen hguard
  · intro n run hn
    have hc := hout.1.coherent n run hn
    unfold Coherent at hc
    split at hc
    · exact ⟨by omega, fun hs => absurd hc.1 hs⟩
    · exact ⟨by omega, fun hs => absurd hc.1 hs⟩
    · exact ⟨by omega, fun hs => absurd hc.1 hs⟩
    · exact ⟨by omega, fun _ => hc.2.2⟩
  · rintro τ₁ c t bedID τ₂ n run rfl hn _ hbed ht run' hn' hs
    obtain ⟨c', hpre, hstep, hrest⟩ := h.split_cons
    have hout' : Outlined Inv Asserts c' := outline.step (outlined_of_trace hpre) hstep
    obtain ⟨-, -, rfl⟩ := step_call.mp hstep
    have hj := joining_of_trace (t := t) hout' hn hbed (by simp [Joining]) hrest
    rw [ht] at hj
    have hnot : d.shared.isRunning n = false := hj rfl
    rw [isRunning_iff.mpr ⟨run', hn', hs⟩] at hnot
    cases hnot

/-- A download to the Bed `b`. -/
def download : TransferRequest where
  id := ['x']
  source := { type := .s3, key := ['k'] }
  destination := { type := .bed, path := ['/', 'f'] }

def downloading : Transfer where
  sync := .copy
  id := ['x']
  bedID := ['b']
  instanceID := ['i']
  startedAt := 0

/-- A transfer is started, repeated, joined while it runs, and published. -/
def repeatedAndJoined : List (ThreadAct TransferPc TransferChoice TransferEvent) :=
  [.call 0 (.start ['b'] download), .move 0 .go, .move 0 (.admission .ok),
    .call 1 (.start ['b'] download), .move 1 .go, .move 1 (.admission .ok),
    .call 2 (.stop ['b']), .move 2 .go,
    .world (.copied 0 { err := some ([], true) }), .world (.release 0), .world (.publish 0),
    .move 2 (.joined 0), .move 2 .go]

theorem transfers_bounded_joined :
    ∃ τ d run, program.machine.Trace (init (new ['i'])) τ d ∧
      d.threads 0 = some (.started (.ok downloading)) ∧
      d.threads 1 = d.threads 0 ∧ d.shared.records 1 = none ∧
      d.threads 2 = some (.stopped true) ∧ d.shared.records 0 = some run ∧
      run.status.state = .canceled ∧ run.releases = 1 := by
  obtain ⟨d, h, h₀, h₁, h₂, h₃, run, hrun, hs⟩ :=
    program.machine.trace_of_any (init (new ['i'])) repeatedAndJoined
    (fun d => d.threads 0 = some (.started (.ok downloading)) ∧
      d.threads 1 = d.threads 0 ∧ d.shared.records 1 = none ∧
      d.threads 2 = some (.stopped true) ∧
      ∃ run, d.shared.records 0 = some run ∧ run.status.state = .canceled) (by decide +kernel)
  obtain ⟨-, -, -, -, -, hpin, -⟩ := transfers_bounded h
  exact ⟨_, d, run, h, h₀, h₁, h₂, h₃, hrun, hs, (hpin 0 run hrun).2 (by rw [hs]; simp)⟩

/-- Once admission is closed, a repeated request is refused although its record is there. -/
theorem repeated_after_close :
    ∃ τ d run, program.machine.Trace (init (new ['i'])) τ d ∧
      d.threads 0 = some (.started (.ok downloading)) ∧
      d.shared.runs.lookup (transferKey ['b'] ['x']) = some 0 ∧ d.shared.records 0 = some run ∧
      validateTransfer download = .ok { run.request with instanceID := [] } ∧
      d.threads 2 = some (.started (.error .unavailable)) := by
  obtain ⟨d, h, h₀, h₁, ⟨run, hrun, hv⟩, h₂⟩ := program.machine.trace_of_any (init (new ['i']))
    [.call 0 (.start ['b'] download), .move 0 .go, .move 0 (.admission .ok),
      .call 1 (.stop []), .move 1 .go,
      .call 2 (.start ['b'] download), .move 2 .go, .move 2 (.admission .ok)]
    (fun d => d.threads 0 = some (.started (.ok downloading)) ∧
      d.shared.runs.lookup (transferKey ['b'] ['x']) = some 0 ∧
      (∃ run, d.shared.records 0 = some run ∧
        validateTransfer download = .ok { run.request with instanceID := [] }) ∧
      d.threads 2 = some (.started (.error .unavailable))) (by decide +kernel)
  exact ⟨_, d, run, h, h₀, h₁, hrun, hv, h₂⟩

end Registry

end Hostel.Store
