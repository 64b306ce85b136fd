/-
# Hostel.Bed.Inventory — the inventory, and what a scheduler reads off it.

`captureInventory` merges the four maps and the local directories into one row per Bed, and
`InventoryStatus` and `statusOfInstance` fold the *phases* of those rows, while the manager's own
counters are about membership in the maps.  The two agree as long as no row hides what it stands
for.

Two rows do.  A retirement outside a purge shows the phase of its identity, `Evicting`, and no
deadline: it is counted as a resident Bed, retained without limit.  A purge shows `Purging` whatever
else the name has, so a cold purge is counted as occupied and a resident Bed or an initialization is
not seen behind it.

Sizes, usage, ids and activity times are left out; no count reads them.
-/
import Hostel.Bed.Accounting
import Hostel.Bed.Entries
import Hostel.Bed.Phases
import Hostel.Bed.Retention

namespace Hostel.Bed

open Store Logic Function List Slot

/-! ## Rows -/

inductive Activity
  | idle | active
  deriving DecidableEq, Repr

/-- `InventoryBed`, one row of the inventory.  A purge reports no sync kind, and only a resident Bed
has an activity. -/
structure InventoryBed where
  sync : Option SyncKind
  phase : Phase
  activity : Option Activity
  generation : Int
  dataSynced : Bool
  pinned : Bool
  keepaliveAt : Time
  retainUntil : Time
  deriving DecidableEq, Repr

namespace Slot

/-- The row of resident allocation `j`, from its `Status`. -/
def residentRow (s : Slot) (j : TaskId) : InventoryBed :=
  { sync := some (s.storeKind j), phase := s.phase j
    activity := some (if 0 < (s.alloc j).inflight then .active else .idle)
    generation := (s.alloc j).generation, dataSynced := s.dataSynced j, pinned := s.pinned j
    keepaliveAt := (s.lifecycle j).keepaliveAt, retainUntil := s.retainUntil j }

/-- The row of an initialization, from its `snapshot`, and of a retirement, from
`retirementStatus`. -/
def transitionRow (s : Slot) (i : TaskId) : InventoryBed :=
  { sync := some (s.storeKind i), phase := s.phase i, activity := none, generation := 0
    dataSynced := false, pinned := false, keepaliveAt := 0, retainUntil := 0 }

/-- The row of a purge, from the status `beginPurge` gave it. -/
def purgeRow : InventoryBed :=
  { sync := none, phase := .purging, activity := none, generation := 0, dataSynced := false
    pinned := false, keepaliveAt := 0, retainUntil := 0 }

def luggageRow (env : Env) (s : Slot) : InventoryBed :=
  { sync := some ((s.disk.meta.map Meta.sync).getD env.store.defaultSync), phase := .dormant
    activity := none, generation := (s.disk.meta.map Meta.generation).getD 0, dataSynced := true
    pinned := false, keepaliveAt := 0, retainUntil := 0 }

/-- The entry that `pruneFailedInitializationsLocked` leaves. -/
def prunedInitialization (env : Env) (s : Slot) : Option TaskId :=
  s.initialization.filter fun i => !(decide (s.phase i = .failed) &&
    decide ((s.lifecycle i).updatedAt + failedInitializationRetention ≤ env.now))

/-- `ListLuggage` has an entry for the name, and `captureInventory` keeps it. -/
def isLuggage (s : Slot) : Bool :=
  s.disk.dir.isSome && s.bed.isNone && s.initialization.isNone && s.retirement.isNone &&
    s.purge.isNone && s.pendingCleanup.isNone

/-- The rows that `captureInventory` appends for one name: resident Beds, what
`initializationStatusesLocked` answers, and luggage. -/
def inventory (env : Env) (s : Slot) : List InventoryBed :=
  (if s.purge.isNone then (s.bed.map s.residentRow).toList else []) ++
    (if s.purge.isNone && s.retirement.isNone then
      ((s.prunedInitialization env).map s.transitionRow).toList else []) ++
    (if s.purge.isNone then (s.retirement.map s.transitionRow).toList else []) ++
    (if s.purge.isSome then [purgeRow] else []) ++
    (if s.isLuggage then [s.luggageRow env] else [])

end Slot

/-! ## The folds -/

/-- The accumulators of the loop of `InventoryStatus`. -/
structure Tally where
  phaseCounts : Phase → Nat
  activityCounts : Activity → Nat
  pinnedBeds : Nat
  residentBeds : Nat
  occupiedBeds : Nat
  retainUntil : Time
  retentionKnown : Bool

namespace Tally

def zero : Tally :=
  { phaseCounts := fun _ => 0, activityCounts := fun _ => 0, pinnedBeds := 0, residentBeds := 0
    occupiedBeds := 0, retainUntil := 0, retentionKnown := true }

/-- The part of the loop body that every row reaches. -/
def note (c : Tally) (b : InventoryBed) : Tally :=
  { c with
    phaseCounts := update c.phaseCounts b.phase (c.phaseCounts b.phase + 1)
    activityCounts :=
      match b.activity with
      | some a => update c.activityCounts a (c.activityCounts a + 1)
      | none => c.activityCounts
    pinnedBeds := if b.pinned then c.pinnedBeds + 1 else c.pinnedBeds }

/-- The part that a row of an occupied Bed reaches. -/
def occupy (c : Tally) (b : InventoryBed) : Tally :=
  { c with
    occupiedBeds := c.occupiedBeds + 1
    retainUntil := max c.retainUntil b.retainUntil
    retentionKnown := c.retentionKnown && decide (b.retainUntil ≠ 0) }

def add (c : Tally) (b : InventoryBed) : Tally :=
  match b.phase with
  | .dormant | .failed => c.note b
  | .resident | .evicting => { (c.note b).occupy b with residentBeds := c.residentBeds + 1 }
  | _ => (c.note b).occupy b

end Tally

inductive InstanceState
  | retained | draining | releasable
  deriving DecidableEq, Repr

/-- The accumulators `hasResident` and `allExpired` of `statusOfInstance` after a row. -/
def foldState (now : Time) (acc : Bool × Bool) (b : InventoryBed) : Bool × Bool :=
  match b.phase with
  | .initializing => (true, false)
  | .purging => (true, acc.2)
  | .failed | .dormant => acc
  | _ => (true, acc.2 && !(decide (b.retainUntil = 0) || decide (now < b.retainUntil)))

def statusOfInstance (beds : List InventoryBed) (now : Time) : InstanceState :=
  let (hasResident, allExpired) := beds.foldl (foldState now) (false, true)
  if hasResident && !allExpired then .retained
  else if hasResident then .draining
  else .releasable

/-- `InstanceStatus`, as far as it is derived from the rows. -/
structure InstanceStatus where
  status : InstanceState
  occupiedBeds : Nat
  residentBeds : Nat
  pinnedBeds : Nat
  phaseCounts : Phase → Nat
  activityCounts : Activity → Nat
  retainedUntil : Option Time

/-- What `InventoryStatus` makes of the captured rows at instant `now`. -/
def instanceStatus (beds : List InventoryBed) (now : Time) : InstanceStatus :=
  let c := beds.foldl Tally.add Tally.zero
  { status := statusOfInstance beds now
    occupiedBeds := c.occupiedBeds, residentBeds := c.residentBeds, pinnedBeds := c.pinnedBeds
    phaseCounts := c.phaseCounts, activityCounts := c.activityCounts
    retainedUntil :=
      if decide (0 < c.occupiedBeds) && c.retentionKnown then some c.retainUntil else none }

namespace Manager

variable {ν : Type}

def captureInventory [DecidableEq ν] (d : Manager ν) (listing : List ν) :
    List (ν × InventoryBed) :=
  listing.flatMap fun n => ((d.slot n).inventory (d.env n)).map (Prod.mk n)

def inventoryStatus [DecidableEq ν] (d : Manager ν) (listing : List ν) : InstanceStatus :=
  instanceStatus ((d.captureInventory listing).map Prod.snd) d.now

end Manager

/-! ## What the folds compute -/

namespace InventoryBed

def occupies (b : InventoryBed) : Bool := decide (b.phase ≠ .dormant ∧ b.phase ≠ .failed)

def resides (b : InventoryBed) : Bool := decide (b.phase = .resident ∨ b.phase = .evicting)

/-- The row keeps the instance retained at `now`. -/
def promises (now : Time) (b : InventoryBed) : Bool :=
  decide (b.phase = .initializing) || decide (b.phase ≠ .purging) && b.occupies &&
    (decide (b.retainUntil = 0) || decide (now < b.retainUntil))

theorem resides_occupies {b : InventoryBed} (h : b.resides = true) : b.occupies = true := by
  revert h
  unfold resides occupies
  cases b.phase <;> decide

theorem promises_occupies {now : Time} {b : InventoryBed} (h : b.promises now = true) :
    b.occupies = true := by
  revert h
  unfold promises occupies
  cases b.phase <;> simp

end InventoryBed

theorem foldl_add (beds : List InventoryBed) (c : Tally) :
    (beds.foldl Tally.add c).occupiedBeds = c.occupiedBeds + beds.countP InventoryBed.occupies ∧
      (beds.foldl Tally.add c).residentBeds = c.residentBeds + beds.countP InventoryBed.resides ∧
      (beds.foldl Tally.add c).pinnedBeds = c.pinnedBeds + beds.countP InventoryBed.pinned := by
  induction beds generalizing c with
  | nil => exact ⟨rfl, rfl, rfl⟩
  | cons b beds ih =>
    have hstep : (c.add b).occupiedBeds = c.occupiedBeds + (if b.occupies then 1 else 0) ∧
        (c.add b).residentBeds = c.residentBeds + (if b.resides then 1 else 0) ∧
        (c.add b).pinnedBeds = c.pinnedBeds + (if b.pinned then 1 else 0) := by
      unfold Tally.add InventoryBed.occupies InventoryBed.resides
      cases b.phase <;> cases hp : b.pinned <;> simp [Tally.note, Tally.occupy, hp]
    obtain ⟨hocc, hres, hpin⟩ := ih (c.add b)
    simp only [foldl_cons, countP_cons]
    omega

theorem foldl_foldState (beds : List InventoryBed) (now : Time) (acc : Bool × Bool) :
    beds.foldl (foldState now) acc =
      (acc.1 || beds.any InventoryBed.occupies,
        acc.2 && !beds.any (InventoryBed.promises now)) := by
  induction beds generalizing acc with
  | nil => simp
  | cons b beds ih =>
    obtain ⟨hasResident, allExpired⟩ := acc
    have hstep : foldState now (hasResident, allExpired) b =
        (hasResident || b.occupies, allExpired && !b.promises now) := by
      unfold foldState InventoryBed.promises InventoryBed.occupies
      cases b.phase <;> simp
    rw [foldl_cons, hstep, ih]
    simp [Bool.or_assoc, Bool.and_assoc]

theorem statusOfInstance_eq (beds : List InventoryBed) (now : Time) :
    statusOfInstance beds now =
      if beds.any (InventoryBed.promises now) then .retained
      else if beds.any InventoryBed.occupies then .draining
      else .releasable := by
  unfold statusOfInstance
  rw [foldl_foldState]
  by_cases hp : beds.any (InventoryBed.promises now) = true
  · obtain ⟨b, hb, hpb⟩ := any_eq_true.mp hp
    have ho : beds.any InventoryBed.occupies = true :=
      any_eq_true.mpr ⟨b, hb, InventoryBed.promises_occupies hpb⟩
    simp [hp, ho]
  · simp [hp]

/-! ## One name -/

variable {env : Env} {s : Slot} {closed : Bool} {j : TaskId}

def Slot.row (env : Env) (s : Slot) : Option InventoryBed :=
  if s.purge.isSome then some purgeRow
  else match s.bed, s.retirement, s.prunedInitialization env with
    | some j, _, _ => some (s.residentRow j)
    | none, some j, _ => some (s.transitionRow j)
    | none, none, some i => some (s.transitionRow i)
    | none, none, none => if s.isLuggage then some (s.luggageRow env) else none

theorem Slot.initialization_of_pruned {i : TaskId} (h : s.prunedInitialization env = some i) :
    s.initialization = some i :=
  (Option.filter_eq_some_iff.mp h).1

/-- With custody a name has at most one row. -/
theorem Custody.inventory_eq (hc : Custody closed s) : s.inventory env = (s.row env).toList := by
  unfold inventory row
  cases hpurge : s.purge with
  | some p => simp [isLuggage, hpurge]
  | none =>
    cases hbed : s.bed with
    | some j =>
      obtain ⟨hret, hini, -⟩ := hc.bed j hbed
      simp [isLuggage, prunedInitialization, hbed, hret, hini]
    | none =>
      cases hret : s.retirement with
      | some j => simp [isLuggage, hret]
      | none =>
        cases hini : s.prunedInitialization env with
        | some i => simp [isLuggage, initialization_of_pruned hini]
        | none => cases hlug : s.isLuggage <;> simp

/-- Whether a name counts as occupied, resident and pinned. -/
structure Capacity where
  occupied : Bool
  resident : Bool
  pinned : Bool
  deriving DecidableEq, Repr

/-- What the manager counts a name as, from the maps. -/
def Slot.capacity (s : Slot) : Capacity := ⟨s.isOccupied, s.bed.isSome, s.pinnedBed⟩

/-- What the inventory counts a name as, from its rows. -/
def Slot.reported (env : Env) (s : Slot) : Capacity :=
  ⟨(s.inventory env).any InventoryBed.occupies, (s.inventory env).any InventoryBed.resides,
    (s.inventory env).any InventoryBed.pinned⟩

/-- The row of the name shows what the name has. -/
def Slot.Transparent (s : Slot) : Prop :=
  -- a purge hides an initialization or a retirement, and nothing else
  (s.purge ≠ none → s.bed = none ∧ s.isOccupied = true) ∧
    -- a retirement is the one of an initialization that still reports its own phase
    (s.purge = none → ∀ j, s.retirement = some j →
      s.phase j ∉ [Phase.dormant, .failed, .resident, .evicting])

theorem Slot.initializing_of_preparatory {i : TaskId} (hini : s.initialization = some i) :
    s.initializing = if s.phase i = .initializing then some i else none := by
  simp [initializing, hini, Option.filter]

theorem Slot.initializing_of_pruned (h : s.prunedInitialization env = none) :
    s.initializing = none := by
  cases hini : s.initialization with
  | none => simp [initializing, hini]
  | some i =>
    rw [initializing_of_preparatory hini, if_neg]
    intro hphase
    simp [prunedInitialization, hini, hphase] at h

attribute [local simp] InventoryBed.occupies InventoryBed.resides InventoryBed.promises row
  isOccupied pinnedBed
  Slot.Transparent

/-- The inventory and the manager count a name alike exactly when its row is transparent. -/
theorem Phased.reported_iff (hp : Phased false s) (hc : Custody false s) :
    s.reported env = s.capacity ↔ s.Transparent := by
  unfold reported capacity
  rw [hc.inventory_eq]
  cases hpurge : s.purge with
  | some p =>
    cases hbed : s.bed with
    | some j | none => simp [hpurge, hbed, purgeRow]
  | none =>
    cases hbed : s.bed with
    | some j =>
      obtain ⟨hret, -, -⟩ := hc.bed j hbed
      rcases hp.bed rfl j hbed with hphase | hphase <;>
        simp [hpurge, hbed, hret, residentRow, hphase]
    | none =>
      cases hret : s.retirement with
      | some j => simp [hpurge, hbed, hret, transitionRow, and_assoc]
      | none =>
        cases hini : s.prunedInitialization env with
        | some i =>
          have hentry := initialization_of_pruned hini
          rcases hp.entry rfl i hentry with hphase | hphase | hphase <;>
            simp [hpurge, hbed, hret, hini, initializing_of_preparatory hentry,
              transitionRow, hphase]
        | none =>
          have hidle := initializing_of_pruned hini
          cases hlug : s.isLuggage <;> simp [hpurge, hbed, hret, hini, hlug, hidle, luggageRow]

theorem Phased.pinned_resides (hp : Phased false s) (hc : Custody false s) {b : InventoryBed}
    (hb : b ∈ s.inventory env) (hpin : b.pinned = true) : b.resides = true := by
  rw [hc.inventory_eq] at hb
  have hrow := Option.mem_toList.mp hb
  unfold row at hrow
  by_cases hpurge : s.purge.isSome = true
  · rw [if_pos hpurge] at hrow
    cases hrow
    cases hpin
  · rw [if_neg hpurge] at hrow
    split at hrow
    · next j hbed =>
      cases hrow
      rcases hp.bed rfl j hbed with hphase | hphase <;> simp [residentRow, hphase]
    · cases hrow
      cases hpin
    · cases hrow
      cases hpin
    · split_ifs at hrow
      cases hrow
      cases hpin

/-- The row of the name shows its retention. -/
def Slot.Undisguised (now : Time) (s : Slot) : Prop :=
  -- a purge hides no initialization and no Bed that is still retained
  (s.purge ≠ none → s.initializing = none ∧ ∀ j, s.bed = some j → s.retainUntil j ≤ now) ∧
    -- a retirement is the one of an initialization in progress
    (s.purge = none → ∀ j, s.retirement = some j → s.initializing = some j)

/-- The Bed is initializing, or resident and within its retention. -/
def Slot.Retained (now : Time) (s : Slot) : Prop :=
  s.initializing ≠ none ∨ ∃ j, s.bed = some j ∧ now < s.retainUntil j

/-- The Bed is resident, retiring or purging. -/
def Slot.Present (s : Slot) : Prop := s.bed ≠ none ∨ s.retirement ≠ none ∨ s.purge ≠ none

section

attribute [local simp] Slot.Retained Slot.Present

theorem Phased.status_iff (hp : Phased false s) (hc : Custody false s) (env : Env) {now : Time}
    (hdue : ∀ j, s.bed = some j → s.retainUntil j ≠ 0) (hu : s.Undisguised now) :
    ((s.inventory env).any (InventoryBed.promises now) = true ↔ s.Retained now) ∧
      ((s.inventory env).any InventoryBed.occupies = true ↔
        s.initializing ≠ none ∨ s.Present) := by
  rw [hc.inventory_eq]
  cases hpurge : s.purge with
  | some p =>
    obtain ⟨hidle, hexpired⟩ := hu.1 (by simp [hpurge])
    simpa [hpurge, purgeRow, hidle] using hexpired
  | none =>
    cases hbed : s.bed with
    | some j =>
      obtain ⟨-, hini, -⟩ := hc.bed j hbed
      have hidle : s.initializing = none := by simp [initializing, hini]
      have hret := hdue j hbed
      rcases hp.bed rfl j hbed with hphase | hphase <;>
        simp [hpurge, hbed, hidle, hret, residentRow, hphase]
    | none =>
      cases hret : s.retirement with
      | some j =>
        have hini := hu.2 hpurge j hret
        obtain ⟨-, hphase⟩ := initializing_eq_some.mp hini
        simp [hpurge, hbed, hret, hini, transitionRow, hphase]
      | none =>
        cases hini : s.prunedInitialization env with
        | some i =>
          have hentry := initialization_of_pruned hini
          rcases hp.entry rfl i hentry with hphase | hphase | hphase <;>
            simp [hpurge, hbed, hret, hini, initializing_of_preparatory hentry,
              transitionRow, hphase]
        | none =>
          have hidle := initializing_of_pruned hini
          cases hlug : s.isLuggage <;> simp [hpurge, hbed, hret, hini, hlug, hidle, luggageRow]

end

theorem Custody.countP_inventory (hc : Custody closed s) (p : InventoryBed → Bool) :
    (s.inventory env).countP p = if (s.inventory env).any p then 1 else 0 := by
  rw [hc.inventory_eq]
  cases s.row env with
  | none => rfl
  | some b => cases hb : p b <;> simp [hb]

/-! ## All names -/

namespace Manager

variable {ν : Type} [DecidableEq ν] {config : Config} {now : Time} {disk : ν → Disk}
  {snapshot : ν → Option Snapshot} {τ : List (Manager ν × Event ν)} {d : Manager ν}
  {listing : List ν}

theorem nodup_captureInventory (hc : ∀ n, Custody d.closed (d.slot n)) (hnodup : listing.Nodup) :
    ((d.captureInventory listing).map Prod.fst).Nodup := by
  have hrows : ∀ n, (((d.slot n).inventory (d.env n)).map (Prod.mk n)).map Prod.fst =
      replicate ((d.slot n).inventory (d.env n)).length n := by
    intro n
    simp [map_map, comp_def, map_const']
  rw [captureInventory, map_flatMap, nodup_flatMap]
  refine ⟨fun n _ => ?_, hnodup.imp fun {n k} hne => ?_⟩
  · rw [hrows, (hc n).inventory_eq]
    cases (d.slot n).row (d.env n) <;> simp
  · rw [onFun, disjoint_left]
    intro x hn hk
    rw [hrows] at hn hk
    exact hne ((eq_of_mem_replicate hn).symm.trans (eq_of_mem_replicate hk))

theorem count_eq {p : InventoryBed → Bool} {q : Slot → Bool}
    (hc : ∀ n, Custody d.closed (d.slot n)) (hnodup : listing.Nodup)
    (hall : ∀ n, (d.slot n).inventory (d.env n) ≠ [] → n ∈ listing)
    (hnames : ∀ n, q (d.slot n) = true → n ∈ d.names)
    (heq : ∀ n, ((d.slot n).inventory (d.env n)).any p = q (d.slot n)) :
    ((d.captureInventory listing).map Prod.snd).countP p =
      ∑ n ∈ d.names, if q (d.slot n) then 1 else 0 := by
  have hcount : ∀ n, ((d.slot n).inventory (d.env n)).countP p =
      if q (d.slot n) then 1 else 0 := fun n => by rw [(hc n).countP_inventory, heq n]
  simp only [captureInventory, map_flatMap, map_map, countP_flatMap, countP_map, comp_def, hcount]
  refine sum_listing hnodup (fun n hn => hall n ?_) fun n hn => hnames n ?_
  · rintro hnil
    rw [← hcount n, hnil] at hn
    exact hn rfl
  · by_contra hq
    rw [if_neg hq] at hn
    exact hn rfl

/-- In every state before shutdown of every run without a takeover, no name is listed twice and what
is pinned is resident and occupied; the inventory counts every name as the manager does exactly when
every row is transparent, and then its totals are the counters. -/
theorem inventory_counts (h : (machine ν).Trace (boot config now disk snapshot) τ d)
    (hC : ∀ e ∈ τ, Meets NoTakeover e) (hopen : d.closed = false) (listing : List ν)
    (hnodup : listing.Nodup) (hall : ∀ n, (d.slot n).inventory (d.env n) ≠ [] → n ∈ listing) :
    ((d.captureInventory listing).map Prod.fst).Nodup ∧
      (∀ b ∈ d.captureInventory listing, (b.2.pinned = true → b.2.resides = true) ∧
        (b.2.resides = true → b.2.occupies = true)) ∧
      ((∀ n, (d.slot n).reported (d.env n) = (d.slot n).capacity) ↔
        ∀ n, (d.slot n).Transparent) ∧
      ((∀ n, (d.slot n).Transparent) →
        (d.inventoryStatus listing).occupiedBeds = d.occupiedBeds ∧
          ((d.inventoryStatus listing).residentBeds : Int) = d.residentBeds ∧
          ((d.inventoryStatus listing).pinnedBeds : Int) = d.pinnedBeds) := by
  have hcust : ∀ n, Custody d.closed (d.slot n) := fun n => (custody_of_trace h hC n).2
  have hagree : ∀ n, (d.slot n).reported (d.env n) = (d.slot n).capacity ↔
      (d.slot n).Transparent := fun n =>
    (hopen ▸ phased_of_trace h hC n).reported_iff (hopen ▸ hcust n)
  refine ⟨nodup_captureInventory hcust hnodup, fun b hb => ⟨fun hpin => ?_,
    InventoryBed.resides_occupies⟩, forall_congr' hagree, fun htrans => ?_⟩
  · obtain ⟨n, -, hn⟩ := mem_flatMap.mp hb
    obtain ⟨row, hrow, rfl⟩ := mem_map.mp hn
    exact (hopen ▸ phased_of_trace h hC n : Phased false _).pinned_resides
      (hopen ▸ hcust n) hrow hpin
  · have hacc := accounts_of_trace h
    have hfits := fits_of_trace h hC
    obtain ⟨hres, hpin, -⟩ := counters_exact h
    have hname : ∀ n, (d.slot n).reported (d.env n) = (d.slot n).capacity := fun n =>
      (hagree n).mpr (htrans n)
    obtain ⟨hocc', hres', hpin'⟩ := foldl_add ((d.captureInventory listing).map Prod.snd) Tally.zero
    simp only [Tally.zero, Nat.zero_add] at hocc' hres' hpin'
    simp only [inventoryStatus, instanceStatus, Tally.zero, hocc', hres', hpin']
    refine ⟨?_, ?_, ?_⟩
    · rw [count_eq (q := isOccupied) hcust hnodup hall ?_ fun n =>
        congrArg Capacity.occupied (hname n)]
      · exact Finset.sum_congr rfl fun n _ => ((hcust n).occupied_eq).symm
      · intro n hn
        by_contra hno
        rw [hfits.unmentioned n hno] at hn
        cases hn
    · rw [hres, bedCount, Finset.card_filter, Nat.cast_inj]
      refine count_eq (q := fun s => s.bed.isSome) hcust hnodup hall ?_ fun n =>
        congrArg Capacity.resident (hname n)
      intro n hn
      by_contra hno
      rw [hacc.unmentioned n hno] at hn
      cases hn
    · rw [hpin, pinnedCount, Finset.card_filter, Nat.cast_inj]
      refine count_eq (q := pinnedBed) hcust hnodup hall ?_ fun n =>
        congrArg Capacity.pinned (hname n)
      intro n hn
      by_contra hno
      simp [hacc.unmentioned n hno] at hn

/-- A Bed is created and an operation admitted on it: the inventory shows one occupied, resident and
pinned Bed, as the counters do. -/
theorem inventory_counts_operation :
    ∃ d : Manager Unit, (d.inventoryStatus [()]).pinnedBeds = 1 ∧ d.residentBeds = 1 ∧
      ((d.inventoryStatus [()]).residentBeds : Int) = d.residentBeds ∧
      ((d.inventoryStatus [()]).pinnedBeds : Int) = d.pinnedBeds := by
  obtain ⟨d, hτ, hopen, hpurge, hret, hpin, hres⟩ := (machine Unit).trace_of_any
    (bootEmpty plainConfig 5)
    (createSteps () 0 0 ++ [.act () (.beginOperation 0 .exec 0 .ok)])
    (fun d => d.closed = false ∧ (d.slot ()).purge = none ∧ (d.slot ()).retirement = none ∧
      (d.inventoryStatus [()]).pinnedBeds = 1 ∧ d.residentBeds = 1) (by decide +kernel)
  have hC := hτ.forall_steps (C := Meets NoTakeover) (by decide +kernel)
  have htrans : ∀ n, (d.slot n).Transparent := fun _ =>
    ⟨fun h => absurd hpurge h, fun _ j hj => by rw [hret] at hj; cases hj⟩
  obtain ⟨-, hres', hpin'⟩ := (inventory_counts hτ hC hopen [()] (by decide)
    fun _ _ => mem_singleton.mpr rfl).2.2.2 htrans
  exact ⟨d, hpin, hres, hres', hpin'⟩

/-- Two names whose rows hide something. -/
def hiddenSteps : List (Event Bool) :=
  -- the Bed of one name is evicted, but its teardown fails
  createSteps true 0 0 ++ .act true .evict :: threadSteps true 1 22 ++
    [.act true (.thread 1 (.fail .hook)), .act true (.thread 1 .ok),
      -- on the other, which holds nothing, a purge begins
      .act false .purge, .act false (.thread 0 .ok)]

/-- The retirement that waits for cleanup is counted as resident, and the cold purge as occupied. -/
theorem cleanup_counted_resident :
    ∃ (τ : List (Manager Bool × Event Bool)) (d : Manager Bool),
      (machine Bool).Trace (boot plainConfig 5 (fun _ => ⟨none, none⟩) (fun _ => none)) τ d ∧
        d.closed = false ∧ (d.slot true).bed = none ∧
        ((d.slot true).lifecycle 0).reason = "CleanupPending" ∧
        (d.inventoryStatus [true, false]).residentBeds = 1 ∧ d.residentBeds = 0 ∧
        (d.inventoryStatus [true, false]).occupiedBeds = 2 ∧ d.occupiedBeds = 1 := by
  exact Logic.Machine.exists_trace hiddenSteps (by decide +kernel)

/-! ## The status of the instance -/

theorem any_captureInventory {p : InventoryBed → Bool}
    (hall : ∀ n, (d.slot n).inventory (d.env n) ≠ [] → n ∈ listing) :
    ((d.captureInventory listing).map Prod.snd).any p = true ↔
      ∃ n, ((d.slot n).inventory (d.env n)).any p = true := by
  simp only [captureInventory, any_eq_true, mem_map, mem_flatMap]
  constructor
  · rintro ⟨b, ⟨row, ⟨n, -, b', hb', rfl⟩, rfl⟩, hp⟩
    exact ⟨n, b', hb', hp⟩
  · rintro ⟨n, b, hb, hp⟩
    exact ⟨b, ⟨(n, b), ⟨n, hall n (ne_nil_of_mem hb), b, hb, rfl⟩, rfl⟩, hp⟩

theorem idleTTL_of_trace (h : (machine ν).Trace (boot config now disk snapshot) τ d) (n : ν)
    (j : TaskId) : ((d.slot n).alloc j).idleTTL = config.idleTTL := by
  revert n j
  refine h.always (fun _ _ => rfl) fun {τ d ev d'} hτ hd hstep n j => ?_
  rcases step_slot hstep n with ⟨hsame, -⟩ | ⟨a, e, rfl, hact⟩
  · rw [hsame]
    exact hd n j
  · obtain ⟨w, m, -, hs', -⟩ := step_does hact
    rw [hs', move_alloc, apply_alloc]
    have hkeeps : (w.alloc (d.env n) (d.slot n) j).idleTTL = ((d.slot n).alloc j).idleTTL ∨
        (w.alloc (d.env n) (d.slot n) j).idleTTL = (d.env n).idleTTL := Write.alloc_idleTTL
    rcases hkeeps with hw | hw
    · rw [hw, hd n j]
    · rw [hw, ← config_of_trace hτ]
      rfl

/-- In every state before shutdown of every run without a takeover, with an idle TTL and rows that
hide nothing, the instance is retained if and only if some Bed is initializing or within its
retention, draining if and only if it is not but some Bed is resident, retiring or purging, and
otherwise releasable. -/
theorem instance_status (h : (machine ν).Trace (boot config now disk snapshot) τ d)
    (hC : ∀ e ∈ τ, Meets NoTakeover e) (hopen : d.closed = false) (hnow : 0 < now)
    (httl : 0 < config.idleTTL) (at' : Time) (hu : ∀ n, (d.slot n).Undisguised at')
    (listing : List ν) (hall : ∀ n, (d.slot n).inventory (d.env n) ≠ [] → n ∈ listing) :
    (statusOfInstance ((d.captureInventory listing).map Prod.snd) at' = .retained ↔
        ∃ n, (d.slot n).Retained at') ∧
      (statusOfInstance ((d.captureInventory listing).map Prod.snd) at' = .draining ↔
        (¬∃ n, (d.slot n).Retained at') ∧ ∃ n, (d.slot n).Present) ∧
      (statusOfInstance ((d.captureInventory listing).map Prod.snd) at' = .releasable ↔
        (¬∃ n, (d.slot n).Retained at') ∧ ¬∃ n, (d.slot n).Present) := by
  have hclock := clocked_of_trace h hnow
  have hdue : ∀ n j, (d.slot n).bed = some j → (d.slot n).retainUntil j ≠ 0 := by
    intro n j hbed
    rw [retainUntil, idleTTL_of_trace h n j,
      retentionDeadline_of_pos (hclock.resident n j hbed) httl]
    exact (Nat.add_pos_right _ httl).ne'
  have hstatus := fun n => (hopen ▸ phased_of_trace h hC n : Phased false (d.slot n)).status_iff
    (hopen ▸ (custody_of_trace h hC n).2) (d.env n) (hdue n) (hu n)
  rw [statusOfInstance_eq]
  by_cases hret : ∃ n, (d.slot n).Retained at'
  · have hpromise := (any_captureInventory hall).mpr (hret.imp fun n hn => (hstatus n).1.mpr hn)
    simp [hpromise, hret]
  · have hnone : ¬((d.captureInventory listing).map Prod.snd).any (InventoryBed.promises at') =
        true := fun hany => by
      obtain ⟨n, hn⟩ := (any_captureInventory hall).mp hany
      exact hret ⟨n, (hstatus n).1.mp hn⟩
    -- without a promise no name is initializing, so the occupied rows are the present Beds
    have hpresent : ((d.captureInventory listing).map Prod.snd).any InventoryBed.occupies = true ↔
        ∃ n, (d.slot n).Present := by
      rw [any_captureInventory hall]
      refine exists_congr fun n => (hstatus n).2.trans (or_iff_right fun hini => ?_)
      exact hret ⟨n, .inl hini⟩
    rw [if_neg hnone]
    by_cases hp : ∃ n, (d.slot n).Present
    · simp [hpresent.mpr hp, hret, hp]
    · simp [mt hpresent.mp hp, hret, hp]

/-- A Bed created at 5 with an idle TTL of 10: at 7 the instance is retained, at 20 it drains. -/
theorem instance_status_expired :
    ∃ d : Manager Unit, statusOfInstance ((d.captureInventory [()]).map Prod.snd) 7 = .retained ∧
      statusOfInstance ((d.captureInventory [()]).map Prod.snd) 20 = .draining := by
  obtain ⟨d, hτ, hopen, hpurge, hret, hini, hbed, huntil⟩ := (machine Unit).trace_of_any
    (bootEmpty { plainConfig with idleTTL := 10 } 5)
    (createSteps () 0 0)
    (fun d => d.closed = false ∧ (d.slot ()).purge = none ∧ (d.slot ()).retirement = none ∧
      (d.slot ()).initializing = none ∧ (d.slot ()).bed = some 0 ∧ (d.slot ()).retainUntil 0 = 15)
    (by decide +kernel)
  have hC := hτ.forall_steps (C := Meets NoTakeover) (by decide +kernel)
  have hu : ∀ at' n, (d.slot n).Undisguised at' := fun _ _ =>
    ⟨fun h => absurd hpurge h, fun _ j hj => by rw [hret] at hj; cases hj⟩
  have hstatus := fun at' => instance_status hτ hC hopen (by decide) (by decide) at' (hu at')
    [()] fun _ _ => mem_singleton.mpr rfl
  refine ⟨d, (hstatus 7).1.mpr ⟨(), .inr ⟨0, hbed, by rw [huntil]; decide⟩⟩,
    (hstatus 20).2.1.mpr ⟨?_, (), .inl (by rw [hbed]; simp)⟩⟩
  rintro ⟨_, hidle | ⟨j, hj, hlt⟩⟩
  · exact hidle hini
  · cases hbed.symm.trans hj
    rw [huntil] at hlt
    exact absurd hlt (by decide)

/-- A Bed with an idle TTL of 10 is evicted long after it expired, and its teardown fails: the
retirement that waits for cleanup makes the instance retained. -/
theorem cleanup_reported_retained :
    ∃ (τ : List (Manager Unit × Event Unit)) (d : Manager Unit),
      (machine Unit).Trace
        (boot { plainConfig with idleTTL := 10 } 5 (fun _ => ⟨none, none⟩) (fun _ => none)) τ d ∧
        d.closed = false ∧ (d.slot ()).initializing = none ∧ (d.slot ()).bed = none ∧
        ((d.slot ()).lifecycle 0).reason = "CleanupPending" ∧
        (d.slot ()).retainUntil 0 < d.now ∧
        (d.inventoryStatus [()]).status = .retained := by
  exact Logic.Machine.exists_trace
    (createSteps () 0 0 ++ .tick 1000 :: .act () .evictExpired :: threadSteps () 1 22 ++
      [.act () (.thread 1 (.fail .hook)), .act () (.thread 1 .ok)]) (by decide +kernel)

end Manager

end Hostel.Bed
