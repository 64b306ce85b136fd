/-
# Hostel.Network.Ports — the port manager.

An allocation holds a host text and a port in a scope, and a new one must overlap no live one:
`overlappingHosts` decides that partly on the texts and partly on the addresses they are read as.
Port zero asks for any port of the pool; the search goes round the pool with a cursor that all
requests share (`Interval.scan`), inside a second loop that goes on when a foreign listener holds
the candidate.

Every method runs under the manager's lock, so a run is a sequence of calls.  What the kernel
answers to the listen of an attempt is an argument of the call.  `Host.overlap` is what the overlap
should be, on the addresses that the texts denote.
-/
import Hostel.Logic.Machine
import Hostel.Logic.Cursor
import Hostel.Logic.NetipText

namespace Hostel.Network

open Hostel.Logic Hostel.Logic.Netip List Nat

/-! ## Addresses with ports -/

/-- `net.SplitHostPort`. -/
def splitHostPort (s : Text) : Option (Text × Text) :=
  match cutLast ':' s with
  | none => none
  | some (front, port) =>
    match s with
    -- a host with colons stands in brackets
    | '[' :: rest =>
      let host := rest.takeWhile (· != ']')
      if front = '[' :: host ++ [']'] ∧ '[' ∉ rest ∧ ']' ∉ port then some (host, port) else none
    | _ => if ':' ∉ front ∧ '[' ∉ s ∧ ']' ∉ s then some (front, port) else none

def joinHostPort (host port : Text) : Text :=
  if ':' ∈ host then '[' :: host ++ ']' :: ':' :: port else host ++ ':' :: port

def unsigned (s : Text) : Option Nat :=
  if s ≠ [] ∧ s.all Char.isDigit then some (ofDigitChars 10 s 0) else none

/-- `strconv.Atoi`; a number beyond the machine's integers is no port either. -/
def atoi : Text → Option Int
  | '-' :: s => (unsigned s).map fun n => -(n : Int)
  | '+' :: s => (unsigned s).map fun n => (n : Int)
  | s => (unsigned s).map fun n => (n : Int)

/-- `net.TCPAddr` as `net.ResolveTCPAddr` returns it; an IPv4 address is kept as the mapped one, and
`none` is the absence of a host. -/
structure TcpAddr where
  ip : Option (BitVec 128)
  zone : Text
  port : Nat
  port_le : port ≤ 65535
  deriving DecidableEq

/-- `ipEmptyString` with the zone. -/
def TcpAddr.host (t : TcpAddr) : Text :=
  (match t.ip with
    | none => []
    | some b => (Addr.v6 b []).unmap.string) ++ zoneText t.zone

def TcpAddr.string (t : TcpAddr) : Text := joinHostPort t.host (decText t.port)

/-! ## The kernel -/

inductive SysError
  | addrInUse
  | other
  deriving DecidableEq, Repr

/-- What the kernel answers to one attempt: the error of `net.Listen`, if any, and whether closing
the listener succeeds. -/
structure Socket where
  listen : Option SysError
  closes : Bool
  deriving DecidableEq, Repr

/-- The answers to the attempts of one call, by their number and the address. -/
abbrev Kernel := Nat → Text → Socket

/-! ## The manager -/

inductive PortState
  | reserved
  | listening
  deriving DecidableEq, Repr

/-- `PortAllocation` with its `PortStatus`; `id` is the pointer. -/
structure PortAllocation where
  id : Nat
  owner : Text
  scope : Text
  address : Text
  state : PortState
  host : Text
  port : Nat
  listener : Bool
  deriving DecidableEq

/-- The errors; the texts of the ones about an address carry it. -/
inductive PortError
  | closed
  | address
  | literal
  | invalid
  | exhausted (address : Option Text)
  | probe
  | listen (err : SysError)
  | resolve
  | release
  deriving DecidableEq

/-- `PortManager` over a pool of ports.  Pointers that were never given out are the ones from
`fresh` on. -/
structure PortManager (r : Interval) where
  next : r.Pos
  closed : Bool
  fresh : Nat
  allocations : List PortAllocation
  id_lt : ∀ a ∈ allocations, a.id < fresh

def overlappingHosts (a b : Text) : Bool :=
  if a = [] ∨ b = [] ∨ a = "::".toList ∨ b = "::".toList then true
  else
    -- the zero `Addr` of a failed parse is neither IPv4 nor unspecified
    let x := (parseAddr a).map Addr.unmap
    let y := (parseAddr b).map Addr.unmap
    x == y ||
      (x.any Addr.is4 == y.any Addr.is4 && (x.any Addr.isUnspecified || y.any Addr.isUnspecified))

namespace PortManager

variable {r : Interval}

def init (r : Interval) : PortManager r where
  next := ⟨r.first, r.first_mem⟩
  closed := false
  fresh := 0
  allocations := []
  id_lt := by simp

def new (first last : Int) : Option (Σ r : Interval, PortManager r) :=
  if h : first < 1 ∨ 65535 < last ∨ last < first then none
  else
    let r : Interval := ⟨first.toNat, last.toNat, by omega⟩
    some ⟨r, init r⟩

variable (m : PortManager r)

/-- A live allocation stands in the way. -/
def conflict (scope host : Text) (port : Nat) : Bool :=
  m.allocations.any fun a => a.scope == scope && a.port == port && overlappingHosts a.host host

/-- The loop of `reserve` over the candidates. -/
def search (scope host : Text) (port : Nat) : Option Nat × r.Pos :=
  -- the ports of the pool from the cursor on, and else the port itself
  if port = 0 then Interval.scan (fun q => !m.conflict scope host q) r.size m.next
  else (if m.conflict scope host port then none else some port, m.next)

def delete (id : Nat) : PortManager r where
  next := m.next
  closed := m.closed
  fresh := m.fresh
  allocations := m.allocations.filter fun a => a.id != id
  id_lt a ha := m.id_lt a (mem_of_mem_filter ha)

/-- A write to the state and the listener of an allocation. -/
def write (id : Nat) (state : PortState) (listener : Bool) : PortManager r where
  next := m.next
  closed := m.closed
  fresh := m.fresh
  allocations := m.allocations.map fun a =>
    if a.id = id then { a with state := state, listener := listener } else a
  id_lt a ha := by
    obtain ⟨b, hb, rfl⟩ := mem_map.mp ha
    have hlt := m.id_lt b hb
    split <;> exact hlt

/-- The allocation that `reserve` makes for a candidate. -/
def allocation (owner scope host : Text) (port : Nat) : PortAllocation where
  id := m.fresh
  owner := owner
  scope := scope
  address := joinHostPort host (decText port)
  state := .reserved
  host := host
  port := port
  listener := false

def allocate (owner scope host : Text) (port : Nat) (next : r.Pos) : PortManager r where
  next := next
  closed := m.closed
  fresh := m.fresh + 1
  allocations := m.allocation owner scope host port :: m.allocations
  id_lt a ha := by
    rcases mem_cons.mp ha with rfl | ha
    · exact lt_succ_self _
    · exact lt_succ_of_lt (m.id_lt a ha)

/-- `reserve` once the request has been read. -/
def take (owner scope address host : Text) (port : Nat) :
    Except PortError PortAllocation × PortManager r :=
  match m.search scope host port with
  | (none, next) => (.error (.exhausted (some address)), { m with next := next })
  | (some q, next) => (.ok (m.allocation owner scope host q), m.allocate owner scope host q next)

def reserve (owner scope address : Text) : Except PortError PortAllocation × PortManager r :=
  if m.closed then (.error .closed, m)
  else
    match splitHostPort address with
    | none => (.error .address, m)
    | some (host, rawPort) =>
      if host ≠ [] ∧ parseAddr host = none then (.error .literal, m)
      else
        match atoi rawPort with
        | none => (.error .invalid, m)
        | some port =>
          if port < 0 ∨ 65535 < port ∨ owner = [] then (.error .invalid, m)
          else m.take owner scope address host port.toNat

/-- What an attempt does with the kernel's answer. -/
inductive Verdict
  | keep (state : PortState) (listener : Bool)
  | retry
  | fail (err : PortError)
  deriving DecidableEq

/-- The loop over the attempts that `Reserve` and `Listen` have in common: `n` attempts are left and
`i` were made. -/
def attempts (judge : Socket → Verdict) (exhausted : PortError) (kernel : Kernel)
    (owner scope address : Text) : Nat → Nat → PortManager r →
    Except PortError PortAllocation × PortManager r
  | 0, _, m => (.error exhausted, m)
  | n + 1, i, m =>
    match m.reserve owner scope address with
    | (.error e, m') => (.error e, m')
    | (.ok a, m') =>
      match judge (kernel i a.address) with
      | .keep state listener =>
        (.ok { a with state := state, listener := listener }, m'.write a.id state listener)
      | .retry => attempts judge exhausted kernel owner scope address n (i + 1) (m'.delete a.id)
      | .fail e => (.error e, m'.delete a.id)

/-- `Reserve`: the probe is closed at once, and a scope of its own is not probed. -/
def reserveVerdict (scope : Text) (s : Socket) : Verdict :=
  if scope ≠ [] then .keep .reserved false
  else
    match s.listen with
    | none => if s.closes then .keep .reserved false else .fail .probe
    | some .addrInUse => .retry
    | some .other => .fail .probe

def Reserve (kernel : Kernel) (owner scope address : Text) :
    Except PortError PortAllocation × PortManager r :=
  let n := if (splitHostPort address).any (fun hp => hp.2 = ['0']) then r.size else 1
  m.attempts (reserveVerdict scope) (.exhausted (some address)) kernel owner scope address n 0

/-- `Listen`: the listener is kept. -/
def listenVerdict (port : Text) (s : Socket) : Verdict :=
  match s.listen with
  | none => .keep .listening true
  | some e => if port ≠ ['0'] then .fail (.listen e) else .retry

/-- `Listen`; `resolved` is what `net.ResolveTCPAddr` made of the address. -/
def Listen (kernel : Kernel) (owner : Text) (resolved : Option TcpAddr) :
    Except PortError PortAllocation × PortManager r :=
  match resolved with
  | none => (.error .resolve, m)
  | some t =>
    match splitHostPort t.string with
    | none => (.error .address, m)
    | some (_, port) =>
      let n := if port = ['0'] then r.size else 1
      m.attempts (listenVerdict port) (.exhausted none) kernel owner [] t.string n 0

def live (id : Nat) : Option PortAllocation := m.allocations.find? fun a => a.id = id

def Confirm (id : Nat) : Option PortError × PortManager r :=
  match m.live id with
  | none => (some .closed, m)
  | some a => (none, m.write id .listening a.listener)

def Unconfirm (id : Nat) : PortManager r :=
  match m.live id with
  | none => m
  | some a => if a.listener then m else m.write id .reserved false

/-- `Release`; `closeFails` says that closing the listener returns an error other than
`net.ErrClosed`. -/
def Release (id : Nat) (closeFails : Bool) : Option PortError × PortManager r :=
  match m.live id with
  | none => (none, m)
  | some a => if a.listener && closeFails then (some .release, m) else (none, m.delete id)

/-- `Close`; every allocation goes, also one whose listener reports an error. -/
def Close : PortManager r where
  next := m.next
  closed := true
  fresh := m.fresh
  allocations := []
  id_lt := by simp

end PortManager

/-- A call, with the answers of the kernel to it. -/
inductive PortOp
  | reserve (kernel : Kernel) (owner scope address : Text)
  | listen (kernel : Kernel) (owner : Text) (resolved : Option TcpAddr)
  | confirm (id : Nat)
  | unconfirm (id : Nat)
  | release (id : Nat) (closeFails : Bool)
  | close

/-- The allocation or the error that a request returns. -/
def PortOp.answer {r : Interval} (m : PortManager r) :
    PortOp → Option (Except PortError PortAllocation)
  | .reserve kernel owner scope address => some (m.Reserve kernel owner scope address).1
  | .listen kernel owner resolved => some (m.Listen kernel owner resolved).1
  | _ => none

def PortOp.apply {r : Interval} (m : PortManager r) : PortOp → PortManager r
  | .reserve kernel owner scope address => (m.Reserve kernel owner scope address).2
  | .listen kernel owner resolved => (m.Listen kernel owner resolved).2
  | .confirm id => (m.Confirm id).2
  | .unconfirm id => m.Unconfirm id
  | .release id closeFails => (m.Release id closeFails).2
  | .close => m.Close

def portMachine (r : Interval) : Machine (PortManager r) PortOp where
  step m op := some (op.apply m)

/-! ## What the overlap should be -/

/-- What a host text denotes. -/
inductive Host
  | any
  | ip (a : Addr)
  deriving DecidableEq

def hostOf (s : Text) : Option Host := if s = [] then some .any else (parseAddr s).map .ip

/-- The IPv6 wildcard, in whatever zone it is written. -/
def wildcard6 : Addr → Bool
  | .v4 _ => false
  | .v6 b _ => b == 0

/-- An address of `fe80::/10`, which is one of an interface. -/
def linkLocal (b : BitVec 128) : Bool := b >>> 118 == 0x3fa

/-- Two zones may be of one interface: they are one text, or one of them is an index. -/
def zonesMeet (y z : Text) : Bool := y == z || (unsigned y).isSome || (unsigned z).isSome

/-- The addresses may be one; only a link-local address depends on its zone. -/
def sameAddr : Addr → Addr → Bool
  | .v4 x, .v4 y => x == y
  | .v6 x y, .v6 x' y' => x == x' && (!linkLocal x || zonesMeet y y')
  | _, _ => false

/-- A listener on one of the hosts could be reached at, or keep out a listener on, the other. -/
def Host.overlap : Host → Host → Bool
  | .any, _ => true
  | _, .any => true
  | .ip a, .ip b =>
    -- a dual-stack wildcard, one address, or the wildcard of the other's family
    wildcard6 a || wildcard6 b || sameAddr a.unmap b.unmap ||
      (a.unmap.is4 && b.unmap.is4 && (a.unmap == .v4 0 || b.unmap == .v4 0))

def Overlap (a b : Text) : Prop := ∃ x y, hostOf a = some x ∧ hostOf b = some y ∧ x.overlap y = true

/-- Two allocations that could not both be listened on. -/
structure Clash (a b : PortAllocation) : Prop where
  scope : a.scope = b.scope
  port : a.port = b.port
  host : Overlap a.host b.host

theorem sameAddr_comm (a b : Addr) : sameAddr a b = sameAddr b a := by
  cases a with
  | v4 x => cases b <;> simp [sameAddr, BEq.comm]
  | v6 x y =>
    cases b with
    | v4 z => rfl
    | v6 x' y' =>
      by_cases h : x = x'
      · simp [sameAddr, zonesMeet, h, BEq.comm (b := y'), Bool.or_right_comm]
      · simp [sameAddr, beq_false_of_ne h, beq_false_of_ne (Ne.symm h)]

theorem Overlap.symm {a b : Text} (h : Overlap a b) : Overlap b a := by
  obtain ⟨x, y, hx, hy, hover⟩ := h
  refine ⟨y, x, hy, hx, ?_⟩
  cases x with
  | any => cases y <;> rfl
  | ip p =>
    cases y with
    | any => rfl
    | ip q =>
      simp only [Host.overlap, Bool.or_eq_true, Bool.and_eq_true, beq_iff_eq] at hover ⊢
      rcases hover with ((hp | hq) | heq) | ⟨⟨hp, hq⟩, hzero⟩
      · exact .inl (.inl (.inr hp))
      · exact .inl (.inl (.inl hq))
      · exact .inl (.inr (sameAddr_comm .. ▸ heq))
      · exact .inr ⟨⟨hq, hp⟩, hzero.symm⟩

/-- The zone is one that counts, by its name. -/
def zonePlain : Addr → Bool
  | .v4 _ => true
  | .v6 b z => if linkLocal b then (unsigned z).isNone else z == []

/-- The IPv6 wildcard is written `::`, and only a link-local address has a zone, which is not an
index. -/
def Canonical (host : Text) : Prop :=
  ∀ a, parseAddr host = some a → (wildcard6 a = true → host = "::".toList) ∧
    zonePlain a.unmap = true

/-! ## The overlap on texts -/

theorem parseAddr_colons : parseAddr "::".toList = some (.v6 0 []) := by decide

theorem isUnspecified_unmap {a : Addr} (h : wildcard6 a = false) :
    a.unmap.isUnspecified = (a.unmap == .v4 0) := by
  have hne : a.unmap ≠ .v6 0 [] := by
    intro heq
    cases a with
    | v4 b => cases heq
    | v6 b z =>
      rw [Addr.unmap] at heq
      split at heq
      · cases heq
      · cases heq
        cases h
  rw [Addr.isUnspecified, beq_false_of_ne hne, Bool.or_false]

theorem wildcard6_eq {host : Text} {a : Addr} (h : Canonical host) (ha : parseAddr host = some a) :
    wildcard6 a = decide (host = "::".toList) := by
  rw [Bool.eq_iff_iff, decide_eq_true_iff]
  constructor
  · exact (h a ha).1
  · rintro rfl
    rw [parseAddr_colons] at ha
    cases ha
    rfl

/-- Zones that are written plainly are compared as texts. -/
theorem sameAddr_eq {a b : Addr} (ha : zonePlain a = true) (hb : zonePlain b = true) :
    sameAddr a b = (a == b) := by
  cases a with
  | v4 x => cases b <;> simp [sameAddr, Bool.beq_eq_decide_eq]
  | v6 x y =>
    cases b with
    | v4 z => rfl
    | v6 x' y' =>
      by_cases hx : x = x'
      · subst hx
        cases hl : linkLocal x <;> simp_all [sameAddr, zonePlain, zonesMeet, Bool.beq_eq_decide_eq]
      · simp [sameAddr, hx, Bool.beq_eq_decide_eq]

theorem overlappingHosts_addr {a b : Text} {p q : Addr} (ha : Canonical a) (hb : Canonical b)
    (hanil : a ≠ []) (hbnil : b ≠ []) (hp : parseAddr a = some p) (hq : parseAddr b = some q) :
    overlappingHosts a b = Host.overlap (.ip p) (.ip q) := by
  have hpw := wildcard6_eq ha hp
  have hqw := wildcard6_eq hb hq
  rw [overlappingHosts, Host.overlap, hpw, hqw, sameAddr_eq (ha p hp).2 (hb q hq).2]
  by_cases hac : a = "::".toList
  · rw [if_pos (.inr (.inr (.inl hac))), decide_eq_true hac]
    rfl
  · by_cases hbc : b = "::".toList
    · rw [if_pos (.inr (.inr (.inr hbc))), decide_eq_true hbc, Bool.or_true]
      rfl
    · rw [decide_eq_false hac] at hpw ⊢
      rw [decide_eq_false hbc] at hqw ⊢
      have hno : ¬(a = [] ∨ b = [] ∨ a = "::".toList ∨ b = "::".toList) := by
        rintro (h | h | h | h) <;> contradiction
      rw [if_neg hno, hp, hq]
      simp only [Option.map_some, Option.any_some, isUnspecified_unmap hpw, isUnspecified_unmap hqw]
      -- an unspecified address is IPv4, so that equal families are both IPv4
      by_cases hp0 : p.unmap = .v4 0
      · simp [hp0, Addr.is4]
      · by_cases hq0 : q.unmap = .v4 0
        · simp [hq0, Addr.is4]
        · rw [beq_false_of_ne hp0, beq_false_of_ne hq0]
          simp

/-- On texts that write wildcard and zones in one way, the overlap on texts is the one on
addresses. -/
theorem overlappingHosts_eq {a b : Text} {x y : Host} (ha : Canonical a) (hb : Canonical b)
    (hx : hostOf a = some x) (hy : hostOf b = some y) : overlappingHosts a b = x.overlap y := by
  by_cases hanil : a = []
  · rw [hostOf, if_pos hanil] at hx
    cases hx
    rw [overlappingHosts, if_pos (.inl hanil)]
    rfl
  · by_cases hbnil : b = []
    · rw [hostOf, if_pos hbnil] at hy
      cases hy
      rw [overlappingHosts, if_pos (.inr (.inl hbnil))]
      cases x <;> rfl
    · rw [hostOf, if_neg hanil, Option.map_eq_some_iff] at hx
      rw [hostOf, if_neg hbnil, Option.map_eq_some_iff] at hy
      obtain ⟨p, hp, rfl⟩ := hx
      obtain ⟨q, hq, rfl⟩ := hy
      exact overlappingHosts_addr ha hb hanil hbnil hp hq

/-! ## One request -/

namespace PortManager

variable {r : Interval} {m : PortManager r} {owner scope address host raw : Text}

/-- A request is refused with nothing changed, or it is read and a port is looked for. -/
theorem reserve_cases (m : PortManager r) (owner scope address : Text) :
    (∃ e, (∀ t, e ≠ .exhausted t) ∧ m.reserve owner scope address = (.error e, m)) ∨
    ∃ host raw, ∃ port : Nat, splitHostPort address = some (host, raw) ∧
    (∃ x, hostOf host = some x) ∧
      atoi raw = some (port : Int) ∧
      m.reserve owner scope address = m.take owner scope address host port := by
  rw [reserve]
  split
  · exact .inl ⟨.closed, nofun, rfl⟩
  · split
    · exact .inl ⟨.address, nofun, rfl⟩
    · next host raw hsplit =>
      split
      · exact .inl ⟨.literal, nofun, rfl⟩
      · next hhost =>
        split
        · exact .inl ⟨.invalid, nofun, rfl⟩
        · next port hport =>
          split
          · exact .inl ⟨.invalid, nofun, rfl⟩
          · next hrange =>
            have hnonneg : (port.toNat : Int) = port := Int.toNat_of_nonneg (by omega)
            refine .inr ⟨host, raw, port.toNat, hsplit, ?_, by rw [hnonneg, hport], rfl⟩
            by_cases hnil : host = []
            · exact ⟨.any, if_pos hnil⟩
            · obtain ⟨a, ha⟩ := Option.ne_none_iff_exists'.mp fun hnone => hhost ⟨hnil, hnone⟩
              exact ⟨.ip a, by rw [hostOf, if_neg hnil, ha]; rfl⟩

theorem delete_allocate (m : PortManager r) (owner scope host : Text) (port : Nat) (next : r.Pos) :
    ((m.allocate owner scope host port next).delete m.fresh).allocations = m.allocations := by
  show (m.allocation owner scope host port :: m.allocations).filter (fun a => a.id != m.fresh) = _
  rw [filter_cons_of_neg (by simp [allocation]), filter_eq_self]
  intro a ha
  simpa using (m.id_lt a ha).ne

theorem search_some {port q : Nat} {next : r.Pos} (h : m.search scope host port = (some q, next)) :
    m.conflict scope host q = false := by
  rw [search] at h
  split at h
  · simpa using (Interval.scan_some h).1
  · cases hconf : m.conflict scope host port with
    | true => simp [hconf] at h
    | false =>
      simp only [hconf, Bool.false_eq_true, if_false, Prod.mk.injEq, Option.some.injEq] at h
      rw [← h.1, hconf]

/-! ## The live allocations -/

/-- No two allocations clash, and all are for hosts with one spelling. -/
structure Sound (l : List PortAllocation) : Prop where
  disjoint : l.Pairwise fun a b => ¬Clash a b
  canonical : ∀ a ∈ l, Canonical a.host
  denotes : ∀ a ∈ l, ∃ x, hostOf a.host = some x

theorem Sound.nil : Sound [] := ⟨.nil, by simp, by simp⟩

theorem Sound.filter {l : List PortAllocation} (h : Sound l) (p : PortAllocation → Bool) :
    Sound (l.filter p) where
  disjoint := h.disjoint.filter _
  canonical a ha := h.canonical a (mem_of_mem_filter ha)
  denotes a ha := h.denotes a (mem_of_mem_filter ha)

section

variable (h : Sound m.allocations)
include h

theorem conflict_iff (hcanon : Canonical host) (hhost : ∃ x, hostOf host = some x)
    {port : Nat} : m.conflict scope host port = true ↔
      ∃ a ∈ m.allocations, a.scope = scope ∧ a.port = port ∧ Overlap a.host host := by
  obtain ⟨y, hy⟩ := hhost
  rw [conflict, any_eq_true]
  refine exists_congr fun a => and_congr_right fun ha => ?_
  obtain ⟨x, hx⟩ := h.denotes a ha
  rw [Bool.and_eq_true, Bool.and_eq_true, beq_iff_eq, beq_iff_eq, and_assoc,
    overlappingHosts_eq (h.canonical a ha) hcanon hx hy]
  refine and_congr_right fun _ => and_congr_right fun _ => ?_
  constructor
  · intro hover
    exact ⟨x, y, hx, hy, hover⟩
  · rintro ⟨x', y', hx', hy', hover⟩
    rw [hx] at hx'
    rw [hy] at hy'
    cases hx'
    cases hy'
    exact hover

theorem Sound.allocate (hcanon : Canonical host) (hhost : ∃ x, hostOf host = some x)
    {port : Nat} (hfree : m.conflict scope host port = false) (next : r.Pos) :
    Sound (m.allocate owner scope host port next).allocations where
  disjoint := by
    refine pairwise_cons.mpr ⟨fun b hb hclash => ?_, h.disjoint⟩
    have hconf : m.conflict scope host port = true :=
      (conflict_iff h hcanon hhost).mpr ⟨b, hb, hclash.scope.symm, hclash.port.symm,
        hclash.host.symm⟩
    rw [hfree] at hconf
    cases hconf
  canonical := forall_mem_cons.mpr ⟨hcanon, h.canonical⟩
  denotes := forall_mem_cons.mpr ⟨hhost, h.denotes⟩

theorem Sound.write (id : Nat) (state : PortState) (listener : Bool) :
    Sound (m.write id state listener).allocations where
  disjoint := by
    refine List.Pairwise.map _ (fun a b hab hclash => hab ?_) h.disjoint
    obtain ⟨hscope, hport, hhost⟩ := hclash
    refine ⟨?_, ?_, ?_⟩
    · split_ifs at hscope <;> exact hscope
    · split_ifs at hport <;> exact hport
    · split_ifs at hhost <;> exact hhost
  canonical a ha := by
    obtain ⟨b, hb, rfl⟩ := mem_map.mp ha
    split <;> exact h.canonical b hb
  denotes a ha := by
    obtain ⟨b, hb, rfl⟩ := mem_map.mp ha
    split <;> exact h.denotes b hb

/-! ## The attempts of a request -/

variable {judge : Socket → Verdict} {exhausted : PortError} {kernel : Kernel} {n i : Nat}

theorem Sound.attempts
    (hcanon : ∀ host raw, splitHostPort address = some (host, raw) → Canonical host) :
    Sound (m.attempts judge exhausted kernel owner scope address n i).2.allocations := by
  induction n generalizing i m with
  | zero => exact h
  | succ n ih =>
    rw [PortManager.attempts]
    rcases m.reserve_cases owner scope address
      with ⟨e, -, heq⟩ | ⟨host, raw, port, hsplit, hhost, -, heq⟩
    · rw [heq]
      exact h
    · rw [heq, take]
      cases hsearch : m.search scope host port with
      | mk found next =>
        cases found with
        | none => exact h
        | some q =>
          have hcanon' := hcanon host raw hsplit
          have hback : Sound ((m.allocate owner scope host q next).delete m.fresh).allocations := by
            rw [delete_allocate]
            exact h
          dsimp only
          split
          · exact (h.allocate hcanon' hhost (search_some hsearch) next).write _ _ _
          · exact ih hback
          · exact hback

end

/-- A port that a live allocation stands in the way of, or that the kernel found in use at one of
the attempts. -/
def Taken (m : PortManager r) (kernel : Kernel) (scope host : Text) (q : Nat) : Prop :=
  m.conflict scope host q = true ∨
    ∃ i < r.size, (kernel i (joinHostPort host (decText q))).listen = some .addrInUse

theorem taken_congr {m' : PortManager r} (h : m'.allocations = m.allocations) :
    Taken m' kernel scope host = Taken m kernel scope host := by
  funext q
  rw [Taken, Taken, conflict, conflict, h]

variable {t : Option Text}

/-- The attempts go on from where the cursor stands.  After `k` numbers from `start` on, all taken,
enough attempts for the rest of the round end in exhaustion only if the rest is taken as well. -/
theorem attempts_exhausted {start : r.Pos} {k : Nat}
    (h : (m.attempts judge exhausted kernel owner scope address n i).1 = .error (.exhausted t))
    (hsplit : splitHostPort address = some (host, raw)) (hzero : atoi raw = some 0)
    (hfail : ∀ s t, judge s ≠ .fail (.exhausted t))
    (hretry : ∀ i a, judge (kernel i a) = .retry → (kernel i a).listen = some .addrInUse)
    (hpassed : Interval.Passed (Taken m kernel scope host) start k)
    (hnext : m.next = Interval.advance^[k] start) (hround : r.size ≤ k + n)
    (hmade : i + n ≤ r.size) {q : Nat} (hq : r.first ≤ q ∧ q ≤ r.last) :
    Taken m kernel scope host q := by
  induction n generalizing i m k with
  | zero => exact hpassed.all hround hq
  | succ n ih =>
    rw [PortManager.attempts] at h
    rcases m.reserve_cases owner scope address
      with ⟨e, he, heq⟩ | ⟨host', raw', port, hsplit', -, hport, heq⟩
    · rw [heq] at h
      exact absurd (Except.error.inj h) (he t)
    · rw [hsplit] at hsplit'
      cases hsplit'
      obtain rfl : port = 0 := by
        rw [hzero] at hport
        exact Int.ofNat.inj (Option.some.inj hport).symm
      have hconflict : ∀ q, (!m.conflict scope host q) = false → Taken m kernel scope host q :=
        fun q hq => .inl (by simpa using hq)
      rw [heq, take] at h
      cases hsearch : m.search scope host 0 with
      | mk found next =>
        rw [search, if_pos rfl] at hsearch
        cases found with
        | none =>
          -- one round of conflicts
          exact ((Interval.scan_none hsearch).imp hconflict).all (le_refl _) hq
        | some c =>
          obtain ⟨hfree, j, hbefore, hc, hafter⟩ := Interval.scan_some hsearch
          rw [show m.search scope host 0 = (some c, next) by rw [search, if_pos rfl, hsearch]] at h
          dsimp only at h
          split at h
          · cases h
          · next hjudge =>
            have hsame := m.delete_allocate owner scope host c next
            have huse : Taken m kernel scope host (Interval.advance^[j] m.next).1 := by
              rw [hc]
              exact .inr ⟨i, by omega, hretry i _ hjudge⟩
            have hstep : Interval.Passed (Taken m kernel scope host) m.next (j + 1) :=
              (hbefore.imp hconflict).append (.one huse)
            rw [hnext] at hstep
            have hmore := hpassed.append hstep
            rw [← taken_congr hsame] at hmore ⊢
            refine ih h hmore ?_ (by omega) (by omega)
            show next = _
            rw [hafter, hnext, ← Function.iterate_add_apply]
            congr 1
            omega
          · next e hjudge => exact absurd (Except.error.inj h ▸ hjudge) (hfail _ t)

theorem denotes_of_exhausted (hsplit : splitHostPort address = some (host, raw))
    (h : (m.attempts judge exhausted kernel owner scope address (n + 1) i).1 =
      .error (.exhausted t)) : ∃ x, hostOf host = some x := by
  rcases m.reserve_cases owner scope address
    with ⟨e, he, heq⟩ | ⟨host', raw', port, hsplit', hhost, -, -⟩
  · rw [PortManager.attempts, heq] at h
    exact absurd (Except.error.inj h) (he t)
  · rw [hsplit] at hsplit'
    cases hsplit'
    exact hhost

/-! ## The two kinds of request -/

theorem Sound.reserve (h : Sound m.allocations)
    (hcanon : ∀ host raw, splitHostPort address = some (host, raw) → Canonical host) :
    Sound (m.Reserve kernel owner scope address).2.allocations :=
  h.attempts hcanon

theorem Sound.listen (h : Sound m.allocations) {resolved : Option TcpAddr}
    (hcanon : ∀ t ∈ resolved, ∀ host raw, splitHostPort t.string = some (host, raw) →
      Canonical host) : Sound (m.Listen kernel owner resolved).2.allocations := by
  cases resolved with
  | none => exact h
  | some t =>
    simp only [Listen]
    split
    · exact h
    · exact h.attempts (hcanon t rfl)

theorem reserveVerdict_spec (scope : Text) (s : Socket) :
    (∀ t, reserveVerdict scope s ≠ .fail (.exhausted t)) ∧
      (reserveVerdict scope s = .retry → s.listen = some .addrInUse) := by
  unfold reserveVerdict
  split
  · simp
  · split
    · split <;> simp
    · next heq => simp [heq]
    · simp

theorem listenVerdict_spec (port : Text) (s : Socket) :
    (∀ t, listenVerdict port s ≠ .fail (.exhausted t)) ∧
      (listenVerdict port s = .retry → s.listen ≠ none) := by
  unfold listenVerdict
  split
  · simp
  · next heq => split <;> simp [heq]

theorem reserve_exhausted (hsplit : splitHostPort address = some (host, ['0']))
    (h : (m.Reserve kernel owner scope address).1 = .error (.exhausted t)) :
    (∃ x, hostOf host = some x) ∧ ∀ q, r.first ≤ q ∧ q ≤ r.last → Taken m kernel scope host q := by
  have hcount : (if (splitHostPort address).any (fun hp => hp.2 = ['0']) then r.size else 1) =
      r.size := by
    rw [hsplit]
    exact if_pos rfl
  simp only [Reserve, hcount] at h
  refine ⟨denotes_of_exhausted hsplit h, fun q hq => ?_⟩
  exact attempts_exhausted h hsplit (by decide) (fun s => (reserveVerdict_spec scope s).1)
    (fun i a => (reserveVerdict_spec scope _).2) .zero rfl (le_add_left _ _) (zero_add _).le hq

theorem port_of_splitHostPort {t : TcpAddr} (h : splitHostPort t.string = some (host, raw)) :
    raw = decText t.port := by
  have hcolon : ':' ∉ decText t.port := fun hmem => by
    have := isDigit_of_mem_decText hmem
    simp at this
  obtain ⟨front, hfront⟩ : ∃ front, t.string = front ++ ':' :: decText t.port := by
    rw [TcpAddr.string, joinHostPort]
    split
    · exact ⟨'[' :: t.host ++ [']'], by simp⟩
    · exact ⟨t.host, rfl⟩
  have hcut : cutLast ':' t.string = some (front, decText t.port) := by
    rw [hfront, cutLast_append hcolon]
  rw [splitHostPort, hcut] at h
  dsimp only at h
  split at h
  · split at h
    · cases h
      rfl
    · cases h
  · split at h
    · cases h
      rfl
    · cases h

theorem listen_exhausted {resolved : TcpAddr} (hport : resolved.port = 0)
    (hkernel : ∀ i a, (kernel i a).listen ≠ some .other)
    (h : (m.Listen kernel owner (some resolved)).1 = .error (.exhausted t)) :
    ∃ host raw, splitHostPort resolved.string = some (host, raw) ∧ (∃ x, hostOf host = some x) ∧
      ∀ q, r.first ≤ q ∧ q ≤ r.last → Taken m kernel [] host q := by
  rw [Listen] at h
  dsimp only at h
  split at h
  · cases h
  next host raw hsplit =>
  obtain rfl : raw = ['0'] := by
    rw [port_of_splitHostPort hsplit, hport]
    rfl
  rw [if_pos rfl] at h
  refine ⟨host, ['0'], hsplit, denotes_of_exhausted hsplit h, fun q hq => ?_⟩
  refine attempts_exhausted h hsplit (by decide) (fun s => (listenVerdict_spec _ s).1)
    (fun i a hretry => ?_) .zero rfl (le_add_left _ _) (zero_add _).le hq
  have hsome := (listenVerdict_spec ..).2 hretry
  have hother := hkernel i a
  cases hlisten : (kernel i a).listen with
  | none => exact absurd hlisten hsome
  | some e =>
    cases e with
    | addrInUse => rfl
    | other => exact absurd hlisten hother

end PortManager

/-! ## Runs -/

namespace PortOp

/-- What a request asks the manager for: the kernel that answers its attempts, the scope and the
address. -/
def request : PortOp → Option (Kernel × Text × Text)
  | .reserve kernel _ scope address => some (kernel, scope, address)
  | .listen kernel _ (some t) => some (kernel, [], t.string)
  | _ => none

def anyPort : PortOp → Bool
  | .reserve _ _ _ address => (splitHostPort address).any fun hp => atoi hp.2 = some 0
  | .listen _ _ (some t) => t.port = 0
  | _ => false

/-- The host is written plainly and port zero as `0`; and where `Listen` asks for any port, the
kernel refuses addresses only because they are in use. -/
def Plain : PortOp → Prop
  | .reserve _ _ _ address =>
    ∀ host raw, splitHostPort address = some (host, raw) → Canonical host ∧
      (atoi raw = some 0 → raw = ['0'])
  | .listen kernel _ (some t) =>
    (∀ host raw, splitHostPort t.string = some (host, raw) → Canonical host) ∧
      (t.port = 0 → ∀ i a, (kernel i a).listen ≠ some .other)
  | _ => True

variable {r : Interval} {m : PortManager r} {op : PortOp}

open PortManager

theorem sound_apply (h : Sound m.allocations) (hplain : op.Plain) :
    Sound (op.apply m).allocations := by
  cases op with
  | reserve kernel owner scope address => exact h.reserve fun host raw hsplit =>
    (hplain host raw hsplit).1
  | listen kernel owner resolved =>
    cases resolved with
    | none => exact h
    | some t =>
      refine h.listen fun t' ht' host raw hsplit => ?_
      cases ht'
      exact hplain.1 host raw hsplit
  | confirm id =>
    show Sound (m.Confirm id).2.allocations
    rw [Confirm]
    split
    · exact h
    · exact h.write _ _ _
  | unconfirm id =>
    show Sound (m.Unconfirm id).allocations
    rw [Unconfirm]
    split
    · exact h
    · split
      · exact h
      · exact h.write _ _ _
  | release id closeFails =>
    show Sound (m.Release id closeFails).2.allocations
    rw [Release]
    split
    · exact h
    · split
      · exact h
      · exact h.filter _
  | close => exact .nil

theorem taken_of_exhausted {kernel : Kernel} {scope address : Text} {t : Option Text}
    (hplain : op.Plain) (hreq : op.request = some (kernel, scope, address))
    (hany : op.anyPort = true) (h : op.answer m = some (.error (.exhausted t))) :
    ∃ host raw, splitHostPort address = some (host, raw) ∧ Canonical host ∧
    (∃ x, hostOf host = some x) ∧
      ∀ q, r.first ≤ q ∧ q ≤ r.last → Taken m kernel scope host q := by
  cases op with
  | reserve kernel' owner scope' address' =>
    cases hreq
    obtain ⟨⟨host, raw⟩, hsplit, hzero⟩ := (Option.any_eq_true _ _).mp hany
    obtain ⟨hcanon, htext⟩ := hplain host raw hsplit
    obtain rfl := htext (of_decide_eq_true hzero)
    exact ⟨host, ['0'], hsplit, hcanon, reserve_exhausted hsplit (Option.some.inj h)⟩
  | listen kernel' owner resolved =>
    cases resolved with
    | none => cases hreq
    | some t' =>
      cases hreq
      have hport : t'.port = 0 := of_decide_eq_true hany
      obtain ⟨host, raw, hsplit, htaken⟩ :=
        listen_exhausted hport (hplain.2 hport) (Option.some.inj h)
      exact ⟨host, raw, hsplit, hplain.1 host raw hsplit, htaken⟩
  | confirm id | unconfirm id | release id closeFails | close => cases hreq

end PortOp

theorem sound_of_trace {r : Interval} {τ : List (PortManager r × PortOp)} {m : PortManager r}
    (h : (portMachine r).Trace (.init r) τ m) (hplain : ∀ e ∈ τ, e.2.Plain) :
    PortManager.Sound m.allocations := by
  refine Machine.Trace.invariant_state (C := fun e => e.2.Plain)
    (P := fun m : PortManager r => PortManager.Sound m.allocations) .nil ?_ h hplain
  intro s op s' hs hop hstep
  cases hstep
  exact PortOp.sound_apply hs hop

def twoPorts : Interval := ⟨8000, 8001, by decide⟩

def quiet : Kernel := fun _ _ => ⟨none, true⟩

def crowded : Kernel := fun _ _ => ⟨some .addrInUse, true⟩

/-- Somebody else listens on the first port of the pool. -/
def firstInUse : Kernel :=
  fun _ a => if a = "127.0.0.1:8000".toList then ⟨some .addrInUse, true⟩ else ⟨none, true⟩

/-- The address is not one of this machine. -/
def notAvailable : Kernel := fun _ _ => ⟨some .other, true⟩

def loopback (kernel : Kernel) (owner : String) : PortOp :=
  .reserve kernel owner.toList [] "127.0.0.1:0".toList

theorem plain_loopback (kernel : Kernel) (owner : String) : (loopback kernel owner).Plain := by
  intro host raw hsplit
  have hparts : splitHostPort "127.0.0.1:0".toList = some ("127.0.0.1".toList, ['0']) := by decide
  rw [hparts] at hsplit
  cases hsplit
  refine ⟨fun a ha => ?_, fun _ => rfl⟩
  have haddr : parseAddr "127.0.0.1".toList = some (.v4 0x7f000001) := by decide
  rw [haddr] at ha
  cases ha
  exact ⟨nofun, rfl⟩

/-- Port zero in another spelling. -/
def loopbackZeros : PortOp := .reserve firstInUse ['a'] [] "127.0.0.1:00".toList

/-- A `Listen` on an address of another machine, `192.0.2.1:0`. -/
def elsewhere : PortOp := .listen notAvailable ['a'] (some ⟨some 0xffffc0000201, [], 0, by decide⟩)

/-- Two requests for port 80 of hosts that overlap are both granted. -/
def Clashing (a b : String) : Prop :=
  ∃ τ m, (portMachine twoPorts).Trace (.init twoPorts) τ m ∧
    τ.map Prod.snd = [.reserve quiet ['a'] [] a.toList, .reserve quiet ['b'] [] b.toList] ∧
    ¬m.allocations.Pairwise fun a b => ¬Clash a b

theorem clashing_of_run {a b : String} {x y : Text} (hover : Overlap y x)
    (h : ((portMachine twoPorts).run (.init twoPorts)
      [.reserve quiet ['a'] [] a.toList, .reserve quiet ['b'] [] b.toList]).any (fun m =>
        m.allocations.map (fun a => (a.scope, a.port, a.host)) = [([], 80, y), ([], 80, x)]) =
        true) :
    Clashing a b := by
  obtain ⟨m, htrace, hp⟩ := (portMachine twoPorts).trace_of_any _ _ _ h
  refine ⟨_, m, htrace, rfl, fun hapart => ?_⟩
  obtain ⟨c, l, hl, hc, hl'⟩ := map_eq_cons_iff.mp hp
  obtain ⟨d, rest, rfl, hd, -⟩ := map_eq_cons_iff.mp hl'
  rw [hl] at hapart
  simp only [Prod.mk.injEq] at hc hd
  refine (pairwise_cons.mp hapart).1 d mem_cons_self ⟨?_, ?_, ?_⟩
  · rw [hc.1, hd.1]
  · rw [hc.2.1, hd.2.1]
  · rw [hc.2.2, hd.2.2]
    exact hover

end Hostel.Network
