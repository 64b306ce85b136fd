/-
# Hostel.Network.PolicyControl — policy updates against answers of the resolver.

`update` replaces the kernel's table and forgets what was learned; `exchange` lets a question of an
allowed name through, asks the upstream without the lock, and under the lock again adds the
addresses of the answer to the kernel's sets.  In between the policy may have changed; the revision
that `exchange` took with its question tells.

A critical section is one move, with the kernel's answer to its script as a choice of the outside
world; so is the arrival of an upstream reply.  Elements of the sets expire whenever the world says
so.  The kernel is the ruleset that the scripts lead to (`Nft.exec`).

The wire format of messages is the resolver library's: `unpack` is a parameter.
-/
import Hostel.Logic.Threads
import Hostel.Logic.FiniteMap
import Hostel.Network.Policy

namespace Hostel.Network

open Hostel.Logic Hostel.Logic.Netip Function List Program Nat

/-! ## Messages -/

structure Question where
  name : Text
  qtype : Nat
  qclass : Nat
  deriving DecidableEq

inductive RecordBody
  | a (ip : BitVec 32)
  | aaaa (ip : BitVec 128)
  | cname (name : Text)
  | other
  deriving DecidableEq

structure Record where
  ttl : Nat
  body : RecordBody
  deriving DecidableEq

structure Message where
  id : Nat
  response : Bool
  rcode : Nat
  questions : List Question
  answers : List Record
  authorities : List Record
  additionals : List Record
  deriving DecidableEq

abbrev Payload := List UInt8

/-- `refusedDNS` before it is packed. -/
def refusedDNS (query : Message) : Message :=
  { query with response := true, rcode := 5, answers := [], authorities := [], additionals := [] }

/-- The address of a record; `none` is the zero `netip.Addr`. -/
def Record.ip (r : Record) : Option Addr :=
  match r.body with
  | .a ip => some (.v4 ip)
  | .aaaa ip => some (Addr.v6 ip []).unmap
  | _ => none

structure DnsAddress where
  ip : Addr
  ttl : Nat
  deriving DecidableEq

/-- The time for which an answer is learned, at most five minutes and at least a second. -/
def learnedFor (ttl : Nat) : Nat := if min ttl 300 = 0 then 1 else min ttl 300

/-- An alias that a rule denies, as opposed to the default. -/
def Policy.deniesAlias (p : Policy) (name : Text) : Bool :=
  p.domainAction name == .deny &&
    { p with defaultAction := .allow : Policy }.domainAction name == .deny

/-- The loop of `exchange` over the records; `none` refuses the answer. -/
def Policy.collect (p : Policy) : List Record → Option (List DnsAddress)
  | [] => some []
  | r :: rest =>
    if (match r.body with
        | .cname name => p.deniesAlias name
        | _ => false) then none
    else
      match r.ip with
      | none => p.collect rest
      | some ip =>
        if p.deniesIP ip then none
        else (p.collect rest).map fun l => ⟨ip, learnedFor r.ttl⟩ :: l

/-! ## The script of learned addresses -/

def dnsSet (ip : Addr) : String := if ip.is6 then "dns6" else "dns4"

def flushLines : List Text :=
  ["flush set inet hostel_policy dns4".toList, "flush set inet hostel_policy dns6".toList]

def addLine (a : DnsAddress) : Text :=
  "add element inet hostel_policy ".toList ++ (dnsSet a.ip).toList ++ " \x7b ".toList ++
    a.ip.string ++ " timeout ".toList ++ decText a.ttl ++ "s \x7d".toList

/-- The loop of `learnDNS`; a text that was seen is left out. -/
def addLines : List Text → List DnsAddress → List Text
  | _, [] => []
  | seen, a :: rest =>
    if a.ip.string ∈ seen then addLines seen rest
    else addLine a :: addLines (a.ip.string :: seen) rest

def learnDNS (addresses : List DnsAddress) : Text :=
  Nft.unlines (flushLines ++ addLines [] addresses)

/-! ## Updates -/

/-- `PolicyMutation`; an absent part is not the same as an empty one. -/
structure PolicyMutation where
  replace : Option Policy
  merge : Option (List PolicyRule)
  remove : Option (List Text)
  deriving DecidableEq

def PolicyMutation.changed (m : PolicyMutation) : Bool :=
  m.replace.isSome || m.merge.isSome || m.remove.isSome

/-- The loop over `Merge`: a merged rule takes the place of the ones for its target. -/
def mergeRules : List PolicyRule → List PolicyRule → Except PolicyError (List PolicyRule)
  | egress, [] => .ok egress
  | egress, rule :: rest =>
    match normalizeTarget rule.target with
    | .error e => .error e
    | .ok t => mergeRules ((egress.filter fun old => old.target ≠ t) ++ [⟨rule.action, t⟩]) rest

def normalizeTargets : List Text → Except PolicyError (List Text)
  | [] => .ok []
  | target :: rest =>
    match normalizeTarget target with
    | .error e => .error e
    | .ok t =>
      match normalizeTargets rest with
      | .error e => .error e
      | .ok ts => .ok (t :: ts)

def mergeInto (egress : List PolicyRule) : Option (List PolicyRule) →
    Except PolicyError (List PolicyRule)
  | none => .ok egress
  | some rules => mergeRules egress rules

/-- The rules after `Remove`, which starts again from the current ones. -/
def removeFrom (current egress : List PolicyRule) :
    Option (List Text) → Except PolicyError (List PolicyRule)
  | none => .ok egress
  | some targets =>
    match normalizeTargets targets with
    | .error e => .error e
    | .ok ts => .ok (current.filter fun rule => rule.target ∉ ts)

def applyMutation (current : Policy) (m : PolicyMutation) : Except PolicyError Policy :=
  let next := m.replace.getD current
  match mergeInto next.egress m.merge with
  | .error e => .error e
  | .ok merged =>
    match removeFrom current.egress merged m.remove with
    | .error e => .error e
    | .ok egress => normalizePolicy ⟨next.defaultAction, egress⟩

inductive PolicyMode
  | allowAll
  | denyAll
  | enforcing
  deriving DecidableEq, Repr

def Policy.mode (p : Policy) : PolicyMode :=
  if p.egress.length = 0 then (if p.defaultAction = .allow then .allowAll else .denyAll)
  else .enforcing

/-! ## The control -/

/-- `policyControl` with the kernel's ruleset in the endpoint's namespace.  Times are
nanoseconds. -/
structure Control where
  current : Policy
  revision : Nat
  closed : Bool
  learned : FiniteMap Addr Nat
  kernel : Nft.Ruleset

inductive ControlError
  | unavailable
  | policy (err : PolicyError)
  | apply
  | unpack
  | question
  | upstream
  | mismatch
  | limit
  | learn
  deriving DecidableEq

abbrev UpdateResult := Except ControlError (PolicyMode × Policy)

/-- What `exchange` returns: a message of its own, or the upstream's bytes. -/
inductive ExchangeResult
  | refused (reply : Message)
  | answered (data : Payload)
  | error (err : ControlError)
  deriving DecidableEq

namespace Control

/-- The control of a new endpoint, whose table is loaded with the policy that allows everything. -/
def init (gateway : BitVec 32) : Control where
  current := ⟨.allow, []⟩
  revision := 0
  closed := false
  learned := ∅
  kernel :=
    (Nft.exec (fun _ => none) (renderPolicy ⟨.allow, []⟩ (string4 gateway))).getD fun _ => none

variable (s : Control)

/-- The kernel's answer to a script: it may fail for reasons of its own, and then does nothing. -/
def script (ok : Bool) (text : Text) : Option Nft.Ruleset :=
  if ok then Nft.exec s.kernel text else none

def status : UpdateResult := .ok (s.current.mode, s.current)

def update (gateway : BitVec 32) (m : PolicyMutation) (ok : Bool) : Control × UpdateResult :=
  if s.closed then (s, .error .unavailable)
  else if m.changed then
    match applyMutation s.current m with
    | .error e => (s, .error (.policy e))
    | .ok normalized =>
      match s.script ok (renderPolicy normalized (string4 gateway)) with
      | none => (s, .error .apply)
      | some kernel =>
        let s' :=
          { s with
            current := normalized, revision := s.revision + 1, learned := ∅, kernel := kernel }
        (s', s'.status)
  else (s, s.status)

/-- The learned addresses with the ones of an answer; what has expired is left out. -/
def relearn (now : Nat) (addresses : List DnsAddress) : FiniteMap Addr Nat :=
  addresses.foldl (fun m a => m.insert a.ip (now + a.ttl * 10 ^ 9))
    (s.learned.filter fun _ expires => now < expires)

/-- The elements for the kernel, each with the whole seconds it has left. -/
def elements (now : Nat) (m : FiniteMap Addr Nat) : List DnsAddress :=
  m.entries.map fun e => ⟨e.1, max 1 ((e.2 - now) / 10 ^ 9)⟩

/-- The second critical section of `exchange`. -/
def judge (revision : Nat) (query answer : Message) (data : Payload) (now : Nat) (ok : Bool) :
    Control × ExchangeResult :=
  if s.closed ∨ s.revision ≠ revision then (s, .refused (refusedDNS query))
  else
    match s.current.collect answer.answers with
    | none => (s, .refused (refusedDNS query))
    | some addresses =>
      if s.current.defaultAction = .deny ∧ 0 < addresses.length then
        let learned := s.relearn now addresses
        if 4096 < learned.size then (s, .error .limit)
        else
          match s.script ok (learnDNS (elements now learned)) with
          | none => (s, .error .learn)
          | some kernel => ({ s with learned := learned, kernel := kernel }, .answered data)
      else (s, .answered data)

/-- The first critical section of `exchange`: whether a question may be asked. -/
def allowed (q : Question) : Bool := !s.closed && s.current.domainAction q.name == .allow

def expire (keep : Addr → Bool) : Control :=
  { s with kernel := fun n => (s.kernel n).map fun t =>
      { t with sets := fun set => (t.sets set).map fun x => x.expire keep } }

end Control

/-! ## The calls -/

inductive ExchangePc
  | start (payload : Payload)
  | asked (query : Message) (question : Question) (revision : Nat)
  | replied (query : Message) (question : Question) (revision : Nat) (answer : Message)
    (data : Payload)
  | done (result : ExchangeResult)
  deriving DecidableEq

inductive UpdatePc
  | start (mutation : PolicyMutation)
  | done (mutation : PolicyMutation) (result : UpdateResult)
  deriving DecidableEq

inductive ControlPc
  | exchange (pc : ExchangePc)
  | update (pc : UpdatePc)
  | close (done : Bool)
  deriving DecidableEq

/-- What the world decides in a move: whether the kernel takes a script, what the upstream sent, and
the time. -/
inductive ControlChoice
  | go
  | script (ok : Bool)
  | upstream (reply : Option Payload)
  | judge (now : Nat) (ok : Bool)
  deriving DecidableEq

section Program

-- the resolver library's reading of a packet
variable (unpack : Payload → Option Message) (gateway : BitVec 32)

/-- The check of a reply: it must answer the question that was asked. -/
def replyTo (query : Message) (q : Question) (data : Payload) : Except ControlError Message :=
  match unpack data with
  | none => .error .unpack
  | some answer =>
    if answer.response = false ∨ answer.id ≠ query.id ∨ answer.questions ≠ [q] then .error .mismatch
    else .ok answer

def ExchangePc.move (s : Control) : ExchangePc → ControlChoice → Option (Control × ExchangePc)
  | .start payload, .go =>
    match unpack payload with
    | none => some (s, .done (.error .unpack))
    | some query =>
      match query.response, query.questions with
      | false, [q] =>
        if s.allowed q then some (s, .asked query q s.revision)
        else some (s, .done (.refused (refusedDNS query)))
      | _, _ => some (s, .done (.error .question))
  | .asked _ _ _, .upstream none => some (s, .done (.error .upstream))
  | .asked query q revision, .upstream (some data) =>
    match replyTo unpack query q data with
    | .error e => some (s, .done (.error e))
    | .ok answer => some (s, .replied query q revision answer data)
  | .replied query _ revision answer data, .judge now ok =>
    let r := s.judge revision query answer data now ok
    some (r.1, .done r.2)
  | _, _ => none

def controlMove (s : Control) : ControlPc → ControlChoice → Option (Control × ControlPc)
  | .exchange pc, x => (ExchangePc.move unpack s pc x).map fun r => (r.1, .exchange r.2)
  | .update (.start m), .script ok =>
    let r := s.update gateway m ok
    some (r.1, .update (.done m r.2))
  | .close false, .go => some ({ s with closed := true }, .close true)
  | _, _ => none

/-- Updates, exchanges and the endpoint's close over one control. -/
def controlProgram : Program Control ControlPc ControlChoice (Addr → Bool) where
  entry
    | .exchange (.start _) | .update (.start _) | .close false => true
    | _ => false
  move _ s pc x := controlMove unpack gateway s pc x
  -- elements of the kernel's sets expire
  world s keep := some (s.expire keep)

end Program

/-! ## What the kernel holds -/

/-- The addresses in the kernel's learned sets. -/
def kernelAddresses (R : Nft.Ruleset) : List Addr :=
  match R "hostel_policy" with
  | none => []
  | some t => t.addresses "dns4" ++ t.addresses "dns6"

/-- The table is there with its two sets, of the addresses that satisfy `P` at most. -/
def Holds (R : Nft.Ruleset) (P : Addr → Prop) : Prop :=
  ∃ t s4 s6, R "hostel_policy" = some t ∧ t.sets "dns4" = some s4 ∧ t.sets "dns6" = some s6 ∧
    s4.family = .ipv4 ∧ s6.family = .ipv6 ∧ (∀ e ∈ s4.elements, P e.addr) ∧
    ∀ e ∈ s6.elements, P e.addr

section Kernel

open Nft

variable {R R' : Ruleset} {P Q : Addr → Prop}

theorem Holds.imp (h : Holds R P) (hPQ : ∀ ip, P ip → Q ip) : Holds R Q := by
  obtain ⟨t, s4, s6, ht, h4, h6, hf4, hf6, hP4, hP6⟩ := h
  exact ⟨t, s4, s6, ht, h4, h6, hf4, hf6, fun e he => hPQ _ (hP4 e he),
    fun e he => hPQ _ (hP6 e he)⟩

theorem Holds.of_mem (h : Holds R P) {ip : Addr} (hip : ip ∈ kernelAddresses R) : P ip := by
  obtain ⟨t, s4, s6, ht, h4, h6, -, -, hP4, hP6⟩ := h
  rw [kernelAddresses, ht] at hip
  simp only [Table.addresses, h4, h6, mem_append, mem_map] at hip
  rcases hip with ⟨e, he, rfl⟩ | ⟨e, he, rfl⟩
  · exact hP4 e he
  · exact hP6 e he

theorem Holds.nodup (h : Holds R P) : (kernelAddresses R).Nodup := by
  obtain ⟨t, s4, s6, ht, h4, h6, hf4, hf6, -, -⟩ := h
  rw [kernelAddresses, ht]
  simp only [Table.addresses, h4, h6]
  refine List.Nodup.append s4.nodup s6.nodup ?_
  intro ip hip4 hip6
  obtain ⟨e4, he4, rfl⟩ := mem_map.mp hip4
  obtain ⟨e6, he6, heq⟩ := mem_map.mp hip6
  have hfam4 := s4.family_eq e4 he4
  have hfam6 := s6.family_eq e6 he6
  rw [heq, hfam4, hf4, hf6] at hfam6
  cases hfam6

theorem holds_policyTable (R : Ruleset) (p : Policy) (gateway : BitVec 32) :
    Holds (update R "hostel_policy" (some (policyTable p gateway))) fun _ => False := by
  refine ⟨policyTable p gateway, .empty .ipv4 4096, .empty .ipv6 4096, update_self ..,
    ?_, ?_, rfl, rfl, by simp [ElementSet.empty], by simp [ElementSet.empty]⟩
  · simp [policyTable, policySets]
  · simp [policyTable, policySets]

theorem Holds.onSet {set : String} (hset : set = "dns4" ∨ set = "dns6")
    {f : ElementSet → Option ElementSet} {l : Load} (h : Holds R P)
    (hf : ∀ s s', f s = some s' → s'.family = s.family ∧
      ∀ e ∈ s'.elements, e ∈ s.elements ∨ Q e.addr)
    (hl : Load.onSet R "hostel_policy" set f = some l) :
    ∃ R', l = ⟨R', .top⟩ ∧ Holds R' fun ip => P ip ∨ Q ip := by
  obtain ⟨t, s4, s6, ht, h4, h6, hf4, hf6, hP4, hP6⟩ := h
  obtain ⟨t', s, s', ht', hs, hfs, rfl⟩ := onSet_eq_some hl
  rw [ht] at ht'
  cases ht'
  obtain ⟨hfamily, helements⟩ := hf s s' hfs
  refine ⟨_, rfl, ?_⟩
  rcases hset with rfl | rfl
  · rw [h4] at hs
    cases hs
    refine ⟨_, s', s6, update_self .., by simp, ?_, hfamily.trans hf4, hf6, ?_,
      fun e he => .inl (hP6 e he)⟩
    · simp [h6]
    · intro e he
      exact (helements e he).imp (hP4 e) id
  · rw [h6] at hs
    cases hs
    refine ⟨_, s4, s', update_self .., ?_, by simp, hf4, hfamily.trans hf6,
      fun e he => .inl (hP4 e he), ?_⟩
    · simp [h4]
    · intro e he
      exact (helements e he).imp (hP6 e) id

theorem Holds.flush (h : Holds R P) :
    ∃ R', execLines ⟨R, .top⟩ flushLines = some ⟨R', .top⟩ ∧ Holds R' fun _ => False := by
  obtain ⟨t, s4, s6, ht, h4, h6, hf4, hf6, -, -⟩ := h
  have hfirst : execLine ⟨R, .top⟩ "flush set inet hostel_policy dns4".toList =
      Load.onSet R "hostel_policy" "dns4" fun x => some x.flush := rfl
  have hsecond : ∀ R₁, execLine ⟨R₁, .top⟩ "flush set inet hostel_policy dns6".toList =
      Load.onSet R₁ "hostel_policy" "dns6" fun x => some x.flush := fun _ => rfl
  have hlines : ∃ R₁, execLines ⟨R, .top⟩ flushLines = some ⟨update R₁ "hostel_policy" (some ⟨update
      (update t.sets "dns4" (some s4.flush)) "dns6" (some s6.flush), t.chains⟩), .top⟩ := by
    simp only [flushLines, execLines, hfirst, hsecond, Load.onSet, ht, h4, h6,
      Option.bind_some, update_self, update_of_ne (by decide : "dns6" ≠ "dns4")]
    exact ⟨_, rfl⟩
  obtain ⟨R₁, hlines⟩ := hlines
  refine ⟨_, hlines, _, s4.flush, s6.flush, update_self .., ?_, ?_, hf4, hf6, ?_, ?_⟩
  · simp
  · simp
  · simp [ElementSet.flush, ElementSet.empty]
  · simp [ElementSet.flush, ElementSet.empty]

/-- The words of a line that adds an element. -/
def addWords (a : DnsAddress) : List Text :=
  ["add".toList, "element".toList, "inet".toList, "hostel_policy".toList, (dnsSet a.ip).toList,
    "\x7b".toList, a.ip.string, "timeout".toList, decText a.ttl ++ ['s'], "\x7d".toList]

theorem addLine_eq (a : DnsAddress) : addLine a = [' '].intercalate (addWords a) := by
  unfold addLine addWords
  generalize (dnsSet a.ip).toList = set, a.ip.string = ip, decText a.ttl = secs
  simp [intercalate]

theorem execTop_add {set ip ttl : String} :
    execTop R ["add", "element", "inet", "hostel_policy", set, "\x7b", ip,
    "timeout", ttl, "\x7d"] = match parseAddr ip.toList, readNumber 's' ttl with
      | some ip, some secs => Load.onSet R "hostel_policy" set fun x => x.add ⟨ip, secs⟩
      | _, _ => none := rfl

variable {a : DnsAddress}

section

variable (hzone : a.ip.zone = [])
include hzone

theorem blank_addWords : ∀ w ∈ addWords a, ' ' ∉ w ∧ '\n' ∉ w := by
  have hip : ' ' ∉ a.ip.string ∧ '\n' ∉ a.ip.string :=
    ⟨fun hmem => absurd (isBody_of_mem_string hzone hmem) (by decide),
      fun hmem => absurd (isBody_of_mem_string hzone hmem) (by decide)⟩
  have hset : ' ' ∉ (dnsSet a.ip).toList ∧ '\n' ∉ (dnsSet a.ip).toList := by
    rw [dnsSet]
    split <;> decide
  have hsecs : ∀ c ∈ decText a.ttl ++ ['s'], c.isDigit = true ∨ c = 's' := by
    intro c hc
    rcases mem_append.mp hc with hc | hc
    · exact .inl (isDigit_of_mem_decText hc)
    · exact .inr (mem_singleton.mp hc)
  simp only [addWords, forall_mem_cons]
  exact ⟨by decide, by decide, by decide, by decide, hset, by decide, hip, by decide,
    ⟨fun hmem => absurd (hsecs _ hmem) (by decide), fun hmem => absurd (hsecs _ hmem) (by decide)⟩,
    by decide, by simp⟩

theorem words_addLine :
    words (addLine a) = ["add", "element", "inet", "hostel_policy", dnsSet a.ip, "\x7b",
      String.ofList a.ip.string, "timeout", String.ofList (decText a.ttl ++ ['s']), "\x7d"] := by
  rw [addLine_eq, words_intercalate (fun w hw => (blank_addWords hzone w hw).1) (cons_ne_nil _ _)]
  simp [addWords]

theorem Holds.addLine {l : Load} (h : Holds R P) (hl : execLine ⟨R, .top⟩ (addLine a) = some l) :
    ∃ R', l = ⟨R', .top⟩ ∧ Holds R' fun ip => P ip ∨ ip = a.ip := by
  have hexec : execLine ⟨R, .top⟩ (Network.addLine a) = execTop R (words (Network.addLine a)) := rfl
  rw [hexec, words_addLine hzone, execTop_add, String.toList_ofList, parseAddr_string] at hl
  split at hl
  · next ip secs hip _ =>
    cases hip
    refine h.onSet ?_ (fun s s' hadd => ?_) hl
    · rw [dnsSet]
      split
      · exact .inr rfl
      · exact .inl rfl
    · obtain ⟨hfamily, helements⟩ := ElementSet.add_eq_some hadd
      refine ⟨hfamily, fun e he => ?_⟩
      rw [helements, mem_cons] at he
      rcases he with rfl | he
      · exact .inr rfl
      · exact .inl he
  · cases hl

theorem newline_addLine : '\n' ∉ Network.addLine a := by
  rw [addLine_eq]
  intro hmem
  rcases mem_of_mem_intercalate hmem with hsep | ⟨w, hw, hmem⟩
  · exact absurd hsep (by decide)
  · exact (blank_addWords hzone w hw).2 hmem

end

variable {l : List DnsAddress}

section

variable (hzone : ∀ a ∈ l, a.ip.zone = [])
include hzone

theorem newline_addLines (seen : List Text) : ∀ line ∈ addLines seen l, '\n' ∉ line := by
  induction l generalizing seen with
  | nil => simp [addLines]
  | cons a l ih =>
    obtain ⟨ha, hl⟩ := forall_mem_cons.mp hzone
    rw [addLines]
    split
    · exact ih hl seen
    · exact forall_mem_cons.mpr ⟨newline_addLine ha, ih hl _⟩

theorem Holds.addLines {seen : List Text} {load : Load}
    (h : Holds R P) (hload : execLines ⟨R, .top⟩ (addLines seen l) = some load) :
    ∃ R', load = ⟨R', .top⟩ ∧ Holds R' fun ip => P ip ∨ ∃ a ∈ l, ip = a.ip := by
  induction l generalizing R P seen with
  | nil =>
    cases hload
    exact ⟨R, rfl, h.imp fun _ => .inl⟩
  | cons a l ih =>
    obtain ⟨ha, hl⟩ := forall_mem_cons.mp hzone
    rw [Network.addLines] at hload
    split at hload
    · obtain ⟨R', rfl, hR'⟩ := ih hl h hload
      refine ⟨R', rfl, hR'.imp ?_⟩
      rintro ip (hip | ⟨b, hb, rfl⟩)
      · exact .inl hip
      · exact .inr ⟨b, mem_cons_of_mem _ hb, rfl⟩
    · rw [execLines] at hload
      split at hload
      · cases hload
      next load' hline =>
      obtain ⟨R₁, rfl, hR₁⟩ := h.addLine ha hline
      obtain ⟨R', rfl, hR'⟩ := ih hl hR₁ hload
      refine ⟨R', rfl, hR'.imp ?_⟩
      rintro ip ((hip | rfl) | ⟨b, hb, rfl⟩)
      · exact .inl hip
      · exact .inr ⟨a, mem_cons_self, rfl⟩
      · exact .inr ⟨b, mem_cons_of_mem _ hb, rfl⟩

theorem Holds.learnDNS (h : Holds R P)
    (hR' : exec R (learnDNS l) = some R') : Holds R' fun ip => ∃ a ∈ l, ip = a.ip := by
  have hlines : ∀ line ∈ flushLines ++ Network.addLines [] l, '\n' ∉ line := by
    rw [forall_mem_append]
    exact ⟨by decide, newline_addLines hzone []⟩
  obtain ⟨R₀, hflush, hR₀⟩ := h.flush
  have hload : execLines ⟨R, .top⟩ ((Network.learnDNS l).splitOn '\n') =
      (execLines ⟨R₀, .top⟩ (Network.addLines [] l)).bind fun l' => execLines l' [[]] := by
    rw [Network.learnDNS, splitOn_unlines hlines, append_assoc, execLines_append, hflush,
      Option.bind_some, execLines_append]
  rw [exec, hload] at hR'
  cases hadds : execLines ⟨R₀, .top⟩ (Network.addLines [] l) with
  | none =>
    rw [hadds] at hR'
    cases hR'
  | some load =>
    obtain ⟨R₁, rfl, hR₁⟩ := hR₀.addLines hzone hadds
    have hlast : execLines ⟨R₁, .top⟩ [[]] = some ⟨R₁, .top⟩ := rfl
    rw [hadds, Option.bind_some, hlast] at hR'
    cases hR'
    exact hR₁.imp fun ip hip => hip.resolve_left id

end

theorem Holds.expire {s : Control} (h : Holds s.kernel P) (keep : Addr → Bool) :
    Holds (s.expire keep).kernel P := by
  obtain ⟨t, s4, s6, ht, h4, h6, hf4, hf6, hP4, hP6⟩ := h
  have ht' : (s.expire keep).kernel "hostel_policy" =
      some { t with sets := fun set => (t.sets set).map fun x => x.expire keep } := by
    simp only [Control.expire, ht, Option.map_some]
  refine ⟨_, s4.expire keep, s6.expire keep, ht', ?_, ?_, hf4, hf6, fun e he => ?_, fun e he => ?_⟩
  · simp only [h4, Option.map_some]
  · simp only [h6, Option.map_some]
  · exact hP4 e (mem_of_mem_filter he)
  · exact hP6 e (mem_of_mem_filter he)

end Kernel

/-! ## What a critical section does -/

variable {ip : Addr}

theorem zone_of_record {r : Record} (h : r.ip = some ip) : ip.zone = [] := by
  unfold Record.ip at h
  split at h
  · cases h
    rfl
  · cases h
    rw [Addr.unmap]
    split <;> rfl
  · cases h

variable {l : List DnsAddress}

theorem collect_spec {p : Policy} {records : List Record} (h : p.collect records = some l) :
    (∀ a ∈ l, ∃ r ∈ records, r.ip = some a.ip) ∧ ∀ r ∈ records,
      (∀ name, r.body = .cname name → p.deniesAlias name = false) ∧ ∀ ip, r.ip = some ip →
      p.deniesIP ip = false := by
  induction records generalizing l with
  | nil =>
    cases h
    simp
  | cons r rest ih =>
    rw [Policy.collect, Option.ite_none_left_eq_some] at h
    obtain ⟨halias, h⟩ := h
    have hcname : ∀ name, r.body = .cname name → p.deniesAlias name = false := by
      intro name hr
      simpa [hr] using halias
    split at h
    · next hip =>
      obtain ⟨hl, hrest⟩ := ih h
      refine ⟨fun a ha => ?_, forall_mem_cons.mpr ⟨⟨hcname, by simp [hip]⟩, hrest⟩⟩
      obtain ⟨r', hr', hip'⟩ := hl a ha
      exact ⟨r', mem_cons_of_mem _ hr', hip'⟩
    · next ip hip =>
      obtain ⟨hdenied, h⟩ := Option.ite_none_left_eq_some.mp h
      obtain ⟨l', hl', rfl⟩ := Option.map_eq_some_iff.mp h
      obtain ⟨hl, hrest⟩ := ih hl'
      refine ⟨forall_mem_cons.mpr ⟨⟨r, mem_cons_self, hip⟩, fun a ha => ?_⟩,
        forall_mem_cons.mpr ⟨⟨hcname, by simpa [hip] using hdenied⟩, hrest⟩⟩
      obtain ⟨r', hr', hip'⟩ := hl a ha
      exact ⟨r', mem_cons_of_mem _ hr', hip'⟩

theorem mem_foldl_insert {f : DnsAddress → Nat} {m : FiniteMap Addr Nat}
    (h : ip ∈ l.foldl (fun m a => m.insert a.ip (f a)) m) : ip ∈ m ∨ ∃ a ∈ l, ip = a.ip := by
  induction l generalizing m with
  | nil => exact .inl h
  | cons a l ih =>
    rcases ih h with hm | ⟨b, hb, rfl⟩
    · rcases (AList.mem_insert m).mp hm with rfl | hm
      · exact .inr ⟨a, mem_cons_self, rfl⟩
      · exact .inl hm
    · exact .inr ⟨b, mem_cons_of_mem _ hb, rfl⟩

theorem mem_relearn {s : Control} {now : Nat} (h : ip ∈ s.relearn now l) :
    ip ∈ s.learned ∨ ∃ a ∈ l, ip = a.ip := by
  refine (mem_foldl_insert h).imp_left fun hkept => ?_
  obtain ⟨e, he, rfl⟩ := mem_map.mp hkept
  exact mem_map.mpr ⟨e, mem_of_mem_filter he, rfl⟩

theorem mem_of_mem_elements {now : Nat} {m : FiniteMap Addr Nat} {a : DnsAddress}
    (h : a ∈ Control.elements now m) : a.ip ∈ m := by
  obtain ⟨e, he, rfl⟩ := mem_map.mp h
  exact mem_map.mpr ⟨e, he, rfl⟩

/-- What the second critical section of `exchange` comes to. -/
inductive Judged (s : Control) (revision : Nat) (query answer : Message)
    (data : Payload) (now : Nat) : Control × ExchangeResult → Prop
  | refused : Judged s revision query answer data now (s, .refused (refusedDNS query))
  | answered {l : List DnsAddress} (hrevision : s.revision = revision)
      (hcollect : s.current.collect answer.answers = some l) :
      Judged s revision query answer data now (s, .answered data)
  | failed {e : ControlError} (hrevision : s.revision = revision) :
      Judged s revision query answer data now (s, .error e)
  | learned {l : List DnsAddress} {kernel : Nft.Ruleset} (hrevision : s.revision = revision)
      (hcollect : s.current.collect answer.answers = some l) (hsize : (s.relearn now l).size ≤ 4096)
      (hkernel : Nft.exec s.kernel (learnDNS (Control.elements now (s.relearn now l))) =
        some kernel) :
      Judged s revision query answer data now
        ({ s with learned := s.relearn now l, kernel := kernel }, .answered data)

theorem script_eq_some {s : Control} {ok : Bool} {text : Text} {R : Nft.Ruleset}
    (h : s.script ok text = some R) : Nft.exec s.kernel text = some R := by
  rw [Control.script] at h
  split at h
  · exact h
  · cases h

theorem judged (s : Control) (revision : Nat) (query answer : Message) (data : Payload)
    (now : Nat) (ok : Bool) :
    Judged s revision query answer data now (s.judge revision query answer data now ok) := by
  unfold Control.judge
  split
  · exact .refused
  · next hcurrent =>
    have hrevision : s.revision = revision := by
      by_contra hne
      exact hcurrent (.inr hne)
    split
    · exact .refused
    · next l hcollect =>
      split
      · simp only
        split
        · exact .failed hrevision
        · next hsize =>
          split
          · exact .failed hrevision
          · next kernel hkernel =>
              exact .learned hrevision hcollect (by omega) (script_eq_some hkernel)
      · exact .answered hrevision hcollect

/-- What `update` comes to. -/
inductive Updated (s : Control) (gateway : BitVec 32) (m : PolicyMutation) :
    Control × UpdateResult → Prop
  | failed {e : ControlError} : Updated s gateway m (s, .error e)
  | read (hchanged : m.changed = false) : Updated s gateway m (s, s.status)
  | changed {p : Policy} {s' : Control} (hchanged : m.changed = true)
    (hp : applyMutation s.current m = .ok p)
      (hs' : s' = { s with current := p, revision := s.revision + 1, learned := ∅,
                           kernel :=
                           update s.kernel "hostel_policy" (some (policyTable p gateway)) }) :
      Updated s gateway m (s', s'.status)

theorem updated (s : Control) (gateway : BitVec 32) (m : PolicyMutation) (ok : Bool) :
    Updated s gateway m (s.update gateway m ok) := by
  unfold Control.update
  split
  · exact .failed
  · split
    · next hchanged =>
      split
      · exact .failed
      · next p hp =>
        split
        · exact .failed
        · next kernel hkernel =>
          have hkernel := script_eq_some hkernel
          rw [exec_renderPolicy] at hkernel
          cases hkernel
          exact .changed hchanged hp rfl
    · next hchanged => exact .read (by simpa using hchanged)

section Moves

variable (unpack : Payload → Option Message) (gateway : BitVec 32)

inductive ExchangeMove (s : Control) : ExchangePc → Control → ExchangePc → Prop
  | reject {payload : Payload} {r : ExchangeResult} (hr : ∀ data, r ≠ .answered data) :
      ExchangeMove s (.start payload) s (.done r)
  | ask {payload : Payload} {query : Message} {q : Question}
    (hq : s.current.domainAction q.name = .allow) :
      ExchangeMove s (.start payload) s (.asked query q s.revision)
  | lose {query : Message} {q : Question} {revision : Nat} {e : ControlError}
      (he : e = .upstream ∨ e = .unpack ∨ e = .mismatch) :
      ExchangeMove s (.asked query q revision) s (.done (.error e))
  | arrive {query : Message} {q : Question} {revision : Nat} {answer : Message} {data : Payload}
      (hreply : replyTo unpack query q data = .ok answer) :
      ExchangeMove s (.asked query q revision) s (.replied query q revision answer data)
  | judge {query : Message} {q : Question} {revision : Nat} {answer : Message}
    {data : Payload} (now : Nat)
      {r : Control × ExchangeResult} (hr : Judged s revision query answer data now r) :
      ExchangeMove s (.replied query q revision answer data) r.1 (.done r.2)

inductive ControlMove (s : Control) : ControlPc → Control → ControlPc → Prop
  | exchange {s' : Control} {pc pc' : ExchangePc} (h : ExchangeMove unpack s pc s' pc') :
      ControlMove s (.exchange pc) s' (.exchange pc')
  | update {m : PolicyMutation} {r : Control × UpdateResult} (hr : Updated s gateway m r) :
      ControlMove s (.update (.start m)) r.1 (.update (.done m r.2))
  | close : ControlMove s (.close false) { s with closed := true } (.close true)

variable {unpack gateway} {query : Message} {q : Question} {t : ThreadId}

theorem error_of_replyTo {data : Payload} {e : ControlError}
    (h : replyTo unpack query q data = .error e) : e = .upstream ∨ e = .unpack ∨ e = .mismatch := by
  unfold replyTo at h
  split at h
  · cases h
    exact .inr (.inl rfl)
  · split at h
    · cases h
      exact .inr (.inr rfl)
    · cases h

theorem exchangeMove {s s' : Control} {pc pc' : ExchangePc} {x : ControlChoice}
    (h : ExchangePc.move unpack s pc x = some (s', pc')) : ExchangeMove unpack s pc s' pc' := by
  unfold ExchangePc.move at h
  split at h
  · split at h
    · cases h
      exact .reject (by simp)
    · split at h
      · split at h
        · next q hq =>
          cases h
          rw [Control.allowed, Bool.and_eq_true] at hq
          exact .ask (by simpa using hq.2)
        · cases h
          exact .reject (by simp)
      · cases h
        exact .reject (by simp)
  · cases h
    exact .lose (.inl rfl)
  · split at h
    · next e he =>
      cases h
      exact .lose (error_of_replyTo he)
    · next answer hreply =>
      cases h
      exact .arrive hreply
  · next query q revision answer data now ok =>
    cases h
    exact .judge now (judged s revision query answer data now ok)
  · cases h

theorem controlMove_of {s s' : Control} {pc pc' : ControlPc} {x : ControlChoice}
    (h : (controlProgram unpack gateway).move t s pc x = some (s', pc')) :
    ControlMove unpack gateway s pc s' pc' := by
  simp only [controlProgram, controlMove] at h
  split at h
  · obtain ⟨_, hmove, rfl⟩ := inner_move h
    exact .exchange (exchangeMove hmove)
  · next m ok =>
    cases h
    exact .update (updated s gateway m ok)
  · cases h
    exact .close
  · cases h

end Moves

/-! ## Runs -/

section Runs

variable (unpack : Payload → Option Message) (gateway : BitVec 32)

abbrev ControlStep := Config Control ControlPc × ThreadAct ControlPc ControlChoice (Addr → Bool)

/-- The policy in force does not deny the address, and an exchange brought it while that policy was
in force: with an answer that passed the check, to a question that the policy allows. -/
structure Vetted (τ : List ControlStep) (s : Control) (ip : Addr) : Prop where
  undenied : s.current.deniesIP ip = false
  brought : ∃ c t x query q answer data, (c, ThreadAct.move t x) ∈ τ ∧
    c.threads t = some (.exchange (.replied query q s.revision answer data)) ∧
    c.shared.revision = s.revision ∧ c.shared.current = s.current ∧
      s.current.domainAction q.name = .allow ∧
    replyTo unpack query q data = .ok answer ∧ ∃ r ∈ answer.answers, r.ip = some ip

/-- A question was asked under a policy that allows it; the reply, if it is there, passed the
check. -/
def ExchangePc.Fresh (s : Control) : ExchangePc → Prop
  | .asked _ q revision =>
    revision ≤ s.revision ∧ (revision = s.revision → s.current.domainAction q.name = .allow)
  | .replied query q revision answer data =>
    (revision ≤ s.revision ∧ (revision = s.revision → s.current.domainAction q.name = .allow)) ∧
      replyTo unpack query q data = .ok answer
  | _ => True

structure ControlSound (τ : List ControlStep) (c : Config Control ControlPc) : Prop where
  size_le : c.shared.learned.size ≤ 4096
  holds : Holds c.shared.kernel (· ∈ c.shared.learned)
  vetted : ∀ ip ∈ c.shared.learned, ip.zone = [] ∧ Vetted unpack τ c.shared ip
  fresh : ∀ t pc, c.threads t = some (.exchange pc) → pc.Fresh unpack c.shared

/-- The policy is that of its revision. -/
structure Control.Ages (s s' : Control) : Prop where
  revision_le : s.revision ≤ s'.revision
  current_eq : s'.revision = s.revision → s'.current = s.current

variable {unpack gateway} {τ τ' : List ControlStep} {s s' : Control}
  {c d : Config Control ControlPc}
  {t : ThreadId} {x : ControlChoice} {m : PolicyMutation} {query : Message} {q : Question}
    {revision : Nat}

theorem Vetted.mono (h : Vetted unpack τ s ip) (hτ : τ ⊆ τ') (hrevision : s'.revision = s.revision)
    (hcurrent : s'.current = s.current) : Vetted unpack τ' s' ip := by
  obtain ⟨hundenied, c, t, x, query, q, answer, data, hmem, hbrought⟩ := h
  refine ⟨by rw [hcurrent]; exact hundenied, c, t, x, query, q, answer, data, hτ hmem, ?_⟩
  rw [hrevision, hcurrent]
  exact hbrought

theorem ExchangePc.Fresh.ages {pc : ExchangePc} (h : pc.Fresh unpack s) (hages : s.Ages s') :
    pc.Fresh unpack s' := by
  have asked : ∀ {revision : Nat} {name : Text},
      revision ≤ s.revision ∧ (revision = s.revision → s.current.domainAction name = .allow) →
      revision ≤ s'.revision ∧
        (revision = s'.revision → s'.current.domainAction name = .allow) := by
    rintro revision name ⟨hle, hallow⟩
    refine ⟨hle.trans hages.revision_le, fun heq => ?_⟩
    have hsame : s'.revision = s.revision := le_antisymm (heq ▸ hle) hages.revision_le
    rw [hages.current_eq hsame]
    exact hallow (heq.trans hsame)
  cases pc with
  | asked query q revision => exact asked h
  | replied query q revision answer data => exact ⟨asked h.1, h.2⟩
  | start | done => trivial

theorem fresh_update {threads : ThreadId → Option ControlPc} {p : ControlPc}
    (h : ∀ u pc, threads u = some (.exchange pc) → pc.Fresh unpack s) (hages : s.Ages s')
    (hp : ∀ pc, p = .exchange pc → pc.Fresh unpack s') :
    ∀ u pc, update threads t (some p) u = some (.exchange pc) → pc.Fresh unpack s' := by
  intro u pc hu
  obtain ⟨-, hpc⟩ | ⟨-, hu⟩ := update_eq_some.mp hu
  · exact hp pc hpc
  · exact (h u pc hu).ages hages

theorem ControlSound.keep {e : ControlStep} {threads : ThreadId → Option ControlPc}
    (h : ControlSound unpack τ c) (hcurrent : s.current = c.shared.current)
    (hrevision : s.revision = c.shared.revision) (hlearned : s.learned = c.shared.learned)
    (hholds : Holds s.kernel (· ∈ c.shared.learned))
    (hfresh : ∀ t pc, threads t = some (.exchange pc) → pc.Fresh unpack s) :
    ControlSound unpack (τ ++ [e]) ⟨s, threads⟩ where
  size_le := by
    rw [hlearned]
    exact h.size_le
  holds := by
    rw [hlearned]
    exact hholds
  vetted ip hip := by
    rw [hlearned] at hip
    obtain ⟨hzone, hvetted⟩ := h.vetted ip hip
    exact ⟨hzone, hvetted.mono (subset_append_left ..) hrevision hcurrent⟩
  fresh := hfresh

theorem ages_refl (s : Control) : s.Ages s := ⟨le_rfl, fun _ => rfl⟩

section

variable (h : ControlSound unpack τ c)
include h

theorem ControlSound.learn {answer : Message} {data : Payload} {now : Nat} {l : List DnsAddress}
    {kernel : Nft.Ruleset} {p : ControlPc}
    (ht : c.threads t = some (.exchange (.replied query q c.shared.revision answer data)))
    (hcollect : c.shared.current.collect answer.answers = some l)
    (hsize : (c.shared.relearn now l).size ≤ 4096)
    (hkernel : Nft.exec c.shared.kernel (learnDNS (Control.elements now (c.shared.relearn now l))) =
      some kernel) (hp : ∀ pc, p = .exchange pc → ∃ r, pc = .done r) :
    ControlSound unpack (τ ++ [(c, .move t x)])
      ⟨{ c.shared with learned := c.shared.relearn now l, kernel := kernel },
        update c.threads t (some p)⟩ := by
  have hvetted : ∀ ip ∈ c.shared.relearn now l,
      ip.zone = [] ∧ Vetted unpack (τ ++ [(c, .move t x)]) c.shared ip := by
    intro ip hip
    rcases mem_relearn hip with hold | ⟨a, ha, rfl⟩
    · obtain ⟨hzone, hold⟩ := h.vetted ip hold
      exact ⟨hzone, hold.mono (subset_append_left ..) rfl rfl⟩
    · obtain ⟨hbrought, hundenied⟩ := collect_spec hcollect
      obtain ⟨r, hr, hip⟩ := hbrought a ha
      obtain ⟨⟨-, hallow⟩, hreply⟩ := h.fresh t _ ht
      exact ⟨zone_of_record hip, (hundenied r hr).2 _ hip, c, t, x, query, q, answer, data,
        by simp, ht, rfl, rfl, hallow rfl, hreply, r, hr, hip⟩
  have hzone : ∀ a ∈ Control.elements now (c.shared.relearn now l), a.ip.zone = [] :=
    fun a ha => (hvetted a.ip (mem_of_mem_elements ha)).1
  refine ⟨hsize, (h.holds.learnDNS hzone hkernel).imp ?_, fun ip hip => ?_, ?_⟩
  · rintro ip ⟨a, ha, rfl⟩
    exact mem_of_mem_elements ha
  · obtain ⟨hzone, hvetted⟩ := hvetted ip hip
    exact ⟨hzone, hvetted.mono (fun _ => id) rfl rfl⟩
  · refine fresh_update (fun u pc hu => (h.fresh u pc hu).ages ?_) (ages_refl _) ?_
    · exact ⟨le_rfl, fun _ => rfl⟩
    · intro pc hpc
      obtain ⟨r, rfl⟩ := hp pc hpc
      trivial

theorem ControlSound.stay {e : ControlStep} {p : ControlPc}
    (hp : ∀ pc, p = .exchange pc → pc.Fresh unpack c.shared) :
    ControlSound unpack (τ ++ [e]) ⟨c.shared, update c.threads t (some p)⟩ :=
  h.keep rfl rfl rfl h.holds (fresh_update h.fresh (ages_refl _) hp)

theorem ControlSound.exchange {pc pc' : ExchangePc} (ht : c.threads t = some (.exchange pc))
    (hmove : ExchangeMove unpack c.shared pc s' pc') :
    ControlSound unpack (τ ++ [(c, .move t x)]) ⟨s',
      update c.threads t (some (.exchange pc'))⟩ := by
  have done : ∀ r, ControlSound unpack (τ ++ [(c, .move t x)])
      ⟨c.shared, update c.threads t (some (.exchange (.done r)))⟩ := by
    intro r
    refine h.stay ?_
    rintro _ ⟨⟩
    trivial
  cases hmove with
  | reject | lose => exact done _
  | ask hq =>
    refine h.stay ?_
    rintro _ ⟨⟩
    exact ⟨le_rfl, fun _ => hq⟩
  | arrive hreply =>
    refine h.stay ?_
    rintro _ ⟨⟩
    exact ⟨h.fresh t _ ht, hreply⟩
  | judge now hr =>
    cases hr with
    | refused | answered | failed => exact done _
    | learned hrevision hcollect hsize hkernel =>
      subst hrevision
      refine h.learn ht hcollect hsize hkernel ?_
      rintro _ ⟨⟩
      exact ⟨_, rfl⟩

theorem ControlSound.update {r : Control × UpdateResult} (hr : Updated c.shared gateway m r) :
    ControlSound unpack (τ ++ [(c, .move t x)])
      ⟨r.1, update c.threads t (some (.update (.done m r.2)))⟩ := by
  cases hr with
  | failed | read => exact h.stay (by simp)
  | @changed p s' hchanged hp hs' =>
    subst hs'
    refine ⟨zero_le _, ?_, ?_, ?_⟩
    · exact (holds_policyTable c.shared.kernel p gateway).imp fun _ => False.elim
    · intro ip hip
      exact absurd hip (AList.notMem_empty ip)
    · refine fresh_update h.fresh ⟨le_succ _, fun heq => ?_⟩ (by simp)
      exact absurd heq (succ_ne_self _)

theorem ControlSound.step {e : ThreadAct ControlPc ControlChoice (Addr → Bool)}
    (hs : (controlProgram unpack gateway).machine.step c e = some d) :
    ControlSound unpack (τ ++ [(c, e)]) d := by
  cases e with
  | call t p =>
    obtain ⟨-, hentry, rfl⟩ := step_call.mp hs
    refine h.stay ?_
    rintro pc rfl
    cases pc with
    | start => trivial
    | asked | replied | done => cases hentry
  | world keep =>
    obtain ⟨s, hworld, rfl⟩ := step_world.mp hs
    cases hworld
    exact h.keep rfl rfl rfl (h.holds.expire keep) fun t pc ht =>
      (h.fresh t pc ht).ages ⟨le_rfl, fun _ => rfl⟩
  | move t x =>
    obtain ⟨p, s, p', ht, hmove, rfl⟩ := step_move.mp hs
    cases controlMove_of hmove with
    | close =>
      exact h.keep rfl rfl rfl h.holds (fresh_update h.fresh ⟨le_rfl, fun _ => rfl⟩ (by simp))
    | update hr => exact h.update hr
    | exchange hexchange => exact h.exchange ht hexchange

end

theorem holds_init (gateway : BitVec 32) : Holds (Control.init gateway).kernel fun _ => False := by
  rw [Control.init]
  simp only [exec_renderPolicy, Option.getD_some]
  exact holds_policyTable ..

theorem controlSound
    (h : (controlProgram unpack gateway).machine.Trace (init (.init gateway)) τ c) :
    ControlSound unpack τ c := by
  refine h.always ?_ fun _ h hs => h.step hs
  refine ⟨zero_le _, (holds_init gateway).imp fun _ => False.elim, ?_, ?_⟩
  · intro ip hip
    exact absurd hip (AList.notMem_empty ip)
  · intro t pc ht
    cases ht

theorem ControlSound.length_kernelAddresses_le (h : ControlSound unpack τ c) :
    (kernelAddresses c.shared.kernel).length ≤ c.shared.learned.size := by
  rw [FiniteMap.size_eq_keys]
  exact (subperm_of_subset h.holds.nodup fun ip hip => h.holds.of_mem hip).length_le

/-! ## Questions that a change of the policy overtakes -/

/-- Where an exchange can be once the policy of its question is gone. -/
inductive Late (query : Message) (q : Question) (revision : Nat) : ExchangePc → Prop
  | asked : Late query q revision (.asked query q revision)
  | replied (answer : Message) (data : Payload) :
    Late query q revision (.replied query q revision answer data)
  | refused : Late query q revision (.done (.refused (refusedDNS query)))
  | lost {e : ControlError} (he : e = .upstream ∨ e = .unpack ∨ e = .mismatch) :
      Late query q revision (.done (.error e))

/-- A late exchange moves on without a trace in the shared state; a reply that passed the check is
refused. -/
theorem Late.move {pc pc' : ExchangePc}
    (h : Late query q revision pc) (hrevision : revision < s.revision)
    (hmove : ExchangeMove unpack s pc s' pc') : s' = s ∧ Late query q revision pc' ∧
      (∀ answer data, pc = .replied query q revision answer data →
        pc' = .done (.refused (refusedDNS query))) := by
  cases h with
  | asked =>
    cases hmove with
    | lose he => exact ⟨rfl, .lost he, by simp⟩
    | arrive hreply => exact ⟨rfl, .replied _ _, by simp⟩
  | replied answer data =>
    cases hmove with
    | judge now hr =>
      cases hr with
      | refused => exact ⟨rfl, .refused, fun _ _ _ => rfl⟩
      | answered heq | failed heq | learned heq => exact absurd heq (ne_of_gt hrevision)
  | refused | lost => cases hmove

theorem revision_le_of_controlMove {p p' : ControlPc} (h : ControlMove unpack gateway s p s' p') :
    s.revision ≤ s'.revision := by
  cases h with
  | close => exact le_rfl
  | update hr =>
    cases hr with
    | failed | read => exact le_rfl
    | changed _ _ hs' =>
      subst hs'
      exact le_succ _
  | exchange h =>
    cases h with
    | reject | ask | lose | arrive => exact le_rfl
    | judge now hr => cases hr <;> exact le_rfl

section

variable (t : ThreadId) (query : Message) (q : Question) (revision : Nat)

/-- The policy of the exchange's question is gone. -/
structure Overtaken (c : Config Control ControlPc) : Prop where
  lt : revision < c.shared.revision
  late : ∃ pc, c.threads t = some (.exchange pc) ∧ Late query q revision pc

variable (unpack) in
/-- What a step of an overtaken exchange does: a reply that passes the check is taken, and then
refused. -/
structure Futile (x : ControlChoice) (c d : Config Control ControlPc) : Prop where
  shared : d.shared = c.shared
  arrives : ∀ answer data, c.threads t = some (.exchange (.asked query q revision)) →
    x = .upstream (some data) → replyTo unpack query q data = .ok answer →
    d.threads t = some (.exchange (.replied query q revision answer data))
  refused : ∀ answer data, c.threads t = some (.exchange (.replied query q revision answer data)) →
    d.threads t = some (.exchange (.done (.refused (refusedDNS query))))

end

section

variable (h : Overtaken t query q revision c)
include h

theorem Overtaken.own (hs : (controlProgram unpack gateway).machine.step c (.move t x) = some d) :
    Overtaken t query q revision d ∧ Futile unpack t query q revision x c d := by
  obtain ⟨hlt, pc, ht, hlate⟩ := h
  obtain ⟨p, s, p', hp, hmove, rfl⟩ := step_move.mp hs
  rw [ht, Option.some.injEq] at hp
  subst hp
  cases controlMove_of hmove with
  | exchange hexchange =>
    obtain ⟨rfl, hlate', hrefused⟩ := hlate.move hlt hexchange
    refine ⟨⟨hlt, _, update_self .., hlate'⟩, rfl, ?_, fun answer data hreplied => ?_⟩
    · rintro answer data hasked rfl hreply
      cases ht.symm.trans hasked
      simp only [controlProgram, controlMove, ExchangePc.move, hreply] at hmove
      cases hmove
      exact update_self ..
    · cases ht.symm.trans hreplied
      rw [hrefused answer data rfl]
      exact update_self ..

theorem Overtaken.step {e : ThreadAct ControlPc ControlChoice (Addr → Bool)}
    (hs : (controlProgram unpack gateway).machine.step c e = some d) :
    Overtaken t query q revision d := by
  obtain ⟨hlt, pc, ht, hlate⟩ := h
  cases e with
  | call u p =>
    obtain ⟨hu, -, rfl⟩ := step_call.mp hs
    exact ⟨hlt, pc, update_of_none hu ht, hlate⟩
  | world keep =>
    obtain ⟨s, hworld, rfl⟩ := step_world.mp hs
    cases hworld
    exact ⟨hlt, pc, ht, hlate⟩
  | move u x =>
    by_cases hut : u = t
    · subst hut
      exact (Overtaken.own ⟨hlt, pc, ht, hlate⟩ hs).1
    · obtain ⟨p, s, p', hp, hmove, rfl⟩ := step_move.mp hs
      exact ⟨hlt.trans_le (revision_le_of_controlMove (controlMove_of hmove)), pc,
        (update_of_ne (Ne.symm hut) ..).trans ht, hlate⟩

/-- An overtaken exchange stays so, and none of its steps shows in the shared state. -/
theorem Overtaken.run (hrun : (controlProgram unpack gateway).machine.Trace c τ d) :
    Overtaken t query q revision d ∧ ∀ c' x d', (c', .move t x) ∈ τ →
      (controlProgram unpack gateway).machine.step c' (.move t x) = some d' →
        Futile unpack t query q revision x c' d' := by
  refine hrun.always ⟨h, by simp⟩ fun _ ⟨hc₁, hfutile⟩ hs =>
    ⟨hc₁.step hs, fun c' x d' hmem hd' => ?_⟩
  rcases mem_append.mp hmem with hmem | hmem
  · exact hfutile c' x d' hmem hd'
  · cases mem_singleton.mp hmem
    exact (hc₁.own hd').2

end

variable (unpack gateway) in
structure Changes (u : ThreadId) (m : PolicyMutation) (x : ControlChoice)
    (c d : Config Control ControlPc) : Prop where
  start : c.threads u = some (.update (.start m))
  changed : m.changed = true
  step : (controlProgram unpack gateway).machine.step c (.move u x) = some d
  done : ∃ r, d.threads u = some (.update (.done m (.ok r)))

/-- A question was asked; the reply may be there. -/
def InFlight (query : Message) (q : Question) (revision : Nat) (pc : Option ControlPc) : Prop :=
  pc = some (.exchange (.asked query q revision)) ∨
    ∃ answer data, pc = some (.exchange (.replied query q revision answer data))

def Failed (pc : Option ControlPc) : Prop :=
  (∃ m e, pc = some (.update (.done m (.error e)))) ∨ ∃ e, pc = some (.exchange (.done (.error e)))

theorem Changes.eq {u : ThreadId} (h : Changes unpack gateway u m x c d) :
    ∃ p r, d = ⟨{ c.shared with
      current := p, revision := c.shared.revision + 1, learned := ∅,
      kernel := update c.shared.kernel "hostel_policy" (some (policyTable p gateway)) },
      update c.threads u (some (.update (.done m (.ok r))))⟩ := by
  obtain ⟨hstart, hchanged, hstep, r, hdone⟩ := h
  obtain ⟨p, s, p', hp, hmove, rfl⟩ := step_move.mp hstep
  rw [hstart, Option.some.injEq] at hp
  subst hp
  cases controlMove_of hmove with
  | update hr =>
    cases hr with
    | failed => simp at hdone
    | read hread => simp [hread] at hchanged
    | changed _ _ hs' =>
      subst hs'
      exact ⟨_, _, rfl⟩

theorem Changes.overtaken {u : ThreadId} (hc : ControlSound unpack τ c)
    (h : Changes unpack gateway u m x c d) (hflight : InFlight query q revision (c.threads t)) :
    Overtaken t query q revision d := by
  have hle : revision ≤ c.shared.revision := by
    rcases hflight with ht | ⟨answer, data, ht⟩
    · exact (hc.fresh t _ ht).1
    · exact (hc.fresh t _ ht).1.1
  have hne : t ≠ u := by
    rintro rfl
    rcases hflight with ht | ⟨answer, data, ht⟩ <;> · rw [h.start] at ht; cases ht
  obtain ⟨p, r, rfl⟩ := h.eq
  refine ⟨lt_succ_of_le hle, ?_⟩
  rcases hflight with ht | ⟨answer, data, ht⟩
  · exact ⟨_, (update_of_ne hne ..).trans ht, .asked⟩
  · exact ⟨_, (update_of_ne hne ..).trans ht, .replied answer data⟩

theorem shared_of_read {u : ThreadId} (hu : c.threads u = some (.update (.start m)))
    (hread : m.changed = false)
    (hs : (controlProgram unpack gateway).machine.step c (.move u x) = some d) :
    d.shared = c.shared := by
  obtain ⟨p, s, p', hp, hmove, rfl⟩ := step_move.mp hs
  cases hu.symm.trans hp
  cases controlMove_of hmove with
  | update hr =>
    cases hr with
    | failed | read => rfl
    | changed hchanged => simp [hread] at hchanged

theorem shared_of_failed (hs : (controlProgram unpack gateway).machine.step c (.move t x) = some d)
    (hfailed : Failed (d.threads t)) : d.shared = c.shared := by
  obtain ⟨p, s, p', hp, hmove, rfl⟩ := step_move.mp hs
  simp only [Failed, update_self, Option.some.injEq] at hfailed
  cases controlMove_of hmove with
  | close => simp at hfailed
  | update hr =>
    cases hr with
    | failed | read => rfl
    | changed _ _ _ => simp [Control.status] at hfailed
  | exchange hexchange =>
    cases hexchange with
    | reject | ask | lose | arrive => rfl
    | judge now hr =>
      cases hr with
      | refused | answered | failed => rfl
      | learned => simp at hfailed

/-- Over every run: the addresses in the kernel's sets are vetted by the policy in force; a change
of the policy empties the sets, and an exchange that it overtakes ends in a refusal, or in the
upstream's own failure, with nothing learned: a late reply that passes the check is taken and then
refused; an update without a part changes nothing; the sets stay within their size; and a call that
fails changes nothing. -/
theorem policy_control_runs (unpack : Payload → Option Message) (gateway : BitVec 32)
    {τ : List ControlStep} {c : Config Control ControlPc}
    (h : (controlProgram unpack gateway).machine.Trace (init (.init gateway)) τ c) :
    (∀ ip ∈ kernelAddresses c.shared.kernel, Vetted unpack τ c.shared ip) ∧
    (∀ u m x d, Changes unpack gateway u m x c d →
      (kernelAddresses d.shared.kernel = [] ∧ d.shared.learned = ∅) ∧
      ∀ t query q revision, InFlight query q revision (c.threads t) →
        ∀ τ' e, (controlProgram unpack gateway).machine.Trace d τ' e →
          (∃ pc, e.threads t = some (.exchange pc) ∧ Late query q revision pc) ∧
          ∀ c' x d', (c', .move t x) ∈ τ' →
            (controlProgram unpack gateway).machine.step c' (.move t x) = some d' →
              Futile unpack t query q revision x c' d') ∧
    (∀ u m x d, c.threads u = some (.update (.start m)) → m.changed = false →
      (controlProgram unpack gateway).machine.step c (.move u x) = some d → d.shared = c.shared) ∧
    c.shared.learned.size ≤ 4096 ∧ (kernelAddresses c.shared.kernel).length ≤ 4096 ∧
    ∀ t x d, (controlProgram unpack gateway).machine.step c (.move t x) = some d →
      Failed (d.threads t) → d.shared = c.shared := by
  have hsound := controlSound h
  refine ⟨fun ip hip => (hsound.vetted ip (hsound.holds.of_mem hip)).2,
    fun u m x d hchanges => ⟨?_, ?_⟩, fun u m x d => shared_of_read, hsound.size_le,
    hsound.length_kernelAddresses_le.trans hsound.size_le, fun t x d => shared_of_failed⟩
  · obtain ⟨p, r, rfl⟩ := hchanges.eq
    refine ⟨eq_nil_iff_forall_not_mem.mpr fun ip hip => ?_, rfl⟩
    exact (holds_policyTable c.shared.kernel p gateway).of_mem hip
  · intro t query q revision hflight τ' e hrun
    obtain ⟨hover, hfutile⟩ := (hchanges.overtaken hsound hflight).run hrun
    exact ⟨hover.late, hfutile⟩

/-! ## A resolver with one name -/

def someQuestion : Question := ⟨"a.io.".toList, 1, 1⟩

def someQuery : Message := ⟨7, false, 0, [someQuestion], [], [], []⟩

def someAnswer : Message := ⟨7, true, 0, [someQuestion], [⟨60, .a 0x01020304⟩], [], []⟩

/-- Three packets: a question, its answer, and an answer with another number. -/
def someUnpack : Payload → Option Message
  | [0] => some someQuery
  | [1] => some someAnswer
  | [2] => some { someAnswer with id := 8 }
  | _ => none

def onlyName : PolicyMutation := ⟨some ⟨.deny, [⟨.allow, "a.io".toList⟩]⟩, none, none⟩

/-- An exchange is under way when a call of `update` begins. -/
def someCalls (m : PolicyMutation) : List (ThreadAct ControlPc ControlChoice (Addr → Bool)) :=
  -- the name is allowed, resolved once and asked for again
  [.call 0 (.update (.start onlyName)), .move 0 (.script true),
    .call 1 (.exchange (.start [0])), .move 1 .go, .move 1 (.upstream (some [1])),
    .move 1 (.judge 0 true), .call 2 (.exchange (.start [0])), .move 2 .go,
    .call 3 (.update (.start m))]

theorem policy_control_runs_resolved : ∃ τ c d,
    (controlProgram someUnpack 0).machine.Trace (init (.init 0)) τ c ∧
    kernelAddresses c.shared.kernel = [.v4 0x01020304] ∧
    Vetted someUnpack τ c.shared (.v4 0x01020304) ∧
    InFlight someQuery someQuestion 1 (c.threads 2) ∧
    Changes someUnpack 0 3 onlyName (.script true) c d ∧ kernelAddresses d.shared.kernel = [] := by
  obtain ⟨c, h, hkernel, hasked, hstart, d, hstep, hdone⟩ :=
    (controlProgram someUnpack 0).machine.trace_of_any (init (.init 0)) (someCalls onlyName)
    (fun c => kernelAddresses c.shared.kernel = [.v4 0x01020304] ∧
      c.threads 2 = some (.exchange (.asked someQuery someQuestion 1)) ∧
      c.threads 3 = some (.update (.start onlyName)) ∧
      ∃ d, (controlProgram someUnpack 0).machine.step c (.move 3 (.script true)) = some d ∧
        d.threads 3 = some (.update (.done onlyName (.ok (.enforcing, d.shared.current))))) (by
        decide +kernel)
  have hchanges : Changes someUnpack 0 3 onlyName (.script true) c d :=
    ⟨hstart, rfl, hstep, _, hdone⟩
  obtain ⟨hvetted, hchanged, -⟩ := policy_control_runs someUnpack 0 h
  exact ⟨_, c, d, h, hkernel, hvetted _ (by simp [hkernel]), .inl hasked, hchanges,
    (hchanged 3 onlyName (.script true) d hchanges).1.1⟩

/-- A reply that arrives after a change of the policy and does not match its question is an error,
not a refusal; an update without a part is a read, which leaves the sets. -/
theorem late_mismatch_and_read :
    (∃ τ c d τ' e, (controlProgram someUnpack 0).machine.Trace (init (.init 0)) τ c ∧
      Changes someUnpack 0 3 onlyName (.script true) c d ∧
      InFlight someQuery someQuestion 1 (c.threads 2) ∧
      (controlProgram someUnpack 0).machine.Trace d τ' e ∧
      e.threads 2 = some (.exchange (.done (.error .mismatch)))) ∧
    ∃ τ c d r, (controlProgram someUnpack 0).machine.Trace (init (.init 0)) τ c ∧
      c.threads 3 = some (.update (.start ⟨none, none, none⟩)) ∧
      (controlProgram someUnpack 0).machine.step c (.move 3 (.script true)) = some d ∧
      d.threads 3 = some (.update (.done ⟨none, none, none⟩ (.ok r))) ∧
      kernelAddresses d.shared.kernel = [.v4 0x01020304] := by
  constructor
  · obtain ⟨c, h, hasked, hstart, d, hstep, hdone, e, hlate, he⟩ :=
      (controlProgram someUnpack 0).machine.trace_of_any (init (.init 0))
      (someCalls onlyName)
      (fun c => c.threads 2 = some (.exchange (.asked someQuery someQuestion 1)) ∧
        c.threads 3 = some (.update (.start onlyName)) ∧
        ∃ d, (controlProgram someUnpack 0).machine.step c (.move 3 (.script true)) = some d ∧
          d.threads 3 = some (.update (.done onlyName (.ok (.enforcing, d.shared.current)))) ∧
          ∃ e, (controlProgram someUnpack 0).machine.step d (.move 2 (.upstream (some [2]))) =
            some e ∧ e.threads 2 = some (.exchange (.done (.error .mismatch)))) (by decide +kernel)
    exact ⟨_, c, d, _, e, h, ⟨hstart, rfl, hstep, _, hdone⟩, .inl hasked, .single hlate, he⟩
  · obtain ⟨c, h, hstart, d, hstep, hdone, hkernel⟩ :=
      (controlProgram someUnpack 0).machine.trace_of_any (init (.init 0))
      (someCalls ⟨none, none, none⟩)
      (fun c => c.threads 3 = some (.update (.start ⟨none, none, none⟩)) ∧
        ∃ d, (controlProgram someUnpack 0).machine.step c (.move 3 (.script true)) = some d ∧
          d.threads 3 =
          some (.update (.done ⟨none, none, none⟩ (.ok (.enforcing, d.shared.current)))) ∧
          kernelAddresses d.shared.kernel = [.v4 0x01020304]) (by decide +kernel)
    exact ⟨_, c, d, _, h, hstart, hstep, hdone, hkernel⟩

end Runs

end Hostel.Network
