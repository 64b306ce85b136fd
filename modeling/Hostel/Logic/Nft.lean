/-
# Hostel.Logic.Nft — a fragment of the nftables language.

A ruleset is a family of tables, each with sets of addresses and with chains of rules.  A packet
gets the verdict of the first rule all of whose conditions it meets, and else the chain's policy
(`evaluate`).

`exec` reads a script, one command a line, as a transaction: it gives the ruleset that all of its
commands lead to, or nothing if one of them fails.  The commands are those that replace a table with
one chain on the output hook and refill sets of addresses that expire.
-/
import Mathlib.Logic.Function.Basic
import Hostel.Logic.NetipText

namespace Hostel.Logic.Nft

open Netip Function Option

/-! ## Rulesets and packets -/

inductive Verdict
  | accept
  | drop
  deriving DecidableEq, Repr

inductive Proto
  | udp
  | tcp
  | other
  deriving DecidableEq, Repr

inductive Family
  | ipv4
  | ipv6
  deriving DecidableEq, Repr

/-- The keyword of the family's headers. -/
def Family.word : Family → Text
  | .ipv4 => "ip".toList
  | .ipv6 => "ip6".toList

def Family.of (a : Addr) : Family := if a.is6 then .ipv6 else .ipv4

structure Packet where
  oifname : String
  reply : Bool
  dst : Addr
  proto : Proto
  dport : Nat
  deriving DecidableEq

inductive Cond
  | oifname (device : String)
  | reply
  | daddr (p : Prefix)
  | daddrIn (family : Family) (set : String)
  | dport (proto : Proto) (port : Nat)
  deriving DecidableEq

structure Rule where
  conds : List Cond
  verdict : Verdict
  deriving DecidableEq

def Rule.when (r : Rule) (c : Cond) : Rule := { r with conds := c :: r.conds }

/-- An address of a set, with the seconds until it expires. -/
structure Element where
  addr : Addr
  timeout : Nat
  deriving DecidableEq

/-- A set of addresses of one family, each with its own time to live. -/
structure ElementSet where
  family : Family
  size : Nat
  elements : List Element
  family_eq : ∀ e ∈ elements, Family.of e.addr = family
  nodup : (elements.map Element.addr).Nodup
  deriving DecidableEq

namespace ElementSet

def empty (family : Family) (size : Nat) : ElementSet where
  family := family
  size := size
  elements := []
  family_eq := by simp
  nodup := .nil

def flush (s : ElementSet) : ElementSet := empty s.family s.size

/-- A new element: of the set's family, not there yet, and within the set's size. -/
def add (s : ElementSet) (e : Element) : Option ElementSet :=
  if h : Family.of e.addr = s.family ∧ s.elements.length < s.size ∧
    e.addr ∉ s.elements.map Element.addr then
    some {
      family := s.family
      size := s.size
      elements := e :: s.elements
      family_eq := List.forall_mem_cons.mpr ⟨h.1, s.family_eq⟩
      nodup := List.nodup_cons.mpr ⟨h.2.2, s.nodup⟩ }
  else none

/-- Elements whose time has come are gone. -/
def expire (s : ElementSet) (keep : Addr → Bool) : ElementSet where
  family := s.family
  size := s.size
  elements := s.elements.filter fun e => keep e.addr
  family_eq e he := s.family_eq e (List.mem_of_mem_filter he)
  nodup := s.nodup.sublist (List.filter_sublist.map _)

end ElementSet

structure Chain where
  policy : Verdict
  rules : List Rule
  deriving DecidableEq

structure Table where
  sets : String → Option ElementSet
  chains : String → Option Chain

def Table.empty : Table := ⟨fun _ => none, fun _ => none⟩

abbrev Ruleset := String → Option Table

def Table.addresses (t : Table) (set : String) : List Addr :=
  match t.sets set with
  | none => []
  | some s => s.elements.map Element.addr

def Table.mem (t : Table) (set : String) (ip : Addr) : Bool :=
  (t.sets set).any fun s => s.elements.any fun e => e.addr == ip

def Cond.holds (t : Table) (k : Packet) : Cond → Bool
  | .oifname device => k.oifname == device
  | .reply => k.reply
  | .daddr p => p.contains k.dst
  | .daddrIn family set => Family.of k.dst == family && t.mem set k.dst
  | .dport proto port => k.proto == proto && k.dport == port

def Rule.applies (t : Table) (k : Packet) (r : Rule) : Bool := r.conds.all (Cond.holds t k)

/-- The verdict of the first rule that applies. -/
def evaluate (t : Table) (k : Packet) : List Rule → Verdict → Verdict
  | [], policy => policy
  | r :: rules, policy => if r.applies t k then r.verdict else evaluate t k rules policy

/-! ## Scripts -/

def words (line : Text) : List String := (line.splitOn ' ').map String.ofList

/-- A prefix, or an address for itself, of the family that the keyword names. -/
def readPrefix (family : Family) (s : String) : Option Prefix :=
  match (parsePrefix s.toList).or ((parseAddr s.toList).map Addr.single) with
  | some p => if Family.of p.addr = family then some p else none
  | none => none

/-- What stands behind `daddr`: the name of a set behind an at sign, or a prefix. -/
def readDaddr (family : Family) (s : String) : Option Cond :=
  match s.toList with
  | '@' :: name => some (.daddrIn family (String.ofList name))
  | _ => (readPrefix family s).map .daddr

/-- A condition in front of a rule. -/
def guarded (c : Option Cond) (r : Option Rule) : Option Rule :=
  match c, r with
  | some c, some r => some (r.when c)
  | _, _ => none

def readRule : List String → Option Rule
  | ["accept"] => some ⟨[], .accept⟩
  | ["drop"] => some ⟨[], .drop⟩
  | "oifname" :: device :: rest => guarded (some (.oifname device)) (readRule rest)
  | "ct" :: "direction" :: "reply" :: rest => guarded (some .reply) (readRule rest)
  | "ip" :: "daddr" :: a :: rest => guarded (readDaddr .ipv4 a) (readRule rest)
  | "ip6" :: "daddr" :: a :: rest => guarded (readDaddr .ipv6 a) (readRule rest)
  | "udp" :: "dport" :: n :: rest =>
    guarded ((decimal 65535 n.toList).map (.dport .udp)) (readRule rest)
  | "tcp" :: "dport" :: n :: rest =>
    guarded ((decimal 65535 n.toList).map (.dport .tcp)) (readRule rest)
  | _ => none

def readType : String → Option Family
  | "ipv4_addr;" => some .ipv4
  | "ipv6_addr;" => some .ipv6
  | _ => none

def readPolicy : String → Option Verdict
  | "accept;" => some .accept
  | "drop;" => some .drop
  | _ => none

/-- A number and the character that ends it. -/
def readNumber (stop : Char) (s : String) : Option Nat :=
  match s.toList.reverse with
  | c :: digits => if c = stop then decimal (2 ^ 32 - 1) digits.reverse else none
  | [] => none

/-- Where in a script the next line stands: at the top, inside a table, or inside a chain of a
table. -/
inductive Place
  | top
  | table (name : String) (t : Table)
  | chain (name : String) (t : Table) (chain : String) (c : Chain)

structure Load where
  ruleset : Ruleset
  place : Place

/-- Change a set of a table. -/
def Load.onSet (R : Ruleset) (table set : String) (f : ElementSet → Option ElementSet) :
    Option Load :=
  match R table with
  | none => none
  | some t =>
    match (t.sets set).bind f with
    | none => none
    | some s => some ⟨update R table (some { t with sets := update t.sets set (some s) }), .top⟩

def execTop (R : Ruleset) : List String → Option Load
  | [""] => some ⟨R, .top⟩
  | ["add", "table", "inet", n] => some ⟨update R n (some ((R n).getD .empty)), .top⟩
  | ["delete", "table", "inet", n] => if (R n).isSome then some ⟨update R n none, .top⟩ else none
  | ["table", "inet", n, "\x7b"] => some ⟨R, .table n ((R n).getD .empty)⟩
  | ["flush", "set", "inet", n, s] => Load.onSet R n s fun x => some x.flush
  | ["add", "element", "inet", n, s, "\x7b", a, "timeout", d, "\x7d"] =>
    match parseAddr a.toList, readNumber 's' d with
    | some ip, some secs => Load.onSet R n s fun x => x.add ⟨ip, secs⟩
    | _, _ => none
  | _ => none

def execTable (R : Ruleset) (n : String) (t : Table) : List String → Option Load
  | ["set", s, "\x7b", "type", ty, "flags", "timeout;", "size", k, "\x7d"] =>
    match readType ty, readNumber ';' k with
    | some family, some size =>
      some ⟨R, .table n { t with sets := update t.sets s (some (.empty family size)) }⟩
    | _, _ => none
  | ["chain", c, "\x7b", "type", "filter", "hook", "output", "priority", "0;", "policy", v] =>
    match readPolicy v with
    | some policy => some ⟨R, .chain n t c ⟨policy, []⟩⟩
    | none => none
  | ["\x7d"] => some ⟨update R n (some t), .top⟩
  | _ => none

def execChain (R : Ruleset) (n : String) (t : Table) (name : String) (c : Chain)
    (line : List String) : Option Load :=
  if line = ["\x7d"] then some ⟨R, .table n { t with chains := update t.chains name (some c) }⟩
  else
    match readRule line with
    | some r => some ⟨R, .chain n t name { c with rules := c.rules ++ [r] }⟩
    | none => none

def execLine (l : Load) (line : Text) : Option Load :=
  match l.place with
  | .top => execTop l.ruleset (words line)
  | .table n t => execTable l.ruleset n t (words line)
  | .chain n t name c => execChain l.ruleset n t name c (words line)

def execLines : Load → List Text → Option Load
  | l, [] => some l
  | l, line :: lines =>
    match execLine l line with
    | none => none
    | some l' => execLines l' lines

/-- Run a script; nothing of it is done if a line of it fails or is missing. -/
def exec (R : Ruleset) (script : Text) : Option Ruleset :=
  match execLines ⟨R, .top⟩ (script.splitOn '\n') with
  | some ⟨R', .top⟩ => some R'
  | _ => none

/-! ## The verdict of a chain -/

variable {t : Table} {k : Packet} {rules rules' : List Rule} {policy : Verdict}

theorem evaluate_block {v : Verdict} (h : ∀ r ∈ rules, r.verdict = v) :
    evaluate t k (rules ++ rules') policy =
      if rules.any (Rule.applies t k) then v else evaluate t k rules' policy := by
  induction rules with
  | nil => rfl
  | cons r rules ih =>
    obtain ⟨hr, hrules⟩ := List.forall_mem_cons.mp h
    rw [List.cons_append, evaluate, List.any_cons, ih hrules, hr]
    cases r.applies t k <;> rfl

/-! ## Reading scripts -/

/-- A text of lines, each ended by a newline. -/
def unlines (lines : List Text) : Text := lines.flatMap fun line => line ++ ['\n']

theorem splitOn_unlines {lines : List Text} (h : ∀ line ∈ lines, '\n' ∉ line) :
    (unlines lines).splitOn '\n' = lines ++ [[]] := by
  induction lines with
  | nil => rfl
  | cons line lines ih =>
    obtain ⟨hline, hlines⟩ := List.forall_mem_cons.mp h
    have hcons : unlines (line :: lines) = line ++ '\n' :: unlines lines := by
      simp [unlines]
    rw [hcons, List.splitOn_append_cons_self, List.splitOn_eq_singleton hline, ih hlines]
    rfl

theorem execLines_append (l : Load) (lines lines' : List Text) :
    execLines l (lines ++ lines') = (execLines l lines).bind fun l' => execLines l' lines' := by
  induction lines generalizing l with
  | nil => rfl
  | cons line lines ih =>
    rw [List.cons_append, execLines, execLines]
    cases execLine l line with
    | none => rfl
    | some l' => exact ih l'

def IsRule (line : Text) (r : Rule) : Prop := words line ≠ ["\x7d"] ∧ readRule (words line) = some r

theorem words_intercalate {ws : List Text} (h : ∀ w ∈ ws, ' ' ∉ w) (hne : ws ≠ []) :
    words ([' '].intercalate ws) = ws.map String.ofList := by
  rw [words, List.splitOn_intercalate ' ' h hne]

theorem isRule_daddr (family : Family) {s : Text} (ws : List Text) {c : Cond} {r : Rule}
    (hs : ' ' ∉ s) (hws : ∀ w ∈ ws, ' ' ∉ w) (hc : readDaddr family (String.ofList s) = some c)
    (hr : readRule (ws.map String.ofList) = some r) :
    IsRule ([' '].intercalate (family.word :: "daddr".toList :: s :: ws)) (r.when c) := by
  have hfamily : ' ' ∉ family.word := by cases family <;> decide
  have hwords : words ([' '].intercalate (family.word :: "daddr".toList :: s :: ws)) =
      String.ofList family.word :: "daddr" :: String.ofList s :: ws.map String.ofList := by
    rw [words_intercalate ?_ (List.cons_ne_nil _ _)]
    · rfl
    · simp only [List.forall_mem_cons]
      exact ⟨hfamily, by decide, hs, hws⟩
  refine ⟨by rw [hwords]; simp, ?_⟩
  have hread : readRule (words ([' '].intercalate (family.word :: "daddr".toList :: s :: ws))) =
      guarded (readDaddr family (String.ofList s)) (readRule (ws.map String.ofList)) := by
    rw [hwords]
    cases family <;> rfl
  rw [hread, hc, hr]
  rfl

theorem readDaddr_prefixText {p : Prefix} (h : p.Valid) :
    readDaddr (Family.of p.addr) (String.ofList p.string) = some (.daddr p) := by
  rw [readDaddr, String.toList_ofList]
  split
  · next name heq =>
    have hat : '@' ∈ p.string := heq ▸ List.mem_cons_self
    exact absurd (chars_of_prefix_string h hat) (by decide)
  · rw [readPrefix, String.toList_ofList, parsePrefix_string h, some_or]
    simp

theorem readDaddr_addr {a : Addr} (h : a.zone = []) :
    readDaddr (Family.of a) (String.ofList a.string) = some (.daddr a.single) := by
  have hfamily : Family.of a.single.addr = Family.of a := by cases a <;> rfl
  rw [readDaddr, String.toList_ofList]
  split
  · next name heq =>
    have hat : '@' ∈ a.string := heq ▸ List.mem_cons_self
    exact absurd (isBody_of_mem_string h hat) (by decide)
  · rw [readPrefix, String.toList_ofList, parsePrefix_addr_string h, none_or, parseAddr_string]
    simp [hfamily]

theorem execLines_rules {R : Ruleset} {n name : String} {t : Table} {c : Chain} {lines : List Text}
    {rules : List Rule} (h : List.Forall₂ IsRule lines rules) :
    execLines ⟨R, .chain n t name c⟩ lines =
      some ⟨R, .chain n t name { c with rules := c.rules ++ rules }⟩ := by
  induction h generalizing c with
  | nil => simp [execLines]
  | @cons line r lines rules hline _ ih =>
    have hstep : execLine ⟨R, .chain n t name c⟩ line =
        some ⟨R, .chain n t name { c with rules := c.rules ++ [r] }⟩ := by
      show execChain R n t name c (words line) = _
      rw [execChain, if_neg hline.1, hline.2]
    rw [execLines, hstep]
    dsimp only
    rw [ih, List.append_assoc]
    rfl

/-- A change of a set happens to a set that is there, and to nothing else. -/
theorem onSet_eq_some {R : Ruleset} {table set : String}
    {f : ElementSet → Option ElementSet} {l : Load} (h : Load.onSet R table set f = some l) :
    ∃ t s s', R table = some t ∧ t.sets set = some s ∧ f s = some s' ∧
      l = ⟨update R table (some { t with sets := update t.sets set (some s') }), .top⟩ := by
  rw [Load.onSet] at h
  split at h
  · cases h
  next t ht =>
  split at h
  · cases h
  next s' hs' =>
  cases h
  obtain ⟨s, hs, hf⟩ := bind_eq_some_iff.mp hs'
  exact ⟨t, s, s', ht, hs, hf, rfl⟩

theorem ElementSet.add_eq_some {s s' : ElementSet} {e : Element} (h : s.add e = some s') :
    s'.family = s.family ∧ s'.elements = e :: s.elements := by
  rw [ElementSet.add] at h
  split at h
  · cases h
    exact ⟨rfl, rfl⟩
  · cases h

end Hostel.Logic.Nft
