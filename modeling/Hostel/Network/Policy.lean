/-
# Hostel.Network.Policy — egress policies and the chain that enforces them.

A policy is a default action and a list of rules for addresses, prefixes and names.
`normalizePolicy` puts every target in its canonical spelling; `renderPolicy` writes the script that
replaces the kernel's table, and `deniesIP` tells the resolver which answers to refuse.

A target denotes a set of addresses (`Denotes`), where a mapped address or prefix stands for IPv4
addresses, and the verdict a destination should get is `verdictFor`.  `normalizeTarget` reads a
mapped address as the IPv4 address but leaves a mapped prefix as it is, so a rule for one matches
IPv6 packets only.
-/
import Mathlib.Data.List.Perm.Basic
import Hostel.Logic.Nft

namespace Hostel.Network

open Hostel.Logic Hostel.Logic.Netip Function List

/-! ## Policies -/

/-- The action of a rule: `other` is any other text than the two that are accepted. -/
inductive Action
  | allow
  | deny
  | other (text : Text)
  deriving DecidableEq

/-- The empty text, which a request may leave as its default action. -/
def Action.unset : Action := .other []

structure PolicyRule where
  action : Action
  target : Text
  deriving DecidableEq

structure Policy where
  defaultAction : Action
  egress : List PolicyRule
  deriving DecidableEq

inductive PolicyError
  | defaultAction
  | tooMany
  | action
  | target
  | dnsTarget
  deriving DecidableEq, Repr

/-- The text behind the common `network policy`. -/
def PolicyError.message : PolicyError → String
  | .defaultAction => "defaultAction must be allow or deny"
  | .tooMany => "at most 1024 rules"
  | .action => "action must be allow or deny"
  | .target => "invalid target"
  | .dnsTarget => "invalid DNS target"

/-! ## Texts -/

def isSpace (c : Char) : Bool :=
  c == '\t' || c == '\n' || c == '\x0b' || c == '\x0c' || c == '\r' || c == ' ' ||
    c.toNat == 0x85 || c.toNat == 0xa0 || c.toNat == 0x1680 ||
    (0x2000 ≤ c.toNat && c.toNat ≤ 0x200a) ||
    c.toNat == 0x2028 || c.toNat == 0x2029 || c.toNat == 0x202f || c.toNat == 0x205f ||
      c.toNat == 0x3000

def trimSpace (s : Text) : Text := ((s.dropWhile isSpace).reverse.dropWhile isSpace).reverse

def trimDot (s : Text) : Text := if s.getLast? = some '.' then s.dropLast else s

/-- `unicode.ToLower` as far as it can be seen: two letters beyond ASCII become ASCII letters, and
what the others become is beyond ASCII as they are. -/
def lowerRune (c : Char) : Char :=
  if c.toNat = 0x130 then 'i' else if c.toNat = 0x212a then 'k' else c.toLower

def toLower (s : Text) : Text := s.map lowerRune

def byteLength (s : Text) : Nat := s.foldl (fun n c => n + c.utf8Size) 0

def cleaned (target : Text) : Text := toLower (trimDot (trimSpace target))

/-! ## Normalisation -/

def labelChar (c : Char) : Bool := ('a' ≤ c && c ≤ 'z') || ('0' ≤ c && c ≤ '9') || c == '-'

def validLabel (label : Text) : Bool :=
  label != [] && decide (byteLength label ≤ 63) && label.head? != some '-' &&
    label.getLast? != some '-' && label.all labelChar

/-- `strings.TrimPrefix(s, "*.")`. -/
def trimStar : Text → Text
  | '*' :: '.' :: rest => rest
  | s => s

/-- `normalizeTarget` for a target that is neither an address nor a prefix. -/
def normalizeName (target : Text) : Except PolicyError Text :=
  let name := trimStar target
  if name = [] ∨ 253 < byteLength name then .error .target
  else if (name.splitOn '.').all validLabel then .ok target
  else .error .dnsTarget

/-- An address text without a zone. -/
def plainAddr (s : Text) : Option Addr := (parseAddr s).filter fun a => a.zone = []

def normalizeTarget (target : Text) : Except PolicyError Text :=
  match plainAddr (cleaned target) with
  | some ip => .ok ip.unmap.string
  | none =>
    match parsePrefix (cleaned target) with
    | some p => .ok p.masked.string
    | none => normalizeName (cleaned target)

/-- The loop of `NormalizePolicy` over the rules. -/
def normalizeRules : List PolicyRule → Except PolicyError (List PolicyRule)
  | [] => .ok []
  | rule :: rules =>
    if rule.action ≠ .allow ∧ rule.action ≠ .deny then .error .action
    else
      match normalizeTarget rule.target with
      | .error e => .error e
      | .ok target =>
        match normalizeRules rules with
        | .error e => .error e
        | .ok out => .ok (⟨rule.action, target⟩ :: out)

/-- An absent default is `deny`, and `allow` if there are no rules. -/
def defaultOf (p : Policy) : Action :=
  if p.defaultAction = .unset then (if p.egress.length = 0 then .allow else .deny)
  else p.defaultAction

def normalizePolicy (p : Policy) : Except PolicyError Policy :=
  if defaultOf p ≠ .allow ∧ defaultOf p ≠ .deny then .error .defaultAction
  else if 1024 < p.egress.length then .error .tooMany
  else
    match normalizeRules p.egress with
    | .error e => .error e
    | .ok egress => .ok ⟨defaultOf p, egress⟩

/-! ## The two readers -/

def targetPrefix (target : Text) : Option Prefix :=
  match parseAddr target with
  | some ip => some ip.single
  | none => parsePrefix target

def Policy.deniesIP (p : Policy) (ip : Addr) : Bool :=
  p.egress.any fun rule => (targetPrefix rule.target).any fun px => rule.action == .deny &&
    px.contains ip

/-- `Policy.domainAction` from a rule on. -/
def domainFrom (name : Text) : List PolicyRule → Action → Action
  | [], action => action
  | rule :: rules, action =>
    if (targetPrefix rule.target).isSome then domainFrom name rules action
    else if (match rule.target with
        | '*' :: '.' :: rest => ('.' :: rest).isSuffixOf name
        | target => target == name) then
      -- a name that a deny rule matches is denied whatever follows
      if rule.action = .deny then .deny else domainFrom name rules .allow
    else domainFrom name rules action

def Policy.domainAction (p : Policy) (name : Text) : Action :=
  domainFrom (toLower (trimDot name)) p.egress p.defaultAction

def verdictWord : Action → Text
  | .allow => "accept".toList
  | _ => "drop".toList

/-- The lines of the rules with one action. -/
def ruleLines (p : Policy) (action : Action) : List Text :=
  p.egress.filterMap fun rule =>
    (targetPrefix rule.target).bind fun px =>
      if rule.action ≠ action then none
      else some
        ((Nft.Family.of px.addr).word ++ " daddr ".toList ++ px.string ++ ' ' :: verdictWord action)

def headLines : List Text :=
  ["add table inet hostel_policy".toList, "delete table inet hostel_policy".toList,
    "table inet hostel_policy \x7b".toList,
    "set dns4 \x7b type ipv4_addr; flags timeout; size 4096; \x7d".toList,
    "set dns6 \x7b type ipv6_addr; flags timeout; size 4096; \x7d".toList,
    "chain output \x7b type filter hook output priority 0; policy drop;".toList]

def guardLines (gateway : Text) : List Text :=
  ["oifname lo accept".toList, "ct direction reply accept".toList,
    "ip daddr ".toList ++ gateway ++ " udp dport 53 accept".toList,
    "ip daddr ".toList ++ gateway ++ " tcp dport 53 accept".toList,
    "udp dport 53 drop".toList, "tcp dport 53 drop".toList]

def tailLines (p : Policy) : List Text :=
  ["ip daddr @dns4 accept".toList, "ip6 daddr @dns6 accept".toList] ++
    if p.defaultAction = .allow then ["accept".toList] else []

def chainLines (p : Policy) (gateway : Text) : List Text :=
  guardLines gateway ++ ruleLines p .deny ++ ruleLines p .allow ++ tailLines p

def renderPolicy (p : Policy) (gateway : Text) : Text :=
  Nft.unlines (headLines ++ chainLines p gateway ++ ["\x7d".toList, "\x7d".toList])

/-! ## What a policy asks for -/

/-- The prefix of the addresses that a target denotes; a mapped address or prefix denotes IPv4
addresses, and a name denotes none. -/
def denoted (target : Text) : Option Prefix :=
  match plainAddr (cleaned target) with
  | some ip => some ip.unmap.single
  | none => (parsePrefix (cleaned target)).map Prefix.unmapped

def Denotes (target : Text) (ip : Addr) : Prop :=
  ∃ px, denoted target = some px ∧ px.contains ip = true

/-- A rule of the policy with this action denotes the address. -/
def Policy.Covers (p : Policy) (action : Action) (ip : Addr) : Prop :=
  ∃ rule ∈ p.egress, rule.action = action ∧ Denotes rule.target ip

open Classical in
/-- The verdict for a destination: denied if some deny rule denotes it, else allowed if some allow
rule does, if it was learned, or by default. -/
noncomputable def Policy.verdictFor (p : Policy) (learned : Bool) (ip : Addr) : Nft.Verdict :=
  if p.Covers .deny ip then .drop
  else if p.Covers .allow ip ∨ learned = true ∨ defaultOf p = .allow then .accept
  else .drop

/-! ## Normalised targets -/

/-- What a normalised target is read as. -/
def rendered (target : Text) : Option Prefix :=
  match plainAddr (cleaned target) with
  | some ip => some ip.unmap.single
  | none => (parsePrefix (cleaned target)).map Prefix.masked

theorem valid_of_targetPrefix {target : Text} {px : Prefix} (h : targetPrefix target = some px) :
    px.Valid := by
  rw [targetPrefix] at h
  split at h
  · cases h
    exact Prefix.valid_single _
  · exact valid_of_parsePrefix h

theorem plainAddr_of_parsePrefix {s : Text} {px : Prefix} (h : parsePrefix s = some px) :
    plainAddr s = none := by
  have hslash : '/' ∈ s := slash_mem_of_parsePrefix h
  rw [plainAddr, Option.filter_eq_none_iff]
  intro a ha hzone
  rcases chars_of_parseAddr ha with ⟨-, hall⟩ | ⟨hne, -⟩
  · exact absurd (hall _ hslash) (by decide)
  · exact hne (of_decide_eq_true hzone)

theorem mem_trimStar {c : Char} {s : Text} (h : c ∈ s) : c = '*' ∨ c = '.' ∨ c ∈ trimStar s := by
  unfold trimStar
  split
  · rw [mem_cons, mem_cons] at h
    exact h
  · exact .inr (.inr h)

theorem chars_of_normalizeName {target t : Text} (h : normalizeName target = .ok t) :
    t = target ∧ '%' ∉ target := by
  simp only [normalizeName] at h
  split at h
  · cases h
  · split at h
    · next hlabels =>
      cases h
      refine ⟨rfl, fun hmem => ?_⟩
      rcases mem_trimStar hmem with hc | hc | hc
      · cases hc
      · cases hc
      · have hjoin : ['.'].intercalate ((trimStar target).splitOn '.') = trimStar target :=
          intercalate_splitOn '.'
        rw [← hjoin] at hc
        rcases mem_of_mem_intercalate hc with hdot | ⟨label, hlabel, hc⟩
        · cases hdot
        · have hvalid := all_eq_true.mp hlabels label hlabel
          rw [validLabel, Bool.and_eq_true, all_eq_true] at hvalid
          exact absurd (hvalid.2 _ hc) (by decide)
    · cases h

theorem targetPrefix_of_normalizeTarget {target t : Text} (h : normalizeTarget target = .ok t) :
    targetPrefix t = rendered target := by
  unfold normalizeTarget at h
  unfold rendered
  cases hip : plainAddr (cleaned target) with
  | some ip =>
    simp only [hip] at h ⊢
    cases h
    rw [targetPrefix, parseAddr_string]
  | none =>
    simp only [hip] at h ⊢
    cases hpx : parsePrefix (cleaned target) with
    | some px =>
      simp only [hpx] at h ⊢
      cases h
      have hvalid : px.masked.Valid := Prefix.valid_masked (valid_of_parsePrefix hpx)
      rw [targetPrefix, parseAddr_prefix_string hvalid]
      exact parsePrefix_string hvalid
    | none =>
      simp only [hpx] at h ⊢
      obtain ⟨rfl, hpercent⟩ := chars_of_normalizeName h
      have hparse : parseAddr (cleaned target) = none := by
        cases ha : parseAddr (cleaned target) with
        | none => rfl
        | some a =>
          exfalso
          rcases chars_of_parseAddr ha with ⟨hzone, -⟩ | ⟨-, hmem⟩
          · rw [plainAddr, ha] at hip
            simp [hzone] at hip
          · exact hpercent hmem
      rw [targetPrefix, hparse, hpx]
      rfl

/-! ## The chain -/

section Chain

open Nft

def prefixRules (p : Policy) (action : Action) : List Nft.Rule :=
  p.egress.filterMap fun rule =>
    (targetPrefix rule.target).bind fun px =>
      if rule.action ≠ action then none
      else some ⟨[.daddr px], if action = .allow then .accept else .drop⟩

def guardRules (gateway : BitVec 32) : List Nft.Rule :=
  [⟨[.oifname "lo"], .accept⟩, ⟨[.reply], .accept⟩,
    ⟨[.daddr (Addr.v4 gateway).single, .dport .udp 53], .accept⟩,
    ⟨[.daddr (Addr.v4 gateway).single, .dport .tcp 53], .accept⟩,
    ⟨[.dport .udp 53], .drop⟩, ⟨[.dport .tcp 53], .drop⟩]

def tailRules (p : Policy) : List Nft.Rule :=
  [⟨[.daddrIn .ipv4 "dns4"], .accept⟩, ⟨[.daddrIn .ipv6 "dns6"], .accept⟩] ++
    if p.defaultAction = .allow then [⟨[], .accept⟩] else []

def policySets : String → Option ElementSet :=
  update (update (fun _ => none) "dns4" (some (.empty .ipv4 4096)))
    "dns6" (some (.empty .ipv6 4096))

def policyChain (p : Policy) (gateway : BitVec 32) : Chain :=
  ⟨.drop, guardRules gateway ++ prefixRules p .deny ++ prefixRules p .allow ++ tailRules p⟩

/-- The table that the script of a policy makes. -/
def policyTable (p : Policy) (gateway : BitVec 32) : Table where
  sets := policySets
  chains := update (fun _ => none) "output" (some (policyChain p gateway))

theorem isRule_prefixLine {px : Prefix} (h : px.Valid) (action : Action) :
    IsRule ((Family.of px.addr).word ++ " daddr ".toList ++ px.string ++ ' ' :: verdictWord action)
      ⟨[.daddr px], if action = .allow then .accept else .drop⟩ := by
  have hspace : ' ' ∉ px.string := fun hmem => absurd (chars_of_prefix_string h hmem) (by decide)
  have hverdict : ' ' ∉ verdictWord action := by
    unfold verdictWord
    split <;> decide
  have hline :
      (Family.of px.addr).word ++ " daddr ".toList ++ px.string ++ ' ' :: verdictWord action =
        [' '].intercalate
          [(Family.of px.addr).word, "daddr".toList, px.string, verdictWord action] := by
    simp [intercalate]
  have htail : readRule ([verdictWord action].map String.ofList) =
      some ⟨[], if action = .allow then .accept else .drop⟩ := by
    cases action <;> rfl
  rw [hline]
  exact isRule_daddr _ [verdictWord action] hspace (by simpa using hverdict)
    (readDaddr_prefixText h) htail

section

variable (p : Policy) (gateway : BitVec 32) (action : Action)

theorem isRule_ruleLines : List.Forall₂ IsRule (ruleLines p action) (prefixRules p action) := by
  rw [ruleLines, prefixRules]
  induction p.egress with
  | nil => exact .nil
  | cons rule rules ih =>
    cases htarget : targetPrefix rule.target with
    | none => simpa [filterMap_cons, htarget] using ih
    | some px =>
      by_cases haction : rule.action = action
      · simp only [filterMap_cons, htarget, Option.bind_some, haction, ne_eq,
          not_true_eq_false, if_false]
        exact .cons (isRule_prefixLine (valid_of_targetPrefix htarget) action) ih
      · simpa [filterMap_cons, htarget, haction] using ih

theorem isRule_gateway (proto : Text) {r : Nft.Rule} (hproto : ' ' ∉ proto)
    (hr : readRule [String.ofList proto, "dport", "53", "accept"] = some r) :
    IsRule ("ip daddr ".toList ++ string4 gateway ++ ' ' :: proto ++ " dport 53 accept".toList)
      (r.when (.daddr (Addr.v4 gateway).single)) := by
  have hspace : ' ' ∉ string4 gateway := fun hmem => absurd (isBody_of_mem_string4 hmem) (by decide)
  have hline : "ip daddr ".toList ++ string4 gateway ++ ' ' :: proto ++ " dport 53 accept".toList =
      [' '].intercalate ["ip".toList, "daddr".toList, string4 gateway, proto, "dport".toList,
        "53".toList, "accept".toList] := by
    simp [intercalate]
  have hread : readDaddr .ipv4 (String.ofList (string4 gateway)) =
      some (.daddr (Addr.v4 gateway).single) :=
    readDaddr_addr (a := .v4 gateway) rfl
  have hwords : ∀ w ∈ [proto, "dport".toList, "53".toList, "accept".toList], ' ' ∉ w :=
    forall_mem_cons.mpr ⟨hproto, by decide⟩
  rw [hline]
  exact isRule_daddr .ipv4 [proto, "dport".toList, "53".toList, "accept".toList] hspace
    hwords hread hr

theorem isRule_guardLines :
    List.Forall₂ IsRule (guardLines (string4 gateway)) (guardRules gateway) := by
  refine .cons ⟨by decide, by decide⟩ (.cons ⟨by decide, by decide⟩ (.cons ?_ (.cons ?_
    (.cons ⟨by decide, by decide⟩ (.cons ⟨by decide, by decide⟩ .nil)))))
  · have hudp : readRule ["udp", "dport", "53", "accept"] = some ⟨[.dport .udp 53], .accept⟩ := by
      decide
    simpa [Nft.Rule.when] using isRule_gateway gateway "udp".toList (by decide) hudp
  · have htcp : readRule ["tcp", "dport", "53", "accept"] = some ⟨[.dport .tcp 53], .accept⟩ := by
      decide
    simpa [Nft.Rule.when] using isRule_gateway gateway "tcp".toList (by decide) htcp

theorem isRule_tailLines : List.Forall₂ IsRule (tailLines p) (tailRules p) := by
  rw [tailLines, tailRules]
  refine .cons ⟨by decide, by decide⟩ (.cons ⟨by decide, by decide⟩ ?_)
  by_cases hallow : p.defaultAction = .allow
  · rw [if_pos hallow, if_pos hallow]
    exact .cons ⟨by decide, by decide⟩ .nil
  · rw [if_neg hallow, if_neg hallow]
    exact .nil

theorem newline_ruleLines : ∀ line ∈ ruleLines p action, '\n' ∉ line := by
  intro line hline hmem
  obtain ⟨rule, -, hrule⟩ := mem_filterMap.mp hline
  obtain ⟨px, hpx, hline⟩ := Option.bind_eq_some_iff.mp hrule
  split at hline
  · cases hline
  · cases hline
    have hword : '\n' ∉ (Family.of px.addr).word := by cases Family.of px.addr <;> decide
    have hverdict : '\n' ∉ ' ' :: verdictWord action := by
      unfold verdictWord
      split <;> decide
    rw [mem_append, mem_append, mem_append] at hmem
    rcases hmem with ((hmem | hmem) | hmem) | hmem
    · exact hword hmem
    · exact absurd hmem (by decide)
    · exact absurd (chars_of_prefix_string (valid_of_targetPrefix hpx) hmem) (by decide)
    · exact hverdict hmem

theorem newline_guardLines : ∀ line ∈ guardLines (string4 gateway), '\n' ∉ line := by
  have hgateway : '\n' ∉ string4 gateway :=
    fun hmem => absurd (isBody_of_mem_string4 hmem) (by decide)
  simp only [guardLines, forall_mem_cons]
  refine ⟨by decide, by decide, ?_, ?_, by decide, by decide, by simp⟩ <;>
  · rw [mem_append, mem_append]
    rintro ((hmem | hmem) | hmem)
    · exact absurd hmem (by decide)
    · exact hgateway hmem
    · exact absurd hmem (by decide)

theorem newline_tailLines : ∀ line ∈ tailLines p, '\n' ∉ line := by
  rw [tailLines]
  split <;> decide

theorem isRule_chainLines :
    List.Forall₂ IsRule (chainLines p (string4 gateway)) (policyChain p gateway).rules :=
  rel_append (rel_append (rel_append (isRule_guardLines gateway) (isRule_ruleLines p .deny))
    (isRule_ruleLines p .allow)) (isRule_tailLines p)

theorem newline_chainLines : ∀ line ∈ chainLines p (string4 gateway), '\n' ∉ line := by
  simp only [chainLines, forall_mem_append]
  exact ⟨⟨⟨newline_guardLines gateway, newline_ruleLines p .deny⟩, newline_ruleLines p .allow⟩,
    newline_tailLines p⟩

end

theorem execLines_headLines (R : Ruleset) : ∃ R₀ : Ruleset,
    execLines ⟨R, .top⟩ headLines =
      some ⟨R₀, .chain "hostel_policy" ⟨policySets, fun _ => none⟩ "output" ⟨.drop, []⟩⟩ ∧
    ∀ t, update R₀ "hostel_policy" t = update R "hostel_policy" t := by
  refine ⟨update (update R "hostel_policy" (some ((R "hostel_policy").getD .empty)))
    "hostel_policy" none, rfl, fun t => ?_⟩
  rw [update_idem, update_idem]

/-- **The script of a policy replaces the table, whatever was there before.** -/
theorem exec_renderPolicy (R : Ruleset) (p : Policy) (gateway : BitVec 32) :
    exec R (renderPolicy p (string4 gateway)) =
      some (update R "hostel_policy" (some (policyTable p gateway))) := by
  have hlines :
      ∀ line ∈ headLines ++ chainLines p (string4 gateway) ++ ["\x7d".toList, "\x7d".toList],
      '\n' ∉ line := by
    have hhead : ∀ line ∈ headLines, '\n' ∉ line := by simp [headLines]
    have hclose : ∀ line ∈ ["\x7d".toList, "\x7d".toList], '\n' ∉ line := by decide
    simp only [forall_mem_append]
    exact ⟨⟨hhead, newline_chainLines p gateway⟩, hclose⟩
  obtain ⟨R₀, hopen, hreplace⟩ := execLines_headLines R
  have hload : execLines ⟨R, .top⟩ ((renderPolicy p (string4 gateway)).splitOn '\n') =
      some ⟨update R₀ "hostel_policy" (some (policyTable p gateway)), .top⟩ := by
    rw [renderPolicy, splitOn_unlines hlines, append_assoc, append_assoc, execLines_append, hopen,
      Option.bind_some, execLines_append, execLines_rules (isRule_chainLines p gateway),
      Option.bind_some, nil_append]
    rfl
  rw [exec, hload, hreplace]

/-! ## The verdict of the chain -/

/-- Some rule with the action matches the address, as the texts are read. -/
def Policy.hits (p : Policy) (action : Action) (ip : Addr) : Bool :=
  p.egress.any fun rule => (targetPrefix rule.target).any fun px => rule.action == action &&
    px.contains ip

theorem any_prefixRules (t : Table) (k : Packet) (p : Policy) (action : Action) :
    (prefixRules p action).any (Rule.applies t k) = p.hits action k.dst := by
  rw [prefixRules, Policy.hits]
  induction p.egress with
  | nil => rfl
  | cons rule rules ih =>
    rw [any_cons, ← ih]
    cases htarget : targetPrefix rule.target with
    | none => simp [htarget]
    | some px =>
      by_cases haction : rule.action = action
      · simp [htarget, haction, Rule.applies, Cond.holds]
      · simp [htarget, haction]

theorem verdict_of_mem_prefixRules {p : Policy} {action : Action} {r : Nft.Rule}
    (h : r ∈ prefixRules p action) : r.verdict = if action = .allow then .accept else .drop := by
  obtain ⟨rule, -, hrule⟩ := mem_filterMap.mp h
  obtain ⟨px, -, hr⟩ := Option.bind_eq_some_iff.mp hrule
  split at hr
  · cases hr
  · cases hr
    rfl

/-- A packet that leaves the machine, answers nothing and asks no resolver. -/
structure Outbound (k : Packet) : Prop where
  oifname : k.oifname ≠ "lo"
  reply : k.reply = false
  dport : k.dport ≠ 53 ∨ k.proto = .other

/-- The address is in the set of its family that answers of the resolver are put into. -/
def learned (sets : String → Option ElementSet) (ip : Addr) : Bool :=
  Table.mem ⟨sets, fun _ => none⟩ (if ip.is6 then "dns6" else "dns4") ip

theorem evaluate_guardRules {t : Table} {k : Packet} (hk : Outbound k) (gateway : BitVec 32)
    (rules : List Nft.Rule) (policy : Verdict) :
    evaluate t k (guardRules gateway ++ rules) policy = evaluate t k rules policy := by
  have hudp : (Cond.dport .udp 53).holds t k = false := by
    rcases hk.dport with hport | hproto <;> simp [Cond.holds, *]
  have htcp : (Cond.dport .tcp 53).holds t k = false := by
    rcases hk.dport with hport | hproto <;> simp [Cond.holds, *]
  have hlo : (Cond.oifname "lo").holds t k = false := by simp [Cond.holds, hk.oifname]
  have hreply : Cond.reply.holds t k = false := hk.reply
  simp [guardRules, evaluate, Rule.applies, hudp, htcp, hlo, hreply]

theorem evaluate_tailRules (t : Table) (k : Packet) (p : Policy) :
    evaluate t k (tailRules p) .drop =
      if learned t.sets k.dst = true ∨ p.defaultAction = .allow then .accept else .drop := by
  have hdefault : evaluate t k (if p.defaultAction = .allow then [⟨[], .accept⟩] else []) .drop =
      if p.defaultAction = .allow then .accept else .drop := by
    split <;> rfl
  have hblock : evaluate t k (tailRules p) .drop =
      if learned t.sets k.dst then .accept
      else evaluate t k (if p.defaultAction = .allow then [⟨[], .accept⟩] else []) .drop := by
    rw [tailRules, evaluate_block (v := .accept) (by simp)]
    cases hfamily : k.dst.is6 <;>
      simp [Rule.applies, Cond.holds, Family.of, learned, Table.mem, hfamily]
  rw [hblock, hdefault]
  cases learned t.sets k.dst <;> simp

/-- The verdict on a packet, by the chain that the policy's script loads and what the sets hold by
then. -/
def enforced (R : Ruleset) (p : Policy) (gateway : BitVec 32) (sets : String → Option ElementSet)
    (k : Packet) : Option Verdict :=
  match exec R (renderPolicy p (string4 gateway)) with
  | none => none
  | some R' =>
    match R' "hostel_policy" with
    | none => none
    | some t => (t.chains "output").map fun c => evaluate { t with sets := sets } k c.rules c.policy

theorem enforced_policyChain (R : Ruleset) (p : Policy) (gateway : BitVec 32)
    (sets : String → Option ElementSet) (k : Packet) :
    enforced R p gateway sets k = some (evaluate
      { policyTable p gateway with sets := sets } k (policyChain p gateway).rules .drop) := by
  unfold enforced
  rw [exec_renderPolicy]
  simp only [update_self]
  have hchain : (policyTable p gateway).chains "output" = some (policyChain p gateway) := by
    simp only [policyTable, update_self]
  rw [hchain, Option.map_some]
  have hpolicy : (policyChain p gateway).policy = .drop := rfl
  rw [hpolicy]

theorem enforced_eq {k : Packet} (hk : Outbound k) (R : Ruleset) (p : Policy) (gateway : BitVec 32)
    (sets : String → Option ElementSet) :
    enforced R p gateway sets k = some (if p.hits .deny k.dst then .drop
      else if p.hits .allow k.dst then .accept
      else if learned sets k.dst = true ∨ p.defaultAction = .allow then .accept else .drop) := by
  have hdeny : ∀ r ∈ prefixRules p .deny, r.verdict = .drop :=
    fun r hr => verdict_of_mem_prefixRules hr
  have hallow : ∀ r ∈ prefixRules p .allow, r.verdict = .accept :=
    fun r hr => verdict_of_mem_prefixRules hr
  rw [enforced_policyChain, policyChain, append_assoc, append_assoc, evaluate_guardRules hk,
    evaluate_block hdeny, evaluate_block hallow, any_prefixRules, any_prefixRules,
    evaluate_tailRules]

end Chain

/-! ## Accepted policies -/

/-- A rule and what it is normalised to. -/
structure Normalized (rule rule' : PolicyRule) : Prop where
  known : rule.action = .allow ∨ rule.action = .deny
  action : rule'.action = rule.action
  target : normalizeTarget rule.target = .ok rule'.target

theorem normalizeRules_iff {rules out : List PolicyRule} :
    normalizeRules rules = .ok out ↔ List.Forall₂ Normalized rules out := by
  induction rules generalizing out with
  | nil =>
    rw [normalizeRules, forall₂_nil_left_iff]
    exact ⟨fun h => (Except.ok.inj h).symm, fun h => by rw [h]⟩
  | cons rule rules ih =>
    constructor
    · intro h
      rw [normalizeRules] at h
      split at h
      · cases h
      next hknown =>
      split at h
      · cases h
      next target htarget =>
      split at h
      · cases h
      next out' hout =>
      cases h
      have hk : rule.action = .allow ∨ rule.action = .deny := by
        by_cases ha : rule.action = .allow
        · exact .inl ha
        · exact .inr (not_not.mp fun hd => hknown ⟨ha, hd⟩)
      exact .cons ⟨hk, rfl, htarget⟩ (ih.mp hout)
    · intro h
      obtain ⟨rule', out', hrule, hrules, rfl⟩ := forall₂_cons_left_iff.mp h
      have hknown : ¬(rule.action ≠ .allow ∧ rule.action ≠ .deny) := fun hn =>
        hrule.known.elim hn.1 hn.2
      rw [normalizeRules, if_neg hknown, hrule.target]
      simp only [ih.mpr hrules]
      rw [← hrule.action]

theorem exists_normalized {rules out : List PolicyRule} (h : List.Forall₂ Normalized rules out)
    {rule : PolicyRule} (hrule : rule ∈ rules) : ∃ rule', Normalized rule rule' := by
  induction h with
  | nil => cases hrule
  | cons hhead _ ih =>
    rcases mem_cons.mp hrule with rfl | hrule
    · exact ⟨_, hhead⟩
    · exact ih hrule

structure Accepted (p p' : Policy) : Prop where
  known : defaultOf p = .allow ∨ defaultOf p = .deny
  size : p.egress.length ≤ 1024
  default_eq : p'.defaultAction = defaultOf p
  rules : List.Forall₂ Normalized p.egress p'.egress

variable {p p' : Policy}

theorem normalizePolicy_iff : normalizePolicy p = .ok p' ↔ Accepted p p' := by
  rw [normalizePolicy]
  constructor
  · intro h
    split at h
    · cases h
    next hdefault =>
    split at h
    · cases h
    next hsize =>
    split at h
    · cases h
    next egress hrules =>
    cases h
    have hk : defaultOf p = .allow ∨ defaultOf p = .deny := by
      by_cases ha : defaultOf p = .allow
      · exact .inl ha
      · exact .inr (not_not.mp fun hd => hdefault ⟨ha, hd⟩)
    exact ⟨hk, by omega, rfl, normalizeRules_iff.mp hrules⟩
  · rintro ⟨hknown, hsize, hdefault, hrules⟩
    rw [if_neg fun hn => hknown.elim hn.1 hn.2, if_neg (by omega), normalizeRules_iff.mpr hrules]
    obtain ⟨d, egress⟩ := p'
    cases hdefault
    rfl

theorem Accepted.perm {p p' q : Policy} (h : Accepted p p')
    (hdefault : q.defaultAction = p.defaultAction) (hperm : q.egress.Perm p.egress) :
    ∃ q', Accepted q q' ∧ q'.egress.Perm p'.egress ∧
      q'.defaultAction = p'.defaultAction := by
  obtain ⟨egress, hrules, hperm'⟩ := perm_comp_forall₂ hperm h.rules
  have hdef : defaultOf q = defaultOf p := by rw [defaultOf, defaultOf, hdefault, hperm.length_eq]
  refine ⟨⟨defaultOf q, egress⟩, ⟨?_, ?_, rfl, hrules⟩, hperm', ?_⟩
  · rw [hdef]
    exact h.known
  · rw [hperm.length_eq]
    exact h.size
  · rw [h.default_eq]
    exact hdef

/-! ## Mapped prefixes -/

/-- No target is a prefix of mapped addresses. -/
def Policy.NoMappedPrefix (p : Policy) : Prop :=
  ∀ rule ∈ p.egress, ∀ px, parsePrefix (cleaned rule.target) = some px → px.isMapped = false

/-- A target is rendered for what it denotes, unless it is a mapped prefix. -/
theorem rendered_iff (target : Text) :
    (∀ ip, (∃ px, rendered target = some px ∧ px.contains ip = true) ↔ Denotes target ip) ↔
      ∀ px, parsePrefix (cleaned target) = some px → px.isMapped = false := by
  constructor
  · intro h px hpx
    by_contra hmapped
    obtain ⟨b, hin, hout⟩ := Prefix.exists_contains_unmapped (Bool.eq_true_of_not_eq_false hmapped)
    have hplain := plainAddr_of_parsePrefix hpx
    have hdenotes : Denotes target (.v4 b) := ⟨px.unmapped, by simp [denoted, hplain, hpx], hin⟩
    obtain ⟨qx, hqx, hcontains⟩ := (h (.v4 b)).mpr hdenotes
    simp only [rendered, hplain, hpx, Option.map_some, Option.some.injEq] at hqx
    rw [← hqx, Prefix.contains_masked, hout] at hcontains
    cases hcontains
  · intro h ip
    unfold Denotes rendered denoted
    cases plainAddr (cleaned target) with
    | some a => rfl
    | none =>
      cases hpx : parsePrefix (cleaned target) with
      | none => simp
      | some px => simp [Prefix.unmapped, h px hpx]

/-- What the rules of an accepted policy match, in terms of the targets it was given. -/
theorem hits_iff (h : Accepted p p') (action : Action) (ip : Addr) :
    p'.hits action ip = true ↔ ∃ rule ∈ p.egress, rule.action = action ∧
      ∃ px, rendered rule.target = some px ∧ px.contains ip = true := by
  have hrules := h.rules
  rw [Policy.hits, any_eq_true]
  generalize p.egress = rules at hrules ⊢
  generalize p'.egress = rules' at hrules ⊢
  induction hrules with
  | nil => simp
  | @cons rule rule' rules rules' hrule _ ih =>
    rw [exists_mem_cons_iff, exists_mem_cons_iff]
    refine or_congr ?_ ih
    rw [targetPrefix_of_normalizeTarget hrule.target, hrule.action]
    cases rendered rule.target <;> simp

theorem covers_iff (h : Accepted p p') (hmapped : p.NoMappedPrefix) (action : Action)
    (ip : Addr) : p'.hits action ip = true ↔ p.Covers action ip := by
  rw [hits_iff h]
  refine exists_congr fun rule => and_congr_right fun hrule => and_congr_right fun _ => ?_
  exact (rendered_iff rule.target).mpr (hmapped rule hrule) ip

/-- What a policy should come to, in the kernel and in the resolver. -/
structure Policy.Enforced (p p' : Policy) (gateway : BitVec 32) : Prop where
  /-- A normalised target is read as the addresses that the target denotes. -/
  rules : ∀ rule ∈ p.egress, ∀ t, normalizeTarget rule.target = .ok t →
    ∀ ip, (∃ px, targetPrefix t = some px ∧ px.contains ip = true) ↔ Denotes rule.target ip
  verdict : ∀ R sets k, Outbound k →
    enforced R p' gateway sets k = some (p.verdictFor (learned sets k.dst) k.dst)
  order : ∀ q : Policy, q.defaultAction = p.defaultAction → q.egress.Perm p.egress →
    ∃ q', normalizePolicy q = .ok q' ∧ ∀ R sets k, Outbound k →
      enforced R q' gateway sets k = enforced R p' gateway sets k
  /-- The resolver refuses exactly the answers that the chain would drop by a rule. -/
  denies : ∀ ip, p'.deniesIP ip = true ↔ p.Covers .deny ip

/-- **An accepted policy is enforced exactly if none of its targets is a prefix of mapped
addresses.** -/
theorem policy_enforced_iff (h : normalizePolicy p = .ok p') (gateway : BitVec 32) :
    p.Enforced p' gateway ↔ p.NoMappedPrefix := by
  have haccepted := normalizePolicy_iff.mp h
  constructor
  · intro henforced rule hrule
    obtain ⟨rule', hnormal⟩ := exists_normalized haccepted.rules hrule
    have hread := henforced.rules rule hrule rule'.target hnormal.target
    rw [targetPrefix_of_normalizeTarget hnormal.target] at hread
    exact (rendered_iff rule.target).mp hread
  · intro hmapped
    refine ⟨?_, ?_, ?_, ?_⟩
    · intro rule hrule t ht ip
      rw [targetPrefix_of_normalizeTarget ht]
      exact (rendered_iff rule.target).mpr (hmapped rule hrule) ip
    · intro R sets k hk
      have hdeny := covers_iff haccepted hmapped .deny k.dst
      have hallow := covers_iff haccepted hmapped .allow k.dst
      rw [enforced_eq hk, Policy.verdictFor, haccepted.default_eq]
      by_cases hd : p.Covers .deny k.dst
      · rw [if_pos (hdeny.mpr hd), if_pos hd]
      · rw [if_neg fun hhit => hd (hdeny.mp hhit), if_neg hd]
        by_cases ha : p.Covers .allow k.dst
        · rw [if_pos (hallow.mpr ha), if_pos (.inl ha)]
        · rw [if_neg fun hhit => ha (hallow.mp hhit)]
          simp only [ha, false_or]
    · intro q hdefault hperm
      obtain ⟨q', hq, hperm', hdefault'⟩ := haccepted.perm hdefault hperm
      refine ⟨q', normalizePolicy_iff.mpr hq, fun R sets k hk => ?_⟩
      rw [enforced_eq hk, enforced_eq hk, Policy.hits, Policy.hits, hperm'.any_eq,
        hperm'.any_eq, hdefault']
      rfl
    · exact covers_iff haccepted hmapped .deny

/-- A policy with an address, a mapped address, a prefix and a name. -/
def mixedPolicy : Policy where
  defaultAction := .unset
  egress :=
    [⟨.deny, "10.1.2.3/8".toList⟩, ⟨.allow, "::FFFF:1.2.3.4".toList⟩,
      ⟨.allow, "2001:db8::1".toList⟩, ⟨.allow, "*.Example.com.".toList⟩]

theorem policy_enforced_mixed : ∃ p', normalizePolicy mixedPolicy = .ok p' ∧
    mixedPolicy.Enforced p' 0xc6120001 := by
  have haccepted : normalizePolicy mixedPolicy = .ok ⟨.deny, [⟨.deny, "10.0.0.0/8".toList⟩,
      ⟨.allow, "1.2.3.4".toList⟩, ⟨.allow, "2001:db8::1".toList⟩,
      ⟨.allow, "*.example.com".toList⟩]⟩ := by
    decide +kernel
  have hmapped : (mixedPolicy.egress.all fun rule =>
      (parsePrefix (cleaned rule.target)).all fun px => !px.isMapped) = true := by decide +kernel
  refine ⟨_, haccepted, (policy_enforced_iff haccepted _).mpr fun rule hrule px hpx => ?_⟩
  have hall := all_eq_true.mp hmapped rule hrule
  rw [hpx] at hall
  simpa using hall

/-- A policy that denies the block `1.2.3.0/24`, written as a mapped prefix. -/
def mappedPolicy : Policy where
  defaultAction := .allow
  egress := [⟨.deny, "::ffff:1.2.3.0/120".toList⟩]

def toDenied : Nft.Packet where
  oifname := "np0"
  reply := false
  dst := .v4 0x01020304
  proto := .tcp
  dport := 443

/-- The rule for a mapped prefix denies no IPv4 packet and no answer of the resolver. -/
theorem mapped_prefix_accepted : ∃ p', normalizePolicy mappedPolicy = .ok p' ∧ Outbound toDenied ∧
    Denotes "::ffff:1.2.3.0/120".toList toDenied.dst ∧
    mappedPolicy.verdictFor false toDenied.dst = .drop ∧
    enforced (fun _ => none) p' 0xc6120001 (fun _ => none) toDenied = some .accept ∧
    p'.deniesIP toDenied.dst = false := by
  have hdenotes : Denotes "::ffff:1.2.3.0/120".toList toDenied.dst :=
    ⟨⟨.v4 0x01020300, 24⟩, by decide +kernel, by decide +kernel⟩
  have hcovers : mappedPolicy.Covers .deny toDenied.dst := ⟨_, mem_cons_self, rfl, hdenotes⟩
  have haccepted : normalizePolicy mappedPolicy =
      .ok ⟨.allow, [⟨.deny, "::ffff:1.2.3.0/120".toList⟩]⟩ := by
    decide +kernel
  refine ⟨_, haccepted, ⟨by decide, rfl, .inl (by decide)⟩, hdenotes, if_pos hcovers, ?_, ?_⟩
  · decide +kernel
  · decide +kernel

end Hostel.Network
