/-
# Hostel.Network.Verdict — the verdict on a name, and the answers that pass it.

`domainAction` is a loop that ends at the first deny rule; its verdict is that of the set of rules
(`domainFrom_eq`).  `exchange` asks for it twice: for the question, and with another default for
each alias in the answer.
-/
import Hostel.Network.PolicyControl

namespace Hostel.Network

open Hostel.Logic Hostel.Logic.Netip List Program

/-- A rule for names matches the name, which is in lower case and has lost its last dot. -/
def PolicyRule.matches (rule : PolicyRule) (name : Text) : Bool :=
  (targetPrefix rule.target).isNone && match rule.target with
    | '*' :: '.' :: rest => ('.' :: rest).isSuffixOf name
    | target => target == name

variable {name base : Text}

theorem domainFrom_cons (rule : PolicyRule) (rules : List PolicyRule) (action : Action) :
    domainFrom name (rule :: rules) action =
      if rule.matches name then if rule.action = .deny then .deny else domainFrom name rules .allow
      else domainFrom name rules action := by
  rw [domainFrom, PolicyRule.matches]
  cases targetPrefix rule.target with
  | none | some px => rfl

theorem domainFrom_eq (rules : List PolicyRule) (action : Action) :
    domainFrom name rules action = if ∃ r ∈ rules, r.matches name ∧ r.action = .deny then .deny
      else if ∃ r ∈ rules, r.matches name then .allow else action := by
  induction rules generalizing action with
  | nil => simp [domainFrom]
  | cons rule rules ih =>
    rw [domainFrom_cons, ih, ih]
    by_cases hmatch : rule.matches name = true
    · by_cases hdeny : rule.action = .deny <;> simp [hmatch, hdeny]
    · simp [hmatch]

/-- An alias is refused for a deny rule, never for the default. -/
theorem deniesAlias_of_rule {p : Policy} {rule : PolicyRule} (hrule : rule ∈ p.egress)
    (hmatch : rule.matches (toLower (trimDot name)) = true) (hdeny : rule.action = .deny) :
    p.deniesAlias name = true := by
  have hex : ∃ r ∈ p.egress, r.matches (toLower (trimDot name)) ∧ r.action = .deny :=
    ⟨rule, hrule, hmatch, hdeny⟩
  simp only [Policy.deniesAlias, Policy.domainAction, domainFrom_eq, if_pos hex]
  rfl

theorem known_of_normalized {rules out : List PolicyRule} (h : Forall₂ Normalized rules out) :
    ∀ r ∈ out, r.action = .allow ∨ r.action = .deny := by
  induction h with
  | nil => simp
  | cons hhead _ ih => exact forall_mem_cons.mpr ⟨hhead.action ▸ hhead.known, ih⟩

/-! ## Wildcards -/

theorem targetPrefix_star (base : Text) : targetPrefix ('*' :: '.' :: base) = none := by
  have haddr (s : Text) : parseAddr ('*' :: '.' :: s) = none := by
    have hsplit : ('*' :: '.' :: s).splitOn '.' = ['*'] :: s.splitOn '.' := rfl
    have hdecimal : decimal 255 ['*'] = none := by decide
    simp [parseAddr, parseIPv4, parseIPv4Fields, hsplit, hdecimal]
  have hprefix : parsePrefix ('*' :: '.' :: base) = none := by
    rw [parsePrefix]
    split
    · rfl
    · next ip bits hcut =>
      -- what stands before a slash begins with the star as well
      have hs := eq_of_cutLast hcut
      rcases ip with _ | ⟨a, _ | ⟨b, ip⟩⟩ <;> cases hs
      rw [haddr]
  rw [targetPrefix, haddr, hprefix]

theorem suffix_intercalate {labels rest : List Text} (h : labels ≠ []) (hrest : rest ≠ []) :
    '.' :: ['.'].intercalate rest <:+ ['.'].intercalate (labels ++ rest) := by
  induction labels with
  | nil => exact absurd rfl h
  | cons l labels ih =>
    rw [cons_append, intercalate_cons_of_ne_nil (by simp [hrest])]
    obtain rfl | hne := eq_or_ne labels []
    · exact ⟨l, by simp⟩
    · exact (ih hne).trans (suffix_append ..)

theorem matches_star_iff {action : Action} :
    PolicyRule.matches ⟨action, '*' :: '.' :: base⟩ name = true ↔
    ∃ labels, labels ≠ [] ∧ name.splitOn '.' = labels ++ base.splitOn '.' := by
  simp only [PolicyRule.matches, targetPrefix_star, Option.isNone_none, Bool.true_and,
    isSuffixOf_iff_suffix]
  constructor
  · rintro ⟨front, rfl⟩
    exact ⟨front.splitOn '.', by simp, splitOn_append_cons_self ..⟩
  · rintro ⟨labels, hne, hsplit⟩
    have h := suffix_intercalate hne (show base.splitOn '.' ≠ [] by simp)
    rwa [← hsplit, intercalate_splitOn, intercalate_splitOn] at h

/-! ## Spellings -/

theorem lowerRune_eq_dot {c : Char} : lowerRune c = '.' ↔ c = '.' := by
  refine ⟨fun h => ?_, fun h => by rw [h]; decide⟩
  unfold lowerRune Char.toLower at h
  split at h
  · cases h
  · split at h
    · cases h
    · split at h
      · have hval : c.val + 32 = 46 := congrArg Char.val h
        grind
      · exact h

theorem toLower_trimDot (name : Text) : toLower (trimDot name) = trimDot (toLower name) := by
  have hlast : (name.map lowerRune).getLast? = some '.' ↔ name.getLast? = some '.' := by
    simp [getLast?_map, lowerRune_eq_dot]
  simp only [toLower, trimDot, hlast]
  split <;> simp

/-! ## Exchanges -/

variable {unpack : Payload → Option Message} {gateway : BitVec 32} {τ : List ControlStep}
  {c d : Config Control ControlPc} {t : ThreadId} {x : ControlChoice} {data : Payload}

/-- An answer is passed on by the judgement of a reply to a question that the policy in force
allows. -/
theorem ControlSound.answered (h : ControlSound unpack τ c)
    (hs : (controlProgram unpack gateway).machine.step c (.move t x) = some d)
    (hd : d.threads t = some (.exchange (.done (.answered data)))) :
    ∃ query q answer l, c.threads t =
    some (.exchange (.replied query q c.shared.revision answer data)) ∧
      replyTo unpack query q data = .ok answer ∧ c.shared.current.domainAction q.name = .allow ∧
      c.shared.current.collect answer.answers = some l := by
  obtain ⟨p, s, p', hp, hmove, rfl⟩ := step_move.mp hs
  simp only [Function.update_self, Option.some.injEq] at hd
  cases controlMove_of hmove with
  | update | close => cases hd
  | exchange hexchange =>
    cases hexchange with
    | ask | lose | arrive => cases hd
    | reject hr =>
      cases hd
      exact absurd rfl (hr data)
    | judge now hr =>
      cases hr with
      | refused | failed => cases hd
      | answered hrevision hcollect | learned hrevision hcollect =>
        cases hd
        subst hrevision
        obtain ⟨⟨-, hallow⟩, hreply⟩ := h.fresh t _ hp
        exact ⟨_, _, _, _, hp, hreply, hallow rfl, hcollect⟩

/-- **The verdict on a name**: what the rules that match it say, whatever their order and the
spelling of the name; a wildcard matches what has more labels than its base; and an answer is passed
on only for an allowed question, if it holds no alias that a rule denies and no denied address. -/
theorem name_verdict {p₀ p : Policy} (h : normalizePolicy p₀ = .ok p)
    (unpack : Payload → Option Message) (gateway : BitVec 32) :
    (∀ name, p.domainAction name =
      if ∃ r ∈ p.egress, r.matches (toLower (trimDot name)) ∧ r.action = .deny then .deny
      else if ∃ r ∈ p.egress, r.matches (toLower (trimDot name)) ∧ r.action = .allow then .allow
      else p.defaultAction) ∧
    (∀ egress name, (∀ r, r ∈ egress ↔ r ∈ p.egress) →
      { p with egress := egress }.domainAction name = p.domainAction name) ∧
    (∀ name name', toLower name = toLower name' → p.domainAction name = p.domainAction name') ∧
    (∀ name, name.getLast? ≠ some '.' → p.domainAction (name ++ ['.']) = p.domainAction name) ∧
    (∀ action base name, PolicyRule.matches ⟨action, '*' :: '.' :: base⟩ name = true ↔
      ∃ labels, labels ≠ [] ∧ name.splitOn '.' = labels ++ base.splitOn '.') ∧
    ∀ τ c, (controlProgram unpack gateway).machine.Trace (init (.init gateway)) τ c →
      c.shared.current = p →
      ∀ t x d data, (controlProgram unpack gateway).machine.step c (.move t x) = some d →
        d.threads t = some (.exchange (.done (.answered data))) →
        ∃ query q answer, c.threads t =
          some (.exchange (.replied query q c.shared.revision answer data)) ∧
          replyTo unpack query q data = .ok answer ∧ p.domainAction q.name = .allow ∧
          ∀ r ∈ answer.answers, (∀ name, r.body = .cname name →
            ∀ rule ∈ p.egress, rule.matches (toLower (trimDot name)) = true → rule.action ≠ .deny) ∧
            ∀ ip, r.ip = some ip → p.deniesIP ip = false := by
  have hknown := known_of_normalized (normalizePolicy_iff.mp h).rules
  refine ⟨fun name => ?_, fun egress name hmem => ?_, fun name name' hname => ?_,
    fun name hlast => ?_, fun _ _ _ => matches_star_iff, ?_⟩
  · rw [Policy.domainAction, domainFrom_eq]
    split
    · rfl
    · next hdeny =>
      have hallow : (∃ r ∈ p.egress, r.matches (toLower (trimDot name))) ↔
          ∃ r ∈ p.egress, r.matches (toLower (trimDot name)) ∧ r.action = .allow :=
        exists_congr fun r => and_congr_right fun hr => ⟨fun hmatch => ⟨hmatch,
          (hknown r hr).resolve_right fun hd => hdeny ⟨r, hr, hmatch, hd⟩⟩, And.left⟩
      simp only [hallow]
  · simp only [Policy.domainAction, domainFrom_eq, hmem]
  · rw [Policy.domainAction, toLower_trimDot, hname, ← toLower_trimDot]
    rfl
  · simp [Policy.domainAction, trimDot, hlast]
  · rintro τ c htrace rfl t x d data hs hd
    obtain ⟨query, q, answer, l, ht, hreply, hallow, hcollect⟩ :=
      (controlSound htrace).answered hs hd
    refine ⟨query, q, answer, ht, hreply, hallow, fun r hr => ?_⟩
    obtain ⟨halias, hdenied⟩ := (collect_spec hcollect).2 r hr
    refine ⟨fun name hname rule hrule hmatch hdeny => ?_, hdenied⟩
    have := deniesAlias_of_rule hrule hmatch hdeny
    rw [halias name hname] at this
    cases this

/-- A wildcard, an alias and a network that are denied, with one rule written twice. -/
def starPolicy : Policy :=
  ⟨.deny, [⟨.allow, "*.Io".toList⟩, ⟨.deny, "b.io".toList⟩, ⟨.deny, "5.6.7.0/24".toList⟩,
    ⟨.allow, "*.io".toList⟩]⟩

def starNormal : Policy :=
  ⟨.deny, [⟨.allow, "*.io".toList⟩, ⟨.deny, "b.io".toList⟩, ⟨.deny, "5.6.7.0/24".toList⟩,
    ⟨.allow, "*.io".toList⟩]⟩

/-- An alias and an address, and beside the answer section an address of the denied network. -/
def gluedAnswer : Message :=
  { someAnswer with
    answers :=
    [⟨60, .cname "c.io.".toList⟩, ⟨60, .a 0x01020304⟩], additionals := [⟨60, .a 0x05060708⟩] }

def gluedUnpack : Payload → Option Message
  | [0] => some someQuery
  | [1] => some gluedAnswer
  | _ => none

/-- The policy is set, the question asked, and its answer has arrived. -/
def gluedCalls : List (ThreadAct ControlPc ControlChoice (Addr → Bool)) :=
  [.call 0 (.update (.start ⟨some starPolicy, none, none⟩)), .move 0 (.script true),
    .call 1 (.exchange (.start [0])), .move 1 .go, .move 1 (.upstream (some [1]))]

theorem glued_answered : ∃ τ c d,
    (controlProgram gluedUnpack 0).machine.Trace (init (.init 0)) τ c ∧
    c.shared.current = starNormal ∧
    c.threads 1 =
    some (.exchange (.replied someQuery someQuestion c.shared.revision gluedAnswer [1])) ∧
    (controlProgram gluedUnpack 0).machine.step c (.move 1 (.judge 0 true)) = some d ∧
    d.threads 1 = some (.exchange (.done (.answered [1]))) := by
  obtain ⟨c, h, hcurrent, ht, d, hs, hd⟩ := (controlProgram gluedUnpack 0).machine.trace_of_any
    (init (.init 0)) gluedCalls
    (fun c => c.shared.current = starNormal ∧
      c.threads 1 =
      some (.exchange (.replied someQuery someQuestion c.shared.revision gluedAnswer [1])) ∧
      ∃ d, (controlProgram gluedUnpack 0).machine.step c (.move 1 (.judge 0 true)) = some d ∧
        d.threads 1 = some (.exchange (.done (.answered [1])))) (by decide +kernel)
  exact ⟨_, c, d, h, hcurrent, ht, hs, hd⟩

theorem name_verdict_answered : normalizePolicy starPolicy = .ok starNormal ∧
    (starNormal.domainAction "A.IO".toList = .allow ∧
      starNormal.domainAction "b.io.".toList = .deny) ∧
    ∃ τ c d, (controlProgram gluedUnpack 0).machine.Trace (init (.init 0)) τ c ∧
    c.shared.current = starNormal ∧
      (controlProgram gluedUnpack 0).machine.step c (.move 1 (.judge 0 true)) = some d ∧
      d.threads 1 = some (.exchange (.done (.answered [1]))) ∧
      starNormal.domainAction someQuestion.name = .allow ∧
      ∀ r ∈ gluedAnswer.answers, ∀ ip, r.ip = some ip → starNormal.deniesIP ip = false := by
  have h : normalizePolicy starPolicy = .ok starNormal := by decide +kernel
  obtain ⟨hverdict, -, -, -, -, hanswered⟩ := name_verdict h gluedUnpack 0
  obtain ⟨τ, c, d, htrace, hcurrent, ht, hs, hd⟩ := glued_answered
  obtain ⟨query, q, answer, ht', -, hallow, hrecords⟩ :=
    hanswered τ c htrace hcurrent 1 _ d [1] hs hd
  cases ht.symm.trans ht'
  refine ⟨h, ⟨?_, ?_⟩, τ, c, d, htrace, hcurrent, hs, hd, hallow, fun r hr => (hrecords r hr).2⟩
  · rw [hverdict, if_neg (by decide +kernel), if_pos (by decide +kernel)]
  · rw [hverdict, if_pos (by decide +kernel)]

/-- Only the answer section is read: a denied address beside it reaches the caller. -/
theorem denied_additional_answered : normalizePolicy starPolicy = .ok starNormal ∧
    ∃ τ c d, (controlProgram gluedUnpack 0).machine.Trace (init (.init 0)) τ c ∧
    c.shared.current = starNormal ∧
      (controlProgram gluedUnpack 0).machine.step c (.move 1 (.judge 0 true)) = some d ∧
      d.threads 1 = some (.exchange (.done (.answered [1]))) ∧ gluedUnpack [1] = some gluedAnswer ∧
      ∃ r ∈ gluedAnswer.additionals, ∃ ip, r.ip = some ip ∧ starNormal.deniesIP ip = true := by
  obtain ⟨τ, c, d, htrace, hcurrent, -, hs, hd⟩ := glued_answered
  exact ⟨by decide +kernel, τ, c, d, htrace, hcurrent, hs, hd, rfl, ⟨60, .a 0x05060708⟩, by decide,
    .v4 0x05060708, rfl, by decide +kernel⟩

end Hostel.Network
