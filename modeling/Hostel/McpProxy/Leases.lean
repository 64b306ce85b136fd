/-
# Hostel.McpProxy.Leases — who refers to an entry of the pool, and who closes its client.

Two facts about all calls together: the reference count of an entry is the number of calls between
`acquire` and `release` (`Accounted.refs`), and an entry that has a client is in the pool, or some
call will close it before it returns (`Accounted.covered`).  An entry is evicted or reaped at count
zero, so a call that still refers to an entry outside the pool knows that `Close` took it out
(`Accounted.taken`), and its `release` finds the proxy closed.
-/
import Hostel.McpProxy.Proxy

namespace Hostel.McpProxy

open Hostel.Logic Function Option FiniteMap Program Nat List

/-! ## References, and who closes what -/

/-- The entry a call refers to, from `acquire` to `release`. -/
def RunPc.holds {ς : Type} : RunPc ς → Option EntryId
  | .evict e _ _ | .gate e | .check e | .connect e | .handshake e | .op e _ | .leave e _ |
    .release e _ => some e
  | _ => none

def ShutPc.owes : ShutPc → Bool
  | .leave => false
  | _ => true

/-- The loop has still to close the entry. -/
def DrainPc.Owes {ς : Type} [DecidableEq ς] (e : EntryId) : DrainPc ς → Prop
  | .pick rest => ∃ k, rest.lookup k = some e
  | .shut f pc rest => f = e ∧ pc.owes = true ∨ ∃ k, rest.lookup k = some e

namespace ProxyPc

variable {ς β : Type}

@[inherit_doc RunPc.holds]
def holds : ProxyPc ς β → Option EntryId
  | .run _ _ pc => pc.holds
  | _ => none

variable [DecidableEq ς]

/-- The call closes the client of the entry before it returns: it is about to, or it will see to it
in `release`. -/
def Owes (e : EntryId) : ProxyPc ς β → Prop
  | .run _ _ (.evict f old pc) => f = e ∨ old = e ∧ pc.owes = true
  | .run _ _ (.shut f pc _) => f = e ∧ pc.owes = true
  | .run _ _ pc => pc.holds = some e
  | .reap (.drain pc) | .close (.drain pc) => pc.Owes e
  | _ => False

theorem Owes.of_holds {pc : ProxyPc ς β} {e : EntryId} (h : pc.holds = some e) : pc.Owes e := by
  cases pc with
  | run name bundle pc =>
    cases pc with
    | evict f old pc => exact .inl (some.inj h)
    | shut f pc err => cases h
    | _ => exact h
  | _ => cases h

end ProxyPc

namespace Proxy

variable {ς β : Type} {s s' : Proxy ς} {t u : ThreadId} {e : EntryId} {c : ClientId}
  {E E' : Connection} {C : Client} {k : ConnectionKey ς} {x : ProxyChoice ς}

theorem idle_iff : s.idle e = true ↔ s.refs e = some 0 := by
  unfold idle refs
  cases s.entries e with
  | none | some E => simp

theorem closeClient_none (h : s.closeClient e c = some s') (hE : s'.entries e = some E) :
    E.client = none := by
  unfold closeClient at h
  split at h
  · cases h
    rw [show ((s.setEntry e _).setClient c _).entries e = some _ from setEntry_self, some.injEq]
      at hE
    exact hE ▸ rfl
  · cases h

/-- `closeConnection` owes an entry its closing until it has no client. -/
theorem shut_owes {pc : ShutPc} {r : Proxy ς × Option ShutPc} (hpc : Shutting t s e pc)
    (h : shutStep t s e pc x = some r) (howes : pc.owes = true) (hE : r.1.entries e = some E)
    (hc : E.client = some c) : ∃ pc', r.2 = some pc' ∧ pc'.owes = true := by
  unfold shutStep at h
  split at h
  · obtain ⟨q, hq, rfl⟩ := map_eq_some_iff.mp h
    exact ⟨_, rfl, rfl⟩
  · cases h
    obtain ⟨F, hF, -, hnone⟩ := hpc
    rw [hE, some.injEq] at hF
    rw [hF, hnone] at hc
    cases hc
  · obtain ⟨q, hq, rfl⟩ := map_eq_some_iff.mp h
    rw [closeClient_none hq hE] at hc
    cases hc
  · cases howes
  · cases h

variable [DecidableEq ς]

def Pooled (s : Proxy ς) (e : EntryId) : Prop := ∃ k, s.connections.lookup k = some e

theorem drain_owes {pc : DrainPc ς} {r : Proxy ς × Option (DrainPc ς)} (hpc : Draining t s pc)
    (h : drainStep t s pc x = some r) (howes : pc.Owes e) (hE : r.1.entries e = some E)
    (hc : E.client = some c) : ∃ pc', r.2 = some pc' ∧ pc'.Owes e := by
  unfold drainStep at h
  split at h
  · next rest k =>
    obtain ⟨f, hf, rfl⟩ := map_eq_some_iff.mp h
    refine ⟨_, rfl, ?_⟩
    obtain ⟨j, hj⟩ := howes
    by_cases hjk : j = k
    · subst hjk
      rw [hf, some.injEq] at hj
      exact .inl ⟨hj, rfl⟩
    · exact .inr ⟨j, by rw [lookup_erase, if_neg hjk, hj]⟩
  · next rest =>
    obtain ⟨hempty, -⟩ := ite_none_right_eq_some.mp h
    obtain ⟨j, hj⟩ := howes
    have hmem := AList.mem_lookup_iff.mp hj
    rw [isEmpty_iff.mp hempty] at hmem
    cases hmem
  · next f pc rest =>
    obtain ⟨q, hq, rfl⟩ := map_eq_some_iff.mp h
    refine ⟨_, rfl, ?_⟩
    rcases howes with ⟨rfl, howes⟩ | hrest
    · obtain ⟨pc', hpc', howes'⟩ := shut_owes hpc.1 hq howes hE hc
      rw [hpc']
      exact .inl ⟨rfl, howes'⟩
    · cases q.2 with
      | none => exact hrest
      | some pc' => exact .inr hrest
  · cases h

/-! ### What a move does to the pool and to the references -/

/-- The entries that leave the pool have no reference, and the mover is going to close them. -/
def Removes (s s' : Proxy ς) (pc' : ProxyPc ς β) : Prop :=
  ∀ e, s.Pooled e → s'.Pooled e ∨ s.refs e = some 0 ∧ pc'.Owes e

inductive PoolMove (t : ThreadId) (s : Proxy ς) (pc : ProxyPc ς β) (s' : Proxy ς)
    (pc' : ProxyPc ς β) : Prop
  | kept (connections : s'.connections = s.connections) (refs : ∀ f, s'.refs f = s.refs f)
      (holds : pc'.holds = pc.holds)
  | hit (e : EntryId) (n : Nat) (pooled : s.Pooled e) (connections : s'.connections = s.connections)
      (before : s.refs e = some n) (refs : ∀ f, s'.refs f = if f = e then
      some (n + 1) else s.refs f)
      (out : pc.holds = none) (holds : pc'.holds = some e)
  | new (fresh : s.refs t = none) (refs : ∀ f, s'.refs f = if f = t then some 1 else s.refs f)
      (pooled : s'.Pooled t) (removes : Removes s s' pc') (out : pc.holds = none)
      (holds : pc'.holds = some t)
  | release (e : EntryId) (n : Nat) (connections : s'.connections = s.connections)
    (before : s.refs e = some n)
      (refs : ∀ f, s'.refs f = if f = e then some (n - 1) else s.refs f) (held : pc.holds = some e)
      (out : pc'.holds = none) (shuts : s.closed = true → pc'.Owes e)
  | reap (refs : ∀ f, s'.refs f = s.refs f) (removes : Removes s s' pc') (out : pc.holds = none)
      (out' : pc'.holds = none)
  | take (refs : ∀ f, s'.refs f = s.refs f) (closed : s.closed = true) (counter : pc = .close .take)
      (owes : ∀ e, s.Pooled e → pc'.Owes e) (out' : pc'.holds = none)

section PoolMove

variable {pc pc' : ProxyPc ς β} (P : PoolMove t s pc s' pc')
include P

/-- An entry leaves the pool when nobody refers to it, or when `Close` takes the pool. -/
theorem PoolMove.pooled (h : s.Pooled e) :
    s'.Pooled e ∨ pc'.Owes e ∧ (s.refs e = some 0 ∨ pc = .close .take ∧ s.closed = true) := by
  have hsame : s'.connections = s.connections → s'.Pooled e := fun hconnections =>
    h.imp fun k hk => by rw [hconnections, hk]
  have hremoves : Removes s s' pc' → s'.Pooled e ∨ pc'.Owes e ∧
      (s.refs e = some 0 ∨ pc = .close .take ∧
      s.closed = true) := fun hr => (hr e h).imp_right fun ⟨hzero, howes⟩ => ⟨howes, .inl hzero⟩
  cases P with
  | kept hconnections | hit f m _ hconnections | release f m hconnections =>
    exact .inl (hsame hconnections)
  | new _ _ _ hr | reap _ hr => exact hremoves hr
  | take _ hclosed hcounter howes => exact .inr ⟨howes e h, .inr ⟨hcounter, hclosed⟩⟩

theorem PoolMove.known (h : ∃ n, s.refs e = some n) : ∃ n, s'.refs e = some n := by
  have hwrite : ∀ f m, (∀ g, s'.refs g = if g = f then some m else s.refs g) →
      ∃ n, s'.refs e = some n := by
    intro f m hrefs
    rw [hrefs]
    split
    · exact ⟨m, rfl⟩
    · exact h
  cases P with
  | kept _ hrefs | reap hrefs | take hrefs => rwa [hrefs]
  | hit f m _ _ _ hrefs | release f m _ _ hrefs => exact hwrite f _ hrefs
  | new _ hrefs => exact hwrite t _ hrefs

theorem PoolMove.holds (h : pc'.holds = some e) :
    pc.holds = some e ∨ s'.Pooled e ∧ ∃ n, s'.refs e = some n := by
  cases P with
  | kept _ _ hholds => exact .inl (hholds ▸ h)
  | hit f m hpooled hconnections _ hrefs _ hholds =>
    rw [hholds, some.injEq] at h
    subst h
    exact .inr ⟨hpooled.imp fun k hk => by rw [hconnections, hk], m + 1, by rw [hrefs, if_pos rfl]⟩
  | new _ hrefs hpooled _ _ hholds =>
    rw [hholds, some.injEq] at h
    subst h
    exact .inr ⟨hpooled, 1, by rw [hrefs, if_pos rfl]⟩
  | release f m _ _ _ _ hout | reap _ _ _ hout | take _ _ _ _ hout => rw [hout] at h; cases h

theorem PoolMove.shuts (hheld : pc.holds = some e) (hout : pc'.holds = none)
    (hclosed : s.closed = true) : pc'.Owes e := by
  cases P with
  | kept _ _ hholds => rw [hholds, hheld] at hout; cases hout
  | hit f m _ _ _ _ hout' | new _ _ _ _ hout' | reap _ _ hout' => rw [hout'] at hheld; cases hheld
  | release f m _ _ _ hheld' _ hshuts =>
    rw [hheld, some.injEq] at hheld'
    exact hheld' ▸ hshuts hclosed
  | take _ _ hcounter => rw [hcounter] at hheld; cases hheld

end PoolMove

/-- A move, as far as references and duties go. -/
structure Accounts (t : ThreadId) (s : Proxy ς) (pc : ProxyPc ς β) (s' : Proxy ς)
    (pc' : ProxyPc ς β) : Prop where
  pool : PoolMove t s pc s' pc'
  /-- Who connects a client refers to the entry. -/
  gains : ∀ e E c, s'.entries e = some E → E.client = some c →
    (∃ E, s.entries e = some E ∧ E.client = some c) ∨ pc'.holds = some e
  /-- A duty ends with the client, or is reconsidered in `release`. -/
  owes : ∀ e E c, pc.Owes e → s'.entries e = some E → E.client = some c →
    pc'.Owes e ∨ pc.holds = some e ∧ pc'.holds = none

variable {pc pc' : ProxyPc ς β}

theorem Accounts.behind (B : Behind s s') (hholds : pc'.holds = pc.holds)
    (howes : ∀ e E c, pc.Owes e → s'.entries e = some E → E.client = some c → pc'.Owes e) :
    Accounts t s pc s' pc' where
  pool := .kept B.connections B.refs hholds
  gains e E c hE hc := .inl (B.sheds e E c hE hc)
  owes e E c h hE hc := .inl (howes e E c h hE hc)

theorem Accounts.still (hconnections : s'.connections = s.connections)
    (hentries : s'.entries = s.entries) (hholds : pc'.holds = pc.holds) (hnot : ∀ e, ¬pc.Owes e) :
    Accounts t s pc s' pc' where
  pool := .kept hconnections (fun f => by rw [refs, hentries, refs]) hholds
  gains e E c hE hc := .inl ⟨E, hentries ▸ hE, hc⟩
  owes e E c h := absurd h (hnot e)

theorem pooled_insert {m : FiniteMap (ConnectionKey ς) EntryId} {now : Time}
    (hk : m.lookup k = none) (h : ∃ j, m.lookup j = some e) :
    (add { s with connections := m } t k now).Pooled e := by
  obtain ⟨j, hj⟩ := h
  exact ⟨j, insert_of_none hk hj⟩

theorem pooled_add {m : FiniteMap (ConnectionKey ς) EntryId} {now : Time} :
    (add { s with connections := m } t k now).Pooled t :=
  ⟨k, AList.lookup_insert _⟩

variable {prepare : β → Nat → Option (PreparedBundle ς)} {name : ς} {bundle : Option β}

theorem acquire_accounts {now : Time} {victim : Option (ConnectionKey ς)} {r : Proxy ς × RunPc ς}
    (hfresh : s.entries t = none) (h : acquireStep t s k now victim = some r) :
    Accounts t s (.run name bundle (.acquire k)) r.1 (.run name bundle r.2) := by
  have hnot : ∀ e, ¬ ProxyPc.Owes e (.run name bundle (.acquire k)) := fun e h => nomatch h
  have hgains : ∀ {m : FiniteMap (ConnectionKey ς) EntryId} {now : Time} e E c,
      (add { s with connections := m } t k now).entries e = some E → E.client = some c →
        ∃ E, s.entries e = some E ∧ E.client = some c := by
    intro m now e E c hE hc
    obtain ⟨-, rfl⟩ | ⟨-, hE⟩ := update_eq_some.mp hE
    · cases hc
    · exact ⟨E, hE, hc⟩
  unfold acquireStep at h
  split at h
  · cases h
    exact .still rfl rfl rfl hnot
  · split at h
    · next e hlookup =>
      obtain ⟨E, hE, rfl⟩ := map_eq_some_iff.mp h
      have hsheds : Sheds s (s.setEntry e { E with refs := E.refs + 1 }) := .setEntry hE (.inr rfl)
      refine ⟨.hit e E.refs ⟨k, hlookup⟩ rfl ?_ (fun f => refs_setEntry f) rfl rfl,
        fun f F c hF hc => .inl (hsheds f F c hF hc), fun e _ _ h => absurd h (hnot e)⟩
      rw [refs, hE, map_some]
    · next hk =>
      have hnone : s.refs t = none := by rw [refs, hfresh, map_none]
      split at h
      · cases h
        refine ⟨.new hnone (fun f => refs_setEntry f) (pooled_add (m := s.connections))
          (fun e he => ?_) rfl rfl, fun e E c hE hc =>
          .inl (hgains (m := s.connections) e E c hE hc), fun e _ _ h => absurd h (hnot e)⟩
        exact .inl (pooled_insert (m := s.connections) hk he)
      · split at h
        · obtain ⟨-, h⟩ := ite_none_right_eq_some.mp h
          cases h
          exact .still rfl rfl rfl hnot
        · next v =>
          obtain ⟨old, hold, rfl⟩ := map_eq_some_iff.mp h
          obtain ⟨hlookup, hidle⟩ := oldest_eq hold
          refine ⟨.new hnone (fun f => refs_setEntry f) pooled_add (fun e he => ?_) rfl rfl,
            fun e E c hE hc => .inl (hgains e E c hE hc), fun e _ _ h => absurd h (hnot e)⟩
          obtain ⟨j, hj⟩ := he
          by_cases hjv : j = v
          · -- the victim
            subst hjv
            rw [hlookup, some.injEq] at hj
            subst hj
            exact .inr ⟨idle_iff.mp hidle, .inr ⟨rfl, rfl⟩⟩
          · refine .inl (pooled_insert ?_ ⟨j, ?_⟩)
            · rw [lookup_erase, hk, ite_self]
            · rw [lookup_erase, if_neg hjv, hj]

theorem run_accounts (hI : Inv s) {pc : RunPc ς} {r : Proxy ς × RunPc ς} (hpc : Running t s pc)
    (h : runStep prepare t s name bundle pc x = some r) :
    Accounts t s (.run name bundle pc) r.1 (.run name bundle r.2) := by
  unfold runStep at h
  split at h
  case h_5 | h_6 | h_12 =>
    cases h
    exact .behind .refl rfl fun _ _ _ h _ _ => h
  · have hnot : ∀ e, ¬ ProxyPc.Owes e (.run name bundle (.start : RunPc ς)) := fun e h => nomatch h
    split at h <;> (try split at h) <;> (try split at h) <;> cases h <;>
      exact .still rfl rfl rfl hnot
  · exact acquire_accounts hpc.1 h
  · -- evict
    next e old pc =>
    obtain ⟨q, hq, rfl⟩ := map_eq_some_iff.mp h
    refine .behind (shut_own hI hpc.2.2 hq).2.2.1 ?_ fun f F c hf hF hc => ?_
    · cases q.2 <;> rfl
    · rcases hf with rfl | ⟨rfl, howes⟩
      · cases q.2 with
        | none => rfl
        | some pc' => exact .inl rfl
      · obtain ⟨pc', hpc', howes'⟩ := shut_owes hpc.2.2 hq howes hF hc
        rw [hpc']
        exact .inr ⟨rfl, howes'⟩
  · obtain ⟨q, hq, rfl⟩ := map_eq_some_iff.mp h
    exact .behind (enter_own hI hq).2.2.1 rfl fun _ _ _ h _ _ => h
  · -- check
    obtain ⟨E, hE, rfl⟩ := map_eq_some_iff.mp h
    cases E.client <;> exact .behind .refl rfl fun _ _ _ h _ _ => h
  · cases h
    exact .behind Behind.refl.setClient rfl fun _ _ _ h _ _ => h
  · obtain ⟨err, -, rfl⟩ := map_eq_some_iff.mp h
    exact .behind .refl rfl fun _ _ _ h _ _ => h
  · -- the handshake succeeds
    next e =>
    obtain ⟨E, hE, rfl⟩ := map_eq_some_iff.mp h
    refine ⟨.kept rfl (fun f => ?_) rfl, fun f F c hF hc => ?_, fun _ _ _ h _ _ => .inl h⟩
    · refine (refs_setEntry f).trans ?_
      split
      · next hfe => rw [hfe, refs, hE, map_some]
      · rfl
    · by_cases hfe : f = e
      · exact .inr (hfe ▸ rfl)
      · exact .inl ⟨F, (setEntry_of_ne hfe).symm.trans hF, hc⟩
  · obtain ⟨err, -, rfl⟩ := map_eq_some_iff.mp h
    exact .behind Behind.refl.setClient rfl fun _ _ _ h _ _ => h
  · obtain ⟨err, -, h⟩ := bind_eq_some_iff.mp h
    obtain ⟨s', hs', rfl⟩ := map_eq_some_iff.mp h
    exact .behind (closeClient_own hI hpc.2 hs').2.2.1 rfl fun _ _ _ h _ _ => h
  · obtain ⟨s', hs', rfl⟩ := map_eq_some_iff.mp h
    obtain ⟨-, client, hheld⟩ := hpc
    exact .behind (leave_own hI hheld hs').2.2.1 rfl fun _ _ _ h _ _ => h
  · -- release
    next e err now =>
    obtain ⟨E, hE, rfl⟩ := map_eq_some_iff.mp h
    have hout :
      ProxyPc.holds (.run name bundle (if s.closed = true then .shut e .enter err else .done err)) =
      none := by
      split <;> rfl
    have hsheds :
        Sheds s (s.setEntry e { E with refs := E.refs - 1, used := now }) := .setEntry hE (.inr rfl)
    refine ⟨.release e E.refs rfl ?_ (fun f => refs_setEntry f) rfl hout fun hclosed => ?_,
      fun f F c hF hc => .inl (hsheds f F c hF hc), fun f F c hf _ _ => .inr ⟨hf, hout⟩⟩
    · rw [refs, hE, map_some]
    · rw [if_pos hclosed]
      exact ⟨rfl, rfl⟩
  · -- shut
    next e pc err =>
    obtain ⟨q, hq, rfl⟩ := map_eq_some_iff.mp h
    refine .behind (shut_own hI hpc.2 hq).2.2.1 ?_ fun f F c hf hF hc => ?_
    · cases q.2 <;> rfl
    · obtain ⟨rfl, howes⟩ := hf
      obtain ⟨pc', hpc', howes'⟩ := shut_owes hpc.2 hq howes hF hc
      rw [hpc']
      exact ⟨rfl, howes'⟩
  · cases h

theorem reap_accounts (hI : Inv s) {pc : ReapPc ς} {r : Proxy ς × ReapPc ς} (hpc : Reaping t s pc)
    (h : reapStep t s pc x = some r) : Accounts t s (.reap pc : ProxyPc ς β) r.1 (.reap r.2) := by
  unfold reapStep at h
  split at h
  case h_1 | h_2 =>
    split at h <;> cases h
    exact .still rfl rfl rfl fun _ h => nomatch h
  · next now =>
    cases h
    refine ⟨.reap (fun _ => rfl) (fun e he => ?_) rfl rfl, fun e E c hE hc => .inl ⟨E, hE, hc⟩,
      fun _ _ _ h => nomatch h⟩
    obtain ⟨k, hk⟩ := he
    by_cases hstale : s.stale now e = true
    · exact .inr ⟨idle_iff.mp (Bool.and_eq_true_iff.mp hstale).1, k, lookup_filter.mpr ⟨hk, hstale⟩⟩
    · exact .inl ⟨k, lookup_filter.mpr ⟨hk, by simpa using hstale⟩⟩
  · obtain ⟨q, hq, rfl⟩ := map_eq_some_iff.mp h
    refine .behind (drain_own hI hpc.2 hq).2.2.1 rfl fun e E c he hE hc => ?_
    obtain ⟨pc', hpc', howes⟩ := drain_owes hpc.2 hq he hE hc
    rw [hpc']
    exact howes
  · cases h

theorem close_accounts [Inhabited ς] (hI : Inv s) {pc : ClosePc ς} {r : Proxy ς × ClosePc ς}
    (hpc : Ending t s pc) (h : closeStep t s pc x = some r) :
    Accounts t s (.close pc : ProxyPc ς β) r.1 (.close r.2) := by
  unfold closeStep at h
  split at h
  case h_4 =>
    cases h
    exact ⟨.take (fun _ => rfl) hpc.2.1 rfl (fun _ he => he) rfl,
      fun e E c hE hc => .inl ⟨E, hE, hc⟩, fun _ _ _ h => nomatch h⟩
  case h_5 =>
    obtain ⟨q, hq, rfl⟩ := map_eq_some_iff.mp h
    refine .behind (drain_own hI hpc.2 hq).2.2.1 rfl fun e E c he hE hc => ?_
    obtain ⟨pc', hpc', howes⟩ := drain_owes hpc.2 hq he hE hc
    rw [hpc']
    exact howes
  all_goals
    (try split at h) <;> cases h <;> exact .still rfl rfl rfl fun _ h => nomatch h

theorem configure_accounts {b : β} {pc : ConfigurePc} {r : Proxy ς × ConfigurePc}
    (h : configureStep prepare s b pc x = some r) :
    Accounts t s (.configure b pc) r.1 (.configure b r.2) := by
  unfold configureStep at h
  split at h <;> (try split at h) <;> (try split at h) <;> cases h <;>
    exact .still rfl rfl rfl fun _ h => nomatch h

theorem move_accounts [Inhabited ς] (hI : Inv s) (hpc : Asserts t s (some pc))
    (h : (program prepare).move t s pc x = some (s', pc')) : Accounts t s pc s' pc' := by
  cases pc with
  | run name bundle pc =>
    obtain ⟨_, hr, rfl⟩ := inner_move h
    exact run_accounts hI hpc hr
  | configure b pc =>
    obtain ⟨_, hr, rfl⟩ := inner_move h
    exact configure_accounts hr
  | reap pc =>
    obtain ⟨_, hr, rfl⟩ := inner_move h
    exact reap_accounts hI hpc.2 hr
  | close pc =>
    obtain ⟨_, hr, rfl⟩ := inner_move h
    exact close_accounts hI hpc.2 hr

/-! ## All calls together -/

def Refers (e : EntryId) (pc : ProxyPc ς β) : Bool := decide (pc.holds = some e)

structure Accounted (d : Config (Proxy ς) (ProxyPc ς β)) : Prop where
  refs : ∀ e n, d.shared.refs e = some n → Counts d.threads (Refers e) n
  /-- A call refers to an entry that is in the pool, or that `Close` took out. -/
  taken : ∀ u q e, d.threads u = some q → q.holds = some e → d.shared.Pooled e ∨
    d.shared.closed = true
  /-- An entry with a client is in the pool, or somebody will close it. -/
  covered : ∀ e E c, d.shared.entries e = some E → E.client = some c →
    d.shared.Pooled e ∨ ∃ u q, d.threads u = some q ∧ q.Owes e
  /-- What calls refer to exists. -/
  known : ∀ u q e, d.threads u = some q → q.holds = some e → ∃ n, d.shared.refs e = some n

variable {d d' : Config (Proxy ς) (ProxyPc ς β)} {q : ProxyPc ς β}

theorem Accounted.ne_zero (h : Accounted d) (hu : d.threads u = some q) (hq : q.holds = some e) :
    d.shared.refs e ≠ some 0 := by
  intro hzero
  have hnone := (h.refs e 0 hzero).none_of_zero (t := u)
  simp [hu, Refers, hq] at hnone

theorem Accounted.pooled_move (h : Accounted d) (A : Accounts t d.shared pc s' pc')
    (hclosed : d.shared.closed = true → s'.closed = true) (hu : d.threads u = some q)
    (hq : q.holds = some e) : s'.Pooled e ∨ s'.closed = true := by
  rcases h.taken u q e hu hq with hpooled | htaken
  · rcases A.pool.pooled hpooled with hpooled' | ⟨-, hzero | ⟨-, htake⟩⟩
    · exact .inl hpooled'
    · exact absurd hzero (h.ne_zero hu hq)
    · exact .inr (hclosed htake)
  · exact .inr (hclosed htaken)

section Move

variable (h : Accounted d) (ht : d.threads t = some pc) (A : Accounts t d.shared pc s' pc')
include h ht A

theorem Accounted.refs_move (e : EntryId) (n : Nat) (hn : s'.refs e = some n) :
    Counts (update d.threads t (some pc')) (Refers e) n := by
  have hmover : (d.threads t).any (Refers e) = decide (pc.holds = some e) := by rw [ht]; rfl
  cases A.pool with
  | kept _ hrefs hholds =>
    refine (h.refs e n (hrefs e ▸ hn)).stay ?_
    rw [hmover, Refers, hholds]
  | hit f m _ _ hbefore hrefs hout hholds =>
    rw [hrefs] at hn
    split at hn
    · next hef =>
      subst hef
      cases hn
      exact (h.refs e m hbefore).enter (by simp [hmover, hout]) (by simp [Refers, hholds])
    · next hef =>
      refine (h.refs e n hn).stay ?_
      simp [hmover, hout, Refers, hholds, Ne.symm hef]
  | new hfresh hrefs _ _ hout hholds =>
    rw [hrefs] at hn
    split at hn
    · next het =>
      subst het
      cases hn
      -- nobody refers to an entry that does not exist
      have hnone : ∀ u, (d.threads u).any (Refers e) = false := by
        intro u
        cases hu : d.threads u with
        | none => rfl
        | some q =>
          have hq : q.holds ≠ some e := fun hq => by
            obtain ⟨n, hn⟩ := h.known u q e hu hq
            rw [hfresh] at hn
            cases hn
          simpa [Refers] using hq
      exact (Counts.of_none hnone).enter (hnone e) (by simp [Refers, hholds])
    · next het =>
      refine (h.refs e n hn).stay ?_
      simp [hmover, hout, Refers, hholds, Ne.symm het]
  | release f m _ hbefore hrefs hheld hout _ =>
    rw [hrefs] at hn
    split at hn
    · next hef =>
      subst hef
      cases hn
      exact (h.refs e m hbefore).leave (by simp [hmover, hheld]) (by simp [Refers, hout])
    · next hef =>
      refine (h.refs e n hn).stay ?_
      simp [hmover, hout, Refers, hheld, Ne.symm hef]
  | reap hrefs _ hout hout' =>
    refine (h.refs e n (hrefs e ▸ hn)).stay ?_
    simp [hmover, hout, Refers, hout']
  | take hrefs _ hcounter _ hout' =>
    have hout : pc.holds = none := by rw [hcounter]; rfl
    refine (h.refs e n (hrefs e ▸ hn)).stay ?_
    simp [hmover, hout, Refers, hout']

theorem Accounted.taken_move (hclosed : d.shared.closed = true → s'.closed = true)
    (hu : update d.threads t (some pc') u = some q) (hq : q.holds = some e) :
    s'.Pooled e ∨ s'.closed = true := by
  rcases of_update hu with ⟨rfl, rfl⟩ | ⟨-, hu⟩
  · rcases A.pool.holds hq with hheld | ⟨hpooled, -⟩
    · exact h.pooled_move A hclosed ht hheld
    · exact .inl hpooled
  · exact h.pooled_move A hclosed hu hq

theorem Accounted.known_move (hu : update d.threads t (some pc') u = some q)
    (hq : q.holds = some e) : ∃ n, s'.refs e = some n := by
  rcases of_update hu with ⟨rfl, rfl⟩ | ⟨-, hu⟩
  · rcases A.pool.holds hq with hheld | ⟨-, hknown⟩
    · exact A.pool.known (h.known u pc e ht hheld)
    · exact hknown
  · exact A.pool.known (h.known u q e hu hq)

theorem Accounted.covered_move (hE : s'.entries e = some E) (hc : E.client = some c) :
    s'.Pooled e ∨ ∃ u q, update d.threads t (some pc') u = some q ∧ q.Owes e := by
  have hmover : pc'.Owes e → ∃ u q, update d.threads t (some pc') u = some q ∧ q.Owes e :=
    fun howes =>
    ⟨t, pc', update_self .., howes⟩
  rcases A.gains e E c hE hc with ⟨F, hF, hc'⟩ | hholds
  · rcases h.covered e F c hF hc' with hpooled | ⟨u, q, hu, howes⟩
    · exact (A.pool.pooled hpooled).imp_right fun howes => hmover howes.1
    · by_cases hut : u = t
      · subst hut
        rw [ht, some.injEq] at hu
        subst hu
        rcases A.owes e E c howes hE hc with howes' | ⟨hheld, hout⟩
        · exact .inr (hmover howes')
        · -- `release`: the entry is in the pool, or the proxy is closed
          rcases h.taken u pc e ht hheld with hpooled | hclosed
          · exact (A.pool.pooled hpooled).imp_right fun howes => hmover howes.1
          · exact .inr (hmover (A.pool.shuts hheld hout hclosed))
      · exact .inr ⟨u, q, (update_of_ne hut ..).trans hu, howes⟩
  · exact .inr (hmover (.of_holds hholds))

end Move

variable [Inhabited ς] {a : ThreadAct (ProxyPc ς β) (ProxyChoice ς) Empty}

theorem Accounted.step (hout : Outlined Inv Asserts d) (h : Accounted d)
    (hs : (program prepare).machine.step d a = some d') : Accounted d' := by
  cases a with
  | call t p =>
    obtain ⟨ht, hp, rfl⟩ := step_call.mp hs
    have hholds : p.holds = none := by
      cases p with
      | run name bundle pc =>
        cases pc with
        | start => rfl
        | _ => cases hp
      | _ => rfl
    have hold : ∀ {u q e}, update d.threads t (some p) u = some q → q.holds = some e →
        d.threads u = some q := by
      intro u q e hu hq
      rcases of_update hu with ⟨-, rfl⟩ | ⟨-, hu⟩
      · rw [hholds] at hq
        cases hq
      · exact hu
    refine ⟨fun e n hn => (h.refs e n hn).stay ?_, fun u q e hu hq => h.taken u q e (hold hu hq) hq,
      fun e E c hE hc => ?_, fun u q e hu hq => h.known u q e (hold hu hq) hq⟩
    · simp [ht, Refers, hholds]
    · refine (h.covered e E c hE hc).imp_right fun ⟨u, q, hu, howes⟩ => ⟨u, q, ?_, howes⟩
      exact update_of_none ht hu
  | move t x =>
    obtain ⟨pc, s', pc', ht, hm, rfl⟩ := step_move.mp hs
    have hpc := hout.asserts ht
    have A := move_accounts hout.1 hpc hm
    have hclosed := (move_own hout.1 hpc hm).2.1.flags.closed
    exact ⟨h.refs_move ht A, fun u q e hu hq => h.taken_move ht A hclosed hu hq,
      fun e E c hE hc => h.covered_move ht A hE hc, fun u q e hu hq => h.known_move ht A hu hq⟩
  | world e => exact e.elim

section Runs

variable {maxConnections idleTimeout : Int} {τ : List (Config (Proxy ς) (ProxyPc ς β) × _)}

theorem inv_new : Inv (new maxConnections idleTimeout : Proxy ς) where
  size := zero_le _
  pooled _ _ h := nomatch h
  key _ _ _ h := nomatch h
  client _ _ _ h := nomatch h
  connected _ _ h := nomatch h
  unreaped _ := rfl
  finished h := nomatch h

section

variable (h : (program prepare).machine.Trace (init (new maxConnections idleTimeout)) τ d)
include h

theorem outlined : Outlined Inv Asserts d :=
  (outline prepare).proof_outline inv_new (fun _ => ⟨rfl, rfl⟩) h

theorem accounted : Accounted d := by
  refine h.always ?_ fun hτ hd => hd.step (outlined hτ)
  exact ⟨(fun _ _ h => nomatch h), (fun _ _ _ h => nomatch h), (fun _ _ _ h => nomatch h),
    (fun _ _ _ h => nomatch h)⟩

theorem maxConnections_run :
    d.shared.maxConnections = (new maxConnections idleTimeout : Proxy ς).maxConnections := by
  refine (outline prepare).stable h ⟨inv_new, fun _ => ⟨rfl, rfl⟩⟩
    (Q := fun d => d.shared.maxConnections =
    (new maxConnections idleTimeout : Proxy ς).maxConnections) rfl ?_
  intro c a d hout hc hs
  refine (hout.step_shared (R := fun s s' => s'.maxConnections = s.maxConnections) hs rfl
    ?_ ?_).trans hc
  · exact fun hA hm => (move_own hout.1 hA hm).2.1.flags.max
  · exact fun {e _} _ => e.elim

end

end Runs

end Proxy

/-- The client a call is using or closing. -/
def ShutPc.client : ShutPc → Option ClientId
  | .shut client => client
  | _ => none

@[inherit_doc ShutPc.client]
def DrainPc.client {ς : Type} : DrainPc ς → Option ClientId
  | .shut _ pc _ => pc.client
  | _ => none

@[inherit_doc ShutPc.client]
def ProxyPc.client {ς β : Type} (t : ThreadId) : ProxyPc ς β → Option ClientId
  | .run _ _ (.handshake _) => some t
  | .run _ _ (.op _ c) => some c
  | .run _ _ (.evict _ _ pc) | .run _ _ (.shut _ pc _) | .reap (.drain pc) | .close (.drain pc) =>
    pc.client
  | _ => none

namespace Proxy

variable {ς β : Type} [DecidableEq ς] {s : Proxy ς} {t u : ThreadId} {e : EntryId} {c : ClientId}

omit [DecidableEq ς] in
theorem Shutting.held {pc : ShutPc} (h : Shutting t s e pc) (hc : pc.client = some c) :
    s.Held t e (some c) := by
  cases pc with
  | shut client => exact hc ▸ h
  | _ => cases hc

theorem Draining.held {pc : DrainPc ς} (h : Draining t s pc) (hc : pc.client = some c) :
    ∃ e, s.Held t e (some c) := by
  cases pc with
  | pick rest => cases hc
  | shut e pc rest => exact ⟨e, h.1.held hc⟩

theorem Asserts.uses {pc : ProxyPc ς β} (h : Asserts t s (some pc)) (hc : pc.client t = some c) :
    (∃ e, s.Held t e (some c)) ∨ c = t ∧ ∃ e, s.clients t = some { entry := e } := by
  cases pc with
  | run name bundle pc =>
    cases pc with
    | evict e old pc => exact .inl ⟨old, h.2.2.held hc⟩
    | handshake e => exact .inr ⟨(some.inj hc).symm, e, h.1⟩
    | op e c' => exact .inl ⟨e, some.inj hc ▸ h.2⟩
    | shut e pc err => exact .inl ⟨e, h.2.held hc⟩
    | _ => cases hc
  | configure b pc => cases hc
  | reap pc | close pc =>
    cases pc with
    | drain pc => exact .inl (h.2.2.held hc)
    | _ => cases hc

theorem uses_once {p q : ProxyPc ς β} (hI : Inv s) (hp : Asserts t s (some p))
    (hq : Asserts u s (some q)) (hpc : p.client t = some c) (hqc : q.client u = some c) :
    t = u := by
  have hconnected : ∀ {v}, (∃ e, s.Held v e (some c)) →
      ∃ e, s.clients c = some { entry := e, connected := true } ∧
      ∃ E, s.entries e = some E ∧ E.gate = some v := fun ⟨e, E, hE, hgate, hclient⟩ =>
    ⟨e, hI.client e E c hE hclient, E, hE, hgate⟩
  rcases hp.uses hpc with hheld | ⟨rfl, e, he⟩ <;> rcases hq.uses hqc with hheld' | ⟨hu, e', he'⟩
  · obtain ⟨e, hc, E, hE, hgate⟩ := hconnected hheld
    obtain ⟨e', hc', E', hE', hgate'⟩ := hconnected hheld'
    rw [hc, some.injEq, Client.mk.injEq] at hc'
    rw [← hc'.1, hE, some.injEq] at hE'
    rw [← hE', hgate, some.injEq] at hgate'
    exact hgate'
  · obtain ⟨e, hc, -⟩ := hconnected hheld
    rw [hu, he'] at hc
    cases hc
  · obtain ⟨e, hc, -⟩ := hconnected hheld'
    rw [he] at hc
    cases hc
  · exact hu

variable {d : Config (Proxy ς) (ProxyPc ς β)}

theorem closed_of_returned (hout : Outlined Inv Asserts d) (hacc : Accounted d)
    (hclose : d.threads t = some (.close .done))
    (hcalls : ∀ u name bundle pc, d.threads u = some (.run name bundle pc) → ∃ err, pc = .done err)
    {C : Client} (hC : d.shared.clients c = some C) : C.closed = true := by
  have honce : d.shared.once = .finished := (hout.asserts hclose).2
  obtain ⟨-, hreaped, hempty⟩ := hout.1.finished honce
  by_contra hopen
  rw [Bool.not_eq_true] at hopen
  have hmaker := hout.2 c
  have hconnected : C.connected = true := by
    cases hc : d.threads c with
    | none => rw [hc] at hmaker; rw [hmaker.2] at hC; cases hC
    | some q =>
      rw [hc] at hmaker
      cases q with
      | run name bundle pc =>
        obtain ⟨err, rfl⟩ := hcalls c name bundle pc hc
        exact (hmaker C hC).resolve_right (by simp [hopen])
      | configure b pc => rw [show d.shared.clients c = none from hmaker] at hC; cases hC
      | reap pc | close pc => rw [hmaker.1] at hC; cases hC
  obtain ⟨E, hE, hclient⟩ := hout.1.connected c C hC hconnected hopen
  -- the pool is empty, and nobody is left who owes anything
  rcases hacc.covered _ E c hE hclient with ⟨k, hk⟩ | ⟨u, q, hu, howes⟩
  · rw [hempty] at hk
    cases hk
  · have hq := hout.2 u
    rw [hu] at hq
    cases q with
    | run name bundle pc =>
      obtain ⟨err, rfl⟩ := hcalls u name bundle pc hu
      cases howes
    | configure b pc => cases howes
    | reap pc =>
      cases pc with
      | drain pc =>
        have hrunning : d.shared.reaped = false := hq.2.1.2
        rw [hreaped] at hrunning
        cases hrunning
      | _ => cases howes
    | close pc =>
      cases pc with
      | drain pc =>
        have hrunning : d.shared.once = .running u := hq.2.1.1
        rw [honce] at hrunning
        cases hrunning
      | _ => cases howes

variable [Inhabited ς] {prepare : β → Nat → Option (PreparedBundle ς)}
  {maxConnections idleTimeout : Int}
variable {τ : List (Config (Proxy ς) (ProxyPc ς β) × ThreadAct (ProxyPc ς β) (ProxyChoice ς) Empty)}

/-- **The pool of a proxy, in every run.** It has at most `MaxConnections` entries.  The reference
count of an entry is the number of calls that refer to it, and such an entry leaves the pool only
when `Close` takes all of it.  A client is used by one call at a time, its closing included.  Once
`Close` and every call have returned, every client is closed. -/
theorem pool_runs
    (h : (program prepare).machine.Trace (init (new maxConnections idleTimeout)) τ d) :
    d.shared.connections.size ≤ (if maxConnections ≤ 0 then 32 else maxConnections.toNat) ∧
    (∀ e E, d.shared.entries e = some E → Counts d.threads (Refers e) E.refs) ∧
    (∀ a d' u q e, (program prepare).machine.step d a = some d' → d.threads u = some q →
      q.holds = some e →
      d.shared.Pooled e → d'.shared.Pooled e ∨ ∃ t x, a = .move t x ∧
      d.threads t = some (.close .take)) ∧
    (∀ t u p q c, d.threads t = some p → d.threads u = some q → p.client t = some c →
      q.client u = some c → t = u) ∧ ((∃ t, d.threads t = some (.close .done)) →
      (∀ u name bundle pc, d.threads u = some (.run name bundle pc) → ∃ err, pc = .done err) →
        ∀ c C, d.shared.clients c = some C → C.closed = true) := by
  have hout := outlined h
  have hacc := accounted h
  refine ⟨?_, fun e E hE => hacc.refs e _ ?_, ?_, ?_, ?_⟩
  · exact le_trans hout.1.size (le_of_eq (maxConnections_run h))
  · rw [refs, hE, map_some]
  · intro a d' u q e hs hu hq hpooled
    cases a with
    | call t p =>
      obtain ⟨-, -, rfl⟩ := step_call.mp hs
      exact .inl hpooled
    | move t x =>
      obtain ⟨pc, s', pc', ht, hm, rfl⟩ := step_move.mp hs
      rcases (move_accounts hout.1 (hout.asserts ht) hm).pool.pooled hpooled
        with hkept | ⟨-, hzero | ⟨htake, -⟩⟩
      · exact .inl hkept
      · exact absurd hzero (hacc.ne_zero hu hq)
      · exact .inr ⟨t, x, rfl, htake ▸ ht⟩
    | world e => exact e.elim
  · intro t u p q c ht hu
    exact uses_once hout.1 (hout.asserts ht) (hout.asserts hu)
  · rintro ⟨t, ht⟩ hcalls c C hC
    exact closed_of_returned hout hacc ht hcalls hC

def oneServer (revision : Nat) (_ : Nat) : Option (PreparedBundle Nat) :=
  some ⟨revision, revision, [7]⟩

/-- A call connects a client after `Close` has taken the pool. -/
def reconnectAfterClose : List (ThreadAct (ProxyPc Nat Nat) (ProxyChoice Nat) Empty) :=
  [.call 1 (.reap .start), .move 1 .go,
    .call 2 (.run 7 (some 1) .start), .move 2 .go, .move 2 (.victim 10 none), .move 2 .go,
    .move 2 .go, .move 2 .go, .move 2 .go,
    -- call 2 uses a client and call 3 waits at its gate
    .call 3 (.run 7 (some 1) .start), .move 3 .go, .move 3 (.victim 11 none),
    .call 4 (.close .start), .move 4 .go, .move 4 .go, .move 1 .canceled, .move 4 .go, .move 4 .go,
    .move 2 .canceled, .move 2 .go,
    .move 4 (.pick ⟨1, 1, 7⟩), .move 4 .go, .move 4 .go, .move 4 .go, .move 4 .go, .move 4 .go,
    -- the client is closed; call 3 passes the gate, connects another, and closes it in `release`
    .move 3 .go, .move 3 .go, .move 3 .go, .move 3 .go, .move 3 .go, .move 3 .go,
    .move 3 (.now 12), .move 3 .go, .move 3 .go, .move 3 .go,
    .move 2 (.now 13), .move 2 .go, .move 2 .go, .move 2 .go]

/-- What the run above ends with: `Close` and both calls have returned, and two clients were
made. -/
def allReturned (d : Config (Proxy Nat) (ProxyPc Nat Nat)) : Bool :=
  (match d.threads 4 with
    | some (.close .done) => true
    | _ => false) &&
  ((range 4).all fun u =>
    match d.threads u with
    | some (.run _ _ (.done _)) | some (.reap _) | none => true
    | _ => false) &&
  (d.shared.clients 2).isSome && (d.shared.clients 3).isSome

theorem pool_runs_reconnected :
    ∃ d, (program oneServer).machine.run (init (new 1 0)) reconnectAfterClose = some d ∧
      (d.shared.clients 2).isSome = true ∧ (d.shared.clients 3).isSome = true ∧
        ∀ c C, d.shared.clients c = some C → C.closed = true := by
  have hany : ((program oneServer).machine.run (init (new 1 0)) reconnectAfterClose).any
      allReturned = true := by
    decide
  obtain ⟨d, hrun, hd⟩ := (any_eq_true _ _).mp hany
  simp only [allReturned, Bool.and_eq_true] at hd
  obtain ⟨⟨⟨hclose, hcalls⟩, htwo⟩, hthree⟩ := hd
  refine ⟨d, hrun, htwo, hthree, (pool_runs (Machine.trace_of_run hrun)).2.2.2.2 ⟨4, ?_⟩ ?_⟩
  · split at hclose
    · assumption
    · cases hclose
  · intro u name bundle pc hu
    by_cases hlt : u < 4
    · have hone := all_eq_true.mp hcalls u (mem_range.mpr hlt)
      rw [hu] at hone
      split at hone
      · next heq =>
        cases heq
        exact ⟨_, rfl⟩
      · next heq => cases heq
      · next heq => cases heq
      · cases hone
    · -- the schedule calls nobody else
      by_cases hfour : u = 4
      · subst hfour
        rw [hu] at hclose
        cases hclose
      · have hnone := threads_of_run (t := u) hrun rfl fun p hp => by
          have hcalled : (reconnectAfterClose.all fun a =>
              match a with
              | .call v _ => decide (v ≤ 4)
              | _ => true) = true := by decide
          have hle := of_decide_eq_true (all_eq_true.mp hcalled _ hp)
          exact hfour (le_antisymm hle (not_lt.mp hlt))
        rw [hnone] at hu
        cases hu

end Proxy

end Hostel.McpProxy
