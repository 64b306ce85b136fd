/-
# Hostel.Logic.Threads — calls that interleave over a shared state.

A call that has begun is a thread, and its program counter is all it has of its own; a move reads
and writes the shared state and the counter, and a choice `χ` carries what the outside world decides
in that move (an error, a fresh name, a cancelled context).  `world` is what happens to the shared
state with no call involved.

`Outline.proof_outline` is the rule every interleaving argument uses: an invariant of the shared
state, an assertion for each thread about the shared state and its own counter, and for each move
that the mover gets to its next assertion and that nobody else loses theirs.  A thread that has not
begun has the counter `none`, so that assertions can say which names are unused.

`Counts` relates a number in the shared state, a reference count for instance, to the threads it
counts.
-/
import Hostel.Logic.Machine
import Mathlib.Data.Finset.Card

namespace Hostel.Logic

open Function Option

theorem false_of_kept {a b : Bool} (h : a = true → b = true) (hb : b = false) : a = false :=
  Bool.of_not_eq_true fun ha => absurd (h ha) (by rw [hb]; decide)

theorem true_of_kept {a b : Bool} (h : a = false → b = false) (hb : b = true) : a = true :=
  Bool.of_not_eq_false fun ha => absurd (h ha) (by rw [hb]; decide)

theorem inner_move {σ ρ π : Type} {o : Option (σ × ρ)} {wrap : ρ → π} {s : σ} {pc : π}
    (h : (o.map fun r => (r.1, wrap r.2)) = some (s, pc)) : ∃ q, o = some (s, q) ∧ pc = wrap q := by
  obtain ⟨⟨_, q⟩, ho, hr⟩ := map_eq_some_iff.mp h
  cases hr
  exact ⟨q, ho, rfl⟩

abbrev ThreadId := Nat

theorem held_alone {mu : Option ThreadId} {t u : ThreadId} {p : Prop} (h : mu = some t) (hu : u ≠ t)
    (hmu : mu = some u) : p :=
  absurd (some.inj (hmu.symm.trans h)) hu

structure Program (σ π χ ε : Type) where
  /-- The counters a call may begin at. -/
  entry : π → Bool
  move : ThreadId → σ → π → χ → Option (σ × π)
  world : σ → ε → Option σ

structure Config (σ π : Type) where
  shared : σ
  threads : ThreadId → Option π

inductive ThreadAct (π χ ε : Type)
  | call (t : ThreadId) (p : π)
  | move (t : ThreadId) (x : χ)
  | world (e : ε)
  deriving DecidableEq

namespace Program

variable {σ π χ ε : Type} (P : Program σ π χ ε)

def machine : Machine (Config σ π) (ThreadAct π χ ε) where
  step c
    | .call t p =>
      if (c.threads t).isNone && P.entry p then
        some { c with threads := update c.threads t (some p) }
      else none
    | .move t x =>
      match c.threads t with
      | none => none
      | some p =>
        match P.move t c.shared p x with
        | none => none
        | some (s, p') => some ⟨s, update c.threads t (some p')⟩
    | .world e =>
      match P.world c.shared e with
      | none => none
      | some s => some { c with shared := s }

def init (s : σ) : Config σ π := ⟨s, fun _ => none⟩

variable {P} {c d : Config σ π} {t : ThreadId} {p : π} {x : χ} {e : ε}

theorem step_call : P.machine.step c (.call t p) = some d ↔
    c.threads t = none ∧ P.entry p = true ∧
      d = { c with threads := update c.threads t (some p) } := by
  simp only [machine, Bool.and_eq_true, isNone_iff_eq_none, ite_none_right_eq_some,
    some.injEq, and_assoc, eq_comm (a := d)]

theorem step_move : P.machine.step c (.move t x) = some d ↔
    ∃ p s p', c.threads t = some p ∧ P.move t c.shared p x = some (s, p') ∧
      d = ⟨s, update c.threads t (some p')⟩ := by
  simp only [machine]
  constructor
  · intro h
    split at h
    · cases h
    next p hp =>
    split at h
    · cases h
    next s p' hm =>
    cases h
    exact ⟨p, s, p', hp, hm, rfl⟩
  · rintro ⟨p, s, p', hp, hm, rfl⟩
    simp only [hp, hm]

theorem step_world : P.machine.step c (.world e) = some d ↔
    ∃ s, P.world c.shared e = some s ∧ d = { c with shared := s } := by
  simp only [machine]
  constructor
  · intro h
    split at h
    · cases h
    next s hs =>
    cases h
    exact ⟨s, hs, rfl⟩
  · rintro ⟨s, hs, rfl⟩
    simp only [hs]

theorem of_update {threads : ThreadId → Option π} {u : ThreadId} {q : π}
    (h : update threads t (some p) u = some q) : u = t ∧ q = p ∨ u ≠ t ∧ threads u = some q := by
  by_cases hut : u = t
  · subst hut
    rw [update_self, some.injEq] at h
    exact .inl ⟨rfl, h.symm⟩
  · rw [update_of_ne hut] at h
    exact .inr ⟨hut, h⟩

theorem threads_of_run {as : List (ThreadAct π χ ε)} (h : P.machine.run c as = some d)
    (hc : c.threads t = none) (hcall : ∀ p, .call t p ∉ as) : d.threads t = none := by
  induction as generalizing c with
  | nil =>
    cases h
    exact hc
  | cons a as ih =>
    unfold Machine.run at h
    split at h
    · cases h
    next b hb =>
    refine ih h ?_ fun p hp => hcall p (List.mem_cons_of_mem _ hp)
    cases a with
    | call u p =>
      obtain ⟨-, -, rfl⟩ := step_call.mp hb
      have htu : t ≠ u := by
        rintro rfl
        exact hcall p List.mem_cons_self
      exact (update_of_ne htu ..).trans hc
    | move u x =>
      obtain ⟨p, s, p', hp, -, rfl⟩ := step_move.mp hb
      have htu : t ≠ u := by
        rintro rfl
        rw [hc] at hp
        cases hp
      exact (update_of_ne htu ..).trans hc
    | world e =>
      obtain ⟨s, -, rfl⟩ := step_world.mp hb
      exact hc

section Counts

variable {threads : ThreadId → Option π} {test : π → Bool} {n : Nat}

/-- Exactly `n` threads are at a counter that passes the test. -/
def Counts (threads : ThreadId → Option π) (test : π → Bool) (n : Nat) : Prop :=
  ∃ S : Finset ThreadId, (∀ t, t ∈ S ↔ (threads t).any test = true) ∧ S.card = n

theorem Counts.of_none (h : ∀ t, (threads t).any test = false) : Counts threads test 0 :=
  ⟨∅, fun t => by simp [h t], rfl⟩

theorem Counts.stay (h : Counts threads test n) (hp : (threads t).any test = test p) :
    Counts (update threads t (some p)) test n := by
  obtain ⟨S, hS, hn⟩ := h
  refine ⟨S, fun u => ?_, hn⟩
  rw [hS]
  by_cases hut : u = t
  · subst hut
    rw [update_self, hp, any_some]
  · rw [update_of_ne hut]

theorem Counts.enter (h : Counts threads test n) (hout : (threads t).any test = false)
    (hp : test p = true) : Counts (update threads t (some p)) test (n + 1) := by
  obtain ⟨S, hS, hn⟩ := h
  have ht : t ∉ S := by simp [hS, hout]
  refine ⟨insert t S, fun u => ?_, by rw [Finset.card_insert_of_notMem ht, hn]⟩
  by_cases hut : u = t
  · subst hut
    simp [hp]
  · rw [Finset.mem_insert, hS, update_of_ne hut]
    exact ⟨fun h => h.resolve_left hut, .inr⟩

theorem Counts.leave (h : Counts threads test n) (hin : (threads t).any test = true)
    (hp : test p = false) : Counts (update threads t (some p)) test (n - 1) := by
  obtain ⟨S, hS, hn⟩ := h
  refine ⟨S.erase t, fun u => ?_, by rw [Finset.card_erase_of_mem ((hS t).mpr hin), hn]⟩
  by_cases hut : u = t
  · subst hut
    simp [hp]
  · rw [Finset.mem_erase, hS, update_of_ne hut]
    exact ⟨fun h => h.2, fun h => ⟨hut, h⟩⟩

theorem Counts.none_of_zero (h : Counts threads test 0) : (threads t).any test = false := by
  obtain ⟨S, hS, hn⟩ := h
  have ht : t ∉ S := by simp [Finset.card_eq_zero.mp hn]
  rwa [hS, Bool.not_eq_true] at ht

end Counts

section Outline

variable (P) (I : σ → Prop) (A : ThreadId → σ → Option π → Prop)

structure Outline : Prop where
  call : ∀ {s t p}, I s → A t s none → P.entry p = true → A t s (some p)
  /-- The mover keeps the shared invariant and reaches its next assertion. -/
  own : ∀ {s t p x s' p'}, I s → A t s (some p) → P.move t s p x = some (s', p') →
    I s' ∧ A t s' (some p')
  /-- The mover does not interfere with the others. -/
  other : ∀ {s t p x s' p' u q}, I s → A t s (some p) → P.move t s p x = some (s', p') →
    u ≠ t → A u s q → A u s' q
  world : ∀ {s e s'}, I s → P.world s e = some s' → I s' ∧ ∀ u q, A u s q → A u s' q

variable {P I A}

/-- The shared invariant with every thread at its assertion. -/
def Outlined (I : σ → Prop) (A : ThreadId → σ → Option π → Prop) (c : Config σ π) : Prop :=
  I c.shared ∧ ∀ t, A t c.shared (c.threads t)

theorem Outlined.asserts {q : Option π} (hc : Outlined I A c) (ht : c.threads t = q) :
    A t c.shared q :=
  ht ▸ hc.2 t

theorem Outline.step (O : P.Outline I A) (hc : Outlined I A c) {a : ThreadAct π χ ε}
    (h : P.machine.step c a = some d) : Outlined I A d := by
  obtain ⟨hI, hA⟩ := hc
  cases a with
  | call t p =>
    obtain ⟨ht, hp, rfl⟩ := step_call.mp h
    refine ⟨hI, fun u => ?_⟩
    by_cases hu : u = t
    · subst hu
      have hnew : A u c.shared (some p) := O.call hI (ht ▸ hA u) hp
      simpa using hnew
    · simpa [hu] using hA u
  | move t x =>
    obtain ⟨p, s, p', ht, hm, rfl⟩ := step_move.mp h
    have hp : A t c.shared (some p) := ht ▸ hA t
    obtain ⟨hI', hown⟩ := O.own hI hp hm
    refine ⟨hI', fun u => ?_⟩
    by_cases hu : u = t
    · subst hu
      simpa using hown
    · simpa [hu] using O.other hI hp hm hu (hA u)
  | world e =>
    obtain ⟨s, hs, rfl⟩ := step_world.mp h
    obtain ⟨hI', hA'⟩ := O.world hI hs
    exact ⟨hI', fun u => hA' u _ (hA u)⟩

theorem Outlined.step_shared {R : σ → σ → Prop} {a : ThreadAct π χ ε} (hc : Outlined I A c)
    (h : P.machine.step c a = some d) (hrefl : R c.shared c.shared)
    (hmove : ∀ {t p x s' p'}, A t c.shared (some p) → P.move t c.shared p x = some (s', p') →
      R c.shared s') (hworld : ∀ {e s'}, P.world c.shared e = some s' → R c.shared s') :
      R c.shared d.shared := by
  cases a with
  | call t p =>
    obtain ⟨-, -, rfl⟩ := step_call.mp h
    exact hrefl
  | move t x =>
    obtain ⟨p, s', p', ht, hm, rfl⟩ := step_move.mp h
    exact hmove (hc.asserts ht) hm
  | world e =>
    obtain ⟨s', hw, rfl⟩ := step_world.mp h
    exact hworld hw

theorem Outline.proof_outline (O : P.Outline I A) {s₀ : σ} (hI : I s₀) (hA : ∀ t, A t s₀ none)
    {τ : List (Config σ π × ThreadAct π χ ε)} (h : P.machine.Trace (init s₀) τ c) :
    Outlined I A c :=
  h.always ⟨hI, hA⟩ fun _ hc hs => O.step hc hs

theorem Outline.stable (O : P.Outline I A) {Q : Config σ π → Prop}
    {τ : List (Config σ π × ThreadAct π χ ε)} (h : P.machine.Trace c τ d)
    (hc : Outlined I A c) (hQ : Q c)
    (hstep : ∀ {c a d}, Outlined I A c → Q c → P.machine.step c a = some d → Q d) : Q d :=
  (h.always (P := fun _ d => Outlined I A d ∧ Q d) ⟨hc, hQ⟩
    fun _ hd hs => ⟨O.step hd.1 hs, hstep hd.1 hd.2 hs⟩).2

end Outline

end Program

end Hostel.Logic
