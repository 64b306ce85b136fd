/-
# Hostel.Logic.Resolve — following paths through symbolic links.

A directory is a map from the paths below it to what they name.  `walk` follows a path as POSIX
does: a link is replaced by the steps of its target, and `..` is the parent of the directory reached
so far, which is not what the text says when a link was passed on the way.  `escaped` is the answer
when a step leaves the directory, upwards or through an absolute target.  Links may form cycles, so
a walk takes a number of steps.

A target is tidy if it does not climb any more once it has named a link.  A walk does what the text
of such a target says, so links with tidy targets that do not climb out by their text keep a
directory confined (`confined_of_tidy`).  In every directory, it is enough to follow each link alone
(`confined_iff`).
-/
import Hostel.Logic.Path

namespace Hostel.Logic

open List

/-! ## Walks -/

inductive PathStep (α : Type)
  | up
  | down (name : α)
  deriving DecidableEq, Repr

/-- What an entry is to a path that meets it.  The target of a link is `none` if it is absolute. -/
inductive NodeKind (α : Type)
  | dir
  | file
  | link (target : Option (List (PathStep α)))
  deriving DecidableEq, Repr

/-- What the paths below a directory name. -/
abbrev FileView (α : Type) := List α → Option (NodeKind α)

inductive Walk (α : Type)
  | arrived (place : List α)
  | missing (dir : List α) (name : α) (rest : List (PathStep α))
  | blocked (place : List α)
  | escaped
  | exhausted
  deriving DecidableEq, Repr

variable {α : Type}

/-- Follow a path from the directory `cwd`. -/
def walk (v : FileView α) : Nat → List α → List (PathStep α) → Walk α
  | _, cwd, [] => .arrived cwd
  | 0, _, _ :: _ => .exhausted
  | fuel + 1, cwd, .up :: rest => if cwd.isEmpty then .escaped else walk v fuel cwd.dropLast rest
  | fuel + 1, cwd, .down a :: rest =>
    match v (cwd ++ [a]) with
    | none => .missing cwd a rest
    | some .dir => walk v fuel (cwd ++ [a]) rest
    | some .file => if rest.isEmpty then .arrived (cwd ++ [a]) else .blocked (cwd ++ [a])
    | some (.link none) => .escaped
    | some (.link (some target)) => walk v fuel cwd (target ++ rest)

def descend (names : List α) : List (PathStep α) := names.map .down

/-- No path into the directory leads out of it. -/
def Confined (v : FileView α) : Prop := ∀ fuel names, walk v fuel [] (descend names) ≠ .escaped

/-! ## Links that are followed alone -/

variable {v : FileView α} {fuel : Nat} {cwd : List α}

/-- The path names a directory, and passes through directories only. -/
def Real (v : FileView α) (p : List α) : Prop := ∀ a, a <+: p → a ≠ [] → v a = some .dir

theorem Real.concat {n : α} (h : Real v cwd) (hn : v (cwd ++ [n]) = some .dir) :
    Real v (cwd ++ [n]) := by
  intro a ha hne
  rcases prefix_concat_iff.mp ha with rfl | ha
  · exact hn
  · exact h a ha hne

theorem walk_real (h : Real v cwd) (fuel : Nat) (todo : List (PathStep α)) :
    walk v (fuel + cwd.length) [] (descend cwd ++ todo) = walk v fuel cwd todo := by
  induction cwd using reverseRecOn generalizing fuel todo with
  | nil => rfl
  | append_singleton p n ih =>
    have hp : Real v p := fun a ha => h a (ha.trans (prefix_append ..))
    have hn : v (p ++ [n]) = some .dir := h _ prefix_rfl (by simp)
    have hstep := ih hp (fuel + 1) (.down n :: todo)
    simp only [walk, hn] at hstep
    rw [← hstep, length_append, length_singleton, descend, map_append, append_assoc,
      Nat.add_right_comm]
    rfl

/-- A walk that leaves the directory does so in its first part, or from a directory that the first
part leads to. -/
theorem escaped_of_append (hcwd : Real v cwd) {a b : List (PathStep α)}
    (h : walk v fuel cwd (a ++ b) = .escaped) :
    walk v fuel cwd a = .escaped ∨ ∃ q, Real v q ∧ ∃ k ≤ fuel, walk v k q b = .escaped := by
  induction fuel generalizing cwd a with
  | zero =>
    cases a with
    | nil => exact .inr ⟨cwd, hcwd, 0, le_rfl, h⟩
    | cons s a => cases h
  | succ fuel ih =>
    have hnext : ∀ {p : List α} {a : List (PathStep α)}, Real v p →
        walk v fuel p (a ++ b) = .escaped →
        walk v fuel p a = .escaped ∨ ∃ q, Real v q ∧ ∃ k ≤ fuel + 1, walk v k q b = .escaped := by
      intro p a hp hwalk
      obtain hfirst | ⟨q, hq, k, hk, hrest⟩ := ih hp hwalk
      · exact .inl hfirst
      · exact .inr ⟨q, hq, k, hk.trans (Nat.le_succ fuel), hrest⟩
    cases a with
    | nil => exact .inr ⟨cwd, hcwd, fuel + 1, le_rfl, h⟩
    | cons s a =>
      cases s with
      | up =>
        rw [cons_append, walk] at h
        rw [walk]
        split at h
        · next hempty => exact .inl (if_pos hempty)
        · next hne =>
          rw [if_neg hne]
          exact hnext (fun c hc => hcwd c (hc.trans (List.dropLast_prefix cwd))) h
      | down n =>
        rw [cons_append, walk] at h
        rw [walk]
        split at h
        · cases h
        · next hdir => exact hnext (hcwd.concat hdir) h
        · split at h <;> cases h
        · exact .inl rfl
        · exact hnext hcwd (by rwa [append_assoc])

/-- **A directory is confined if no link of it leads out.** -/
theorem confined_iff : Confined v ↔
    ∀ p target, v p = some (.link target) → ∀ fuel, walk v fuel [] (descend p) ≠ .escaped := by
  refine ⟨fun h p _ _ fuel => h fuel p, fun h => ?_⟩
  suffices ∀ fuel cwd names, Real v cwd → walk v fuel cwd (descend names) ≠ .escaped from
    fun fuel names => this fuel [] names fun a ha hne => absurd (prefix_nil.mp ha) hne
  intro fuel
  induction fuel using Nat.strong_induction_on with
  | _ fuel ih =>
    intro cwd names hcwd hwalk
    cases names with
    | nil => cases fuel <;> cases hwalk
    | cons n names =>
      cases fuel with
      | zero => cases hwalk
      | succ fuel =>
        -- to follow the link alone is to follow the path that leads to it
        have halone : ∀ target, v (cwd ++ [n]) = some (.link target) →
            walk v (fuel + 1) cwd [.down n] ≠ .escaped := by
          intro target hlink
          rw [← walk_real hcwd, descend, ← map_singleton, ← map_append]
          exact h _ target hlink _
        simp only [descend, map_cons, walk] at hwalk halone
        split at hwalk
        · cases hwalk
        · next hdir => exact ih fuel (Nat.lt_succ_self _) _ names (hcwd.concat hdir) hwalk
        · split at hwalk <;> cases hwalk
        · next hlink => exact halone _ hlink (by rw [hlink])
        · next target hlink =>
          obtain hfirst | ⟨q, hq, k, hk, hrest⟩ := escaped_of_append hcwd hwalk
          · exact halone _ hlink (by rw [hlink]; simpa using hfirst)
          · exact ih k (Nat.lt_succ_of_le hk) q names hq hrest

/-! ## Tidy targets -/

def descends : List (PathStep α) → Bool
  | [] => true
  | .up :: _ => false
  | .down _ :: rest => descends rest

/-- By its text, the path does not climb above its start by more than this. -/
def inside : Nat → List (PathStep α) → Bool
  | _, [] => true
  | 0, .up :: _ => false
  | depth + 1, .up :: rest => inside depth rest
  | depth, .down _ :: rest => inside (depth + 1) rest

/-- From the directory on, the path does not climb once it has named a link. -/
def tidy (isLink : List α → Bool) : List α → List (PathStep α) → Bool
  | _, [] => true
  | dir, .up :: rest => tidy isLink dir.dropLast rest
  | dir, .down n :: rest =>
    if isLink (dir ++ [n]) then descends rest else tidy isLink (dir ++ [n]) rest

theorem descends_descend (names : List α) : descends (descend names) = true := by
  induction names with
  | nil => rfl
  | cons n names ih => exact ih

theorem descends_append {s t : List (PathStep α)} (hs : descends s = true)
    (ht : descends t = true) : descends (s ++ t) = true := by
  induction s with
  | nil => exact ht
  | cons x s ih =>
    cases x with
    | up => cases hs
    | down a => exact ih hs

variable {isLink : List α → Bool}

theorem tidy_of_descends {steps : List (PathStep α)} (h : descends steps = true) (dir : List α) :
    tidy isLink dir steps = true := by
  induction steps generalizing dir with
  | nil => rfl
  | cons s steps ih =>
    cases s with
    | up => cases h
    | down n =>
      rw [tidy]
      split
      · exact h
      · exact ih h _

/-- The links of the view are known, and their targets are tidy and climb inside the directory. -/
def TidyLinks (isLink : List α → Bool) (v : FileView α) : Prop :=
  ∀ p target, v p = some (.link target) → isLink p = true ∧ ∃ steps, target = some steps ∧
    tidy isLink p.dropLast steps = true ∧ inside p.dropLast.length steps = true

/-- What remains of a walk is a part of a tidy target, and then a path that descends. -/
theorem walk_ne_escaped (hv : TidyLinks isLink v) (fuel : Nat) (cwd : List α)
    (steps rest : List (PathStep α)) (htidy : tidy isLink cwd steps = true)
    (hinside : inside cwd.length steps = true) (hrest : descends rest = true) :
    walk v fuel cwd (steps ++ rest) ≠ .escaped := by
  induction fuel generalizing cwd steps rest with
  | zero => cases h : steps ++ rest <;> simp [walk]
  | succ fuel ih =>
    -- the next entry, with what follows it in the target and behind the target
    have hdown : ∀ n s rest, descends rest = true → tidy isLink cwd (.down n :: s) = true →
        inside (cwd.length + 1) s = true →
        walk v (fuel + 1) cwd (.down n :: (s ++ rest)) ≠ .escaped := by
      intro n s rest hrest htidy hinside
      rw [tidy] at htidy
      rw [walk]
      split
      · simp
      · refine ih _ s rest ?_ (by simpa using hinside) hrest
        split at htidy
        · exact tidy_of_descends htidy _
        · exact htidy
      · split <;> simp
      · next hlink =>
        obtain ⟨-, steps, hsteps, -⟩ := hv _ _ hlink
        cases hsteps
      · next target hlink =>
        obtain ⟨hknown, steps, hsteps, htarget, hclimb⟩ := hv _ _ hlink
        cases hsteps
        rw [hknown] at htidy
        rw [dropLast_concat] at htarget hclimb
        exact ih cwd target (s ++ rest) htarget hclimb (descends_append htidy hrest)
    cases steps with
    | nil =>
      cases rest with
      | nil => simp [walk]
      | cons x rest =>
        cases x with
        | up => cases hrest
        | down n => exact hdown n [] rest hrest (by simp [tidy, descends]) rfl
    | cons x s =>
      cases x with
      | up =>
        cases hlength : cwd.length with
        | zero =>
          rw [hlength] at hinside
          cases hinside
        | succ depth =>
          rw [hlength] at hinside
          have hne : ¬cwd.isEmpty = true := by
            rw [isEmpty_iff_length_eq_zero, hlength]
            exact Nat.succ_ne_zero _
          rw [cons_append, walk, if_neg hne]
          exact ih cwd.dropLast s rest htidy (by rwa [length_dropLast, hlength]) hrest
      | down n => exact hdown n s rest hrest htidy (by rwa [inside] at hinside)

/-- **Tidy links keep a directory confined.** -/
theorem confined_of_tidy (isLink : List α → Bool) (hv : TidyLinks isLink v) : Confined v :=
  fun fuel names =>
  walk_ne_escaped hv fuel [] [] (descend names) rfl rfl (descends_descend names)

variable {todo : List (PathStep α)}

theorem walk_succ (h : walk v fuel cwd todo ≠ .exhausted) :
    walk v (fuel + 1) cwd todo = walk v fuel cwd todo := by
  induction fuel generalizing cwd todo with
  | zero =>
    cases todo with
    | nil => rfl
    | cons _ _ => exact absurd rfl h
  | succ fuel ih =>
    cases todo with
    | nil => rfl
    | cons x rest =>
      cases x with
      | up =>
        rw [walk] at h
        rw [walk, walk]
        split
        · rfl
        · next hne => exact ih (by rwa [if_neg hne] at h)
      | down n =>
        rw [walk] at h
        rw [walk, walk]
        split <;> simp_all

theorem walk_of_le {k : Nat} (h : walk v fuel cwd todo ≠ .exhausted) (hk : fuel ≤ k) :
    walk v k cwd todo = walk v fuel cwd todo := by
  induction hk with
  | refl => rfl
  | step _ ih => rw [walk_succ (by rwa [ih]), ih]

/-- A walk that arrives leaves the directory with no number of steps. -/
theorem not_escaped_of_arrived {place : List α}
    (h : walk v fuel cwd todo = .arrived place) (k : Nat) : walk v k cwd todo ≠ .escaped := by
  intro hk
  have heq : walk v fuel cwd todo = walk v k cwd todo := by
    obtain hle | hle := Nat.le_total fuel k
    · exact (walk_of_le (by simp [h]) hle).symm
    · exact walk_of_le (by simp [hk]) hle
  rw [h, hk] at heq
  cases heq

/-! ## Paths that meet no link -/

theorem walk_descend {fuel : Nat} (cwd names : List α) {place : List α}
    (hlink : ∀ p q, names = p ++ q → p ≠ [] → ∀ target, v (cwd ++ p) ≠ some (.link target))
    (h : walk v fuel cwd (descend names) = .arrived place) : place = cwd ++ names := by
  induction names generalizing cwd fuel with
  | nil =>
    have hplace : Walk.arrived cwd = .arrived place := by
      rw [← h]
      cases fuel <;> rfl
    cases hplace
    simp
  | cons n names ih =>
    cases fuel with
    | zero => cases h
    | succ fuel =>
      have hhere : ∀ target, v (cwd ++ [n]) ≠ some (.link target) := hlink [n] names rfl (by simp)
      rw [descend, map_cons, walk] at h
      split at h
      · cases h
      · have hplace := ih (cwd ++ [n]) (fun p q hpq hp target => by
          have := hlink (n :: p) q (by rw [hpq]; rfl) (by simp) target
          simpa using this) h
        simpa using hplace
      · split at h
        · next hempty =>
          cases h
          have hnil : names = [] := by simpa using hempty
          rw [hnil]
        · cases h
      · next hl => exact absurd hl (hhere _)
      · next hl => exact absurd hl (hhere _)

/-- Everything on the way to the place that a walk arrives at is there. -/
theorem walk_arrived {fuel : Nat} {cwd place : List α}
    (hcwd : ∀ a, a <+: cwd → a ≠ [] → (v a).isSome = true)
    (h : walk v fuel cwd todo = .arrived place) :
    ∀ a, a <+: place → a ≠ [] → (v a).isSome = true := by
  induction fuel generalizing cwd todo with
  | zero =>
    cases todo with
    | nil =>
      cases h
      exact hcwd
    | cons _ _ => cases h
  | succ fuel ih =>
    have hdown : ∀ {n k}, v (cwd ++ [n]) = some k → ∀ a, a <+: cwd ++ [n] → a ≠ [] →
        (v a).isSome = true := by
      intro n k hv a ha hne
      rcases prefix_concat_iff.mp ha with rfl | ha
      · rw [hv]
        rfl
      · exact hcwd a ha hne
    cases todo with
    | nil =>
      cases h
      exact hcwd
    | cons x rest =>
      cases x with
      | up =>
        rw [walk] at h
        split at h
        · cases h
        · exact ih (fun a ha hne => hcwd a (ha.trans (List.dropLast_prefix cwd)) hne) h
      | down n =>
        rw [walk] at h
        split at h
        · cases h
        · next hv => exact ih (hdown hv) h
        · next hv =>
          split at h
          · cases h
            exact hdown hv
          · cases h
        · cases h
        · exact ih hcwd h

/-! ## The text of a path -/

section Text

variable [PathAlphabet α] [DecidableEq α]

def stepOf (e : List α) : Option (PathStep (List α)) :=
  if e = [] ∨ e = [dot] then none else if e = dotdot then some .up else some (.down e)

def pathSteps (p : List α) : List (PathStep (List α)) := (p.splitOn slash).filterMap stepOf

/-- What a step does to the elements that `path.Clean` has kept of an unrooted path, last first. -/
def lexicalStep (st : List (List α)) : PathStep (List α) → List (List α)
  | .up =>
    match st with
    | [] => [dotdot]
    | top :: rest => if top = dotdot then dotdot :: top :: rest else rest
  | .down e => e :: st

theorem cleanStep_eq (st : List (List α)) (e : List α) :
    cleanStep false st e = (stepOf e).elim st (lexicalStep st) := by
  unfold cleanStep stepOf
  by_cases hskip : e = [] ∨ e = [dot]
  · rw [if_pos hskip, if_pos hskip]
    rfl
  · rw [if_neg hskip, if_neg hskip]
    by_cases hdd : e = dotdot
    · rw [if_pos hdd, if_pos hdd]
      cases st <;> rfl
    · rw [if_neg hdd, if_neg hdd]
      rfl

theorem foldl_cleanStep_eq (es st : List (List α)) :
    es.foldl (cleanStep false) st = (es.filterMap stepOf).foldl lexicalStep st := by
  induction es generalizing st with
  | nil => rfl
  | cons e es ih =>
    rw [foldl_cons, cleanStep_eq, ih, filterMap_cons]
    cases stepOf e <;> rfl

theorem down_ne_dotdot {p e : List α} (h : .down e ∈ pathSteps p) : e ≠ dotdot := by
  obtain ⟨e', -, he⟩ := mem_filterMap.mp h
  unfold stepOf at he
  split at he
  · cases he
  · split at he
    · cases he
    next hne =>
    cases he
    exact hne

theorem getLast?_foldl_lexical (steps : List (PathStep (List α))) {st : List (List α)}
    (h : st.getLast? = some dotdot) : (steps.foldl lexicalStep st).getLast? = some dotdot := by
  induction steps generalizing st with
  | nil => exact h
  | cons s steps ih =>
    refine ih ?_
    cases s with
    | down e => rw [lexicalStep, getLast?_cons, h]; rfl
    | up =>
      cases st with
      | nil => cases h
      | cons top rest =>
        rw [lexicalStep]
        split
        · rw [getLast?_cons, h]; rfl
        · next hne =>
          cases rest with
          | nil => simp [hne] at h
          | cons e rest => simpa using h

/-- The first element that remains of a path that climbs above where it started is `..`. -/
theorem getLast?_lexical {steps : List (PathStep (List α))} {st : List (List α)}
    (hst : ∀ e ∈ st, e ≠ dotdot) (hsteps : ∀ e, .down e ∈ steps → e ≠ dotdot)
    (h : inside st.length steps = false) : (steps.foldl lexicalStep st).getLast? = some dotdot := by
  induction steps generalizing st with
  | nil => cases h
  | cons s steps ih =>
    have hrest : ∀ e, .down e ∈ steps → e ≠ dotdot := fun e he => hsteps e (mem_cons_of_mem _ he)
    rw [foldl_cons]
    cases s with
    | down e =>
      exact ih (forall_mem_cons.mpr ⟨hsteps e mem_cons_self, hst⟩) hrest (by rwa [inside] at h)
    | up =>
      cases st with
      | nil => exact getLast?_foldl_lexical steps rfl
      | cons top rest =>
        rw [lexicalStep, if_neg (hst top mem_cons_self)]
        exact ih (fun e he => hst e (mem_cons_of_mem _ he)) hrest h

theorem clean_clean (p : List α) : clean (clean p) = clean p := by
  by_cases hq : render (rooted p) (elements p) = []
  · have hdot : clean p = [dot] := if_pos hq
    rw [hdot, clean, elements_dot]
    have hroot : rooted ([dot] : List α) = false := by simp [rooted, PathAlphabet.slash_ne_dot.symm]
    simp [hroot, render, rootSlash]
  · have hrender : clean p = render (rooted p) (elements p) := if_neg hq
    rw [hrender]
    by_cases hne : elements p = []
    · -- only the root is written without elements
      cases hroot : rooted p with
      | false => simp [hroot, hne, render, rootSlash] at hq
      | true =>
        rw [hne]
        simp [render, rootSlash, clean, elements, kept, splitOn_cons_eq_if_modifyHead,
          rooted, cleanStep]
    · exact clean_render (by simpa [elements] using normal_kept p) hne

/-- Joining two paths goes on cleaning where the first left off. -/
theorem clean_joinPath {ps : List (List α)} {q : List α} (hmem : q ∈ ps) (hq : q ≠ []) :
    clean (joinPath ps) = joinPath ps := by
  unfold joinPath
  split
  · next hnil =>
    have hin : q ∈ ps.filter (· ≠ []) := mem_filter.mpr ⟨hmem, by simpa using hq⟩
    rw [hnil] at hin
    cases hin
  · exact clean_clean _

theorem joinPath_pair {p q : List α} (hp : p ≠ []) (hq : q ≠ []) (hroot : rooted p = false) :
    joinPath [p, q] = clean (p ++ slash :: q) ∧ rooted (p ++ slash :: q) = false ∧
      kept (p ++ slash :: q) = (pathSteps q).foldl lexicalStep (kept p) := by
  have hfilter : [p, q].filter (· ≠ []) = [p, q] := by simp [hp, hq]
  have hrooted : rooted (p ++ slash :: q) = false := (rooted_append hp _).trans hroot
  refine ⟨?_, hrooted, ?_⟩
  · rw [joinPath, hfilter]
    change clean ([slash].intercalate [p, q]) = _
    rw [intercalate_cons_cons, intercalate_singleton]
    simp
  · rw [kept, hrooted, splitOn_append_cons_self, foldl_append,
      foldl_cleanStep_eq (q.splitOn slash), kept, hroot]
    rfl

omit [DecidableEq α] in
theorem render_dotdot (es : List (List α)) :
    render false (dotdot :: es) = dotdot ∨
    ∃ r, render false (dotdot :: es) = (dotdot : List α) ++ slash :: r := by
  cases es with
  | nil => exact .inl (by simp [render, rootSlash, intercalate_singleton])
  | cons e es =>
    right
    refine ⟨[slash].intercalate (e :: es), ?_⟩
    rw [render, intercalate_cons_cons]
    simp [rootSlash]

/-- A path that climbs further than the directory it is joined to is deep cleans to one that starts
with `..`. -/
theorem join_climbs {p q : List α} (hp : p ≠ []) (hq : q ≠ []) (hroot : rooted p = false)
    (hplain : ∀ e ∈ elements p, Plain e) (h : inside (elements p).length (pathSteps q) = false) :
    clean (joinPath [p, q]) = dotdot ∨
    ∃ r, clean (joinPath [p, q]) = (dotdot : List α) ++ slash :: r := by
  obtain ⟨hjoin, hrooted, hkept⟩ := joinPath_pair hp hq hroot
  have hlast : (kept (p ++ slash :: q)).getLast? = some dotdot := by
    rw [hkept]
    refine getLast?_lexical (fun e he => (hplain e (by simpa [elements] using he)).2.2.2)
      (fun e he => down_ne_dotdot he) ?_
    simpa [elements] using h
  obtain ⟨es, hes⟩ : ∃ es, elements (p ++ slash :: q) = dotdot :: es := by
    obtain ⟨st, hst⟩ := getLast?_eq_some_iff.mp hlast
    exact ⟨st.reverse, by rw [elements, hst]; simp⟩
  have hclean : clean (joinPath [p, q]) = render false (dotdot :: es) := by
    rw [hjoin, clean_clean, clean, hrooted, hes]
    refine if_neg ?_
    rcases render_dotdot es with h | ⟨r, h⟩ <;> rw [h] <;> simp [dotdot]
  rw [hclean]
  exact render_dotdot es

end Text

end Hostel.Logic
