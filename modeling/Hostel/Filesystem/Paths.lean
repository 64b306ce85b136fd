/-
# Hostel.Filesystem.Paths — the client paths of a BedFS.

A client names a place in a Bed by an absolute path, or by one relative to the working directory of
its Pillow.  Routing asks whether one path is at or below another with `relativeTo`, which is
`filepath.Rel` and a look at its answer: on absolute paths, whether the elements of the one continue
those of the other (`relativeTo_eq`), whatever the spelling.  `PathsOverlap` compares the texts as
they are.
-/
import Hostel.Sync.Confinement

namespace Hostel.Filesystem

open Hostel.Logic Hostel.Sync Hostel.Sync.Tar List

/-! ## `filepath.Rel` -/

/-- Both paths from their first difference on. -/
def dropCommon : List Name → List Name → List Name × List Name
  | b :: base, t :: targ => if t = b then dropCommon base targ else (b :: base, t :: targ)
  | base, targ => (base, targ)

/-- `filepath.Rel`.  A target that is cleaned to `.` keeps its dot, a base loses it. -/
def rel (base targ : Bytes) : Option Bytes :=
  let target := if clean targ = [dot] then [[dot]] else elements targ
  if clean targ = clean base then some [dot]
  else if rooted base ≠ rooted targ then none
  else
    match dropCommon (elements base) target with
    | ([], rest) => some ([slash].intercalate rest)
    | (b :: up, rest) =>
      if b = dotdot then none
      else some ([slash].intercalate ((b :: up).map (fun _ => dotdot) ++ rest))

/-- `relativeTo`: the path from `root` to `candidate` if that is at or below it. -/
def relativeTo (root candidate : Bytes) : Option Bytes :=
  match rel (clean root) (clean candidate) with
  | some r => if climbs r then none else some r
  | none => none

/-! ## Client paths -/

def defaultWorkdir : Bytes := ascii "/workspace"

def clientWorkdir (workdir : Bytes) : Bytes := if workdir = [] then defaultWorkdir else workdir

def clientPath (workdir p : Bytes) : Bytes :=
  if rooted p then clean p else joinPath [clientWorkdir workdir, p]

inductive PathError
  | empty
  | homeRelative (p : Bytes)
  | outsideMapping
  deriving DecidableEq, Repr

/-- `paths.FromClient`, for a root that clients see at `mountedAt`.  A carrier path is given by its
elements below the root: the join with the root and the `filepath.Rel` that undoes it are left out.
-/
def fromClient (workdir mountedAt cp : Bytes) : Except PathError (List Name) :=
  if cp = [] then .error .empty
  else if cp.head? = some 126 then .error (.homeRelative cp)
  else
    let joined := if rooted cp then cp else joinPath [clientWorkdir workdir, cp]
    let cleaned := clean (slash :: if rooted joined then joined.drop 1 else joined)
    if mountedAt = [] then .ok (elements cleaned)
    else
      match relativeTo mountedAt cleaned with
      | some r => .ok (elements r)
      | none => .error .outsideMapping

/-! ## Mount paths -/

def pathsOverlap (a b : Bytes) : Bool :=
  decide (a = b) || decide (a = [slash]) || decide (b = [slash]) || (b ++ [slash]).isPrefixOf a ||
    (a ++ [slash]).isPrefixOf b

def reservedPaths : List Bytes := [ascii "/dev", ascii "/proc", ascii "/sys", ascii "/.hostel"]

inductive MountPathError
  | notAbsolute
  | reserved (path : Bytes)
  deriving DecidableEq, Repr

def validateMountPath (p : Bytes) : Except MountPathError Unit :=
  if !rooted p || decide (p = [slash]) then .error .notAbsolute
  else
    match reservedPaths.find? (pathsOverlap p) with
    | some r => .error (.reserved r)
    | none => .ok ()

/-! ## What `relativeTo` says -/

theorem dropCommon_append (c base targ : List Name) :
    dropCommon (c ++ base) (c ++ targ) = dropCommon base targ := by
  induction c with
  | nil => rfl
  | cons e c ih => simpa [dropCommon] using ih

theorem dropCommon_of_not_below {base targ : List Name} (h : ¬base <+: targ) :
    ∃ b up rest, dropCommon base targ = (b :: up, rest) ∧ b ∈ base := by
  induction base generalizing targ with
  | nil => exact absurd nil_prefix h
  | cons b base ih =>
    cases targ with
    | nil => exact ⟨b, base, [], rfl, mem_cons_self⟩
    | cons t targ =>
      by_cases htb : t = b
      · subst htb
        rw [prefix_cons_inj] at h
        obtain ⟨c, up, rest, heq, hmem⟩ := ih h
        refine ⟨c, up, rest, ?_, mem_cons_of_mem _ hmem⟩
        rw [dropCommon, if_pos rfl, heq]
      · exact ⟨b, base, t :: targ, by rw [dropCommon, if_neg htb], mem_cons_self⟩

variable {p : Bytes}

section

variable (h : rooted p = true)
include h

theorem plain_elements : ∀ e ∈ elements p, Plain e := by
  have hnormal := normal_kept p
  rw [h] at hnormal
  have hall : ∀ st : List Name, Normal true st → ∀ e ∈ st, Plain e := by
    intro st hst
    induction st with
    | nil => simp
    | cons e st ih =>
      refine forall_mem_cons.mpr ⟨?_, ih hst.2⟩
      rcases hst.1 with hplain | ⟨-, hfalse, -⟩
      · exact hplain
      · cases hfalse
  intro e he
  exact hall _ hnormal e (by simpa [elements] using he)

theorem clean_rooted : clean p = render true (elements p) := by
  have hne : render true (elements p) ≠ [] := by simp [render, rootSlash]
  rw [clean, h, if_neg hne]

theorem rooted_clean : rooted (clean p) = true := by
  rw [clean_rooted h]
  simp [rooted, render, rootSlash]

theorem elements_clean : elements (clean p) = elements p := by
  by_cases hnil : elements p = []
  · rw [clean_rooted h, hnil]
    decide
  · have hnormal : Normal true (elements p).reverse := normal_reverse (plain_elements h)
    rw [clean_rooted h]
    exact (coordinates_render hnormal hnil).2

end

theorem clean_eq_iff {q : Bytes} (hp : rooted p = true) (hq : rooted q = true) :
    clean p = clean q ↔ elements p = elements q := by
  constructor
  · intro h
    rw [← elements_clean hp, h, elements_clean hq]
  · intro h
    rw [clean_rooted hp, clean_rooted hq, h]

theorem clean_ne_dot (h : rooted p = true) : clean p ≠ [dot] := by
  rw [clean_rooted h]
  simp only [render, rootSlash, if_true, singleton_append, ne_eq, cons.injEq, not_and]
  intro hslash
  exact absurd hslash (by decide)

theorem climbs_intercalate {es : List Name} (hes : ∀ e ∈ es, Plain e) :
    climbs ([slash].intercalate es) = false := by
  rw [Bool.eq_false_iff, ne_eq, climbs_iff]
  obtain rfl | hne := eq_or_ne es []
  · simp [dotdot]
  · have hsplit := splitOn_intercalate slash (fun e he => (hes e he).2.1) hne
    have hnot : dotdot ∉ es := fun h => (hes _ h).2.2.2 rfl
    rintro (h | ⟨r, h⟩)
    · rw [h, splitOn_eq_singleton slash_notMem_dotdot] at hsplit
      exact hnot (hsplit ▸ mem_singleton_self _)
    · rw [h, splitOn_append_cons_self_of_not_mem slash_notMem_dotdot] at hsplit
      exact hnot (hsplit ▸ mem_cons_self)

/-- **On absolute paths `relativeTo` compares the elements.** -/
theorem relativeTo_eq {root candidate : Bytes} (hroot : rooted root = true)
    (hcand : rooted candidate = true) : (∀ rest, elements candidate = elements root ++ rest →
      relativeTo root candidate = some (if rest = [] then [dot] else [slash].intercalate rest)) ∧
      (¬elements root <+: elements candidate → relativeTo root candidate = none) := by
  have hroot' := rooted_clean hroot
  have hcand' := rooted_clean hcand
  constructor
  · intro rest hrest
    by_cases hnil : rest = []
    · subst hnil
      rw [append_nil] at hrest
      have hsame : clean (clean candidate) = clean (clean root) := by
        rw [clean_clean, clean_clean]
        exact (clean_eq_iff hcand hroot).mpr hrest
      rw [relativeTo, rel, if_pos hsame]
      rfl
    · have hdiffer : clean candidate ≠ clean root := by
        rw [ne_eq, clean_eq_iff hcand hroot, hrest]
        simpa using hnil
      have hplain : ∀ e ∈ rest, Plain e :=
        fun e he => plain_elements hcand e (by rw [hrest]; simp [he])
      have hdrop : dropCommon (elements root) (elements root ++ rest) = ([], rest) := by
        have := dropCommon_append (elements root) [] rest
        rw [append_nil] at this
        rw [this]
        cases rest <;> rfl
      rw [relativeTo, rel]
      simp only [clean_clean, if_neg hdiffer, hroot', hcand', ne_eq, not_true_eq_false, if_false,
        clean_ne_dot hcand, elements_clean hroot, elements_clean hcand, hrest, hdrop,
        climbs_intercalate hplain, Bool.false_eq_true, hnil]
  · intro hnot
    have hdiffer : clean candidate ≠ clean root := by
      rw [ne_eq, clean_eq_iff hcand hroot]
      intro h
      exact hnot (h ▸ prefix_refl _)
    obtain ⟨b, up, rest, hdrop, hmem⟩ := dropCommon_of_not_below hnot
    have hb : b ≠ dotdot := (plain_elements hroot b hmem).2.2.2
    have hclimbs : climbs ([slash].intercalate ((b :: up).map (fun _ => dotdot) ++ rest)) = true :=
      climbs_iff.mpr (render_dotdot _)
    rw [relativeTo, rel]
    simp only [clean_clean, if_neg hdiffer, hroot', hcand', ne_eq, not_true_eq_false, if_false,
      clean_ne_dot hcand, elements_clean hroot, elements_clean hcand, hdrop, hb, hclimbs, if_true]

theorem relativeTo_isSome {root candidate : Bytes} (hroot : rooted root = true)
    (hcand : rooted candidate = true) :
    (relativeTo root candidate).isSome = true ↔ elements root <+: elements candidate := by
  obtain ⟨hbelow, hnone⟩ := relativeTo_eq hroot hcand
  constructor
  · intro h
    by_contra hnot
    rw [hnone hnot] at h
    cases h
  · rintro ⟨rest, hrest⟩
    rw [hbelow rest hrest.symm]
    rfl

/-! ## The place a client path names -/

theorem ne_nil_of_rooted (h : rooted p = true) : p ≠ [] := by
  rintro rfl
  cases h

theorem joinPath_rooted {w : Bytes} (hw : rooted w = true) :
    rooted (joinPath [w, p]) = true ∧ clean (joinPath [w, p]) = joinPath [w, p] := by
  have hne := ne_nil_of_rooted hw
  refine ⟨?_, clean_joinPath mem_cons_self hne⟩
  by_cases hp : p = []
  · subst hp
    have hjoin : joinPath [w, []] = clean w := by simp [joinPath, hne, intercalate_singleton]
    rw [hjoin]
    exact rooted_clean hw
  · have hjoin : joinPath [w, p] = clean (w ++ slash :: p) := by
      simp [joinPath, hne, hp, intercalate, intersperse]
    rw [hjoin]
    exact rooted_clean ((rooted_append hne _).trans hw)

variable {workdir mountedAt p : Bytes}

section

variable (hw : rooted (clientWorkdir workdir) = true)
include hw

theorem rooted_clientPath : rooted (clientPath workdir p) = true := by
  unfold clientPath
  split
  · next h => exact rooted_clean h
  · exact (joinPath_rooted hw).1

theorem fromClient_eq (hat : rooted mountedAt = true) (hp : p ≠ []) (hhome : p.head? ≠ some 126) :
    fromClient workdir mountedAt p =
      match relativeTo mountedAt (clientPath workdir p) with
      | some r => .ok (elements r)
      | none => .error .outsideMapping := by
  have hdrop : ∀ joined : Bytes, rooted joined = true → slash :: joined.drop 1 = joined := by
    intro joined hjoined
    cases joined with
    | nil => cases hjoined
    | cons c rest =>
      have hc : c = slash := by simpa [rooted] using hjoined
      rw [hc]
      rfl
  rw [fromClient, if_neg hp, if_neg hhome]
  simp only [if_neg (ne_nil_of_rooted hat)]
  by_cases hroot : rooted p = true
  · simp only [clientPath, hroot, if_true, hdrop p hroot]
  · obtain ⟨hjoin, hclean⟩ := joinPath_rooted (p := p) hw
    simp only [clientPath, hroot, hjoin, if_true, if_false, Bool.false_eq_true,
      hdrop _ hjoin, hclean]

theorem fromClient_below (hat : rooted mountedAt = true) (hp : p ≠ [])
    (hhome : p.head? ≠ some 126) {es : List Name}
    (h : elements (clientPath workdir p) = elements mountedAt ++ es) :
    fromClient workdir mountedAt p = .ok es := by
  have hrooted := rooted_clientPath (p := p) hw
  rw [fromClient_eq hw hat hp hhome, (relativeTo_eq hat hrooted).1 es h]
  split
  · next r hr =>
    cases hr
    congr 1
    split
    · next hnil => rw [hnil, elements_dot]
    · next hne =>
      have hplain : ∀ e ∈ es, Plain e := fun e he => plain_elements hrooted e (by rw [h]; simp [he])
      exact elements_intercalate hplain hne
  · next hr => cases hr

theorem fromClient_ok (hat : rooted mountedAt = true) {es : List Name}
    (h : fromClient workdir mountedAt p = .ok es) :
    elements (clientPath workdir p) = elements mountedAt ++ es := by
  by_cases hp : p = []
  · rw [fromClient, if_pos hp] at h
    cases h
  by_cases hhome : p.head? = some 126
  · rw [fromClient, if_neg hp, if_pos hhome] at h
    cases h
  by_cases hin : elements mountedAt <+: elements (clientPath workdir p)
  · obtain ⟨rest, hrest⟩ := hin
    rw [fromClient_below hw hat hp hhome hrest.symm] at h
    cases h
    exact hrest.symm
  · rw [fromClient_eq hw hat hp hhome, (relativeTo_eq hat (rooted_clientPath hw)).2 hin] at h
    cases h

end

end Hostel.Filesystem
