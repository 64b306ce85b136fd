/-
# Hostel.Filesystem.ReadOnly — read-only mounts.

No operation changes the source of a read-only mount: every operation runs below one root, never
below a read-only one, and the sources of accepted mounts are apart.  A mutating operation on a path
at or below a read-only target fails and changes nothing exactly if the mounts shield (`Shielded`):
such a path is claimed by a read-only mount first.  `SetMounts` would ensure it if it compared the
targets after cleaning them.
-/
import Mathlib.Data.List.Pairwise
import Hostel.Filesystem.Mappings

namespace Hostel.Filesystem

open Hostel.Logic Hostel.Sync Hostel.Sync.Tar List Env Bool

/-! ## Trees below a directory -/

namespace Env

theorem graft_of_not_below {fs sub : LocalTree} {b q : List Name} (h : ¬b <+: q) :
    graft fs b sub q = fs q := by
  rw [graft, if_neg]
  simpa using h

theorem below_graft_apart {fs sub : LocalTree} {b c : List Name} (hbc : ¬b <+: c) (hcb : ¬c <+: b) :
    below (graft fs b sub) c = below fs c := by
  funext p
  refine graft_of_not_below fun h => ?_
  rcases prefix_or_prefix_of_prefix h (prefix_append c p) with h | h
  · exact hbc h
  · exact hcb h

theorem makeDirs_existing (clock : List Name → Int) (mode fuel : Nat) {fs : LocalTree}
    (cwd p : List Name) (h : ∀ a, a <+: p → a ≠ [] → DirAt fs (cwd ++ a))
    (hfuel : p.length ≤ fuel) :
    Root.makeDirs clock mode fuel fs cwd (descend p) = (fs, .ok (cwd ++ p)) := by
  induction p generalizing cwd fuel with
  | nil => cases fuel <;> simp [Root.makeDirs, descend]
  | cons n p ih =>
    cases fuel with
    | zero => simp at hfuel
    | succ fuel =>
      obtain ⟨m, t, hdir⟩ := h [n] ⟨p, rfl⟩ (by simp)
      rw [descend, map_cons, Root.makeDirs, hdir]
      have hrest := ih fuel (cwd ++ [n]) (fun a ha hne => by
        simpa using h (n :: a) ((prefix_cons_inj n).mpr ha) (by simp))
          (Nat.le_of_succ_le_succ hfuel)
      simpa [descend] using hrest

theorem mkdirAll_existing (env : Env) {d : Disk} {p : List Name} (h : ∀ a, a <+: p → DirAt d.tree a)
    (hlimit : p.length ≤ env.limit) : env.mkdirAll p d = .ok () d := by
  rcases eq_nil_or_concat' p with rfl | ⟨dir, n, rfl⟩
  · rfl
  · have hdirs := makeDirs_existing env.clock 0o755 env.limit [] dir
      (fun a ha _ => h a (ha.trans (prefix_append dir [n])))
      (by simp only [length_append, length_singleton] at hlimit; omega)
    obtain ⟨m, t, hdir⟩ := h (dir ++ [n]) (prefix_refl _)
    rw [nil_append] at hdirs
    simp only [mkdirAll, getLast?_concat, dropLast_concat, hdirs, Root.makeLast, hdir]

end Env

/-! ## Accepted mounts -/

theorem pathsOverlap_of_below {p q : List Name} (h : p <+: q) :
    pathsOverlap (carrierText p) (carrierText q) = true := by
  obtain ⟨r, rfl⟩ := h
  by_cases hr : r = []
  · subst hr
    simp [pathsOverlap]
  by_cases hp : p = []
  · subst hp
    have hroot : carrierText ([] : List Name) = [slash] := rfl
    simp [pathsOverlap, hroot]
  · have htext : carrierText p ++ [slash] <+: carrierText (p ++ r) := by
      obtain ⟨r', e, rfl⟩ := eq_nil_or_concat' r |>.resolve_left hr
      rw [carrierText, carrierText, render_append_slash hp, ← append_assoc, render_concat,
        within_append, append_assoc]
      exact prefix_append _ _
    simp [pathsOverlap, isPrefixOf_iff_prefix.mpr htext]

theorem pathsOverlap_comm (a b : Bytes) : pathsOverlap a b = pathsOverlap b a := by
  unfold pathsOverlap
  rw [decide_eq_decide.mpr (eq_comm : a = b ↔ b = a)]
  cases decide (b = a) <;> cases decide (a = [slash]) <;> cases decide (b = [slash]) <;>
    cases (b ++ [slash]).isPrefixOf a <;> cases (a ++ [slash]).isPrefixOf b <;> rfl

/-- Neither of two directories is at or below the other. -/
def Apart (b c : List Name) : Prop := ¬b <+: c ∧ ¬c <+: b

theorem Apart.symm {b c : List Name} (h : Apart b c) : Apart c b := ⟨h.2, h.1⟩

theorem apart_of_not_overlap {b c : List Name}
    (h : pathsOverlap (carrierText b) (carrierText c) = false) : Apart b c := by
  constructor
  · intro hbc
    rw [pathsOverlap_of_below hbc] at h
    cases h
  · intro hcb
    rw [pathsOverlap_comm, pathsOverlap_of_below hcb] at h
    cases h

variable {c : Carrier} {env : Env} {ms : List Mount} {s s' : FS × LocalTree}

theorem checkMount_ok {fs : FS} {m : Mount} {r : MappedRoot} (h : checkMount c fs m = .ok r) :
    r.target = m.target ∧ r.readOnly = m.readOnly ∧
      (∀ prior ∈ fs.mappings, pathsOverlap r.target prior.target = false ∧
        Apart r.source prior.source) ∧ c.evalSymlinks m.source = some r.source ∧
      (m.owned = false →
        ∃ root, c.evalSymlinks (carrierText fs.home.dropLast.dropLast) = some root ∧
        Apart r.source root) := by
  unfold checkMount at h
  split at h
  · cases h
  next hsource =>
  split at h
  · cases h
  split at h
  · cases h
  split at h
  · cases h
  next root hroot =>
  split at h
  · cases h
  next hhostel =>
  split at h
  · cases h
  next hoverlap =>
  split at h
  · cases h
    refine ⟨rfl, rfl, fun prior hprior => ?_, hsource, fun howned => ⟨root, hroot, ?_⟩⟩
    · have hnone := any_eq_false.mp (not_eq_true _ ▸ hoverlap) prior hprior
      rw [not_eq_true, or_eq_false_iff] at hnone
      exact ⟨hnone.1, apart_of_not_overlap hnone.2⟩
    · rw [howned, Bool.not_false, Bool.true_and, not_eq_true] at hhostel
      exact apart_of_not_overlap hhostel
  · cases h

/-- What `SetMounts` has accepted so far. -/
structure Accepted (fs : FS) (ms : List Mount) : Prop where
  points : fs.mappings.map (fun m => (m.target, m.readOnly)) = ms.map
    fun m => (m.target, m.readOnly)
  texts : fs.mappings.Pairwise fun a b => pathsOverlap b.target a.target = false
  apart : fs.mappings.Pairwise fun a b => Apart a.source b.source

theorem setMount_accepted {done : List Mount} {m : Mount}
    (hs : Accepted s.1 done) (h : setMount env c s m = .ok s') : Accepted s'.1 (done ++ [m]) ∧
    s'.1.home = s.1.home := by
  unfold setMount at h
  split at h
  · cases h
  next r hr =>
  obtain ⟨htarget, hro, hapart, -⟩ := checkMount_ok hr
  simp only at h
  split at h
  · cases h
  split at h
  · cases h
    refine ⟨⟨?_, ?_, ?_⟩, rfl⟩
    · simp [hs.points, htarget, hro]
    · refine pairwise_append.mpr ⟨hs.texts, pairwise_singleton _ _, fun a ha b hb => ?_⟩
      rw [mem_singleton.mp hb]
      exact (hapart a ha).1
    · refine pairwise_append.mpr ⟨hs.apart, pairwise_singleton _ _, fun a ha b hb => ?_⟩
      rw [mem_singleton.mp hb]
      exact (hapart a ha).2.symm
  · cases h

theorem setMounts_accepted {done ms : List Mount}
    (hs : Accepted s.1 done) (h : setMounts env c s ms = .ok s') : Accepted s'.1 (done ++ ms) ∧
    s'.1.home = s.1.home := by
  induction ms generalizing s done with
  | nil =>
    cases h
    simpa using hs
  | cons m ms ih =>
    rw [setMounts, foldlM_cons] at h
    obtain ⟨s₁, hs₁, h⟩ := bind_eq_ok h
    obtain ⟨hacc, hhome⟩ := setMount_accepted hs hs₁
    obtain ⟨hacc', hhome'⟩ := ih hacc h
    exact ⟨by simpa using hacc', hhome'.trans hhome⟩

theorem setMounts_new {new fs : FS} {start host : LocalTree}
    (hnew : new.mappings = []) (h : setMounts env c (new, start) ms = .ok (fs, host)) :
    Accepted fs ms ∧ fs.home = new.home := by
  have hempty : Accepted new [] :=
    ⟨by rw [hnew]; rfl, by rw [hnew]; exact .nil, by rw [hnew]; exact .nil⟩
  simpa using setMounts_accepted hempty h

theorem setMounts_checked
    (h : setMounts env c s ms = .ok s') {r : MappedRoot} (hr : r ∈ s'.1.mappings) :
    r ∈ s.1.mappings ∨ ∃ m ∈ ms, ∃ fs, fs.home = s.1.home ∧ checkMount c fs m = .ok r := by
  induction ms generalizing s with
  | nil =>
    cases h
    exact .inl hr
  | cons m ms ih =>
    rw [setMounts, foldlM_cons] at h
    obtain ⟨s₁, hs₁, h⟩ := bind_eq_ok h
    have hstep : s₁.1.home = s.1.home ∧
        (r ∈ s₁.1.mappings → r ∈ s.1.mappings ∨ checkMount c s.1 m = .ok r) := by
      unfold setMount at hs₁
      split at hs₁
      · cases hs₁
      next r' hr' =>
      simp only at hs₁
      split at hs₁
      · cases hs₁
      split at hs₁
      · cases hs₁
        refine ⟨rfl, fun hmem => (mem_append.mp hmem).imp_right fun hlast => ?_⟩
        rw [mem_singleton.mp hlast]
        exact hr'
      · cases hs₁
    rcases ih h with hold | ⟨m', hm', fs, hhome, hcheck⟩
    · exact (hstep.2 hold).imp_right fun hcheck => ⟨m, mem_cons_self, s.1, rfl, hcheck⟩
    · exact .inr ⟨m', mem_cons_of_mem _ hm', fs, hhome.trans hstep.1, hcheck⟩

/-- How `Prepare` lays out a Bed: its home is `rootfs` and its managed volumes are directories of
`volumes`, in one directory that is reached without links. -/
structure Prepared (c : Carrier) (dir home : List Name) (ms : List Mount) : Prop where
  home : home = dir ++ [ascii "rootfs"]
  root : c.evalSymlinks (carrierText dir.dropLast) = some dir.dropLast
  owned : ∀ m ∈ ms, m.owned = true →
    ∃ name, c.evalSymlinks m.source = some (dir ++ [ascii "volumes", name])

/-- The home is apart from the volumes: the check of `SetMounts` says so of the external ones, and
the layout of the others. -/
theorem Prepared.home_apart {new fs : FS} {start host : LocalTree}
    {dir : List Name} (hp : Prepared c dir new.home ms) (hnew : new.mappings = [])
    (h : setMounts env c (new, start) ms = .ok (fs, host)) :
    ∀ m ∈ fs.mappings, Apart fs.home m.source := by
  intro r hr
  rw [(setMounts_new hnew h).2, hp.home]
  rcases setMounts_checked h hr with hold | ⟨m, hm, fs', hhome, hcheck⟩
  · simp only [hnew] at hold
    cases hold
  obtain ⟨-, -, -, hsource, hexternal⟩ := checkMount_ok hcheck
  cases howned : m.owned with
  | true =>
    obtain ⟨name, hname⟩ := hp.owned m hm howned
    rw [hname, Option.some.injEq] at hsource
    rw [← hsource]
    rw [Apart, prefix_append_right_inj, prefix_append_right_inj, cons_prefix_cons, cons_prefix_cons]
    have hne : ascii "rootfs" ≠ ascii "volumes" := by decide
    exact ⟨fun h => hne h.1, fun h => hne h.1.symm⟩
  | false =>
    obtain ⟨root, hroot, hapart⟩ := hexternal howned
    rw [hhome, hp.home, dropLast_concat, hp.root, Option.some.injEq] at hroot
    subst hroot
    have habove : dir.dropLast <+: dir ++ [ascii "rootfs"] :=
      (List.dropLast_prefix dir).trans (prefix_append _ _)
    exact ⟨fun h => hapart.2 (habove.trans h),
      fun h => (List.prefix_or_prefix_of_prefix h habove).elim hapart.1 hapart.2⟩

/-! ## Routing by elements -/

namespace FS

variable {fs : FS}

theorem mapped_eq (fs : FS) (p : Bytes) :
    (fs.mapped p).map (fun i => ((fs.mappings.get i).target, (fs.mappings.get i).readOnly)) =
      (fs.mappings.map fun m => (m.target, m.readOnly)).find? fun x =>
        (elements x.1).isPrefixOf (elements (clientPath fs.workdir p)) := by
  have hsame : (fun m : MappedRoot => (relativeTo m.target (clientPath fs.workdir p)).isSome) =
      fun m => (elements m.target).isPrefixOf (elements (clientPath fs.workdir p)) := by
    funext m
    rw [Bool.eq_iff_iff, relativeTo_isSome m.target_rooted (rooted_clientPath fs.workdir_rooted),
      isPrefixOf_iff_prefix]
  rw [find?_map, mapped, hsame, find?_eq_map_findFinIdx?_getElem, Option.map_map]
  rfl

theorem mapped_first (hacc : Accepted fs ms) (p : Bytes) :
    (fs.mapped p).map (fun i => ((fs.mappings.get i).target, (fs.mappings.get i).readOnly)) =
      (ms.find? fun m => (elements m.target).isPrefixOf (elements (clientPath fs.workdir p))).map
      fun m => (m.target, m.readOnly) := by
  rw [mapped_eq, hacc.points, find?_map]
  rfl

theorem readOnly_mapped (hacc : Accepted fs ms) (p : Bytes) :
    readOnly (fs.mapped p) =
      (ms.find? fun m => (elements m.target).isPrefixOf (elements (clientPath fs.workdir p))).any
      (·.readOnly) := by
  have h := mapped_first hacc p
  cases hm : fs.mapped p with
  | none =>
    rw [hm] at h
    rw [Option.map_eq_none_iff.mp h.symm]
    rfl
  | some i =>
    rw [hm] at h
    obtain ⟨m, hfind, hpair⟩ := Option.map_eq_some_iff.mp h.symm
    rw [hfind]
    exact (congrArg Prod.snd hpair).symm

/-! ## Read-only mounts -/

/-- A path at or below a read-only target is at or below no writable target, or below a read-only
one that comes first. -/
def Shielded (ms : List Mount) : Prop :=
  ∀ es : List Name, (∀ e ∈ es, Plain e) → (∃ m ∈ ms, m.readOnly = true ∧ elements m.target <+: es) →
    ∃ m, ms.find? (fun m => (elements m.target).isPrefixOf es) = some m ∧ m.readOnly = true

/-- The cleaned path is at or below a read-only target. -/
def InReadOnly (ms : List Mount) (workdir p : Bytes) : Prop :=
  ∃ m ∈ ms, m.readOnly = true ∧ elements m.target <+: elements (clientPath workdir p)

theorem refused_of_shielded (hacc : Accepted fs ms) (hshield : Shielded ms)
    (op : FileOp) (host : LocalTree) (hop : ∃ p ∈ op.paths, InReadOnly ms fs.workdir p) :
    ∃ e, fs.run env op host = fail e host := by
  obtain ⟨p, hp, hin⟩ := hop
  generalize hout : fs.run env op host = out
  have heffect := run_effect fs env op host
  rw [hout] at heffect
  cases heffect with
  | refused e => exact ⟨e, rfl⟩
  | ran i act hroute hwrite =>
    obtain ⟨m, hfind, hro⟩ := hshield _ (plain_elements (rooted_clientPath fs.workdir_rooted)) hin
    have htrue : readOnly (fs.mapped p) = true := by rw [readOnly_mapped hacc, hfind]; exact hro
    rw [hroute p hp, hwrite] at htrue
    cases htrue

/-- Cleaned targets that do not overlap as texts do not overlap, so that no mount hides another. -/
theorem shielded_of_clean (hacc : Accepted fs ms) (hclean : ∀ m ∈ ms, clean m.target = m.target) :
    Shielded ms := by
  have htext : ∀ m ∈ ms, m.target = carrierText (elements m.target) := by
    intro m hm
    have hmem := mem_map_of_mem (f := fun m : Mount => (m.target, m.readOnly)) hm
    rw [← hacc.points] at hmem
    obtain ⟨r, -, hr⟩ := mem_map.mp hmem
    have htarget : r.target = m.target := congrArg Prod.fst hr
    rw [carrierText, ← clean_rooted (htarget ▸ r.target_rooted), hclean m hm]
  have htexts : ms.Pairwise fun a b => pathsOverlap b.target a.target = false := by
    have hpairs : (fs.mappings.map fun m => (m.target, m.readOnly)).Pairwise
        fun a b => pathsOverlap b.1 a.1 = false := pairwise_map.mpr hacc.texts
    rw [hacc.points] at hpairs
    exact pairwise_map.mp hpairs
  rintro es - ⟨m, hm, hro, hbelow⟩
  cases hfind : ms.find? fun m => (elements m.target).isPrefixOf es with
  | none => exact absurd (List.isPrefixOf_iff_prefix.mpr hbelow) (find?_eq_none.mp hfind m hm)
  | some m' =>
    refine ⟨m', rfl, ?_⟩
    by_contra hwrite
    have hm' := mem_of_find?_eq_some hfind
    have hbelow' : elements m'.target <+: es := by
      simpa [List.isPrefixOf_iff_prefix] using find?_some hfind
    have : Std.Symm fun a b : Mount => pathsOverlap b.target a.target = false :=
      ⟨fun a b h => pathsOverlap_comm a.target b.target ▸ h⟩
    have hsep := htexts.forall hm hm' (by rintro rfl; exact hwrite hro)
    rw [htext m hm, htext m' hm'] at hsep
    have hapart := apart_of_not_overlap hsep
    exact (List.prefix_or_prefix_of_prefix hbelow hbelow').elim hapart.2 hapart.1

/-- A carrier on which the directories down to `p` are all there is. -/
def chain (p : List Name) : LocalTree :=
  fun q => if q.isPrefixOf p then some (.dir 0o755 0) else none

theorem elements_carrierText {es : List Name} (hes : ∀ e ∈ es, Plain e) (workdir : Bytes) :
    rooted (carrierText es) = true ∧ elements (clientPath workdir (carrierText es)) = es := by
  have hroot : rooted (carrierText es) = true := by simp [carrierText, render, rootSlash, rooted]
  refine ⟨hroot, ?_⟩
  rw [clientPath, if_pos hroot, elements_clean hroot]
  by_cases hnil : es = []
  · subst hnil
    decide
  · exact (coordinates_render (normal_reverse hes) hnil).2

theorem makeDir_chain (env : Env) {es rest : List Name} (hes : ∀ e ∈ es, Plain e) {i : fs.Target}
    (hmapped : fs.mapped (carrierText es) = i) (hwrite : readOnly i = false)
    (hroot : rooted (mountedAt i) = true) (hrest : es = elements (mountedAt i) ++ rest)
    (hlimit : rest.length ≤ env.limit) :
    (fs.makeDir env (carrierText es) (chain (base i ++ rest))).result = .ok () := by
  obtain ⟨habs, helems⟩ := elements_carrierText hes fs.workdir
  have hroute : fs.route (carrierText es) true = .ok i := by
    rw [route]
    simp [hmapped, hwrite]
  have hfrom : fromClient fs.workdir (mountedAt i) (carrierText es) = .ok rest := by
    refine fromClient_below fs.workdir_rooted hroot (ne_nil_of_rooted habs) ?_ (helems.trans hrest)
    have hslash : (carrierText es).head? = some slash := by simpa [rooted] using habs
    rw [hslash]
    decide
  have hdirs : ∀ a, a <+: rest → DirAt (below (chain (base i ++ rest)) (base i)) a := by
    intro a ha
    refine ⟨0o755, 0, if_pos ?_⟩
    rw [List.isPrefixOf_iff_prefix]
    exact (prefix_append_right_inj _).mpr ha
  have hact :
    fs.makeDirIn env (mountedAt i) (carrierText es) ⟨below (chain (base i ++ rest)) (base i), []⟩ =
      .ok () ⟨below (chain (base i ++ rest)) (base i), []⟩ := by
    simp only [makeDirIn, resolve, hfrom]
    exact mkdirAll_existing env hdirs hlimit
  have hrun : fs.makeDir env (carrierText es) (chain (base i ++ rest)) =
      inRoot (base i) (fs.makeDirIn env (mountedAt i) (carrierText es))
      (chain (base i ++ rest)) := by
    unfold makeDir routed
    rw [hroute]
  rw [hrun, inRoot, hact]

theorem rooted_mountedAt (i : fs.Target) : rooted (mountedAt i) = true := by
  cases i with
  | none => exact (by decide : rooted ([slash] : Bytes) = true)
  | some i => exact fs.mappings[i].target_rooted

theorem mapped_below {p : Bytes} {i : fs.Target} (h : fs.mapped p = i) :
    elements (mountedAt i) <+: elements (clientPath fs.workdir p) := by
  cases i with
  | none => exact nil_prefix
  | some i =>
    have hfound := (findFinIdx?_eq_some_iff.mp h).1
    exact (relativeTo_isSome fs.mappings[i].target_rooted (rooted_clientPath fs.workdir_rooted)).mp
      hfound

/-- If every operation on a path at or below a read-only target is refused, the mounts shield:
otherwise a directory could be made there. -/
theorem shielded_of_refused (hacc : Accepted fs ms)
    (h : ∀ (env : Env) (host : LocalTree) (op : FileOp),
      (∃ p ∈ op.paths, InReadOnly ms fs.workdir p) →
      ∃ e, fs.run env op host = fail e host) : Shielded ms := by
  intro es hes hin
  obtain ⟨-, helems⟩ := elements_carrierText hes fs.workdir
  have hfirst := readOnly_mapped hacc (carrierText es)
  rw [helems] at hfirst
  cases hfind : ms.find? fun m => (elements m.target).isPrefixOf es with
  | none =>
    obtain ⟨m, hm, -, hbelow⟩ := hin
    exact absurd (List.isPrefixOf_iff_prefix.mpr hbelow) (find?_eq_none.mp hfind m hm)
  | some m =>
    refine ⟨m, rfl, ?_⟩
    by_contra hro
    rw [hfind] at hfirst
    have hwrite : readOnly (fs.mapped (carrierText es)) = false := by
      rw [hfirst]
      simpa using hro
    obtain ⟨rest, hrest⟩ := mapped_below (rfl : fs.mapped (carrierText es) = _)
    rw [helems] at hrest
    let env : Env := ⟨rest.length, fun _ => 0, fun _ => [], fun _ _ => false, fun _ _ => true,
      fun _ _ _ => true, fun _ => false⟩
    have hok := makeDir_chain env hes rfl hwrite (rooted_mountedAt _) hrest.symm (Nat.le_refl _)
    obtain ⟨e, hfail⟩ :=
      h env (chain (base (fs.mapped (carrierText es)) ++ rest)) (.makeDir (carrierText es))
      ⟨_, mem_singleton_self _, by rw [InReadOnly, helems]; exact hin⟩
    have hresult := congrArg Outcome.result hfail
    change (fs.makeDir env (carrierText es) _).result = .error e at hresult
    rw [hok] at hresult
    cases hresult

theorem base_apart (hacc : Accepted fs ms) (hhome : ∀ m ∈ fs.mappings, Apart fs.home m.source)
    {i j : fs.Target} (hij : i ≠ j) : Apart (base i) (base j) := by
  cases i with
  | none =>
    cases j with
    | none => exact absurd rfl hij
    | some j => exact hhome _ (getElem_mem _)
  | some i =>
    cases j with
    | none => exact (hhome _ (getElem_mem _)).symm
    | some j =>
      have hne : i.val ≠ j.val := fun h => hij (congrArg some (Fin.ext h))
      rcases Nat.lt_or_gt_of_ne hne with hlt | hlt
      · exact pairwise_iff_getElem.mp hacc.apart _ _ i.isLt j.isLt hlt
      · exact (pairwise_iff_getElem.mp hacc.apart _ _ j.isLt i.isLt hlt).symm

theorem inRoot_apart {α : Type} {b c : List Name} (h : Apart b c) (act : DiskM α)
    (host : LocalTree) : below (inRoot b act host).host c = below host c := by
  unfold inRoot
  split
  · exact below_graft_apart h.1 h.2
  · exact below_graft_apart h.1 h.2

theorem readOnly_unchanged (hacc : Accepted fs ms)
    (hhome : ∀ m ∈ fs.mappings, Apart fs.home m.source) (op : FileOp) (host : LocalTree)
    (m : MappedRoot) (hm : m ∈ fs.mappings) (hro : m.readOnly = true) :
    below (fs.run env op host).host m.source = below host m.source := by
  obtain ⟨k, hk, rfl⟩ := getElem_of_mem hm
  generalize hout : fs.run env op host = out
  have heffect := run_effect fs env op host
  rw [hout] at heffect
  cases heffect with
  | refused e => rfl
  | ran i act hroute hwrite =>
    have hne : i ≠ some ⟨k, hk⟩ := by
      rintro rfl
      rw [show readOnly (some ⟨k, hk⟩ : fs.Target) = fs.mappings[k].readOnly from rfl, hro]
        at hwrite
      cases hwrite
    exact inRoot_apart (base_apart hacc hhome hne) act host

/-- **Read-only mounts.**  For every BedFS that `SetMounts` has accepted the mounts of, with every
content of its roots: the operations on paths at or below read-only targets all fail and change
nothing if and only if the mounts shield, and no operation changes anything in the source of a
read-only mount.  Mounts whose targets are given clean, as those of a Pillow are, do shield. -/
theorem read_only_mounts (c : Carrier) (prepared : Env) (new : FS) (hnew : new.mappings = [])
    (start host₁ : LocalTree) (ms : List Mount) (fs : FS)
    (haccept : setMounts prepared c (new, start) ms = .ok (fs, host₁))
    (hhome : ∀ m ∈ fs.mappings, Apart fs.home m.source) :
    ((∀ (env : Env) (host : LocalTree) (op : FileOp), (∃ p ∈ op.paths, InReadOnly ms fs.workdir p) →
        ∃ e, fs.run env op host = fail e host) ↔ Shielded ms) ∧
      (∀ (env : Env) (host : LocalTree) (op : FileOp), ∀ m ∈ fs.mappings, m.readOnly = true →
        below (fs.run env op host).host m.source = below host m.source) ∧
      ((∀ m ∈ ms, clean m.target = m.target) → Shielded ms) := by
  have hacc : Accepted fs ms := (setMounts_new hnew haccept).1
  refine ⟨⟨shielded_of_refused hacc,
    fun hshield env host op hop => refused_of_shielded hacc hshield op host hop⟩, ?_,
    shielded_of_clean hacc⟩
  intro env host op m hm hro
  exact readOnly_unchanged hacc hhome op host m hm hro

/-! ### Two mounts -/

def plainCarrier : Carrier := ⟨fun p => some (elements p), fun _ => true⟩

def plainEnv : Env :=
  ⟨40, hourClock, fun _ => ascii ".hostel-transfer-0", fun _ _ => true, fun _ _ => true,
    fun _ _ _ => true, fun _ => false⟩

def newFS : FS := ⟨[ascii "beds", ascii "b", ascii "rootfs"], ascii "/workspace", [], by decide⟩

/-- A writable volume at this target, and then a read-only one at `/a`. -/
def twoMounts (target : String) : List Mount :=
  [⟨ascii "/volumes/w", ascii target, false, true⟩, ⟨ascii "/volumes/r", ascii "/a", true, true⟩]

/-- The carrier before: both volumes and the home, empty. -/
def emptyCarrier : LocalTree := fun q =>
  if q = newFS.home ∨ q = [ascii "volumes", ascii "w"] ∨ q = [ascii "volumes", ascii "r"] then
    some (.dir 0o755 0) else none

/-- The mounts are accepted, and `check` is true of the BedFS and the carrier afterwards. -/
def acceptedWith (start : LocalTree) (ms : List Mount) (check : FS → LocalTree → Bool) : Bool :=
  match setMounts plainEnv plainCarrier (newFS, start) ms with
  | .ok s => check s.1 s.2
  | .error _ => false

theorem acceptedWith_elim {start : LocalTree} {check : FS → LocalTree → Bool}
    (h : acceptedWith start ms check = true) :
    ∃ fs host₁, setMounts plainEnv plainCarrier (newFS, start) ms = .ok (fs, host₁) ∧
    check fs host₁ = true := by
  unfold acceptedWith at h
  split at h
  · next s hs => exact ⟨s.1, s.2, hs, h⟩
  · cases h

def homeApart (fs : FS) : Bool :=
  fs.mappings.all fun m => !fs.home.isPrefixOf m.source && !m.source.isPrefixOf fs.home

theorem homeApart_elim (h : homeApart fs = true) : ∀ m ∈ fs.mappings, Apart fs.home m.source := by
  intro m hm
  have hboth := all_eq_true.mp h m hm
  rw [and_eq_true, not_eq_true', not_eq_true'] at hboth
  constructor
  · intro hbelow
    rw [List.isPrefixOf_iff_prefix.mpr hbelow] at hboth
    cases hboth.1
  · intro hbelow
    rw [List.isPrefixOf_iff_prefix.mpr hbelow] at hboth
    cases hboth.2

theorem inReadOnly_file (target : String) (workdir : Bytes) :
    InReadOnly (twoMounts target) workdir (ascii "/a/b/f") := by
  refine ⟨⟨ascii "/volumes/r", ascii "/a", true, true⟩, by simp [twoMounts], rfl, ?_⟩
  rw [clientPath, if_pos (by decide)]
  decide

theorem read_only_mounts_apart :
    ∃ fs host₁, setMounts plainEnv plainCarrier (newFS, emptyCarrier) (twoMounts "/c") =
    .ok (fs, host₁) ∧
      (∃ e, fs.run plainEnv (.write (ascii "/a/b/f") (ascii "x") 0) host₁ = fail e host₁) ∧
      ∀ m ∈ fs.mappings, m.readOnly = true →
        below (fs.run plainEnv (.makeDir (ascii "/c/d")) host₁).host m.source =
        below host₁ m.source := by
  have hafter : acceptedWith emptyCarrier (twoMounts "/c") (fun fs _ => homeApart fs) = true := by
    decide +kernel
  obtain ⟨fs, host₁, haccept, hapart⟩ := acceptedWith_elim hafter
  obtain ⟨hrefused, hunchanged, hclean⟩ :=
    read_only_mounts plainCarrier plainEnv newFS rfl emptyCarrier host₁ (twoMounts "/c") fs
    haccept (homeApart_elim hapart)
  exact ⟨fs, host₁, haccept,
    hrefused.mpr (hclean (by decide)) plainEnv host₁ _ ⟨_, mem_singleton_self _,
    inReadOnly_file "/c" fs.workdir⟩, hunchanged plainEnv host₁ (.makeDir (ascii "/c/d"))⟩

/-- `/x/../a/b` and `/a` are different texts, so that both mounts are accepted; a path below `/a/b`
goes to the first. -/
theorem respelled_target_hides :
    ∃ fs host₁, setMounts plainEnv plainCarrier (newFS, emptyCarrier) (twoMounts "/x/../a/b") =
    .ok (fs, host₁) ∧
      InReadOnly (twoMounts "/x/../a/b") fs.workdir (ascii "/a/b/f") ∧
      (fs.run plainEnv (.write (ascii "/a/b/f") (ascii "x") 0) host₁).result = .ok () ∧
      (fs.run plainEnv (.write (ascii "/a/b/f") (ascii "x") 0) host₁).host [ascii "volumes",
        ascii "w", ascii "f"] =
        some (.leaf (.file 0o644 (3600 * second) (ascii "x"))) := by
  have hafter : acceptedWith emptyCarrier (twoMounts "/x/../a/b") (fun fs host =>
      let out := fs.run plainEnv (.write (ascii "/a/b/f") (ascii "x") 0) host
      decide (out.result = .ok () ∧ out.host [ascii "volumes", ascii "w", ascii "f"] =
        some (.leaf (.file 0o644 (3600 * second) (ascii "x"))))) = true := by decide +kernel
  obtain ⟨fs, host₁, haccept, hcheck⟩ := acceptedWith_elim hafter
  obtain ⟨hresult, hfile⟩ := of_decide_eq_true hcheck
  exact ⟨fs, host₁, haccept, inReadOnly_file _ _, hresult, hfile⟩

end FS

end Hostel.Filesystem
