/-
# Hostel.Filesystem.RoundTrip — client paths and the carrier paths they name.

`Resolve` sends a client path to a place below the root that routing names; `ToClient` of that root
leads back, to the cleaned path except at the root of a mount whose target is not written clean.
Different cleaned paths never meet on the carrier.
-/
import Hostel.Filesystem.ReadOnly

namespace Hostel.Filesystem

open Hostel.Logic Hostel.Sync Hostel.Sync.Tar List Option

/-- `paths.ToClient`, for a root at `home` that clients see at `mountedAt`.  Carrier paths are
absolute and given by their elements, and `filepath.Rel` climbs from the home to where they part. -/
def toClient (home : List Name) (mountedAt : Bytes) (host : List Name) : Bytes :=
  match dropCommon home host with
  | ([], []) => if mountedAt = [] then [slash] else mountedAt
  | (up, rest) =>
    joinPath [[slash], mountedAt, [slash].intercalate (up.map (fun _ => dotdot) ++ rest)]

def FS.resolveCarrier (fs : FS) (p : Bytes) : Except PathError (List Name) :=
  (fromClient fs.workdir (mountedAt (fs.mapped p)) p).map (base (fs.mapped p) ++ ·)

theorem joinPath_root {p : Bytes} (hp : rooted p = true) {es : List Name} (hes : ∀ e ∈ es, Plain e)
    (hne : es ≠ []) :
    joinPath [[slash], p, [slash].intercalate es] = render true (elements p ++ es) := by
  have hskip : ∀ q : Bytes, rooted q = true → elements (slash :: q) = elements q := by
    intro q hq
    have hsplit : (slash :: q).splitOn slash = [] :: q.splitOn slash :=
      splitOn_append_cons_self_of_not_mem not_mem_nil q
    rw [elements, elements, kept, kept, hsplit, hq]
    rfl
  have htext : [slash].intercalate es ≠ [] := by
    intro hnil
    have h := elements_intercalate hes hne
    rw [hnil] at h
    exact hne (h.symm.trans (by decide))
  have hjoin : joinPath [[slash], p, [slash].intercalate es] =
      clean ([slash].intercalate ((slash :: slash :: p) :: es)) := by
    rw [intercalate_cons_of_ne_nil hne]
    generalize [slash].intercalate es = text at htext ⊢
    simp [joinPath, ne_nil_of_rooted hp, htext, intercalate, intersperse]
  rw [hjoin, intercalate_cons_plain (cons_ne_nil _ _) hes hne, hskip (slash :: p) rfl, hskip p hp]
  rfl

/-- `ToClient` of a place below the root joins it to the mount point; of the root itself it is the
mount point. -/
theorem toClient_below (home : List Name) {mountedAt : Bytes} (hat : rooted mountedAt = true)
    {es : List Name} (hes : ∀ e ∈ es, Plain e) :
    toClient home mountedAt (home ++ es) = if es = [] then
    mountedAt else render true (elements mountedAt ++ es) := by
  have hdrop : dropCommon home (home ++ es) = ([], es) := by
    have h := dropCommon_append home [] es
    rw [append_nil] at h
    rw [h]
    cases es <;> rfl
  unfold toClient
  rw [hdrop]
  cases es with
  | nil => rw [if_neg (ne_nil_of_rooted hat)]; rfl
  | cons e es => exact joinPath_root hat hes (cons_ne_nil e es)

namespace FS

variable {fs : FS} {ms : List Mount} {p : Bytes} {q : List Name}

theorem resolveCarrier_ok (h : fs.resolveCarrier p = .ok q) :
    ∃ es, q = base (fs.mapped p) ++ es ∧ (∀ e ∈ es, Plain e) ∧
      elements (clientPath fs.workdir p) = elements (mountedAt (fs.mapped p)) ++ es := by
  unfold resolveCarrier at h
  cases hfrom : fromClient fs.workdir (mountedAt (fs.mapped p)) p with
  | error e => rw [hfrom] at h; cases h
  | ok es =>
    rw [hfrom] at h
    cases h
    have helems := fromClient_ok fs.workdir_rooted (rooted_mountedAt _) hfrom
    refine ⟨es, rfl, fun e he => ?_, helems⟩
    exact plain_elements (rooted_clientPath (p := p) fs.workdir_rooted) e
      (by rw [helems]; simp [he])

theorem clean_clientPath : clean (clientPath fs.workdir p) = clientPath fs.workdir p := by
  unfold clientPath
  split
  · exact clean_clean p
  · exact (joinPath_rooted fs.workdir_rooted).2

/-- The first mount that contains the path, if its target leads to the path itself, has it written
clean. -/
def WrittenClean (ms : List Mount) (workdir p : Bytes) : Prop :=
  ∀ m, ms.find? (fun m => (elements m.target).isPrefixOf (elements (clientPath workdir p))) =
    some m → clean m.target = clientPath workdir p → clean m.target = m.target

theorem writtenClean_iff (hacc : Accepted fs ms) : WrittenClean ms fs.workdir p ↔
    (clean (mountedAt (fs.mapped p)) = clientPath fs.workdir p →
      clean (mountedAt (fs.mapped p)) = mountedAt (fs.mapped p)) := by
  have hfirst := mapped_first hacc p
  unfold WrittenClean
  cases hmapped : fs.mapped p with
  | none =>
    rw [hmapped] at hfirst
    rw [map_eq_none_iff.mp hfirst.symm]
    exact ⟨fun _ _ => (by decide : clean ([slash] : Bytes) = [slash]), fun _ m hm => nomatch hm⟩
  | some i =>
    rw [hmapped] at hfirst
    obtain ⟨m, hm, hpair⟩ := map_eq_some_iff.mp hfirst.symm
    have htarget : m.target = mountedAt (some i : fs.Target) := congrArg Prod.fst hpair
    rw [hm, ← htarget]
    exact ⟨fun h => h m rfl, fun h m' hm' => some.inj hm' ▸ h⟩

/-- **Client paths and carrier paths.**  `Resolve` leads below the root that `route` chooses and
below no other, and keeps different cleaned paths apart; `ToClient` of that root leads back to the
cleaned path if and only if the path is not the target of its mount, or that is written clean, as
the targets of a Pillow's mounts all are. -/
theorem resolve_round_trip (c : Carrier) (prepared : Env) (new : FS) (hnew : new.mappings = [])
    (start host₁ : LocalTree) (ms : List Mount) (fs : FS)
    (haccept : setMounts prepared c (new, start) ms = .ok (fs, host₁))
    (hhome : ∀ m ∈ fs.mappings, Apart fs.home m.source) (p : Bytes) (q : List Name)
    (hp : fs.resolveCarrier p = .ok q) :
    ∃ i, fs.route p false = .ok i ∧ (∀ j, base j <+: q ↔ j = i) ∧
    (∃ es, q = base i ++ es ∧ ∀ e ∈ es, Plain e) ∧
      (toClient (base i) (mountedAt i) q = clientPath fs.workdir p ↔ WrittenClean ms fs.workdir p) ∧
      ((∀ m ∈ ms, clean m.target = m.target) →
        toClient (base i) (mountedAt i) q = clientPath fs.workdir p) ∧
      ∀ p' q', fs.resolveCarrier p' = .ok q' → clientPath fs.workdir p' ≠ clientPath fs.workdir p →
      q' ≠ q := by
  have hacc : Accepted fs ms := (setMounts_new hnew haccept).1
  have hrooted := rooted_clientPath (p := p) fs.workdir_rooted
  obtain ⟨es, rfl, hplain, helems⟩ := resolveCarrier_ok hp
  have honly : ∀ j, base j <+: base (fs.mapped p) ++ es ↔ j = fs.mapped p := by
    intro j
    refine ⟨fun hj => ?_, fun hj => hj ▸ prefix_append _ _⟩
    by_contra hne
    have hapart := base_apart hacc hhome hne
    exact (List.prefix_or_prefix_of_prefix hj (prefix_append _ _)).elim hapart.1 hapart.2
  have hback : toClient (base (fs.mapped p)) (mountedAt (fs.mapped p)) (base (fs.mapped p) ++ es) =
      clientPath fs.workdir p ↔ WrittenClean ms fs.workdir p := by
    have hat := rooted_mountedAt (fs.mapped p)
    have hself : clean (mountedAt (fs.mapped p)) = clientPath fs.workdir p ↔ es = [] := by
      rw [← clean_clientPath, clean_eq_iff hat hrooted, helems]
      simp
    have hpath : clientPath fs.workdir p =
        render true (elements (mountedAt (fs.mapped p)) ++ es) := by
      rw [← clean_clientPath, clean_rooted hrooted, helems]
    rw [writtenClean_iff hacc, hself, toClient_below _ hat hplain]
    by_cases hnil : es = []
    · rw [if_pos hnil, ← hself.mpr hnil]
      exact ⟨fun h _ => h.symm, fun h => (h hnil).symm⟩
    · rw [if_neg hnil]
      exact ⟨fun _ h => absurd h hnil, fun _ => hpath.symm⟩
  refine ⟨fs.mapped p, rfl, honly, ⟨es, rfl, hplain⟩, hback, fun hclean => ?_, ?_⟩
  · exact hback.mpr fun m hm _ => hclean m (mem_of_find?_eq_some hm)
  · rintro p' q' hp' hdiffer heq
    obtain ⟨es', rfl, -, helems'⟩ := resolveCarrier_ok hp'
    have hsame : fs.mapped p' = fs.mapped p := (honly _).mp (heq ▸ prefix_append _ _)
    rw [hsame] at heq helems'
    rw [append_cancel_left heq, ← helems] at helems'
    exact hdiffer (by rw [← clean_clientPath, ← clean_clientPath (p := p)]
                      exact (clean_eq_iff (rooted_clientPath fs.workdir_rooted) hrooted).mpr
                        helems')

theorem resolve_round_trip_file :
    ∃ fs host₁ q, setMounts plainEnv plainCarrier (newFS, emptyCarrier) (twoMounts "/c") =
    .ok (fs, host₁) ∧
      fs.resolveCarrier (ascii "/c/./x") = .ok q ∧
      ∃ i : fs.Target, base i <+: q ∧
      toClient (base i) (mountedAt i) q = clientPath fs.workdir (ascii "/c/./x") := by
  have hafter : acceptedWith emptyCarrier (twoMounts "/c") (fun fs _ => homeApart fs &&
      decide (fs.resolveCarrier (ascii "/c/./x") = .ok [ascii "volumes", ascii "w", ascii "x"])) =
        true := by
    decide +kernel
  obtain ⟨fs, host₁, haccept, hcheck⟩ := acceptedWith_elim hafter
  rw [Bool.and_eq_true, decide_eq_true_eq] at hcheck
  obtain ⟨i, -, honly, -, -, hback, -⟩ :=
    resolve_round_trip plainCarrier plainEnv newFS rfl emptyCarrier host₁
    (twoMounts "/c") fs haccept (homeApart_elim hcheck.1) _ _ hcheck.2
  exact ⟨fs, host₁, _, haccept, hcheck.2, i, (honly i).mpr rfl, hback (by decide)⟩

/-- The target `/c/` is stored with its slash, so that the root of this mount is reported as
`/c/`. -/
theorem target_reported_unclean :
    acceptedWith emptyCarrier (twoMounts "/c/") (fun fs _ => decide (homeApart fs = true ∧
      fs.resolveCarrier (ascii "/c") = .ok [ascii "volumes", ascii "w"] ∧
      clientPath fs.workdir (ascii "/c") = ascii "/c" ∧
      toClient (base (fs.mapped (ascii "/c"))) (mountedAt (fs.mapped (ascii "/c")))
      [ascii "volumes", ascii "w"] =
        ascii "/c/")) = true := by decide +kernel

end FS

end Hostel.Filesystem
