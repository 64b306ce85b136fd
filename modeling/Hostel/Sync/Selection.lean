/-
# Hostel.Sync.Selection — what a snapshot selects.

`writeTarGzip`, the export to restic and `exceedsSnapshotFileThreshold` do not enter an excluded
directory (`visited`); CAS and pack ask for every entry of a full walk (`filteredFS`).  The two
agree because what is below an excluded path is excluded.
-/
import Hostel.Sync.Auto

namespace Hostel.Sync

open Hostel.Logic Tar List

variable {f : SnapshotFilter} {p q : List Name}

def volumes : Name := ascii "volumes"

def metaJson : Name := ascii "meta.json"

theorem visited_eq {t : Tree} (hwf : t.WellFormed) (hp : ∀ m ∈ p, Plain m) :
    visited (some f.excluded) p t = keep f (t.walk p) := by
  induction t generalizing p with
  | nil => rfl
  | leaf n l rest ih =>
    unfold visited Tree.walk
    rw [ih hwf.2.2 hp]
    by_cases hexcl : f.excluded (relPath (p ++ [n])) = true
    · simp [keep_cons_excluded, hexcl]
    · simp [keep_cons_kept, hexcl]
  | dir n mode mtime children rest ihc ihr =>
    obtain ⟨hn, -, hchildren, hrest⟩ := hwf
    have hpath := plainPath_concat hp hn.1
    unfold visited Tree.walk
    rw [ihc hchildren hpath.2, ihr hrest hp]
    by_cases hexcl : f.excluded (relPath (p ++ [n])) = true
    · simp [keep_cons_excluded, hexcl, keep_append, keep_walk_excluded hchildren hpath hexcl]
    · simp [keep_cons_kept, hexcl, keep_append]

theorem relPath_below (hp : p ≠ []) (hq : q ≠ []) :
    (relPath p ++ [slash]) <+: relPath (p ++ q) := by
  induction q using reverseRecOn with
  | nil => exact absurd rfl hq
  | append_singleton q n ih =>
    rw [← append_assoc, relPath_concat (by simp [hp])]
    obtain rfl | hne := eq_or_ne q []
    · exact ⟨n, by simp⟩
    · exact (ih hne).trans (prefix_append ..)

theorem pathWithin_relPath (hp : PlainPath p) (hq : PlainPath q) :
    pathWithin (relPath p) (relPath q) = true ↔ q <+: p := by
  simp only [pathWithin, Bool.or_eq_true, decide_eq_true_eq, isPrefixOf_iff_prefix]
  constructor
  · rintro (h | ⟨t, ht⟩)
    · rw [relPath_injective hp hq h]
    · refine ⟨t.splitOn slash, ?_⟩
      rw [← splitOn_relPath hp, ← ht, append_assoc, singleton_append, splitOn_append_cons_self,
        splitOn_relPath hq]
  · rintro ⟨r, rfl⟩
    obtain rfl | hne := eq_or_ne r []
    · simp
    · exact .inr (relPath_below hq.1 hne)

theorem relPath_volumes (n : Name) : relPath [volumes, n] = volumesPrefix ++ n := by
  have h : volumesPrefix = relPath [volumes] ++ [slash] := by decide
  rw [h, append_assoc]
  exact relPath_concat (cons_ne_nil volumes []) n

theorem validRoot_eq {root : Bytes} (h : validRoot root = true) :
    ∃ n, Plain n ∧ root = relPath [volumes, n] := by
  simp only [validRoot, Bool.and_eq_true, decide_eq_true_eq, Bool.not_eq_true',
    isPrefixOf_iff_prefix] at h
  obtain ⟨⟨⟨⟨n, rfl⟩, hclean⟩, hslash⟩, hne⟩ := h
  refine ⟨n, ⟨?_, ?_, ?_, ?_⟩, by rw [relPath_volumes]⟩
  · rintro rfl
    exact hne rfl
  · simpa using hslash
  all_goals
    rintro rfl
    exact absurd hclean (by decide)

theorem addRoots_ok {roots rest : List Bytes}
    (h : (addRoots roots rest).map SnapshotFilter.mk = .ok f) :
    f.roots = roots ++ rest ∧ ∀ root ∈ rest, validRoot root = true := by
  induction rest generalizing roots with
  | nil =>
    cases h
    simp
  | cons root rest ih =>
    unfold addRoots at h
    split_ifs at h with hvalid
    · cases h
    · obtain ⟨hroots, hrest⟩ := ih h
      exact ⟨by simp [hroots], forall_mem_cons.mpr ⟨hvalid, hrest⟩⟩
    · cases h

theorem excluded_eq_false_iff (hroots : ∀ root ∈ f.roots, validRoot root = true)
    (hp : PlainPath p) :
    f.excluded (relPath p) = false ↔ p = [metaJson] ∨ (f.roots ≠ [] ∧ p = [volumes]) ∨
      ∃ n, relPath [volumes, n] ∈ f.roots ∧ [volumes, n] <+: p := by
  have hmeta : relPath p = ascii "meta.json" ↔ p = [metaJson] :=
    ⟨fun h => relPath_injective (q := [metaJson]) hp ⟨by decide, by decide⟩ h, fun h => h ▸ rfl⟩
  have hwithin (n : Name) (hn : Plain n) : (pathWithin (relPath p) (relPath [volumes, n]) ||
      pathWithin (relPath [volumes, n]) (relPath p)) = true ↔ p = [volumes] ∨
      [volumes, n] <+: p := by
    have hroot : PlainPath [volumes, n] := ⟨by simp, by simpa using ⟨by decide, hn⟩⟩
    rw [Bool.or_eq_true, pathWithin_relPath hp hroot, pathWithin_relPath hroot hp]
    obtain ⟨a, r, rfl⟩ := exists_cons_of_ne_nil hp.1
    cases r with
    | nil => simp
    | cons b r =>
      simp
      grind
  simp only [SnapshotFilter.excluded, trimSlashes_relPath hp, relPath_ne_dot hp, false_or, hmeta]
  split_ifs with h
  · simp [h]
  · simp only [h, false_or, Bool.not_eq_false', any_eq_true]
    constructor
    · rintro ⟨root, hroot, hw⟩
      obtain ⟨n, hn, rfl⟩ := validRoot_eq (hroots root hroot)
      exact ((hwithin n hn).mp hw).imp (fun h => ⟨ne_nil_of_mem hroot, h⟩) fun h => ⟨n, hroot, h⟩
    · rintro (⟨hne, hvol⟩ | ⟨n, hroot, hbelow⟩)
      · obtain ⟨root, hroot⟩ := exists_mem_of_ne_nil _ hne
        obtain ⟨n, hn, rfl⟩ := validRoot_eq (hroots root hroot)
        exact ⟨_, hroot, (hwithin n hn).mpr (.inl hvol)⟩
      · exact ⟨_, hroot, (hwithin n (hp.2 n (hbelow.subset (by simp)))).mpr (.inr hbelow)⟩

/-- **The walks that prune and the filter that asks for every entry select the same**: `meta.json`,
`volumes` if there is a root at all, and what is below the roots. -/
theorem selection_agrees {roots : Option (List Bytes)} (h : newSnapshotFilter roots = .ok f)
    (d : Directory) : (∀ p q, PlainPath (p ++ q) → p ≠ [] →
      (f.excluded (relPath p) = true → f.excluded (relPath (p ++ q)) = true) ∧
      (f.excluded (relPath (p ++ q)) = false → f.excluded (relPath p) = false)) ∧
    visited (some f.excluded) [] d.tree = filteredFS f d ∧
    archive f [] d.tree = (filteredFS f d).mapM (fun e => recordOf (relPath e.path) e.info) ∧
    (∀ threshold, 0 < threshold → Auto.exceedsSnapshotFileThreshold threshold d f false =
      .ok (decide (threshold < (filteredFS f d).countP fun e => e.info.isLeaf))) ∧
    ∀ e, e ∈ filteredFS f d ↔ e ∈ d.tree.walk [] ∧ (e.path = [metaJson] ∨
      (roots ≠ some [] ∧ e.path = [volumes]) ∨
      ∃ n, relPath [volumes, n] ∈ roots.getD defaultRoots ∧ [volumes, n] <+: e.path) := by
  obtain ⟨hroots, hvalid⟩ := addRoots_ok h
  rw [nil_append] at hroots
  have hvisited : visited (some f.excluded) [] d.tree = filteredFS f d :=
    visited_eq d.wellFormed (by simp)
  refine ⟨fun p q hp hne => ⟨excluded_below hp hne, fun hq => ?_⟩, hvisited,
    archive_eq d.wellFormed (by simp), fun threshold ht => ?_, fun e => ?_⟩
  · rw [← Bool.not_eq_true] at hq ⊢
    exact fun hexcl => hq (excluded_below hp hne hexcl)
  · simp only [Auto.exceedsSnapshotFileThreshold, not_le.mpr ht, hvisited, if_false,
      Bool.false_eq_true]
  · have hsome : f.roots ≠ [] ↔ roots ≠ some [] := by
      rw [hroots]
      cases roots <;> simp [defaultRoots]
    rw [filteredFS, mem_filter, ← hsome, ← hroots]
    refine and_congr_right fun he => ?_
    rw [Bool.not_eq_true',
      excluded_eq_false_iff (hroots ▸ hvalid) (walk_plain d.wellFormed (by simp) he)]

/-- A Bed with a file beside a volume, in a directory of the volume's name. -/
def bedWithVolume : Directory :=
  ⟨.dir volumes 0o755 0 (.dir (ascii "a") 0o755 0 .nil (.leaf (ascii "ab") .special .nil)) .nil,
    by decide⟩

theorem selection_agrees_one :
    newSnapshotFilter (some [ascii "volumes/a"]) = .ok ⟨[ascii "volumes/a"]⟩ ∧
    ⟨[volumes, ascii "a"], .dir 0o755 0⟩ ∈ filteredFS ⟨[ascii "volumes/a"]⟩ bedWithVolume := by
  have h : newSnapshotFilter (some [ascii "volumes/a"]) = .ok ⟨[ascii "volumes/a"]⟩ := by decide
  obtain ⟨-, -, -, -, hmem⟩ := selection_agrees h bedWithVolume
  exact ⟨h, (hmem _).mpr ⟨by decide, .inr (.inr ⟨ascii "a", by decide, by decide⟩)⟩⟩

/-- No roots are accepted, and then `volumes` is not selected. -/
theorem volumes_unselected : newSnapshotFilter (some []) = .ok ⟨[]⟩ ∧
    ⟨[volumes], .dir 0o755 0⟩ ∈ bedWithVolume.tree.walk [] ∧
    filteredFS ⟨[]⟩ bedWithVolume = [] := by
  decide

end Hostel.Sync
