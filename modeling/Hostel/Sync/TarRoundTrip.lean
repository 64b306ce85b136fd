/-
# Hostel.Sync.TarRoundTrip — what a restore makes of an archive.

The writer's walk is the list of entries the filter keeps (`archive_eq`).  In that list an entry
comes after the directory it is in, and no path comes twice (`Chain`).  The reader recreates it
entry by entry (`Extracted.step`) and sets modes and times of directories at the end, so what it
makes is known exactly (`Restored`).  It differs from what was archived where the two sides
disagree: names the reader refuses, and times it does not set (`Restorable`).
-/
import Hostel.Sync.Tar
import Hostel.Sync.Desync
import Mathlib.Data.List.Nodup

namespace Hostel.Sync.Tar

open Hostel.Logic Function List

/-! ## Relative paths -/

/-- The path of an entry: plain names. -/
def PlainPath (p : List Name) : Prop := p ≠ [] ∧ ∀ n ∈ p, Plain n

variable {p : List Name}

theorem relPath_concat (hp : p ≠ []) (n : Name) : relPath (p ++ [n]) = relPath p ++ slash :: n := by
  obtain ⟨q, e, rfl⟩ := eq_nil_or_concat' p |>.resolve_left hp
  rw [relPath, relPath, intercalate_concat, intercalate_concat, flatMap_append]
  simp

theorem splitOn_relPath (hp : PlainPath p) : (relPath p).splitOn slash = p :=
  splitOn_intercalate slash (fun n hn => (hp.2 n hn).2.1) hp.1

/-- A path does not begin or end with a slash, since no name is empty. -/
theorem trimSlashes_relPath (hp : PlainPath p) : trimSlashes (relPath p) = relPath p := by
  have hnil {s t : Bytes} (h : relPath p = s ++ slash :: t) : [] ∉ s.splitOn slash ++
      t.splitOn slash := by
    rw [← splitOn_append_cons_self, ← h, splitOn_relPath hp]
    exact fun hmem => (hp.2 [] hmem).1 rfl
  have hleft : (relPath p).dropWhile (· = slash) = relPath p := by
    cases hr : relPath p with
    | nil => rfl
    | cons c s =>
      refine dropWhile_cons_of_neg fun hc => hnil (s := []) (t := s) ?_ (by simp)
      rw [hr, of_decide_eq_true hc, nil_append]
  rw [trimSlashes, hleft, rdropWhile_eq_self_iff]
  intro hne hlast
  refine hnil (s := (relPath p).dropLast) (t := []) ?_ (by simp)
  rw [← of_decide_eq_true hlast, dropLast_append_getLast]

/-! ## What is below an excluded directory is excluded -/

/-- A slash splits off the same last element on both sides. -/
theorem prefix_of_prefix_child {a b n : Bytes} (hn : slash ∉ n)
    (h : (a ++ [slash]) <+: b ++ slash :: n) : a = b ∨ (a ++ [slash]) <+: b := by
  obtain ⟨t, ht⟩ := h
  rw [append_assoc] at ht
  rcases append_eq_append_iff.mp ht with ⟨c, rfl, hc⟩ | ⟨c, rfl, hc⟩
  · cases c with
    | nil => exact .inl (append_nil a).symm
    | cons x c =>
      cases hc
      exact .inr ⟨c, by simp⟩
  · cases c with
    | nil => exact .inl (append_nil b)
    | cons x c =>
      -- then `n` would hold the slash after `a`
      cases hc
      exact absurd (by simp) hn

variable {f : SnapshotFilter}

theorem excluded_child {n : Name} (hp : PlainPath (p ++ [n]))
    (hne : p ≠ []) (h : f.excluded (relPath p) = true) :
    f.excluded (relPath (p ++ [n])) = true := by
  have hp' : PlainPath p := ⟨hne, fun m hm => hp.2 m (by simp [hm])⟩
  have hn : slash ∉ n := (hp.2 n (by simp)).2.1
  simp only [SnapshotFilter.excluded, trimSlashes_relPath hp', trimSlashes_relPath hp] at h ⊢
  rw [relPath_concat hne]
  split_ifs at h with hmeta
  have hmeta' : ¬(relPath p ++ slash :: n = [dot] ∨
      relPath p ++ slash :: n = ascii "meta.json") := by
    have hmem : slash ∈ relPath p ++ slash :: n := by simp
    rintro (h | h) <;>
    · rw [h] at hmem
      exact absurd hmem (by decide)
  rw [if_neg hmeta']
  simp only [Bool.not_eq_true', any_eq_false, Bool.or_eq_true, not_or, pathWithin,
    decide_eq_true_eq, isPrefixOf_iff_prefix] at h ⊢
  intro root hroot
  obtain ⟨⟨hsame, hbelow⟩, -, habove⟩ := h root hroot
  have hstep : (relPath p ++ [slash]) <+: relPath p ++ slash :: n := ⟨n, by simp⟩
  refine ⟨⟨?_, ?_⟩, ?_, ?_⟩
  · rintro rfl
    exact habove hstep
  · intro hchild
    rcases prefix_of_prefix_child hn hchild with h | h
    · exact hsame h.symm
    · exact hbelow h
  · rintro rfl
    exact habove hstep
  · intro hbelow
    exact habove (hstep.trans ((prefix_append _ _).trans hbelow))

theorem excluded_below {q : List Name} (hp : PlainPath (p ++ q)) (hne : p ≠ [])
    (h : f.excluded (relPath p) = true) : f.excluded (relPath (p ++ q)) = true := by
  induction q using reverseRecOn with
  | nil => rwa [append_nil]
  | append_singleton q n ih =>
    rw [← append_assoc] at hp ⊢
    have hpq : p ++ q ≠ [] := by simp [hne]
    exact excluded_child hp hpq (ih ⟨hpq, (forall_mem_append.mp hp.2).1⟩)

/-! ## The walk -/

theorem plainPath_concat {n : Name} (hp : ∀ m ∈ p, Plain m) (hn : Plain n) : PlainPath (p ++ [n]) :=
  ⟨by simp, forall_mem_append.mpr ⟨hp, forall_mem_singleton.mpr hn⟩⟩

variable {e : Entry} {t : Tree}

theorem walk_below (hwf : t.WellFormed) (h : e ∈ t.walk p) :
    ∃ n q, n ∈ t.names ∧ (∀ m ∈ n :: q, Plain m) ∧ e.path = p ++ n :: q := by
  induction t generalizing p with
  | nil => cases h
  | leaf n l rest ih =>
    obtain ⟨hn, -, hrest⟩ := hwf
    rcases mem_cons.mp h with rfl | h
    · exact ⟨n, [], by simp [Tree.names], by simpa using hn.1, rfl⟩
    · obtain ⟨m, q, hm, hplain, hq⟩ := ih hrest h
      exact ⟨m, q, by simp [Tree.names, hm], hplain, hq⟩
  | dir n mode mtime children rest ihc ihr =>
    obtain ⟨hn, -, hchildren, hrest⟩ := hwf
    rcases mem_cons.mp h with rfl | h
    · exact ⟨n, [], by simp [Tree.names], by simpa using hn.1, rfl⟩
    · rcases mem_append.mp h with h | h
      · obtain ⟨m, q, -, hplain, hq⟩ := ihc hchildren h
        exact ⟨n, m :: q,
          by simp [Tree.names], forall_mem_cons.mpr ⟨hn.1, hplain⟩, by rw [hq]; simp⟩
      · obtain ⟨m, q, hm, hplain, hq⟩ := ihr hrest h
        exact ⟨m, q, by simp [Tree.names, hm], hplain, hq⟩

theorem walk_plain (hwf : t.WellFormed) (hp : ∀ m ∈ p, Plain m) (h : e ∈ t.walk p) :
    PlainPath e.path := by
  obtain ⟨n, q, -, hplain, hq⟩ := walk_below hwf h
  rw [hq]
  exact ⟨by simp, forall_mem_append.mpr ⟨hp, hplain⟩⟩

theorem walk_excluded (hwf : t.WellFormed)
    (hp : PlainPath p) (hexcl : f.excluded (relPath p) = true) (h : e ∈ t.walk p) :
    f.excluded (relPath e.path) = true := by
  have hplain := walk_plain hwf hp.2 h
  obtain ⟨n, q, -, -, hq⟩ := walk_below hwf h
  rw [hq] at hplain ⊢
  exact excluded_below hplain hp.1 hexcl

def keep (f : SnapshotFilter) (es : List Entry) : List Entry :=
  es.filter fun e => !f.excluded (relPath e.path)

theorem keep_cons_excluded (h : f.excluded (relPath e.path) = true)
    (es : List Entry) : keep f (e :: es) = keep f es := by
  simp [keep, h]

theorem keep_cons_kept (h : ¬f.excluded (relPath e.path) = true)
    (es : List Entry) : keep f (e :: es) = e :: keep f es := by
  simp [keep, h]

theorem keep_append (f : SnapshotFilter) (es fs : List Entry) :
    keep f (es ++ fs) = keep f es ++ keep f fs :=
  filter_append ..

theorem keep_walk_excluded (hwf : t.WellFormed)
    (hp : PlainPath p) (hexcl : f.excluded (relPath p) = true) : keep f (t.walk p) = [] := by
  rw [keep, filter_eq_nil_iff]
  intro e he
  simp [walk_excluded hwf hp hexcl he]

theorem archive_eq (hwf : t.WellFormed) (hp : ∀ m ∈ p, Plain m) :
    archive f p t = (keep f (t.walk p)).mapM fun e => recordOf (relPath e.path) e.info := by
  induction t generalizing p with
  | nil => rfl
  | leaf n l rest ih =>
    obtain ⟨hn, -, hrest⟩ := hwf
    unfold archive Tree.walk
    by_cases hexcl : f.excluded (relPath (p ++ [n])) = true
    · rw [if_pos hexcl, keep_cons_excluded hexcl]
      exact ih hrest hp
    · rw [if_neg hexcl, keep_cons_kept hexcl, mapM_cons, ih hrest hp]
  | dir n mode mtime children rest ihc ihr =>
    obtain ⟨hn, -, hchildren, hrest⟩ := hwf
    have hpath := plainPath_concat hp hn.1
    unfold archive Tree.walk
    by_cases hexcl : f.excluded (relPath (p ++ [n])) = true
    · -- what is below the skipped directory is excluded anyway
      rw [if_pos hexcl, keep_cons_excluded hexcl, keep_append,
        keep_walk_excluded hchildren hpath hexcl, nil_append]
      exact ihr hrest hp
    · rw [if_neg hexcl, keep_cons_kept hexcl, keep_append, mapM_cons, mapM_append,
        ihc hchildren hpath.2, ihr hrest hp]
      simp

/-! ## The order of the walk -/

/-- The entry can be created after those before it: its path is new, and it is at the top or in a
directory that comes before it. -/
structure Fits (before : List Entry) (e : Entry) : Prop where
  plain : PlainPath e.path
  new : ∀ d ∈ before, d.path ≠ e.path
  parent : e.path.dropLast = [] ∨
    ∃ d ∈ before, d.path = e.path.dropLast ∧ ∃ mode mtime, d.info = .dir mode mtime

/-- Every entry fits after those before it. -/
def Chain : List Entry → List Entry → Prop
  | _, [] => True
  | before, e :: es => Fits before e ∧ Chain (before ++ [e]) es

variable {es : List Entry}

theorem chain_append {before fs : List Entry} (h : Chain before es)
    (h' : Chain (before ++ es) fs) : Chain before (es ++ fs) := by
  induction es generalizing before with
  | nil => simpa using h'
  | cons e es ih => exact ⟨h.1, ih h.2 (by simpa using h')⟩

theorem path_ne {names : List Name} {n m : Name} (hfresh : n ∉ names) (hm : m ∈ names)
    (q q' : List Name) : p ++ n :: q' ≠ p ++ m :: q := by
  intro heq
  exact hfresh ((cons.inj (append_cancel_left heq)).1 ▸ hm)

theorem chain_walk (hwf : t.WellFormed) (hp : ∀ m ∈ p, Plain m) {before : List Entry}
    (hparent : p = [] ∨ ∃ d ∈ before, d.path = p ∧ ∃ mode mtime, d.info = .dir mode mtime)
    (hnew : ∀ d ∈ before, ∀ n ∈ t.names, ∀ q, d.path ≠ p ++ n :: q) :
    Chain before (keep f (t.walk p)) := by
  induction t generalizing p before with
  | nil => trivial
  | leaf n l rest ih =>
    obtain ⟨hn, hfresh, hrest⟩ := hwf
    simp only [Tree.names, mem_cons, forall_eq_or_imp] at hnew
    unfold Tree.walk
    by_cases hexcl : f.excluded (relPath (p ++ [n])) = true
    · rw [keep_cons_excluded hexcl]
      exact ih hrest hp hparent fun d hd => (hnew d hd).2
    · rw [keep_cons_kept hexcl]
      refine ⟨⟨plainPath_concat hp hn.1, fun d hd => (hnew d hd).1 [], by simpa using hparent⟩, ?_⟩
      refine ih hrest hp ?_ (forall_mem_append.mpr ⟨fun d hd => (hnew d hd).2, ?_⟩)
      · exact hparent.imp_right fun ⟨d, hd, hrest⟩ => ⟨d, by simp [hd], hrest⟩
      · exact forall_mem_singleton.mpr fun m hm q => path_ne hfresh hm q []
  | dir n mode mtime children rest ihc ihr =>
    obtain ⟨hn, hfresh, hchildren, hrest⟩ := hwf
    simp only [Tree.names, mem_cons, forall_eq_or_imp] at hnew
    unfold Tree.walk
    have hpath := plainPath_concat hp hn.1
    by_cases hexcl : f.excluded (relPath (p ++ [n])) = true
    · rw [keep_cons_excluded hexcl, keep_append, keep_walk_excluded hchildren hpath hexcl,
        nil_append]
      exact ihr hrest hp hparent fun d hd => (hnew d hd).2
    · rw [keep_cons_kept hexcl, keep_append]
      refine ⟨⟨hpath, fun d hd => (hnew d hd).1 [], by simpa using hparent⟩, chain_append ?_ ?_⟩
      · refine ihc hchildren hpath.2
          (.inr ⟨⟨p ++ [n], .dir mode mtime⟩, by simp, rfl, mode, mtime, rfl⟩)
          (forall_mem_append.mpr ⟨fun d hd m _ q => ?_, by simp⟩)
        simpa using (hnew d hd).1 (m :: q)
      · refine ihr hrest hp ?_ (forall_mem_append.mpr
          ⟨forall_mem_append.mpr ⟨fun d hd => (hnew d hd).2, ?_⟩, fun d hd m hm q => ?_⟩)
        · exact hparent.imp_right fun ⟨d, hd, hrest⟩ => ⟨d, by simp [hd], hrest⟩
        · exact forall_mem_singleton.mpr fun m hm q => path_ne hfresh hm q []
        · -- what is below the directory has its name, which is no other entry's
          obtain ⟨m', q', -, -, hq'⟩ := walk_below hchildren (mem_of_mem_filter hd)
          rw [hq', append_assoc]
          exact path_ne hfresh hm q _

theorem chain_filteredFS (f : SnapshotFilter) (d : Directory) : Chain [] (filteredFS f d) :=
  chain_walk d.wellFormed (by simp) (.inl rfl) (by simp)

/-! ## Names the reader accepts -/

def Accepted (e : Entry) : Prop := backslash ∉ relPath e.path ∧ Utf8.valid (relPath e.path) = true

instance (e : Entry) : Decidable (Accepted e) := inferInstanceAs (Decidable (_ ∧ _))

theorem validPath_relPath (hp : PlainPath p) : validPath (relPath p) = Utf8.valid (relPath p) := by
  have hall : p.all (fun e => decide (e ≠ [] ∧ e ≠ [dot] ∧ e ≠ dotdot)) = true := by
    rw [all_eq_true]
    intro n hn
    obtain ⟨hnil, -, hdot, hdotdot⟩ := hp.2 n hn
    exact decide_eq_true ⟨hnil, hdot, hdotdot⟩
  rw [validPath, splitOn_relPath hp, hall, Bool.or_true, Bool.and_true]

theorem relPath_ne_dot (hp : PlainPath p) : relPath p ≠ [dot] := by
  intro h
  have hsplit := splitOn_relPath hp
  rw [h] at hsplit
  exact (hp.2 [dot] (by rw [← hsplit]; decide)).2.2.1 rfl

/-- The reader takes a name as it is, or refuses it. -/
theorem cleanTarPath_ok_iff (hp : PlainPath e.path) {name : Bytes} :
    cleanTarPath (relPath e.path) = .ok name ↔ Accepted e ∧ name = relPath e.path := by
  have hclean : clean (relPath e.path) = relPath e.path :=
    clean_render (r := false) (normal_reverse hp.2) hp.1
  simp only [cleanTarPath, hclean, validPath_relPath hp, relPath_ne_dot hp, false_or, Accepted]
  by_cases hslash : backslash ∈ relPath e.path
  · simp [hslash]
  · by_cases hutf8 : Utf8.valid (relPath e.path) = true
    · simp [hslash, hutf8, eq_comm]
    · simp [hslash, hutf8]

theorem relPath_injective {p q : List Name} (hp : PlainPath p) (hq : PlainPath q)
    (h : relPath p = relPath q) : p = q := by
  rw [← splitOn_relPath hp, h, splitOn_relPath hq]

/-! ## Creating entries -/

theorem ok_bind {ε α β : Type} (a : α) (k : α → Except ε β) : (Except.ok a >>= k) = k a := rfl

theorem bind_eq_ok {ε α β : Type} {c : Except ε α} {k : α → Except ε β} {b : β}
    (h : c >>= k = .ok b) : ∃ a, c = .ok a ∧ k a = .ok b := by
  cases c with
  | error err => cases h
  | ok a => exact ⟨a, rfl, h⟩

def DirAt (fs : LocalTree) (p : List Name) : Prop := ∃ mode mtime, fs p = some (.dir mode mtime)

section
variable {fs : LocalTree} {now : Int} {p q : List Name} {i : Info}

theorem create_self : create fs now p i p = some i := by simp [create]

theorem create_dir (hne : q ≠ p) {mode : Nat} {mtime : Int} (h : fs q = some (.dir mode mtime)) :
    create fs now p i q = some (.dir mode (if p.dropLast = q then now else mtime)) := by
  by_cases hparent : p.dropLast = q
  · rw [create, if_neg hne, if_pos hparent.symm, if_pos hparent, h]
  · rw [create, if_neg hne, if_neg (Ne.symm hparent), if_neg hparent, h]

theorem DirAt.create (hne : q ≠ p) (h : DirAt fs q) : DirAt (create fs now p i) q := by
  obtain ⟨mode, mtime, h⟩ := h
  exact ⟨mode, _, create_dir hne h⟩

theorem DirAt.create_free (hfree : fs p = none) (h : DirAt fs q) :
    DirAt (Tar.create fs now p i) q := by
  refine h.create ?_
  rintro rfl
  obtain ⟨mode, mtime, h⟩ := h
  rw [hfree] at h
  cases h

theorem mkdirAll_existing (clock : List Name → Int) (mode : Nat) {done todo : List Name}
    (h : ∀ r, r <+: done ++ todo → DirAt fs r) : mkdirAll clock mode fs done todo = .ok fs := by
  induction todo generalizing done with
  | nil => rfl
  | cons n todo ih =>
    obtain ⟨m, t, hdir⟩ := h (done ++ [n]) ⟨todo, by simp⟩
    rw [mkdirAll, hdir]
    exact ih (by simpa using h)

theorem mkdirAll_new (clock : List Name → Int) (mode : Nat) (done : List Name) {todo : List Name}
    {n : Name}
    (h : ∀ r, r <+: done ++ todo → DirAt fs r) (hnone : fs (done ++ todo ++ [n]) = none) :
    mkdirAll clock mode fs done (todo ++ [n]) =
      .ok (create fs (clock (done ++ todo ++ [n])) (done ++ todo ++ [n])
        (.dir mode (clock (done ++ todo ++ [n])))) := by
  induction todo generalizing done with
  | nil =>
    simp only [append_nil] at hnone ⊢
    rw [nil_append, mkdirAll, hnone]
    rfl
  | cons m todo ih =>
    obtain ⟨mode', t, hdir⟩ := h (done ++ [m]) ⟨todo, by simp⟩
    rw [cons_append, mkdirAll, hdir]
    simpa using ih (done ++ [m]) (by simpa using h) (by simpa using hnone)

end

/-! ## The loop of the reader -/

/-- When directory `p` was last modified by the creation of `es`, in this order. -/
def stamp (clock : List Name → Int) (es : List Entry) (p : List Name) : Int :=
  es.foldl (fun t e => if e.path.dropLast = p then clock e.path else t) (clock p)

theorem stamp_concat (clock : List Name → Int) (es : List Entry) (e : Entry) (p : List Name) :
    stamp clock (es ++ [e]) p =
      if e.path.dropLast = p then clock e.path else stamp clock es p := by
  simp [stamp]

/-- A directory that nothing was created in has the time of its own creation. -/
theorem stamp_eq {clock : List Name → Int} (h : ∀ e ∈ es, e.path.dropLast ≠ p) :
    stamp clock es p = clock p := by
  induction es using reverseRecOn with
  | nil => rfl
  | append_singleton es e ih =>
    rw [stamp_concat, if_neg (h e (by simp))]
    exact ih fun d hd => h d (by simp [hd])

/-- What the loop makes of an entry: a directory has some mode until the end. -/
def Placed (clock : List Name → Int) (pre : List Entry) (fs : LocalTree) (e : Entry) : Prop :=
  match e.info with
  | .leaf (.file mode mtime data) =>
    fs e.path = some (.leaf (.file (perm mode) (restoredTime (clock e.path) (toSecond mtime)) data))
  | .leaf (.symlink _ target) => fs e.path = some (.leaf (.symlink (clock e.path) target))
  | .leaf .special => False
  | .dir _ _ => ∃ mode, fs e.path = some (.dir mode (stamp clock pre e.path))

/-- The attributes the reader sets at the end, if the entry is a directory. -/
def dirOf (e : Entry) : Option RestoredDir :=
  match e.info with
  | .dir mode mtime => some ⟨relPath e.path, perm mode, toSecond mtime⟩
  | .leaf _ => none

/-- The state of the loop after the entries `pre`. -/
structure Extracted (clock : List Name → Int) (pre : List Entry) (x : Extraction) : Prop where
  seen : ∀ name ∈ x.seen, ∃ e ∈ pre, name = relPath e.path
  dirs : x.dirs = pre.filterMap dirOf
  root : DirAt x.fs []
  plain : ∀ e ∈ pre, PlainPath e.path
  placed : ∀ e ∈ pre, Placed clock pre x.fs e
  absent : ∀ p, p ≠ [] → (∀ e ∈ pre, e.path ≠ p) → x.fs p = none
  above : ∀ e ∈ pre, ∀ q, q <+: e.path.dropLast → DirAt x.fs q

section
variable {clock : List Name → Int} {pre : List Entry} {x : Extraction} {e : Entry}

theorem Placed.create {d : Entry} {fs : LocalTree} {i : Info} (hne : d.path ≠ e.path)
    (h : Placed clock pre fs d) :
    Placed clock (pre ++ [e]) (create fs (clock e.path) e.path i) d := by
  unfold Placed at h ⊢
  split at h
  · simp [Tar.create, hne, h]
  · simp [Tar.create, hne, h]
  · exact h
  · obtain ⟨mode, h⟩ := h
    exact ⟨mode, by rw [create_dir hne h, stamp_concat]⟩

theorem Placed.dirAt {fs : LocalTree} {mode : Nat} {mtime : Int} (h : Placed clock pre fs e)
    (hdir : e.info = .dir mode mtime) : DirAt fs e.path := by
  rw [Placed, hdir] at h
  obtain ⟨mode, h⟩ := h
  exact ⟨mode, _, h⟩

section

variable (h : Extracted clock pre x)
include h

theorem Extracted.parents (hfits : Fits pre e) {q : List Name}
    (hq : q <+: e.path.dropLast) : DirAt x.fs q := by
  rcases hfits.parent with htop | ⟨d, hd, hpath, mode, mtime, hdir⟩
  · rw [htop, prefix_nil] at hq
    exact hq ▸ h.root
  · rw [← hpath] at hq
    rcases prefix_concat_iff.mp
      (by rwa [dropLast_append_getLast (h.plain d hd).1] : q <+: d.path.dropLast ++ [_])
      with hself | habove
    · rw [hself, dropLast_append_getLast]
      exact (h.placed d hd).dirAt hdir
    · exact h.above d hd q habove

theorem Extracted.create (hfits : Fits pre e) {i : Info}
    (hplaced : Placed clock (pre ++ [e]) (create x.fs (clock e.path) e.path i) e) :
    Extracted clock (pre ++ [e])
      { fs := create x.fs (clock e.path) e.path i
        seen := relPath e.path :: x.seen
        dirs := (pre ++ [e]).filterMap dirOf } := by
  constructor
  case seen =>
    intro name hname
    rcases mem_cons.mp hname with rfl | hname
    · exact ⟨e, by simp, rfl⟩
    · obtain ⟨d, hd, hname⟩ := h.seen name hname
      exact ⟨d, by simp [hd], hname⟩
  case dirs => rfl
  case root => exact h.root.create hfits.plain.1.symm
  case plain => exact forall_mem_append.mpr ⟨h.plain, forall_mem_singleton.mpr hfits.plain⟩
  case placed =>
    refine forall_mem_append.mpr ⟨fun d hd => ?_, forall_mem_singleton.mpr hplaced⟩
    exact (h.placed d hd).create (hfits.new d hd)
  case absent =>
    intro p hne hp
    simp [Tar.create, (hp e (by simp)).symm, h.absent p hne fun d hd => hp d (by simp [hd])]
  case above =>
    have hkeep {q : List Name} (hq : DirAt x.fs q) :
        DirAt (Tar.create x.fs (clock e.path) e.path i) q := by
      refine hq.create ?_
      rintro rfl
      obtain ⟨_, _, hdir⟩ := hq
      exact absurd (h.absent e.path hfits.plain.1 hfits.new) (by simp [hdir])
    refine forall_mem_append.mpr ⟨fun d hd q hq => hkeep (h.above d hd q hq), ?_⟩
    exact forall_mem_singleton.mpr fun q hq => hkeep (h.parents hfits hq)

theorem Extracted.extract_eq (hfits : Fits pre e) (hname : Accepted e)
    {r : Record} (hr : r.header.name = relPath e.path) :
    extract clock x r = extractAs clock { x with seen := relPath e.path :: x.seen }
    (relPath e.path) r := by
  have hclean := (cleanTarPath_ok_iff hfits.plain).mpr ⟨hname, rfl⟩
  have hunseen : relPath e.path ∉ x.seen := by
    intro hmem
    obtain ⟨d, hd, hsame⟩ := h.seen _ hmem
    exact hfits.new d hd (relPath_injective (h.plain d hd) hfits.plain hsame.symm)
  simp only [extract, hr, hclean]
  exact if_neg (by simpa using hunseen)

theorem Extracted.step (hfits : Fits pre e) (hname : Accepted e)
    {r : Record} (hr : recordOf (relPath e.path) e.info = .ok r) :
    ∃ x', extract clock x r = .ok x' ∧ Extracted clock (pre ++ [e]) x' := by
  obtain ⟨p, info⟩ := e
  obtain ⟨q, n, rfl⟩ := eq_nil_or_concat' p |>.resolve_left hfits.plain.1
  have helems : elements (relPath (q ++ [n])) = q ++ [n] :=
    elements_intercalate hfits.plain.2 hfits.plain.1
  have hdir : elements (dirName (relPath (q ++ [n]))) = q := elements_dirName hfits.plain.2
  have hparents : ∀ r, r <+: q → DirAt x.fs r := fun r hr => h.parents hfits (by simpa using hr)
  have hnone : x.fs (q ++ [n]) = none := h.absent _ hfits.plain.1 hfits.new
  have hmk (mode : Nat) : mkdirAll clock mode x.fs [] q = .ok x.fs :=
    mkdirAll_existing clock mode (by simpa using hparents)
  cases info with
  | dir mode mtime =>
    cases hr
    have hnew := mkdirAll_new clock (perm mode ||| 0o700) [] (by simpa using hparents)
      (by simpa using hnone)
    -- nothing can be below a path that is not there
    have hempty : ∀ d ∈ pre, d.path.dropLast ≠ q ++ [n] := by
      intro d hd hbelow
      obtain ⟨_, _, habove⟩ := h.above d hd (q ++ [n]) (hbelow ▸ prefix_rfl)
      exact absurd hnone (by simp [habove])
    have hstamp : stamp clock (pre ++ [⟨q ++ [n], .dir mode mtime⟩]) (q ++ [n]) =
        clock (q ++ [n]) := by
      rw [stamp_concat, if_neg (by simp), stamp_eq hempty]
    refine ⟨_, ?_, h.create (i := .dir (perm mode ||| 0o700) (clock (q ++ [n]))) hfits
      ⟨_, by rw [hstamp]; exact create_self⟩⟩
    rw [h.extract_eq hfits hname rfl]
    simp only [extractAs, helems, hnew, h.dirs, filterMap_append]
    rfl
  | leaf l =>
    cases l with
    | file mode mtime data =>
      cases hr
      refine ⟨_, ?_, h.create hfits create_self⟩
      rw [h.extract_eq hfits hname rfl]
      simp only [extractAs, helems, hdir, hmk, ok_bind, createNew, hnone, h.dirs, filterMap_append]
      simp only [filterMap_cons, dirOf, filterMap_nil, append_nil]
      rfl
    | symlink mtime target =>
      rw [recordOf] at hr
      cases hlink : validateTarSymlink (relPath (q ++ [n])) target with
      | error err => simp [hlink] at hr
      | ok u =>
        simp only [hlink, Except.ok.injEq] at hr
        subst hr
        refine ⟨_, ?_, h.create hfits create_self⟩
        rw [h.extract_eq hfits hname rfl]
        simp only [extractAs, helems, hdir, hmk, hlink, ok_bind, createNew, hnone, h.dirs,
          filterMap_append]
        simp only [filterMap_cons, dirOf, filterMap_nil, append_nil]
        rfl
    | special => cases hr

theorem Extracted.run (hchain : Chain pre es) (hnames : ∀ e ∈ es, Accepted e) {rs : List Record}
    (hrs : es.mapM (fun e => recordOf (relPath e.path) e.info) = .ok rs) :
    ∃ x', rs.foldlM (extract clock) x = .ok x' ∧ Extracted clock (pre ++ es) x' := by
  induction es generalizing pre x rs with
  | nil =>
    cases hrs
    exact ⟨x, rfl, by simpa using h⟩
  | cons e es ih =>
    rw [mapM_cons] at hrs
    obtain ⟨r, hr, hrs⟩ := bind_eq_ok hrs
    obtain ⟨rs', hrs', hcons⟩ := bind_eq_ok hrs
    cases hcons
    obtain ⟨x₁, hx₁, h₁⟩ := h.step hchain.1 (hnames e (by simp)) hr
    obtain ⟨x', hx', h'⟩ := ih h₁ hchain.2 (fun d hd => hnames d (by simp [hd])) hrs'
    exact ⟨x', by rw [foldlM_cons, hx₁, ok_bind, hx'], by simpa using h'⟩

end

theorem recordOf_name {rel : Bytes} {i : Info} {r : Record} (h : recordOf rel i = .ok r) :
    r.header.name = rel := by
  unfold recordOf at h
  split at h
  · cases h
    rfl
  · cases h
    rfl
  · split at h
    · cases h
    · cases h
      rfl
  · cases h

theorem accepted_of_run (hplain : ∀ e ∈ es, PlainPath e.path) {rs : List Record}
    (hrs : es.mapM (fun e => recordOf (relPath e.path) e.info) = .ok rs) {x' : Extraction}
    (h : rs.foldlM (extract clock) x = .ok x') : ∀ e ∈ es, Accepted e := by
  induction es generalizing x rs with
  | nil => simp
  | cons e es ih =>
    rw [mapM_cons] at hrs
    obtain ⟨r, hr, hrs⟩ := bind_eq_ok hrs
    obtain ⟨rs', hrs', hcons⟩ := bind_eq_ok hrs
    cases hcons
    rw [foldlM_cons] at h
    obtain ⟨x₁, hx₁, h⟩ := bind_eq_ok h
    obtain ⟨name, hname, -⟩ := bind_eq_ok hx₁
    rw [recordOf_name hr, cleanTarPath_ok_iff (hplain e (by simp))] at hname
    exact forall_mem_cons.mpr ⟨hname.1, ih (fun d hd => hplain d (by simp [hd])) hrs' h⟩

/-! ## Directory attributes -/

/-- Setting the attributes of distinct directories changes these, and nothing else. -/
theorem restoreDirs_eq (es : List Entry) (hplain : ∀ e ∈ es, PlainPath e.path)
    (hnodup : (es.map Entry.path).Nodup) (fs : LocalTree)
    (hdirs : ∀ e ∈ es, ∀ mode mtime, e.info = .dir mode mtime → DirAt fs e.path) :
    ∃ fs', (es.filterMap dirOf).foldlM restoreDir fs = .ok fs' ∧
      (∀ e ∈ es, ∀ mode mtime, e.info = .dir mode mtime → ∀ mode' mtime',
        fs e.path = some (.dir mode' mtime') →
        fs' e.path = some (.dir (perm mode) (restoredTime mtime' (toSecond mtime)))) ∧
      ∀ p, (∀ e ∈ es, e.path = p → ∃ l, e.info = .leaf l) → fs' p = fs p := by
  induction es generalizing fs with
  | nil => exact ⟨fs, rfl, by simp, fun _ _ => rfl⟩
  | cons e es ih =>
    obtain ⟨p, info⟩ := e
    simp only [map_cons, nodup_cons, mem_map, not_exists, not_and] at hnodup
    simp only [mem_cons, forall_eq_or_imp] at hplain hdirs ⊢
    cases info with
    | leaf l =>
      obtain ⟨fs', hrun, hset, hsame⟩ := ih hplain.2 hnodup.2 fs hdirs.2
      exact ⟨fs', hrun, ⟨by simp, hset⟩, fun q hq => hsame q hq.2⟩
    | dir mode mtime =>
      obtain ⟨mode', mtime', hp⟩ := hdirs.1 mode mtime rfl
      have helems : elements (relPath p) = p := elements_intercalate hplain.1.2 hplain.1.1
      have hstep : restoreDir fs ⟨relPath p, perm mode, toSecond mtime⟩ = .ok (update fs p
          (some (.dir (perm mode) (restoredTime mtime' (toSecond mtime))))) := by
        simp only [restoreDir, helems]
        rw [hp]
      have hother {d : Entry} (hd : d ∈ es) (v : Option Info) :
          update fs p v d.path = fs d.path :=
        update_of_ne (hnodup.1 d hd) ..
      obtain ⟨fs', hrun, hset, hsame⟩ := ih hplain.2 hnodup.2
        (update fs p
          (some (.dir (perm mode) (restoredTime mtime' (toSecond mtime)))))
        (fun d hd m t hdir => by rw [DirAt, hother hd]; exact hdirs.2 d hd m t hdir)
      refine ⟨fs', ?_, ⟨?_, ?_⟩, ?_⟩
      · have hof : dirOf ⟨p, .dir mode mtime⟩ = some ⟨relPath p, perm mode, toSecond mtime⟩ := rfl
        rw [filterMap_cons_some hof, foldlM_cons, hstep, ok_bind, hrun]
      · rintro _ _ ⟨rfl, rfl⟩ m t hm
        rw [hsame p fun d hd hpath => absurd hpath (hnodup.1 d hd), update_self]
        rw [hp] at hm
        cases hm
        rfl
      · intro d hd m t hdir m' t' hfs
        exact hset d hd m t hdir m' t' (by rwa [hother hd])
      · intro q hq
        have hne : q ≠ p := by
          rintro rfl
          obtain ⟨l, hl⟩ := hq.1 rfl
          cases hl
        rw [hsame q hq.2, update_of_ne hne]

end

/-! ## What a restore recreates -/

/-- What a restore makes of an entry. -/
def Restored (clock : List Name → Int) (es : List Entry) (fs : LocalTree) (e : Entry) : Prop :=
  match e.info with
  | .dir mode mtime =>
    fs e.path = some (.dir (perm mode) (restoredTime (stamp clock es e.path) (toSecond mtime)))
  | .leaf _ => Placed clock es fs e

theorem Chain.fresh {before : List Entry} (h : Chain before es) :
    (∀ d ∈ before, ∀ e ∈ es, d.path ≠ e.path) ∧ (es.map Entry.path).Nodup ∧
      ∀ e ∈ es, PlainPath e.path := by
  induction es generalizing before with
  | nil => simp
  | cons e es ih =>
    obtain ⟨hfits, hrest⟩ := h
    obtain ⟨hnew, hnodup, hplain⟩ := ih hrest
    refine ⟨?_, ?_, ?_⟩
    · exact fun d hd => forall_mem_cons.mpr ⟨hfits.new d hd, hnew d (by simp [hd])⟩
    · rw [map_cons, nodup_cons]
      refine ⟨?_, hnodup⟩
      intro hmem
      obtain ⟨d, hd, hsame⟩ := mem_map.mp hmem
      exact hnew e (by simp) d hd hsame.symm
    · exact forall_mem_cons.mpr ⟨hfits.plain, hplain⟩

section
variable {codec : TarGzip} {clock : List Name → Int} {d : Directory} {f : SnapshotFilter}
  {src : Bytes} {mode : Nat} {mtime : Int} {fs : LocalTree}

theorem decode_written (hw : writeTarGzip codec d f = .ok src) :
    ∃ rs, (filteredFS f d).mapM (fun e => recordOf (relPath e.path) e.info) = .ok rs ∧
      codec.decode src = some rs := by
  have harchive : archive f [] d.tree = _ := archive_eq d.wellFormed (by simp)
  rw [writeTarGzip, harchive] at hw
  change Except.map _ ((filteredFS f d).mapM _) = _ at hw
  cases hrs : (filteredFS f d).mapM (fun e => recordOf (relPath e.path) e.info) with
  | error err => rw [hrs] at hw; cases hw
  | ok rs =>
    rw [hrs] at hw
    cases hw
    exact ⟨rs, rfl, codec.decode_encode rs⟩

theorem extracted_empty : Extracted clock [] ⟨emptyTree mode mtime, [], []⟩ where
  seen := by simp
  dirs := rfl
  root := ⟨mode, mtime, rfl⟩
  plain := by simp
  placed := by simp
  absent := fun p hp _ => if_neg hp
  above := by simp

variable (clock mode mtime) in
/-- If the reader accepts every name, the restore succeeds, and what it makes is known. -/
theorem read_restored (hw : writeTarGzip codec d f = .ok src)
    (hnames : ∀ e ∈ filteredFS f d, Accepted e) :
    ∃ fs, readTarGzip codec clock src (emptyTree mode mtime) = .ok fs ∧
      (∀ e ∈ filteredFS f d, Restored clock (filteredFS f d) fs e) ∧
      ∀ p, p ≠ [] → (∀ e ∈ filteredFS f d, e.path ≠ p) → fs p = none := by
  obtain ⟨rs, hrs, hdecode⟩ := decode_written hw
  obtain ⟨x, hx, h⟩ := extracted_empty.run (chain_filteredFS f d) hnames hrs
  rw [nil_append] at h
  obtain ⟨-, hnodup, hplain⟩ := (chain_filteredFS f d).fresh
  obtain ⟨fs, hfs, hset, hsame⟩ := restoreDirs_eq (filteredFS f d).reverse
    (fun e he => hplain e (by simpa using he)) (by simpa [nodup_reverse] using hnodup) x.fs
    (fun e he m t hdir => (h.placed e (by simpa using he)).dirAt hdir)
  refine ⟨fs, ?_, ?_, ?_⟩
  · rw [readTarGzip, hdecode]
    change (rs.foldlM (extract clock) _ >>= _) = _
    rw [hx, ok_bind, h.dirs, ← filterMap_reverse, hfs]
  · intro e he
    have hplaced := h.placed e he
    obtain ⟨p, info⟩ := e
    cases info with
    | dir m t =>
      obtain ⟨m', hm'⟩ := hplaced
      exact hset _ (by simpa using he) m t rfl m' _ hm'
    | leaf l =>
      have hkeep : fs p = x.fs p := by
        refine hsame p fun e' he' hpath => ?_
        have : e' = ⟨p, .leaf l⟩ := inj_on_of_nodup_map hnodup (by simpa using he') he hpath
        exact ⟨l, by rw [this]⟩
      cases l with
      | file m t data | symlink t target => exact hkeep.trans hplaced
      | special => exact hplaced
  · intro p hne hp
    rw [hsame p fun e he hpath => absurd hpath (hp e (by simpa using he))]
    exact h.absent p hne hp

theorem accepted_of_read (hw : writeTarGzip codec d f = .ok src) {fs₀ : LocalTree}
    (hr : readTarGzip codec clock src fs₀ = .ok fs) : ∀ e ∈ filteredFS f d, Accepted e := by
  obtain ⟨rs, hrs, hdecode⟩ := decode_written hw
  rw [readTarGzip, hdecode] at hr
  obtain ⟨x, hx, -⟩ := bind_eq_ok hr
  exact accepted_of_run (chain_filteredFS f d).fresh.2.2 hrs hx

/-- What a snapshot promises to keep of an entry. -/
def observe : Info → Info
  | .dir mode mtime => .dir (perm mode) (toSecond mtime)
  | .leaf (.file mode mtime data) => .leaf (.file (perm mode) (toSecond mtime) data)
  | .leaf (.symlink mtime target) => .leaf (.symlink (toSecond mtime) target)
  | .leaf .special => .leaf .special

/-- The directory holds the entries the filter keeps, and nothing else. -/
def Recreates (f : SnapshotFilter) (d : Directory) (fs : LocalTree) : Prop :=
  ∀ p, p ≠ [] → (fs p).map observe =
    ((filteredFS f d).find? fun e => e.path = p).map fun e => observe e.info

/-- The time of the entry survives. -/
def TimeKept (clock : List Name → Int) (es : List Entry) : Entry → Prop
  -- the zero time is not set
  | ⟨p, .dir _ mtime⟩ => toSecond mtime = zeroTime → toSecond (stamp clock es p) = zeroTime
  | ⟨p, .leaf (.file _ mtime _)⟩ => toSecond mtime = zeroTime → toSecond (clock p) = zeroTime
  -- nor is any time set for a symlink
  | ⟨p, .leaf (.symlink mtime _)⟩ => toSecond (clock p) = toSecond mtime
  | ⟨_, .leaf .special⟩ => True

instance (clock : List Name → Int) (es : List Entry) : (e : Entry) → Decidable (TimeKept clock es e)
  | ⟨_, .dir _ _⟩ | ⟨_, .leaf (.file _ _ _)⟩ => inferInstanceAs (Decidable (_ → _))
  | ⟨_, .leaf (.symlink _ _)⟩ => inferInstanceAs (Decidable (_ = _))
  | ⟨_, .leaf .special⟩ => .isTrue trivial

/-- What the tar layout can store. -/
def Restorable (clock : List Name → Int) (f : SnapshotFilter) (d : Directory) : Prop :=
  ∀ e ∈ filteredFS f d, Accepted e ∧ TimeKept clock (filteredFS f d) e

theorem toSecond_restoredTime (now : Int) (t : Int) :
    toSecond (restoredTime now t) = t ↔ (t = zeroTime → toSecond now = zeroTime) := by
  unfold restoredTime
  split
  case isTrue h => simp [h]
  case isFalse h =>
    have : toSecond (t * second) = t := by
      unfold toSecond second
      omega
    simp [h, this]

theorem perm_perm (mode : Nat) : perm (perm mode) = perm mode := by
  unfold perm
  omega

theorem Restored.observe_iff {e : Entry} (h : Restored clock es fs e) :
    (fs e.path).map observe = some (observe e.info) ↔ TimeKept clock es e := by
  obtain ⟨p, info⟩ := e
  cases info with
  | dir m t =>
    have hfs : fs p = _ := h
    simp only [hfs, Option.map_some, observe, perm_perm, Option.some.injEq, Info.dir.injEq,
      true_and, TimeKept]
    exact toSecond_restoredTime _ _
  | leaf l =>
    cases l with
    | file m t data =>
      have hfs : fs p = _ := h
      simp only [hfs, Option.map_some, observe, perm_perm, Option.some.injEq, Info.leaf.injEq,
        Leaf.file.injEq, true_and, and_true, TimeKept]
      exact toSecond_restoredTime _ _
    | symlink t target =>
      have hfs : fs p = _ := h
      simp [hfs, observe, TimeKept]
    | special => exact h.elim

theorem find?_path (hnodup : (es.map Entry.path).Nodup) {e : Entry} (he : e ∈ es) :
    (es.find? fun d => d.path = e.path) = some e := by
  cases hfind : es.find? fun d => d.path = e.path with
  | none => exact absurd (find?_eq_none.mp hfind e he) (by simp)
  | some d =>
    have hpath : d.path = e.path := by simpa using find?_some hfind
    rw [inj_on_of_nodup_map hnodup (mem_of_find?_eq_some hfind) he hpath]

variable (clock mode mtime) in
/-- Archiving and restoring recreates the directory exactly if the reader accepts every name and
sets every time. -/
theorem tar_round_trip (hw : writeTarGzip codec d f = .ok src) :
    (∃ fs, readTarGzip codec clock src (emptyTree mode mtime) = .ok fs ∧ Recreates f d fs) ↔
      Restorable clock f d := by
  obtain ⟨-, hnodup, hplain⟩ := (chain_filteredFS f d).fresh
  constructor
  · rintro ⟨fs, hr, hsame⟩ e he
    have hnames := accepted_of_read hw hr
    refine ⟨hnames e he, ?_⟩
    obtain ⟨fs', hr', hrestored, -⟩ := read_restored clock mode mtime hw hnames
    rw [hr] at hr'
    cases hr'
    rw [← (hrestored e he).observe_iff, hsame e.path (hplain e he).1, find?_path hnodup he]
    rfl
  · intro h
    obtain ⟨fs, hr, hrestored, habsent⟩ := read_restored clock mode mtime hw fun e he => (h e he).1
    refine ⟨fs, hr, fun p hne => ?_⟩
    cases hfind : (filteredFS f d).find? fun e => e.path = p with
    | none =>
      rw [habsent p hne fun e he => by simpa using find?_eq_none.mp hfind e he]
      rfl
    | some e =>
      have he := mem_of_find?_eq_some hfind
      have hpath : e.path = p := by simpa using find?_some hfind
      rw [← hpath]
      exact (hrestored e he).observe_iff.mpr (h e he).2

end

/-! ## Two directories -/

deriving instance Encodable for Typeflag, Header, Record

/-- Codecs that count. -/
def TarGzip.simple : TarGzip where
  encode := word []
  decode := ofWord []
  decode_encode := ofWord_word []

def workspaceFilter : SnapshotFilter := ⟨defaultRoots⟩

/-- One hour after the epoch. -/
def hourClock : List Name → Int := fun _ => 3600 * second

def fileDir : Directory := ⟨workspaceTree (ascii "a") (.file 0o644 second [1, 2]), by decide⟩

def backslashDir : Directory :=
  ⟨workspaceTree (ascii "a\\b") (.file 0o644 second [1, 2]), by decide⟩

def symlinkDir : Directory := ⟨workspaceTree (ascii "a") (.symlink second (ascii "b")), by decide⟩

theorem tar_round_trip_file :
    ∃ src fs, writeTarGzip TarGzip.simple fileDir workspaceFilter = .ok src ∧
      readTarGzip TarGzip.simple hourClock src (emptyTree 0o755 0) = .ok fs ∧
      Recreates workspaceFilter fileDir fs := by
  have hw : writeTarGzip TarGzip.simple fileDir workspaceFilter = .ok _ := rfl
  obtain ⟨fs, hr, hsame⟩ := (tar_round_trip hourClock 0o755 0 hw).mpr (by unfold Restorable; decide)
  exact ⟨_, fs, hw, hr, hsame⟩

/-- A name with a backslash is archived and not restored; a symlink is restored with the current
time. -/
theorem tar_round_trip_fails :
    (∃ src, writeTarGzip TarGzip.simple backslashDir workspaceFilter = .ok src ∧
      readTarGzip TarGzip.simple hourClock src (emptyTree 0o755 0) =
        .error (.backslash (ascii "volumes/workspace/a\\b"))) ∧
    ∃ src fs, writeTarGzip TarGzip.simple symlinkDir workspaceFilter = .ok src ∧
      readTarGzip TarGzip.simple hourClock src (emptyTree 0o755 0) = .ok fs ∧
      ¬Recreates workspaceFilter symlinkDir fs := by
  constructor
  · refine ⟨_, rfl, ?_⟩
    rw [readTarGzip, TarGzip.decode_encode]
    rfl
  · have hw : writeTarGzip TarGzip.simple symlinkDir workspaceFilter = .ok _ := rfl
    obtain ⟨fs, hr, hrestored, -⟩ := read_restored hourClock 0o755 0 hw (by decide)
    refine ⟨_, fs, hw, hr, fun h => ?_⟩
    have hlink := hrestored
      ⟨[ascii "volumes", ascii "workspace", ascii "a"],
      .leaf (.symlink second (ascii "b"))⟩ (by decide)
    exact absurd (hlink.observe_iff.mp (h _ (by decide))) (by decide)

end Hostel.Sync.Tar
