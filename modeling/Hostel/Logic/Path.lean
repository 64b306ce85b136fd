/-
# Hostel.Logic.Path — slash-separated paths over any alphabet.

`clean`, `joinPath`, `baseName` and `dirName` are Go's `path.Clean`, `path.Join`, `path.Base` and
`path.Dir`, over an alphabet with a slash and a dot: object keys are characters, file names are
bytes.

A path is determined by whether it is rooted and by its cleaned elements.  `render` writes these
out; joining plain elements appends them (`joinPath_cons`), and they can be read back
(`elements_render`).  `within r es` is the directory of the elements `es`, with its trailing slash;
two paths that continue directories agree only if their elements do (`within_append_inj`).
-/
import Mathlib.Data.List.Basic
import Mathlib.Data.List.DropRight

namespace Hostel.Logic

open List

/-- An alphabet in which paths are written. -/
class PathAlphabet (α : Type) where
  slash : α
  dot : α
  slash_ne_dot : slash ≠ dot

export PathAlphabet (slash dot)

variable {α : Type} [PathAlphabet α]

/-! ## Elements, and paths written from them -/

def dotdot : List α := [dot, dot]

@[simp] theorem slash_notMem_dotdot : (slash : α) ∉ (dotdot : List α) := by
  simp [dotdot, PathAlphabet.slash_ne_dot]

/-- An element that `path.Clean` keeps as it is. -/
def Plain (e : List α) : Prop := e ≠ [] ∧ slash ∉ e ∧ e ≠ [dot] ∧ e ≠ dotdot

/-- The slash that a rooted path starts with. -/
def rootSlash (r : Bool) : List α := if r then [slash] else []

def render (r : Bool) (es : List (List α)) : List α := rootSlash r ++ [slash].intercalate es

def within (r : Bool) (es : List (List α)) : List α := rootSlash r ++ es.flatMap (· ++ [slash])

theorem intercalate_concat (es : List (List α)) (e : List α) :
    [slash].intercalate (es ++ [e]) = es.flatMap (· ++ [slash]) ++ e := by
  induction es with
  | nil => simp [intercalate_singleton]
  | cons f es ih =>
    rw [cons_append, intercalate_cons_of_ne_nil (by simp), ih]
    simp

theorem render_concat (r : Bool) (es : List (List α)) (e : List α) :
    render r (es ++ [e]) = within r es ++ e := by
  simp [render, within, intercalate_concat]

variable {es : List (List α)} {r : Bool}

theorem render_append_slash (h : es ≠ []) : render r es ++ [slash] = within r es := by
  obtain ⟨fs, e, rfl⟩ := eq_nil_or_concat es |>.resolve_left h
  simp [render_concat, within]

theorem within_append (r : Bool) (es fs : List (List α)) :
    within r (es ++ fs) = within r es ++ fs.flatMap (· ++ [slash]) := by
  simp [within]

theorem within_concat (r : Bool) (es : List (List α)) (e : List α) :
    within r (es ++ [e]) = within r es ++ e ++ [slash] := by
  simp [within]

/-- What `path.Clean` can have kept, last element first: plain elements over leading `..`, which
only an unrooted path has. -/
def Normal (r : Bool) : List (List α) → Prop
  | [] => True
  | e :: st => (Plain e ∨ e = dotdot ∧ r = false ∧ ∀ f ∈ st, f = dotdot) ∧ Normal r st

variable {st : List (List α)}

theorem Normal.slash_notMem (h : Normal r st) : ∀ e ∈ st, slash ∉ e := by
  induction st with
  | nil => simp
  | cons e st ih =>
    obtain ⟨he, hst⟩ := h
    refine forall_mem_cons.mpr ⟨?_, ih hst⟩
    rcases he with hp | ⟨rfl, -⟩
    · exact hp.2.1
    · exact slash_notMem_dotdot

theorem Normal.ne_nil (h : Normal r st) : ∀ e ∈ st, e ≠ [] := by
  induction st with
  | nil => simp
  | cons e st ih =>
    refine forall_mem_cons.mpr ⟨?_, ih h.2⟩
    rcases h.1 with hp | ⟨rfl, -⟩
    · exact hp.1
    · simp [dotdot]

theorem render_ne_nil (h : Normal r es.reverse) (hne : es ≠ []) : render r es ≠ [] := by
  obtain ⟨fs, e, rfl⟩ := eq_nil_or_concat es |>.resolve_left hne
  have he : e ≠ [] := by simpa using h.ne_nil e (by simp)
  simp [render_concat, he]

variable [DecidableEq α]

/-! ## Go's `path` -/

/-- Whether the path starts at the root (`path.IsAbs`). -/
def rooted (p : List α) : Bool := decide (p.head? = some slash)

/-- How `path.Clean` treats one more element, over the elements it has kept so far, last first. -/
def cleanStep (r : Bool) (kept : List (List α)) (e : List α) : List (List α) :=
  if e = [] ∨ e = [dot] then kept
  else if e = dotdot then
    match kept with
    | [] => if r then [] else [dotdot]
    | top :: rest => if top = dotdot then dotdot :: top :: rest else rest
  else e :: kept

/-- The elements `path.Clean` keeps, last first. -/
def kept (p : List α) : List (List α) := (p.splitOn slash).foldl (cleanStep (rooted p)) []

/-- The elements `path.Clean` keeps. -/
def elements (p : List α) : List (List α) := (kept p).reverse

def clean (p : List α) : List α :=
  let q := render (rooted p) (elements p)
  if q = [] then [dot] else q

def joinPath (ps : List (List α)) : List α :=
  match ps.filter (· ≠ []) with
  | [] => []
  | qs => clean ([slash].intercalate qs)

/-- `path.Dir`: the path up to its last slash, cleaned. -/
def dirName (p : List α) : List α :=
  clean ([slash].intercalate ((p.splitOn slash).dropLast ++ [[]]))

/-- `path.Base`: the last element, after trailing slashes are dropped. -/
def baseName (p : List α) : List α :=
  if p = [] then [dot]
  else match ((p.rdropWhile (· = slash)).splitOn slash).getLast? with
    | some [] | none => [slash]
    | some e => e

/-! ## What cleaning keeps -/

instance (e : List α) : Decidable (Plain e) := by unfold Plain; infer_instance

variable {e : List α}

theorem cleanStep_plain (h : Plain e) : cleanStep r st e = e :: st := by
  obtain ⟨hne, -, hdot, hdd⟩ := h
  simp [cleanStep, hne, hdot, hdd]

theorem cleanStep_dotdot : cleanStep false st dotdot =
    match st with
    | [] => [dotdot]
    | top :: rest => if top = dotdot then dotdot :: top :: rest else rest := by
  cases st <;> simp [cleanStep, dotdot]

variable {es st : List (List α)}

theorem foldl_cleanStep_plain (h : ∀ e ∈ es, Plain e) :
    es.foldl (cleanStep r) st = es.reverse ++ st := by
  induction es generalizing st with
  | nil => rfl
  | cons e es ih =>
    rw [foldl_cons, cleanStep_plain (h e (by simp)), ih fun f hf => h f (by simp [hf])]
    simp

theorem Normal.cleanStep (h : Normal r st) (he : slash ∉ e) : Normal r (cleanStep r st e) := by
  unfold Logic.cleanStep
  by_cases hskip : e = [] ∨ e = [dot]
  · rwa [if_pos hskip]
  rw [if_neg hskip]
  by_cases hdd : e = dotdot
  · rw [if_pos hdd]
    cases st with
    | nil =>
      cases r with
      | true => trivial
      | false => exact ⟨.inr ⟨rfl, rfl, by simp⟩, trivial⟩
    | cons top rest =>
      dsimp only
      split_ifs with htop
      · -- the `..` below are all there is, for a plain element would have been on top of them
        obtain ⟨hplain | ⟨-, hr, hall⟩, hrest⟩ := h
        · exact absurd htop hplain.2.2.2
        · exact ⟨.inr ⟨rfl, hr, by simpa [htop] using hall⟩, .inr ⟨htop, hr, hall⟩, hrest⟩
      · exact h.2
  · rw [if_neg hdd]
    rw [not_or] at hskip
    exact ⟨.inl ⟨hskip.1, he, hskip.2, hdd⟩, h⟩

theorem Normal.foldl (h : Normal r st)
    (hes : ∀ e ∈ es, slash ∉ e) : Normal r (es.foldl (Logic.cleanStep r) st) := by
  induction es generalizing st with
  | nil => exact h
  | cons e es ih => exact ih (h.cleanStep (hes e (by simp))) fun f hf => hes f (by simp [hf])

theorem slash_notMem_splitOn (p : List α) : ∀ e ∈ p.splitOn slash, slash ∉ e := by
  induction p with
  | nil => simp
  | cons c p ih =>
    rw [splitOn_cons_eq_if_modifyHead]
    split_ifs with hc
    · simpa using ih
    · rw [beq_iff_eq] at hc
      cases hs : p.splitOn slash with
      | nil => simp
      | cons e es =>
        rw [hs] at ih
        simp only [modifyHead_cons, mem_cons, forall_eq_or_imp] at ih ⊢
        refine ⟨?_, ih.2⟩
        rintro (h | h)
        · exact hc h.symm
        · exact ih.1 h

theorem normal_kept (p : List α) : Normal (rooted p) (kept p) :=
  Normal.foldl (show Normal (rooted p) [] from trivial) (slash_notMem_splitOn p)

theorem slash_notMem_elements (p : List α) : ∀ e ∈ elements p, slash ∉ e := by
  simpa [elements] using (normal_kept p).slash_notMem

/-- Cleaning the kept elements once more keeps them all. -/
theorem Normal.foldl_reverse (h : Normal r st) : st.reverse.foldl (Logic.cleanStep r) [] = st := by
  induction st with
  | nil => rfl
  | cons e st ih =>
    obtain ⟨he, hst⟩ := h
    rw [reverse_cons, foldl_append, ih hst, foldl_cons, foldl_nil]
    rcases he with hp | ⟨rfl, rfl, hall⟩
    · exact cleanStep_plain hp
    · cases st with
      | nil => simp [Logic.cleanStep, dotdot]
      | cons top rest => simp [Logic.cleanStep, dotdot, hall top (by simp)]

theorem Normal.append_plain (h : Normal r st)
    (hes : ∀ e ∈ es, Plain e) : Normal r (es.reverse ++ st) := by
  rw [← foldl_cleanStep_plain (r := r) hes]
  exact h.foldl fun e he => (hes e he).2.1

theorem normal_reverse (hes : ∀ e ∈ es, Plain e) : Normal r es.reverse := by
  simpa using (show Normal r ([] : List (List α)) from trivial).append_plain hes

variable {p : List α}

theorem normal_elements_append (hes : ∀ e ∈ es, Plain e) :
    Normal (rooted p) (elements p ++ es).reverse := by
  simpa [elements] using (normal_kept p).append_plain hes

/-! ## Writing the coordinates out and reading them back -/

theorem splitOn_within (h : ∀ e ∈ es, slash ∉ e) (p : List α) :
    (es.flatMap (· ++ [slash]) ++ p).splitOn slash = es ++ p.splitOn slash := by
  induction es with
  | nil => rfl
  | cons e es ih =>
    have hstep : ((e :: es).flatMap (· ++ [slash]) ++ p)
        = e ++ slash :: (es.flatMap (· ++ [slash]) ++ p) := by simp
    rw [hstep, splitOn_append_cons_self_of_not_mem (h e (by simp)),
      ih fun f hf => h f (by simp [hf]), cons_append]

theorem within_append_inj {es fs : List (List α)} {p q : List α}
    (hes : ∀ e ∈ es, slash ∉ e) (hfs : ∀ e ∈ fs, slash ∉ e)
    (h : within r es ++ p = within r fs ++ q) : es ++ p.splitOn slash = fs ++ q.splitOn slash := by
  have hcancel : es.flatMap (· ++ [slash]) ++ p = fs.flatMap (· ++ [slash]) ++ q := by
    simpa [within] using h
  rw [← splitOn_within hes, ← splitOn_within hfs, hcancel]

theorem rooted_append (h : p ≠ []) (q : List α) : rooted (p ++ q) = rooted p := by
  cases p with
  | nil => exact absurd rfl h
  | cons c p => rfl

theorem rooted_of_slash_notMem (h : slash ∉ e) (q : List α) (he : e ≠ []) :
    rooted (e ++ q) = false := by
  cases e with
  | nil => exact absurd rfl he
  | cons c e =>
    have hc : c ≠ slash := fun hc => h (by simp [hc])
    simp [rooted, hc]

section

attribute [local simp] rootSlash render cleanStep rooted elements kept

theorem coordinates_render (h : Normal r es.reverse)
    (hne : es ≠ []) : rooted (render r es) = r ∧ elements (render r es) = es := by
  have hslash : ∀ e ∈ es, slash ∉ e := by simpa using h.slash_notMem
  have hnil : ∀ e ∈ es, e ≠ [] := by simpa using h.ne_nil
  have hfold := h.foldl_reverse
  rw [reverse_reverse] at hfold
  have hsplit : ([slash].intercalate es).splitOn slash = es := splitOn_intercalate slash hslash hne
  cases r with
  | true =>
    have hroot : rooted (render true es) = true := by simp
    refine ⟨hroot, ?_⟩
    -- the leading slash splits off an empty element, which is skipped
    have : (render true es).splitOn slash = [] :: es := by
      simp [splitOn_cons_eq_if_modifyHead, hsplit]
    rw [elements, kept, this, hroot, foldl_cons,
      show cleanStep true [] ([] : List α) = [] by simp, hfold, reverse_reverse]
  | false =>
    have hroot : rooted (render false es) = false := by
      obtain ⟨e, fs, rfl⟩ := exists_cons_of_ne_nil hne
      have hstart := fun q => rooted_of_slash_notMem (hslash e (by simp)) q (hnil e (by simp))
      cases fs with
      | nil => simpa using hstart []
      | cons f fs => simpa using hstart (slash :: [slash].intercalate (f :: fs))
    refine ⟨hroot, ?_⟩
    rw [elements, kept, hroot, show (render false es) = [slash].intercalate es from rfl, hsplit,
      hfold, reverse_reverse]

theorem clean_render (h : Normal r es.reverse) (hne : es ≠ []) :
    clean (render r es) = render r es := by
  obtain ⟨hr, he⟩ := coordinates_render h hne
  simp only [clean, hr, he, render_ne_nil h hne, if_false]

/-! ## Joining -/

theorem intercalate_cons_plain (hp : p ≠ []) (hes : ∀ e ∈ es, Plain e) (hne : es ≠ []) :
    clean ([slash].intercalate (p :: es)) = render (rooted p) (elements p ++ es) := by
  have hshape : [slash].intercalate (p :: es) = p ++ slash :: [slash].intercalate es := by
    rw [intercalate_cons_of_ne_nil hne]
    simp
  have hroot : rooted ([slash].intercalate (p :: es)) = rooted p := by
    rw [hshape, rooted_append hp]
  have hsplit : ([slash].intercalate (p :: es)).splitOn slash = p.splitOn slash ++ es := by
    rw [hshape, splitOn_append_cons_self,
      splitOn_intercalate slash (fun e he => (hes e he).2.1) hne]
  have helems : elements ([slash].intercalate (p :: es)) = elements p ++ es := by
    rw [elements, kept, hroot, hsplit, foldl_append, foldl_cleanStep_plain hes]
    simp
  rw [clean, hroot, helems]
  exact if_neg (render_ne_nil (normal_elements_append hes) (by simp [hne]))

theorem joinPath_cons (hes : ∀ e ∈ es, Plain e) (hne : es ≠ []) :
    joinPath (p :: es) = render (rooted p) (elements p ++ es) := by
  have hfilter : es.filter (· ≠ []) = es :=
    filter_eq_self.mpr fun e he => by simpa using (hes e he).1
  unfold joinPath
  by_cases hp : p = []
  · subst hp
    obtain ⟨e, fs, rfl⟩ := exists_cons_of_ne_nil hne
    rw [filter_cons_of_neg (by simp), hfilter]
    exact clean_render (r := false) (normal_reverse hes) hne
  · rw [filter_cons_of_pos (by simpa using hp), hfilter]
    exact intercalate_cons_plain hp hes hne

theorem joinPath_joinPath {es fs : List (List α)} (hes : ∀ e ∈ es, Plain e)
    (hne : es ≠ []) (hfs : ∀ e ∈ fs, Plain e) (hne' : fs ≠ []) :
    joinPath (joinPath (p :: es) :: fs) = render (rooted p) (elements p ++ (es ++ fs)) := by
  obtain ⟨hr, he⟩ := coordinates_render (normal_elements_append (p := p) hes) (by simp [hne])
  rw [joinPath_cons hfs hne', joinPath_cons hes hne, hr, he, append_assoc]

/-! ## Relative paths of plain elements -/

theorem elements_intercalate (hes : ∀ e ∈ es, Plain e) (hne : es ≠ []) :
    elements ([slash].intercalate es) = es :=
  (coordinates_render (r := false) (normal_reverse hes) hne).2

theorem elements_dot : elements ([dot] : List α) = [] := by
  have hsplit : ([dot] : List α).splitOn slash = [[dot]] :=
    splitOn_eq_singleton (by simpa using PathAlphabet.slash_ne_dot)
  simp [hsplit]

theorem clean_nil : clean ([] : List α) = [dot] := by
  simp [clean]

end

theorem clean_flatMap (hes : ∀ e ∈ es, Plain e) (hne : es ≠ []) :
    clean (es.flatMap (· ++ [slash])) = [slash].intercalate es := by
  have hsplit : (es.flatMap (· ++ [slash])).splitOn slash = es ++ [[]] := by
    simpa using splitOn_within (fun e he => (hes e he).2.1) ([] : List α)
  have hroot : rooted (es.flatMap (· ++ [slash])) = false := by
    obtain ⟨e, fs, rfl⟩ := exists_cons_of_ne_nil hne
    obtain ⟨hnil, hslash, -⟩ := hes e (by simp)
    rw [flatMap_cons, append_assoc]
    exact rooted_of_slash_notMem hslash _ hnil
  have helems : elements (es.flatMap (· ++ [slash])) = es := by
    rw [elements, kept, hroot, hsplit, foldl_append, foldl_cleanStep_plain hes]
    simp [cleanStep]
  rw [clean, hroot, helems]
  exact if_neg (render_ne_nil (normal_reverse hes) hne)

theorem elements_dirName (hes : ∀ f ∈ es ++ [e], Plain f) :
    elements (dirName ([slash].intercalate (es ++ [e]))) = es := by
  have hplain : ∀ f ∈ es, Plain f := fun f hf => hes f (by simp [hf])
  have hsplit : ([slash].intercalate (es ++ [e])).splitOn slash = es ++ [e] :=
    splitOn_intercalate slash (fun f hf => (hes f hf).2.1) (by simp)
  unfold dirName
  rw [hsplit, dropLast_concat, intercalate_concat, append_nil]
  by_cases hne : es = []
  · subst hne
    rw [flatMap_nil, clean_nil, elements_dot]
  · rw [clean_flatMap hplain hne, elements_intercalate hplain hne]

/-! ## Paths joined to one element -/

/-- The elements of `p` joined to the element `b`, which a `..` can remove. -/
def elementsBelow (b p : List α) : List (List α) :=
  ((p.splitOn slash).foldl (cleanStep false) [b]).reverse

theorem normal_elementsBelow {b : List α} (hb : Plain b) (p : List α) :
    Normal false (elementsBelow b p).reverse := by
  rw [elementsBelow, reverse_reverse]
  exact Normal.foldl ⟨.inl hb, trivial⟩ (slash_notMem_splitOn p)

theorem joinPath_below {b p : List α} (hb : Plain b) (hes : ∀ e ∈ es, Plain e)
    (hne : es ≠ []) : joinPath [b, p, joinPath es] = render false (elementsBelow b p ++ es) := by
  have hrel : joinPath es = [slash].intercalate es := by
    simpa [joinPath, rooted, elements, kept, cleanStep, render, rootSlash] using
      joinPath_cons (p := []) hes hne
  have hrelne : [slash].intercalate es ≠ [] := render_ne_nil (r := false) (normal_reverse hes) hne
  have hstep : cleanStep false [] b = [b] := cleanStep_plain hb
  obtain ⟨hbne, hbslash, -⟩ := hb
  rw [hrel]
  -- the first two elements make one path that starts with `b`
  by_cases hp : p = []
  · have hroot : rooted b = false := by simpa using rooted_of_slash_notMem hbslash [] hbne
    have hbelow : elementsBelow b p = elements b := by
      rw [elements, kept, hroot, splitOn_eq_singleton hbslash, foldl_cons, hstep]
      simp [elementsBelow, hp, cleanStep]
    have := intercalate_cons_plain hbne hes hne
    rw [hroot, ← hbelow, intercalate_cons_of_ne_nil hne] at this
    simpa [joinPath, hp, hbne, hrelne, intercalate_cons_of_ne_nil] using this
  · have hroot : rooted (b ++ slash :: p) = false := rooted_of_slash_notMem hbslash _ hbne
    have hbelow : elementsBelow b p = elements (b ++ slash :: p) := by
      simp [elementsBelow, elements, kept, hroot, splitOn_append_cons_self_of_not_mem hbslash,
        hstep]
    have := intercalate_cons_plain (p := b ++ slash :: p) (by simp) hes hne
    rw [hroot, ← hbelow, intercalate_cons_of_ne_nil hne] at this
    simpa [joinPath, hp, hbne, hrelne, intercalate_cons_of_ne_nil] using this

omit [DecidableEq α] in
/-- Only `..` are below a `..` that is kept. -/
theorem Normal.below_dotdot {st st' : List (List α)} (h : Normal r (st ++ dotdot :: st')) :
    ∀ f ∈ st', f = dotdot := by
  induction st with
  | nil =>
    rcases h.1 with hp | ⟨-, -, hall⟩
    · exact absurd rfl hp.2.2.2
    · exact hall
  | cons e st ih => exact ih h.2

/-- Joined to an element, an unrooted path keeps its elements below it, or its first `..` removes
the element. -/
theorem elementsBelow_cases {b : List α} (hb : Plain b) (hp : rooted p = false) :
    elementsBelow b p = b :: elements p ∨ elements p = dotdot :: elementsBelow b p := by
  -- by induction over the elements of `p`, for the two stacks, last element first
  have hfold (es : List (List α)) :
      (∀ f ∈ es.foldl (cleanStep false) [], f ≠ dotdot) ∧
          es.foldl (cleanStep false) [b] = es.foldl (cleanStep false) [] ++ [b] ∨
        es.foldl (cleanStep false) [] = es.foldl (cleanStep false) [b] ++ [dotdot] := by
    induction es using reverseRecOn with
    | nil => exact .inl ⟨by simp, rfl⟩
    | append_singleton es e ih =>
      simp only [foldl_append, foldl_cons, foldl_nil]
      generalize es.foldl (cleanStep false) [] = st at ih ⊢
      generalize es.foldl (cleanStep false) [b] = st' at ih ⊢
      by_cases hskip : e = [] ∨ e = [dot]
      · simpa only [cleanStep, if_pos hskip] using ih
      by_cases hdd : e = dotdot
      · subst hdd
        rcases ih with ⟨hplain, rfl⟩ | rfl
        · cases st with
          | nil => exact .inr (by simp [cleanStep_dotdot, hb.2.2.2])
          | cons top rest =>
            have htop := hplain top (by simp)
            simp only [cons_append, cleanStep_dotdot, htop, if_false]
            exact .inl ⟨fun f hf => hplain f (by simp [hf]), trivial⟩
        · right
          cases st' with
          | nil => simp [cleanStep_dotdot]
          | cons top rest => by_cases htop : top = dotdot <;> simp [cleanStep_dotdot, htop]
      · simp only [cleanStep, hskip, hdd, if_false]
        rcases ih with ⟨hplain, rfl⟩ | rfl
        · exact .inl ⟨by simpa using ⟨hdd, hplain⟩, rfl⟩
        · exact .inr rfl
  rw [elements, kept, hp, elementsBelow]
  rcases hfold (p.splitOn slash) with ⟨-, h⟩ | h
  · left
    rw [h]
    simp
  · right
    rw [h]
    simp

/-! ## The last element -/

theorem baseName_append {d e : List α} (hd : d = [] ∨ ∃ d', d = d' ++ [slash])
    (hs : slash ∉ e) (he : e ≠ []) : baseName (d ++ e) = e := by
  have hlast : (d ++ e).rdropWhile (· = slash) = d ++ e := by
    rw [rdropWhile_eq_self_iff]
    intro hne hsl
    rw [getLast_append_of_right_ne_nil _ _ he] at hsl
    exact hs (by simpa [of_decide_eq_true hsl] using getLast_mem he)
  have hsplit : ((d ++ e).splitOn slash).getLast? = some e := by
    rcases hd with rfl | ⟨d', rfl⟩
    · rw [nil_append, splitOn_eq_singleton hs]
      rfl
    · rw [append_assoc, singleton_append, splitOn_append_cons_self, splitOn_eq_singleton hs]
      simp
  unfold baseName
  rw [if_neg (by simp [he]), hlast, hsplit]
  cases e with
  | nil => exact absurd rfl he
  | cons c e => rfl

end Hostel.Logic
