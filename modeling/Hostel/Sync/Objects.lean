/-
# Hostel.Sync.Objects — the object-storage contract, and the keys of the snapshot layouts.

An object carries a body and the user metadata the layouts write.  An operation of a layout is
modelled by its `Effects`: the writes that took effect, in order, and the error it returned.  `area
pre es` is the directory of the elements `es` under the configured prefix; every key function has
that form, whatever the prefix is.
-/
import Hostel.Logic.KeyStore
import Hostel.Logic.Path
import Mathlib.Tactic.Ring

namespace Hostel.Sync

open Hostel.Logic List

abbrev Bytes := List UInt8

abbrev Key := List Char

instance : PathAlphabet Char := ⟨'/', '.', by decide⟩

instance : PathAlphabet UInt8 := ⟨47, 46, by decide⟩

/-- The user metadata of an object, parsed: a value is `none` when it is missing or no number. -/
structure Metadata where
  generation : Option Int
  bytes : Option Int
  deriving DecidableEq, Repr

def Metadata.none : Metadata := ⟨.none, .none⟩

structure Object where
  body : Bytes
  metadata : Metadata
  deriving DecidableEq, Repr

abbrev Objects := KeyStore Key Object

abbrev Write := KeyStore.Write Key Object

/-- How a `Put` ends: it succeeds, it fails without effect, or it fails after it took effect. -/
inductive Outcome
  | ok
  | lost
  | late
  deriving DecidableEq, Repr

/-- Why an operation of a layout failed. -/
inductive StoreError
  | invalidRoot (root : Bytes)
  | duplicateRoot (root : Bytes)
  | unavailable
  | preWriteStat
  | conflict (remote generation : Int)
  | load
  | staging
  | archive
  | chunk
  | encode
  | put
  | list
  | delete
  | inspect
  | ambiguous
  | notFound
  | invalidGeneration
  | upload
  deriving DecidableEq, Repr

/-- The writes of an operation that took effect, in order, and the error it returned. -/
structure Effects where
  writes : List Write
  error : Option StoreError

namespace Effects

def fail (e : StoreError) : Effects := ⟨[], some e⟩

/-- Carry out `ws` first. -/
def precede (ws : List Write) (e : Effects) : Effects := ⟨ws ++ e.writes, e.error⟩

@[simp] theorem fail_writes (e : StoreError) : (fail e).writes = [] := rfl

@[simp] theorem fail_error (e : StoreError) : (fail e).error = some e := rfl

@[simp] theorem precede_writes (ws : List Write) (e : Effects) :
    (e.precede ws).writes = ws ++ e.writes := rfl

end Effects

/-- `Put`, and what follows when it succeeds. -/
def putThen (out : Outcome) (k : Key) (o : Object) (next : Effects) : Effects :=
  match out with
  | .ok => next.precede [.put k o]
  | .lost => .fail .put
  | .late => ⟨[.put k o], some .put⟩

/-- Whether `List` of a prefix returns the key. -/
def Objects.lists (o : Objects) (p : Key) (k : Key) : Bool := p.isPrefixOf k && (o k).isSome

/-- `List`, and the deletes of the keys `ks` that it leads to.  `lists` and `deletes` say whether
the two requests succeed, `deleted` which deletes took effect. -/
def deleteListed (ks : Key → Bool) (lists deletes : Bool) (deleted : Key → Bool) : Effects :=
  if lists then
    ⟨[.delete fun k => ks k && (deletes || deleted k)], if deletes then none else some .delete⟩
  else .fail .list

theorem touches_deleteListed {ks deleted : Key → Bool} {lists deletes : Bool} {w : Write} {k : Key}
    (hw : w ∈ (deleteListed ks lists deletes deleted).writes) (hk : w.touches k = true) :
    ks k = true := by
  unfold deleteListed at hw
  split at hw
  · rw [mem_singleton.mp hw] at hk
    simp only [KeyStore.Write.touches, Bool.and_eq_true] at hk
    exact hk.1
  · cases hw

structure SnapshotInfo where
  generation : Int
  bytes : Int
  deriving DecidableEq, Repr

/-- The generation a persist is refused for: that of the stored object, if it is not below. -/
def Object.fences (o : Object) (generation : Int) : Option Int :=
  o.metadata.generation.filter (generation ≤ ·)

/-! ## Bed identities -/

/-- `[\pL\pN]`: the ASCII letters and digits, and the characters beyond ASCII that `wide` says are
letters or numbers. -/
def letterOrNumber (wide : Char → Bool) (c : Char) : Bool :=
  c.isAlphanum || (decide (128 ≤ c.toNat) && wide c)

/-- `validBedID`: at most 128 bytes of UTF-8 that match `^[\pL\pN][\pL\pN._-]{0,127}$`. -/
def validBedID (wide : Char → Bool) (id : Key) : Bool :=
  decide ((id.map fun c => c.utf8Size).sum ≤ 128) &&
    match id with
    | [] => false
    | c :: cs =>
      letterOrNumber wide c && decide (cs.length ≤ 127) &&
        cs.all fun c => letterOrNumber wide c || c == '.' || c == '_' || c == '-'

structure BedID (wide : Char → Bool) where
  id : Key
  valid : validBedID wide id = true

theorem letterOrNumber_ne {wide : Char → Bool} {c : Char} (h : letterOrNumber wide c = true) :
    c ≠ '/' ∧ c ≠ '.' := by
  have hslash : letterOrNumber wide '/' = false := rfl
  have hdot : letterOrNumber wide '.' = false := rfl
  constructor
  · rintro rfl
    rw [hslash] at h
    cases h
  · rintro rfl
    rw [hdot] at h
    cases h

theorem BedID.plain {wide : Char → Bool} (b : BedID wide) : Plain b.id := by
  obtain ⟨id, hvalid⟩ := b
  cases id with
  | nil => simp [validBedID] at hvalid
  | cons c cs =>
    simp only [validBedID, Bool.and_eq_true, all_eq_true, Bool.or_eq_true, beq_iff_eq] at hvalid
    obtain ⟨-, ⟨hc, -⟩, hcs⟩ := hvalid
    obtain ⟨hslash, hdot⟩ := letterOrNumber_ne hc
    refine ⟨by simp, ?_, ?_, ?_⟩
    · rw [mem_cons, not_or]
      refine ⟨fun h => hslash h.symm, fun hmem => ?_⟩
      rcases hcs _ hmem with ((h | h) | h) | h
      · exact (letterOrNumber_ne h).1 rfl
      all_goals exact absurd h (by decide)
    · intro h
      exact hdot (cons.inj h).1
    · intro h
      exact hdot (cons.inj h).1

/-- A Bed id without characters beyond ASCII. -/
def plainBed : BedID fun _ => false := ⟨"bed".toList, by decide⟩

/-! ## Hexadecimal identifiers -/

def isHexDigit (c : Char) : Bool :=
  c.isDigit || (decide ('a' ≤ c) && decide (c ≤ 'f')) || (decide ('A' ≤ c) && decide (c ≤ 'F'))

/-- `validObjectID`: the hexadecimal form of 32 bytes. -/
def validObjectID (id : Key) : Bool := decide (id.length = 64) && id.all isHexDigit

theorem slash_notMem_of_hex {id : Key} (h : id.all isHexDigit = true) : slash ∉ id := by
  intro hmem
  have := all_eq_true.mp h _ hmem
  exact absurd this (by decide)

theorem validObjectID_hex {id : Key} (h : validObjectID id = true) : id.all isHexDigit = true := by
  simp only [validObjectID, Bool.and_eq_true] at h
  exact h.2

/-! ## Keys -/

def chunksName : Key := "chunks".toList
def indexName : Key := "index.caibx".toList
def bedsName : Key := "beds".toList
def headName : Key := "head.json".toList
def snapshotsName : Key := "snapshots".toList
def packsName : Key := "packs".toList
def tarName : Key := "tar".toList
def archiveName : Key := "snapshot.tar.gz".toList
def resticName : Key := "restic".toList
def repositoryName : Key := "repository".toList
def jsonSuffix : Key := ".json".toList
def packSuffix : Key := ".pack".toList

namespace Cas

variable (pre bed : Key)

def bedPrefix : Key := joinPath [pre, bed]

def indexKey : Key := joinPath [bedPrefix pre bed, indexName]

def chunkPrefix : Key := joinPath [bedPrefix pre bed, chunksName] ++ ['/']

/-- `casObjStore.key`. -/
def chunkKey (name : Key) : Key := chunkPrefix pre bed ++ name

end Cas

namespace Pack

variable (pre bed : Key)

def bedPrefix : Key := joinPath [pre, bedsName, bed] ++ ['/']

def headKey : Key := bedPrefix pre bed ++ headName

def snapshotKey (snapshotID : Key) : Key :=
  bedPrefix pre bed ++ snapshotsName ++ ['/'] ++ snapshotID ++ jsonSuffix

def packPrefix : Key := bedPrefix pre bed ++ packsName ++ ['/']

def packKey (packID : Key) : Key :=
  packPrefix pre bed ++ packID.take 2 ++ ['/'] ++ packID ++ packSuffix

end Pack

namespace Tar

variable (pre bed : Key)

def bedPrefix : Key := joinPath [pre, tarName, bed] ++ ['/']

def snapshotKey : Key := bedPrefix pre bed ++ archiveName

end Tar

namespace Restic

variable (pre bed : Key)

def bedPrefix : Key := joinPath [pre, resticName, bed] ++ ['/']

def headKey : Key := bedPrefix pre bed ++ headName

/-- The segments of the repository's location: its bucket, and its path in the bucket. -/
def repository (bucket : Key) : List Key :=
  (joinPath [bucket, pre, joinPath [resticName, bed, repositoryName]]).splitOn slash

/-- Whether the key belongs to the repository: the location names the bucket the layouts share, and
the key is below its path. -/
def inRepository (bucket k : Key) : Bool :=
  match repository pre bed bucket with
  | [] => false
  | b :: path => decide (b = bucket) && (within false path).isPrefixOf k

end Restic

/-! ## Keys by their elements -/

/-- The directory of the elements `es` under the prefix. -/
def area (pre : Key) (es : List Key) : Key := within (rooted pre) (elements pre ++ es)

/-- The key has the elements `es` below the prefix. -/
def At (pre : Key) (es : List Key) (k : Key) : Prop :=
  ∃ fs q, (∀ e ∈ fs, slash ∉ e) ∧ k = area pre fs ++ q ∧ es = fs ++ q.splitOn slash

theorem At.unique {pre k : Key} {es es' : List Key} (h : At pre es k) (h' : At pre es' k) :
    es = es' := by
  obtain ⟨fs, q, hfs, rfl, rfl⟩ := h
  obtain ⟨fs', q', hfs', hk, rfl⟩ := h'
  have hpre := slash_notMem_elements pre
  have hinj := within_append_inj
    (fun e he => (mem_append.mp he).elim (hpre e) (hfs e))
    (fun e he => (mem_append.mp he).elim (hpre e) (hfs' e)) hk
  rw [append_assoc, append_assoc] at hinj
  exact append_cancel_left hinj

theorem at_area {pre : Key} {fs : List Key} (hfs : ∀ e ∈ fs, slash ∉ e) {q : Key} (hq : slash ∉ q) :
    At pre (fs ++ [q]) (area pre fs ++ q) :=
  ⟨fs, q, hfs, rfl, by rw [splitOn_eq_singleton hq]⟩

theorem at_of_prefix {pre k : Key} {fs : List Key} (hfs : ∀ e ∈ fs, slash ∉ e)
    (h : (area pre fs).isPrefixOf k = true) : ∃ r, r ≠ [] ∧ At pre (fs ++ r) k := by
  obtain ⟨q, rfl⟩ := isPrefixOf_iff_prefix.mp h
  exact ⟨q.splitOn slash, splitOn_ne_nil _ _, fs, q, hfs, rfl, rfl⟩

theorem area_concat (pre : Key) (es : List Key) (e : Key) :
    area pre (es ++ [e]) = area pre es ++ e ++ ['/'] := by
  rw [area, ← append_assoc, within_concat]
  rfl

variable {pre bed k : Key}

theorem bedPrefix_area {dir : Key} (hdir : Plain dir) (hbed : Plain bed) :
    joinPath [pre, dir, bed] ++ ['/'] = area pre [dir, bed] := by
  rw [joinPath_cons (by simpa using ⟨hdir, hbed⟩) (by simp)]
  exact render_append_slash (by simp)

theorem slash_notMem_pair {d e : Key} (hd : Plain d) (he : Plain e) : ∀ f ∈ [d, e], slash ∉ f := by
  simpa using ⟨hd.2.1, he.2.1⟩

theorem slash_notMem_triple {d e f : Key} (hd : Plain d) (he : Plain e) (hf : Plain f) :
    ∀ g ∈ [d, e, f], slash ∉ g := by
  simpa using ⟨hd.2.1, he.2.1, hf.2.1⟩

theorem at_bedPrefix {dir : Key} (hdir : Plain dir) (hbed : Plain bed)
    (h : (joinPath [pre, dir, bed] ++ ['/']).isPrefixOf k = true) :
    ∃ r, r ≠ [] ∧ At pre (dir :: bed :: r) k := by
  rw [bedPrefix_area hdir hbed] at h
  exact at_of_prefix (slash_notMem_pair hdir hbed) h

theorem at_bedPrefix_append {dir : Key} (hdir : Plain dir) (hbed : Plain bed) {q : Key}
    (hq : slash ∉ q) : At pre [dir, bed, q] (joinPath [pre, dir, bed] ++ ['/'] ++ q) := by
  rw [bedPrefix_area hdir hbed]
  exact at_area (slash_notMem_pair hdir hbed) hq

theorem slash_notMem_named {id suffix : Key} (h : validObjectID id = true) (hs : slash ∉ suffix) :
    slash ∉ id ++ suffix := by
  rw [mem_append, not_or]
  exact ⟨slash_notMem_of_hex (validObjectID_hex h), hs⟩

section

variable (hbed : Plain bed)
include hbed

theorem Cas.at_indexKey : At pre [bed, indexName] (Cas.indexKey pre bed) := by
  have h := joinPath_joinPath (p := pre) (show ∀ e ∈ [bed], Plain e by simpa using hbed) (by simp)
    (show ∀ e ∈ [indexName], Plain e by decide) (by simp)
  rw [Cas.indexKey, Cas.bedPrefix, h, ← append_assoc, render_concat]
  exact at_area (by simpa using hbed.2.1) (by decide)

theorem Cas.chunkPrefix_area : Cas.chunkPrefix pre bed = area pre [bed, chunksName] := by
  have h := joinPath_joinPath (p := pre) (show ∀ e ∈ [bed], Plain e by simpa using hbed) (by simp)
    (show ∀ e ∈ [chunksName], Plain e by decide) (by simp)
  rw [Cas.chunkPrefix, Cas.bedPrefix, h, area]
  exact render_append_slash (by simp)

theorem Cas.at_chunkPrefix (h : (Cas.chunkPrefix pre bed).isPrefixOf k = true) :
    ∃ r, r ≠ [] ∧ At pre (bed :: chunksName :: r) k := by
  rw [Cas.chunkPrefix_area hbed] at h
  exact at_of_prefix (slash_notMem_pair hbed (by decide)) h

theorem Cas.at_chunkKey {name : Key} (hname : slash ∉ name) :
    At pre [bed, chunksName, name] (Cas.chunkKey pre bed name) := by
  rw [Cas.chunkKey, Cas.chunkPrefix_area hbed]
  exact at_area (slash_notMem_pair hbed (by decide)) hname

theorem Pack.at_headKey : At pre [bedsName, bed, headName] (Pack.headKey pre bed) :=
  at_bedPrefix_append (by decide) hbed (by decide)

theorem Pack.at_snapshotKey {sid : Key} (hsid : validObjectID sid = true) :
    At pre [bedsName, bed, snapshotsName, sid ++ jsonSuffix] (Pack.snapshotKey pre bed sid) := by
  have harea : area pre [bedsName, bed, snapshotsName] =
      area pre [bedsName, bed] ++ snapshotsName ++ ['/'] := area_concat pre [bedsName, bed] _
  rw [Pack.snapshotKey, Pack.bedPrefix, bedPrefix_area (by decide) hbed, ← harea, append_assoc]
  exact at_area (slash_notMem_triple (by decide) hbed (by decide))
    (slash_notMem_named hsid (by decide))

theorem Pack.at_packKey {pid : Key} (hpid : validObjectID pid = true) :
    At pre [bedsName, bed, packsName, pid.take 2, pid ++ packSuffix]
      (Pack.packKey pre bed pid) := by
  have hpacks : area pre [bedsName, bed, packsName] =
      area pre [bedsName, bed] ++ packsName ++ ['/'] := area_concat pre [bedsName, bed] _
  have hfirst : area pre [bedsName, bed, packsName, pid.take 2] =
      area pre [bedsName, bed, packsName] ++ pid.take 2 ++ ['/'] :=
    area_concat pre [bedsName, bed, packsName] _
  rw [Pack.packKey, Pack.packPrefix, Pack.bedPrefix, bedPrefix_area (by decide) hbed, ← hpacks,
    ← hfirst, append_assoc]
  have hhex := slash_notMem_of_hex (validObjectID_hex hpid)
  refine at_area (fun e he => ?_) (slash_notMem_named hpid (by decide))
  rcases mem_append.mp (show e ∈ [bedsName, bed, packsName] ++ [pid.take 2] from he) with he | he
  · exact slash_notMem_triple (by decide) hbed (by decide) e he
  · rw [mem_singleton.mp he]
    exact fun h => hhex (mem_of_mem_take h)

theorem Tar.at_snapshotKey : At pre [tarName, bed, archiveName] (Tar.snapshotKey pre bed) :=
  at_bedPrefix_append (by decide) hbed (by decide)

theorem Restic.at_headKey : At pre [resticName, bed, headName] (Restic.headKey pre bed) :=
  at_bedPrefix_append (by decide) hbed (by decide)

end

/-! ## Repositories -/

/-- A bucket: its name is one element. -/
structure Bucket where
  name : Key
  plain : Plain name

namespace Restic

variable {bucket : Bucket}

section

variable (hbed : Plain bed)
include hbed

theorem plain_repository : ∀ e ∈ [resticName, bed, repositoryName], Plain e := by
  intro e he
  simp only [mem_cons, not_mem_nil, or_false] at he
  rcases he with rfl | rfl | rfl
  · decide
  · exact hbed
  · decide

variable (pre bucket) in
theorem normal_repository :
    Normal false (elementsBelow bucket.name pre ++ [resticName, bed, repositoryName]).reverse := by
  rw [reverse_append]
  exact (normal_elementsBelow bucket.plain pre).append_plain (plain_repository hbed)

theorem slash_notMem_repository :
    ∀ e ∈ elementsBelow bucket.name pre ++ [resticName, bed, repositoryName], slash ∉ e :=
  fun e he => (normal_repository pre bucket hbed).slash_notMem e (mem_reverse.mpr he)

theorem repository_eq :
    repository pre bed bucket.name =
      elementsBelow bucket.name pre ++ [resticName, bed, repositoryName] := by
  rw [repository, joinPath_below bucket.plain (plain_repository hbed) (by simp)]
  exact splitOn_intercalate slash (slash_notMem_repository hbed) (by simp)

/-- A key of the repository starts with the elements below the bucket. -/
theorem splitOn_of_inRepository (h : inRepository pre bed bucket.name k = true) :
    ∃ path r, repository pre bed bucket.name = bucket.name :: path ∧ path ≠ [] ∧ r ≠ [] ∧
      k.splitOn slash = path ++ r := by
  have hslash : ∀ e ∈ repository pre bed bucket.name, slash ∉ e := by
    rw [repository_eq hbed]
    exact slash_notMem_repository hbed
  have hlength : 3 ≤ (repository pre bed bucket.name).length := by simp [repository_eq hbed]
  unfold inRepository at h
  cases hr : repository pre bed bucket.name with
  | nil => simp [hr] at hlength
  | cons b path =>
    simp only [hr, Bool.and_eq_true, decide_eq_true_eq, isPrefixOf_iff_prefix] at h
    obtain ⟨rfl, q, rfl⟩ := h
    refine ⟨path, q.splitOn slash, rfl, ?_, splitOn_ne_nil _ _, ?_⟩
    · rintro rfl
      simp [hr] at hlength
    · exact splitOn_within (fun e he => hslash e (by simp [hr, he])) q

/-- The repository is in its Bed's directory, if it is in a directory under the prefix at all. -/
theorem at_of_inRepository (h : inRepository pre bed bucket.name k = true)
    {es : List Key} (hat : At pre es k) :
    ∃ r, r ≠ [] ∧ es = resticName :: bed :: repositoryName :: r := by
  obtain ⟨path, r, hrepo, hpath, hr, hsplit⟩ := splitOn_of_inRepository hbed h
  rw [repository_eq hbed] at hrepo
  obtain ⟨fs, q, hfs, rfl, rfl⟩ := hat
  have hslash : ∀ e ∈ elements pre ++ fs, slash ∉ e := fun e he =>
    (mem_append.mp he).elim (slash_notMem_elements pre e) (hfs e)
  obtain ⟨e, path', rfl⟩ := exists_cons_of_ne_nil hpath
  cases hroot : rooted pre with
  | true =>
    -- a key under a rooted prefix starts with a slash, so its first element is empty
    exfalso
    have hne := (normal_repository pre bucket hbed).ne_nil e (by simp [hrepo])
    have hempty : (area pre fs ++ q).splitOn slash =
        [] :: (elements pre ++ fs ++ q.splitOn slash) := by
      rw [area, within, rootSlash, if_pos hroot, singleton_append, cons_append,
        splitOn_cons_eq_if_modifyHead, splitOn_within hslash, if_pos (beq_self_eq_true _)]
    rw [hempty] at hsplit
    exact hne (cons.inj hsplit).1.symm
  | false =>
    have hkey : (area pre fs ++ q).splitOn slash = elements pre ++ (fs ++ q.splitOn slash) := by
      have := splitOn_within hslash q
      simpa [area, within, rootSlash, hroot] using this
    rw [hkey] at hsplit
    rcases elementsBelow_cases bucket.plain hroot with hbelow | hup
    · rw [hbelow, cons_append] at hrepo
      rw [← (cons.inj hrepo).2, append_assoc] at hsplit
      exact ⟨r, hr, append_cancel_left hsplit⟩
    · -- the prefix leaves the bucket, so no key of this bucket is below it
      exfalso
      have he : e = dotdot := by
        rw [hup, cons_append, cons_append] at hsplit
        exact (cons.inj hsplit).1.symm
      subst he
      have hnormal := normal_repository pre bucket hbed
      rw [hrepo, reverse_cons, reverse_cons, append_assoc] at hnormal
      exact bucket.plain.2.2.2 (hnormal.below_dotdot bucket.name (by simp))

theorem inRepository_unique {bed' : Key} (hbed' : Plain bed')
    (h : inRepository pre bed bucket.name k = true)
    (h' : inRepository pre bed' bucket.name k = true) : bed = bed' := by
  obtain ⟨path, r, hrepo, -, -, hsplit⟩ := splitOn_of_inRepository hbed h
  obtain ⟨path', r', hrepo', -, -, hsplit'⟩ := splitOn_of_inRepository hbed' h'
  rw [repository_eq hbed] at hrepo
  rw [repository_eq hbed'] at hrepo'
  have hsame : (bucket.name :: path) ++ r = (bucket.name :: path') ++ r' := by
    rw [cons_append, cons_append, ← hsplit, ← hsplit']
  rw [← hrepo, ← hrepo', append_assoc, append_assoc] at hsame
  have := append_cancel_left hsame
  simp only [cons_append, cons.injEq] at this
  exact this.2.1

end

end Restic

end Hostel.Sync
