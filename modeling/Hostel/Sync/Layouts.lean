/-
# Hostel.Sync.Layouts — the four layouts over one bucket, and what they do to each other's keys.

`Reaches` says which keys the operations of a layout on a Bed can write or delete, `Holds` which
keys its snapshot is made of, and `Proper` what a persist does to the object that commits it.  The
elements of a key below the prefix decide which layouts and Beds can reach it (`shapes_clash`): the
content-addressed layout has a Bed's directory where the others have their own, so a Bed whose id is
the name of such a directory reaches into another Bed.
-/
import Hostel.Sync.Cas
import Hostel.Sync.PackHistory
import Hostel.Sync.TarRoundTrip
import Hostel.Sync.Restic

namespace Hostel.Sync

open Hostel.Logic Hostel.Sync.Tar Hostel.Sync.Restic List Bool

inductive Layout
  | cas
  | pack
  | tar
  | restic
  deriving DecidableEq, Repr

/-- Where the layouts store, and the tools they use. -/
structure Backend (ι : Type) where
  desync : Desync ι
  packTools : Pack.PackTools
  packTarget : Nat
  tarGzip : TarGzip
  resticTool : ResticTool
  bucket : Bucket
  pre : Key

def Backend.repo {ι : Type} (B : Backend ι) (bed : Key) : Key → Bool :=
  Restic.inRepository B.pre bed B.bucket.name

/-- What goes wrong in one call of `Persist`, for each layout. -/
structure LayoutFaults (ι : Type) (repo : Key → Bool) where
  cas : Cas.Faults ι
  pack : Pack.Faults
  tar : Tar.Faults
  restic : Restic.Faults repo

/-- How the requests of one call of `Delete` end, and which deletes took effect if they failed. -/
structure DeleteReply where
  lists : Bool
  deletes : Bool
  deleted : Key → Bool

def DeleteReply.ok : DeleteReply := ⟨true, true, fun _ => true⟩

/-- What a restore yields: the entries of an archive, or the directory they were extracted to. -/
inductive Restored
  | entries (es : List Entry)
  | tree (fs : LocalTree)

namespace Layout

variable {ι : Type} (B : Backend ι) (bed : Key)

/-! ## Operations -/

/-- The object whose `Put` commits a snapshot. -/
def commitKey : Layout → Key
  | .cas => Cas.indexKey B.pre bed
  | .pack => Pack.headKey B.pre bed
  | .tar => Tar.snapshotKey B.pre bed
  | .restic => Restic.headKey B.pre bed

def stat (o : Objects) : Layout → Except StoreError (Option SnapshotInfo)
  | .cas => .ok (Cas.stat B.pre bed o)
  | .pack => .ok (Pack.stat B.pre bed o)
  | .tar => .ok (Tar.stat B.pre bed o)
  | .restic => Restic.stat B.pre bed o

def persist [DecidableEq ι] (o : Objects) (c : Call) (f : LayoutFaults ι (B.repo bed)) :
    Layout → Effects
  | .cas => Cas.persist B.desync B.pre bed o c f.cas
  | .pack => Pack.persist B.desync B.packTools B.packTarget B.pre bed o c f.pack
  | .tar => Tar.persist B.tarGzip B.pre bed o c f.tar
  | .restic => Restic.persist B.resticTool B.pre bed o c f.restic

def delete (o : Objects) (r : DeleteReply) : Layout → Effects
  | .cas => Cas.delete B.pre bed o r.lists r.deletes r.deleted
  | .pack => Pack.delete B.pre bed o r.lists r.deletes r.deleted
  | .tar => Tar.delete B.pre bed r.deletes r.deleted
  | .restic => Restic.delete B.pre bed o r.lists r.deletes r.deleted

def restore [DecidableEq ι] (clock : List Name → Int) (fs : LocalTree) (o : Objects) :
    Layout → Except RestoreError Restored
  | .cas => ((Cas.restore B.desync B.pre bed o).mapError .store).map .entries
  | .pack => ((Pack.restore B.desync B.packTools B.pre bed o).mapError .store).map .entries
  | .tar => (Tar.restore B.tarGzip B.pre bed clock o fs).map .tree
  | .restic => ((Restic.restore B.resticTool B.pre bed B.bucket o).mapError .store).map .entries

/-! ## Keys -/

/-- The keys an operation on the Bed may write or delete. -/
def Reaches (k : Key) : Layout → Prop
  | .cas => k = Cas.indexKey B.pre bed ∨ (Cas.chunkPrefix B.pre bed).isPrefixOf k = true
  | .pack => (Pack.bedPrefix B.pre bed).isPrefixOf k = true
  | .tar => k = Tar.snapshotKey B.pre bed
  | .restic => (Restic.bedPrefix B.pre bed).isPrefixOf k = true ∨ B.repo bed k = true

/-- The keys that hold part of the Bed's snapshot. -/
def Holds (k : Key) : Layout → Prop
  | .cas => k = Cas.indexKey B.pre bed ∨ ∃ i, k = Cas.keyOf B.desync B.pre bed i
  | .pack => k = Pack.headKey B.pre bed ∨ ∃ id, validObjectID id = true ∧
      (k = Pack.snapshotKey B.pre bed id ∨ k = Pack.packKey B.pre bed id)
  | .tar => k = Tar.snapshotKey B.pre bed
  | .restic => k = Restic.headKey B.pre bed ∨ B.repo bed k = true

/-- A write of a persist with generation `g`: it stays within reach, does not delete the commit, and
commits with that generation only. -/
def Proper (L : Layout) (g : Int) : Write → Prop
  | .put k x => L.Reaches B bed k ∧ (k = L.commitKey B bed → x.metadata.generation = some g)
  | .delete ks => ∀ k, ks k = true → L.Reaches B bed k ∧ k ≠ L.commitKey B bed

variable {B bed} {o : Objects} {c : Call} {k : Key}

variable {L : Layout}

theorem Proper.reaches {g : Int} {w : Write} (h : Proper B bed L g w)
    (hk : w.touches k = true) : L.Reaches B bed k := by
  cases w with
  | put k' x =>
    have : k = k' := of_decide_eq_true hk
    exact this ▸ h.1
  | delete ks => exact (h k hk).1

/-! ## What a persist writes -/

theorem proper_putChunk (hbed : Plain bed) (g : Int) (d : Bytes) :
    Proper B bed .cas g (Cas.putChunk B.desync B.pre bed d) :=
  ⟨.inr (Cas.keyOf_under _ _ _ _), fun h => absurd h (Cas.keyOf_ne_indexKey hbed _)⟩

theorem proper_casPersist [DecidableEq ι] (hbed : Plain bed) (f : Cas.Faults ι) :
    ∀ w ∈ (Cas.persist B.desync B.pre bed o c f).writes, Proper B bed .cas c.generation w := by
  intro w hw
  rcases Cas.persist_shape B.desync B.pre bed o c f with hus | ⟨t, us, gc, -, hws, hus, -, hgc⟩
  · obtain ⟨d, rfl⟩ := hus w hw
    exact proper_putChunk hbed _ d
  · rw [hws] at hw
    rcases mem_append.mp hw with hw | hw
    · obtain ⟨d, rfl⟩ := hus w hw
      exact proper_putChunk hbed _ d
    rcases mem_cons.mp hw with rfl | hw
    · exact ⟨.inl rfl, fun _ => rfl⟩
    · rcases hgc with rfl | ⟨o', rfl⟩
      · cases hw
      · rw [mem_singleton.mp hw]
        intro k hk
        simp only [Cas.garbage, Objects.lists, and_eq_true] at hk
        refine ⟨.inr hk.1.1.1, ?_⟩
        rintro rfl
        exact absurd hk.1.1.1 (by rw [commitKey, Cas.indexKey_not_under hbed]; simp)

theorem reaches_commitKey (L : Layout) : L.Reaches B bed (L.commitKey B bed) := by
  cases L with
  | cas => exact .inl rfl
  | pack => exact isPrefixOf_iff_prefix.mpr (prefix_append _ _)
  | tar => rfl
  | restic => exact .inl (List.isPrefixOf_iff_prefix.mpr (prefix_append _ _))

theorem proper_putPack (hbed : Plain bed) (g : Int) (b : Bytes) :
    Proper B bed .pack g (Pack.putPack B.packTools B.pre bed b) :=
  ⟨by simp [Reaches, Pack.packKey, Pack.packPrefix, isPrefixOf_iff_prefix, append_assoc], fun h =>
    absurd h (Pack.packKey_ne_headKey hbed (B.packTools.objectID_valid b))⟩

theorem proper_packCommit (hbed : Plain bed) (f : Pack.Faults) (prev : Option Pack.PackHead)
    (idx : Index ι) (m : Pack.PackManifest) :
    ∀ w ∈ (Pack.commit B.packTools B.pre bed c f prev idx m).writes,
      Proper B bed .pack c.generation w := by
  intro w hw
  obtain ⟨ms, hs, hws, hms, hhs⟩ := Pack.commit_writes B.packTools B.pre bed c f prev idx m
  rw [hws] at hw
  rcases mem_append.mp hw with hw | hw
  · rcases hms with rfl | rfl
    · cases hw
    · rw [mem_singleton.mp hw]
      refine ⟨by simp [Reaches, Pack.snapshotKey, isPrefixOf_iff_prefix, append_assoc], fun h =>
        absurd h (Pack.snapshotKey_ne_headKey hbed (B.packTools.objectID_valid _))⟩
  · rcases hhs with rfl | ⟨rfl, -⟩
    · cases hw
    · rw [mem_singleton.mp hw]
      exact ⟨reaches_commitKey .pack, fun _ => rfl⟩

theorem proper_packPersist [DecidableEq ι] (hbed : Plain bed) (f : Pack.Faults) :
    ∀ w ∈ (Pack.persist B.desync B.packTools B.packTarget B.pre bed o c f).writes,
      Proper B bed .pack c.generation w := by
  intro w hw
  have hpacks {filter : SnapshotFilter} {known : ι → Option Pack.PackLocation}
      {pw : Pack.PackWriter ι} {r : Except StoreError Pack.PackManifest}
      (hr : Pack.packTree B.desync B.packTools B.packTarget B.pre bed filter c f known = (pw, r)) :
      ∀ w ∈ pw.writes, Proper B bed .pack c.generation w := by
    intro w hw
    obtain ⟨b, -, rfl⟩ := Pack.packTree_onlyPacks (S := .univ) hr (fun _ _ => trivial) w hw
    exact proper_putPack hbed _ b
  unfold Pack.persist at hw
  split at hw
  · cases hw
  · split at hw
    case h_1 hr => exact hpacks hr w hw
    case h_2 hr =>
      rw [Effects.precede_writes] at hw
      rcases mem_append.mp hw with hw | hw
      · exact hpacks hr w hw
      · exact proper_packCommit hbed f _ _ _ w hw

theorem proper_putThen {out : Outcome} {x : Object} {g : Int}
    (hx : x.metadata.generation = some g) :
    ∀ w ∈ (putThen out (L.commitKey B bed) x ⟨[], none⟩).writes, Proper B bed L g w := by
  intro w hw
  have hmem : w = .put (L.commitKey B bed) x := by
    cases out with
    | ok | late => simpa [putThen] using hw
    | lost => cases hw
  rw [hmem]
  exact ⟨reaches_commitKey L, fun _ => hx⟩

theorem proper_tarPersist (f : Tar.Faults) :
    ∀ w ∈ (Tar.persist B.tarGzip B.pre bed o c f).writes, Proper B bed .tar c.generation w := by
  fun_cases Tar.persist B.tarGzip B.pre bed o c f with
  | case6 => exact proper_putThen (L := .tar) rfl
  | _ => simp

section

variable (hbed : Plain bed)
include hbed

theorem headKey_notMem_repo : B.repo bed (Restic.headKey B.pre bed) = false := by
  rw [eq_false_iff]
  intro h
  obtain ⟨r, -, hr⟩ := at_of_inRepository hbed h (Restic.at_headKey hbed)
  simp only [cons.injEq] at hr
  exact absurd hr.2.2.1 (by decide)

theorem proper_upload (g : Int) (u : Restic.Upload (B.repo bed)) :
    ∀ w ∈ u.writes, Proper B bed .restic g w := by
  intro w hw
  have hne {k : Key} (hk : B.repo bed k = true) : k ≠ Restic.headKey B.pre bed := by
    rintro rfl
    rw [headKey_notMem_repo hbed] at hk
    cases hk
  cases w with
  | put k x =>
    have hk := u.confined _ hw k (decide_eq_true rfl)
    exact ⟨.inr hk, fun h => absurd h (hne hk)⟩
  | delete ks =>
    intro k hks
    have hk := u.confined _ hw k hks
    exact ⟨.inr hk, hne hk⟩

theorem proper_resticPublish (filter : SnapshotFilter) (f : Restic.Faults (B.repo bed)) :
    ∀ w ∈ (Restic.publish B.resticTool B.pre bed filter c f).writes,
      Proper B bed .restic c.generation w := by
  intro w hw
  unfold Restic.publish at hw
  split at hw
  · cases hw
  · split at hw
    · cases hw
    · split at hw
      · exact proper_upload hbed _ f.upload w hw
      · rw [Effects.precede_writes] at hw
        rcases mem_append.mp hw with hw | hw
        · exact proper_upload hbed _ f.upload w hw
        · exact proper_putThen (L := .restic) rfl w hw

theorem proper_resticPersist (f : Restic.Faults (B.repo bed)) :
    ∀ w ∈ (Restic.persist B.resticTool B.pre bed o c f).writes,
      Proper B bed .restic c.generation w := by
  fun_cases Restic.persist B.resticTool B.pre bed o c f with
  | case5 | case9 => exact proper_resticPublish hbed _ f
  | _ => simp

theorem proper_persist [DecidableEq ι] (o : Objects) (c : Call)
    (f : LayoutFaults ι (B.repo bed)) (L : Layout) :
    ∀ w ∈ (L.persist B bed o c f).writes, Proper B bed L c.generation w := by
  cases L with
  | cas => exact proper_casPersist hbed f.cas
  | pack => exact proper_packPersist hbed f.pack
  | tar => exact proper_tarPersist f.tar
  | restic => exact proper_resticPersist hbed f.restic

end

/-! ## What a delete removes -/

theorem reaches_delete (o : Objects) (r : DeleteReply) (L : Layout) :
    ∀ w ∈ (L.delete B bed o r).writes, w.touches k = true → L.Reaches B bed k := by
  intro w hw hk
  cases L with
  | cas =>
    have hks := touches_deleteListed hw hk
    simp only [Objects.lists, and_eq_true, or_eq_true, decide_eq_true_eq] at hks
    exact hks.symm.imp_right fun h => h.1
  | pack =>
    have hks := touches_deleteListed hw hk
    simp only [Objects.lists, and_eq_true] at hks
    exact hks.1
  | tar =>
    rw [mem_singleton.mp (show w ∈ [_] from hw)] at hk
    simp only [KeyStore.Write.touches, and_eq_true, decide_eq_true_eq] at hk
    exact hk.1
  | restic =>
    have hks := touches_deleteListed hw hk
    simp only [Objects.lists, and_eq_true] at hks
    exact .inl hks.1

/-! ## The elements of a key -/

/-- The elements of a key within reach, below the prefix. -/
def ReachShape (bed : Key) (es : List Key) : Layout → Prop
  | .cas => es = [bed, indexName] ∨ ∃ r, r ≠ [] ∧ es = bed :: chunksName :: r
  | .pack => ∃ r, r ≠ [] ∧ es = bedsName :: bed :: r
  | .tar => es = [tarName, bed, archiveName]
  | .restic => ∃ r, r ≠ [] ∧ es = resticName :: bed :: r

/-- The elements of a key that holds part of a snapshot: a chunk object has a hexadecimal name. -/
def HeldShape (bed : Key) (es : List Key) : Layout → Prop
  | .cas => es = [bed, indexName] ∨ ∃ n, n.all isHexDigit = true ∧ es = [bed, chunksName, n]
  | .pack => ∃ r, r ≠ [] ∧ es = bedsName :: bed :: r
  | .tar => es = [tarName, bed, archiveName]
  | .restic => ∃ r, r ≠ [] ∧ es = resticName :: bed :: r

/-- A key has the elements its layout says, unless it is in a repository outside the prefix. -/
theorem Reaches.shape (hbed : Plain bed) (h : L.Reaches B bed k) :
    (∃ es, At B.pre es k ∧ L.ReachShape bed es) ∨ L = .restic ∧ B.repo bed k = true := by
  cases L with
  | cas =>
    rcases h with rfl | h
    · exact .inl ⟨_, Cas.at_indexKey hbed, .inl rfl⟩
    · obtain ⟨r, hr, hat⟩ := Cas.at_chunkPrefix hbed h
      exact .inl ⟨_, hat, .inr ⟨r, hr, rfl⟩⟩
  | pack =>
    obtain ⟨r, hr, hat⟩ := at_bedPrefix (show Plain bedsName by decide) hbed h
    exact .inl ⟨_, hat, r, hr, rfl⟩
  | tar =>
    have hk : k = Tar.snapshotKey B.pre bed := h
    exact .inl ⟨_, hk ▸ Tar.at_snapshotKey hbed, rfl⟩
  | restic =>
    rcases h with h | h
    · obtain ⟨r, hr, hat⟩ := at_bedPrefix (show Plain resticName by decide) hbed h
      exact .inl ⟨_, hat, r, hr, rfl⟩
    · exact .inr ⟨rfl, h⟩

theorem Holds.shape (hbed : Plain bed) (h : L.Holds B bed k) :
    (∃ es, At B.pre es k ∧ L.HeldShape bed es) ∨ L = .restic ∧ B.repo bed k = true := by
  cases L with
  | cas =>
    rcases h with rfl | ⟨i, rfl⟩
    · exact .inl ⟨_, Cas.at_indexKey hbed, .inl rfl⟩
    · exact .inl ⟨_, Cas.at_chunkKey hbed (B.desync.slash_notMem_idString i),
        .inr ⟨_, B.desync.idString_hex i, rfl⟩⟩
  | pack =>
    rcases h with rfl | ⟨id, hid, rfl | rfl⟩
    · exact .inl ⟨_, Pack.at_headKey hbed, _, by simp, rfl⟩
    · exact .inl ⟨_, Pack.at_snapshotKey hbed hid, _, by simp, rfl⟩
    · exact .inl ⟨_, Pack.at_packKey hbed hid, _, by simp, rfl⟩
  | tar =>
    have hk : k = Tar.snapshotKey B.pre bed := h
    exact .inl ⟨_, hk ▸ Tar.at_snapshotKey hbed, rfl⟩
  | restic =>
    rcases h with rfl | h
    · exact .inl ⟨_, Restic.at_headKey hbed, _, by simp, rfl⟩
    · exact .inr ⟨rfl, h⟩

/-- The Beds whose ids are names of directories of the layouts. -/
def Collides : Layout → Key → Layout → Key → Prop
  | .cas, a, .pack, b => a = bedsName ∧ b = chunksName
  | .cas, a, .tar, b => a = tarName ∧ b = chunksName
  | .cas, a, .restic, b => a = resticName ∧ b = chunksName
  | .pack, a, .cas, b => a = chunksName ∧ b = bedsName
  | .restic, a, .cas, b => a = chunksName ∧ b = resticName
  | _, _, _, _ => False

variable {L : Layout}

variable {L' : Layout}

/-- Elements say the Bed and the layout, unless the ids collide. -/
theorem shapes_clash {a b : Key} {es : List Key} (h : L.ReachShape a es)
    (h' : L'.HeldShape b es) : a = b ∧ L = L' ∨ Collides L a L' b := by
  have hbt : bedsName ≠ tarName := by decide
  have hbr : bedsName ≠ resticName := by decide
  have htr : tarName ≠ resticName := by decide
  have hic : indexName ≠ chunksName := by decide
  have harchive : archiveName.all isHexDigit = false := by decide
  cases L <;> cases L' <;> simp only [ReachShape, HeldShape, Collides] at h h' ⊢ <;> grind

theorem not_collides_self (L L' : Layout) (a : Key) : ¬Collides L a L' a := by
  have hbeds : bedsName ≠ chunksName := by decide
  have htar : tarName ≠ chunksName := by decide
  have hrestic : resticName ≠ chunksName := by decide
  cases L <;> cases L' <;> simp only [Collides] <;> grind

/-- An operation reaches what holds a snapshot of the same Bed in the same layout, or the ids
collide. -/
theorem reaches_holds {a b : Key} (ha : Plain a) (hb : Plain b)
    (h : L.Reaches B a k) (h' : L'.Holds B b k) : a = b ∧ L = L' ∨ Collides L a L' b := by
  rcases h.shape ha with ⟨es, hat, hes⟩ | ⟨rfl, hrepo⟩
  · rcases h'.shape hb with ⟨es', hat', hes'⟩ | ⟨rfl, hrepo'⟩
    · exact shapes_clash hes (hat.unique hat' ▸ hes')
    · obtain ⟨r, -, rfl⟩ := at_of_inRepository hb hrepo' hat
      exact shapes_clash hes ⟨_, by simp, rfl⟩
  · rcases h'.shape hb with ⟨es', hat', hes'⟩ | ⟨rfl, hrepo'⟩
    · obtain ⟨r, -, rfl⟩ := at_of_inRepository ha hrepo hat'
      exact shapes_clash ⟨_, by simp, rfl⟩ hes'
    · exact .inl ⟨inRepository_unique ha hb hrepo hrepo', rfl⟩

theorem holds_commitKey (L : Layout) : L.Holds B bed (L.commitKey B bed) := by
  cases L with
  | tar => rfl
  | _ => exact .inl rfl

theorem not_reaches_commitKey (hbed : Plain bed) (hne : L ≠ L') :
    ¬L.Reaches B bed (L'.commitKey B bed) := fun h =>
  (reaches_holds hbed hbed h (holds_commitKey L')).elim (fun hsame => hne hsame.2)
    (not_collides_self L L' bed)

/-! ## What a snapshot is read from -/

theorem stat_congr {o o' : Objects} (h : ∀ k, L.Holds B bed k → o k = o' k) :
    L.stat B bed o = L.stat B bed o' := by
  cases L with
  | cas => simp only [stat, Cas.stat, h _ (.inl rfl)]
  | pack => simp only [stat, Pack.stat, h _ (.inl rfl)]
  | tar => simp only [stat, Tar.stat, h _ rfl]
  | restic => simp only [stat, Restic.stat, h _ (.inl rfl)]

section
variable [DecidableEq ι] {o o' : Objects}

theorem casRestore_congr (h : ∀ k, Holds B bed k .cas → o k = o' k) :
    Cas.restore B.desync B.pre bed o = Cas.restore B.desync B.pre bed o' := by
  have hload : Cas.loadIndex B.desync B.pre bed o = Cas.loadIndex B.desync B.pre bed o' := by
    simp only [Cas.loadIndex, h _ (.inl rfl)]
  have hget : Cas.getChunk B.desync B.pre bed o = Cas.getChunk B.desync B.pre bed o' := by
    funext i
    simp only [Cas.getChunk, h _ (.inr ⟨i, rfl⟩)]
  simp only [Cas.restore, hload, hget]

theorem getChunks_congr (h : ∀ k, Holds B bed k .pack → o k = o' k)
    {locs : ι → Option Pack.PackLocation}
    (hlocs : ∀ i l, locs i = some l → validObjectID l.pack = true) (idx : Index ι)
    (cache : Pack.Cache) :
    Pack.getChunks B.desync B.packTools B.pre bed o locs cache idx =
      Pack.getChunks B.desync B.packTools B.pre bed o' locs cache idx := by
  induction idx generalizing cache with
  | nil => rfl
  | cons x idx ih =>
    have hget : Pack.getChunk B.desync B.packTools B.pre bed o locs cache x.id =
        Pack.getChunk B.desync B.packTools B.pre bed o' locs cache x.id := by
      unfold Pack.getChunk
      cases hl : locs x.id with
      | none => rfl
      | some l =>
        have hpack := h (Pack.packKey B.pre bed l.pack) (.inr ⟨_, hlocs _ _ hl, .inr rfl⟩)
        simp only [Option.bind_some, Pack.readPack, hpack]
    simp only [Pack.getChunks, hget, ih]

theorem packRestore_congr (h : ∀ k, Holds B bed k .pack → o k = o' k) :
    Pack.restore B.desync B.packTools B.pre bed o =
      Pack.restore B.desync B.packTools B.pre bed o' := by
  have hhead : Pack.loadHead B.packTools B.pre bed o = Pack.loadHead B.packTools B.pre bed o' := by
    simp only [Pack.loadHead, h _ (.inl rfl)]
  have hmanifest (id : Key) : Pack.loadManifest B.packTools B.pre bed o id =
      Pack.loadManifest B.packTools B.pre bed o' id := by
    unfold Pack.loadManifest
    split
    case isTrue hid => rw [h _ (.inr ⟨id, hid, .inl rfl⟩)]
    case isFalse => rfl
  unfold Pack.restore
  rw [hhead]
  split
  · rfl
  · rw [hmanifest]
    split
    · rfl
    · split
      case h_1 locs _ hlocs =>
        rw [getChunks_congr h
          (Pack.addLocations_forall (fun _ _ hvalid _ _ => hvalid) (by simp) hlocs)]
      · rfl

omit [DecidableEq ι] in
theorem resticRestore_congr (h : ∀ k, Holds B bed k .restic → o k = o' k) :
    Restic.restore B.resticTool B.pre bed B.bucket o =
      Restic.restore B.resticTool B.pre bed B.bucket o' := by
  have hhead : Restic.readHead B.resticTool B.pre bed o =
      Restic.readHead B.resticTool B.pre bed o' := by
    simp only [Restic.readHead, h _ (.inl rfl)]
  have hdownload (ref : Key) := B.resticTool.download_confined (B.repo bed) o o' ref
    fun k hk => h k (.inr hk)
  simp only [Backend.repo] at hdownload
  simp only [Restic.restore, hhead, hdownload]

theorem restore_congr (h : ∀ k, L.Holds B bed k → o k = o' k)
    (clock : List Name → Int) (fs : LocalTree) :
    L.restore B bed clock fs o = L.restore B bed clock fs o' := by
  cases L with
  | cas => simp only [restore, casRestore_congr h]
  | pack => simp only [restore, packRestore_congr h]
  | tar => simp only [restore, Tar.restore, h _ rfl]
  | restic => simp only [restore, resticRestore_congr h]

end

/-! ## Operations on one Bed -/

/-- An operation of a layout; the collection of garbage is part of a persist. -/
inductive Op (ι : Type) (repo : Key → Bool)
  | persist (c : Call) (f : LayoutFaults ι repo)
  | delete (r : DeleteReply)

section
variable [DecidableEq ι]

variable (B bed) in
def effects (L : Layout) (o : Objects) : Op ι (B.repo bed) → Effects
  | .persist c f => L.persist B bed o c f
  | .delete r => L.delete B bed o r

variable (B bed) in
def run (L : Layout) (o : Objects) (ops : List (Op ι (B.repo bed))) : Objects :=
  ops.foldl (fun o op => o.after (L.effects B bed o op).writes) o

variable (B bed) in
def Touches (L : Layout) (k : Key) : Prop :=
  ∃ o op, ∃ w ∈ (L.effects B bed o op).writes, w.touches k = true

theorem Touches.reaches (hbed : Plain bed) (h : L.Touches B bed k) : L.Reaches B bed k := by
  obtain ⟨o, op, w, hw, hk⟩ := h
  cases op with
  | persist c f => exact (proper_persist hbed o c f L w hw).reaches hk
  | delete r => exact reaches_delete o r L w hw hk

theorem run_untouched (hk : ¬L.Touches B bed k) (o : Objects)
    (ops : List (Op ι (B.repo bed))) : L.run B bed o ops k = o k := by
  unfold run
  refine foldlRecOn (motive := fun o' : Objects => o' k = o k) ops _ rfl fun o' ho' op _ => ?_
  rw [← ho']
  refine KeyStore.after_untouched fun w hw => ?_
  rw [eq_false_iff]
  exact fun htouch => hk ⟨o', op, w, hw, htouch⟩

/-! ## Isolation -/

/-- A bucket in which every key is taken. -/
def fullBucket : Objects := fun _ => some ⟨[], .none⟩

variable (B bed) in
/-- The keys a delete lists. -/
def Lists (k : Key) : Layout → Prop
  | .cas => (Cas.chunkPrefix B.pre bed).isPrefixOf k = true
  | .pack => (Pack.bedPrefix B.pre bed).isPrefixOf k = true
  | .tar => False
  | .restic => (Restic.bedPrefix B.pre bed).isPrefixOf k = true

theorem Lists.touches (h : L.Lists B bed k) : L.Touches B bed k := by
  refine ⟨fullBucket, .delete .ok, ?_⟩
  cases L with
  | tar => exact h.elim
  | _ =>
    refine ⟨_, mem_singleton_self _, ?_⟩
    simp only [Lists] at h
    simp [KeyStore.Write.touches, Objects.lists, h, fullBucket, DeleteReply.ok]

omit [DecidableEq ι] in
/-- The chunks of the Bed `dir` are where a layout with that directory has the Bed `chunks`. -/
theorem chunkPrefix_eq {dir : Key} (hdir : Plain dir) :
    Cas.chunkPrefix B.pre dir = joinPath [B.pre, dir, chunksName] ++ ['/'] := by
  rw [Cas.chunkPrefix_area hdir, bedPrefix_area hdir (by decide)]

/-- If the ids collide, a delete of one Bed removes part of the other's snapshot. -/
theorem Collides.touches {a b : Key} (h : Collides L a L' b) :
    ∃ k, L.Touches B a k ∧ L'.Holds B b k := by
  have hplain : Plain bedsName ∧ Plain tarName ∧ Plain resticName := by decide
  have hunder (p q : Key) : p.isPrefixOf (p ++ q) = true :=
    isPrefixOf_iff_prefix.mpr (prefix_append p q)
  have hchunk := Cas.keyOf_under B.desync B.pre
  cases L with
  | cas =>
    cases L' with
    | cas => exact h.elim
    | pack =>
      obtain ⟨rfl, rfl⟩ := h
      refine ⟨Pack.headKey B.pre chunksName, Lists.touches ?_, .inl rfl⟩
      rw [Lists, chunkPrefix_eq hplain.1]
      exact hunder _ _
    | tar =>
      obtain ⟨rfl, rfl⟩ := h
      refine ⟨Tar.snapshotKey B.pre chunksName, Lists.touches ?_, rfl⟩
      rw [Lists, chunkPrefix_eq hplain.2.1]
      exact hunder _ _
    | restic =>
      obtain ⟨rfl, rfl⟩ := h
      refine ⟨Restic.headKey B.pre chunksName, Lists.touches ?_, .inl rfl⟩
      rw [Lists, chunkPrefix_eq hplain.2.2]
      exact hunder _ _
  | pack =>
    cases L' with
    | cas =>
      obtain ⟨rfl, rfl⟩ := h
      refine ⟨_, Lists.touches ?_, .inr ⟨B.desync.chunkID [], rfl⟩⟩
      rw [Lists, Pack.bedPrefix, ← chunkPrefix_eq hplain.1]
      exact hchunk _ _
    | _ => exact h.elim
  | tar => cases L' <;> exact h.elim
  | restic =>
    cases L' with
    | cas =>
      obtain ⟨rfl, rfl⟩ := h
      refine ⟨_, Lists.touches ?_, .inr ⟨B.desync.chunkID [], rfl⟩⟩
      rw [Lists, Restic.bedPrefix, ← chunkPrefix_eq hplain.2.2]
      exact hchunk _ _
    | _ => exact h.elim

/-- Operations on one Bed leave another Bed's snapshot alone, whatever the prefix is and whichever
layouts the two use, exactly if the ids do not collide. -/
theorem layouts_isolated {wide : Char → Bool} (B : Backend ι) {a b : BedID wide} (hne : a.id ≠ b.id)
    (L L' : Layout) :
    ((∀ k, L.Touches B a.id k → ¬L'.Holds B b.id k) ∧
      ∀ o ops clock fs, L'.stat B b.id (L.run B a.id o ops) = L'.stat B b.id o ∧
        L'.restore B b.id clock fs (L.run B a.id o ops) = L'.restore B b.id clock fs o) ↔
      ¬Collides L a.id L' b.id := by
  constructor
  · rintro ⟨hdisjoint, -⟩ hcollides
    obtain ⟨k, htouches, hholds⟩ := hcollides.touches (B := B)
    exact hdisjoint k htouches hholds
  · intro h
    have hdisjoint (k : Key) (ht : L.Touches B a.id k) : ¬L'.Holds B b.id k := fun hholds =>
      (reaches_holds a.plain b.plain (ht.reaches a.plain) hholds).elim (fun hsame => hne hsame.1) h
    refine ⟨hdisjoint, fun o ops clock fs => ?_⟩
    have hsame (k : Key) (hk : L'.Holds B b.id k) : L.run B a.id o ops k = o k :=
      run_untouched (fun ht => hdisjoint k ht hk) o ops
    exact ⟨stat_congr hsame, restore_congr hsame clock fs⟩

end

end Layout

/-! ## A backend -/

deriving instance Encodable for ResticHead

/-- A tool that never finds a snapshot. -/
def Restic.ResticTool.simple : ResticTool where
  stage es := some es
  encodeHead := word []
  decodeHead := ofWord []
  decodeHead_encodeHead := ofWord_word []
  download _ _ _ := none
  download_confined _ _ _ _ _ := rfl

/-- A backend with an empty prefix. -/
def Backend.simple : Backend Bytes where
  desync := .simple
  packTools := .simple
  packTarget := 1
  tarGzip := .simple
  resticTool := .simple
  bucket := ⟨"bucket".toList, by decide⟩
  pre := []

def bedA : BedID fun _ => false := ⟨"a".toList, by decide⟩
def bedChunks : BedID fun _ => false := ⟨chunksName, by decide⟩
def bedBeds : BedID fun _ => false := ⟨bedsName, by decide⟩

/-- A delete of another Bed leaves even the Bed `chunks` alone. -/
theorem layouts_isolated_chunks :
    bedA.id ≠ bedChunks.id ∧
    Layout.stat Backend.simple bedChunks.id
        (Layout.run Backend.simple bedA.id .cas Layout.fullBucket [.delete .ok]) .pack =
      Layout.stat Backend.simple bedChunks.id Layout.fullBucket .pack := by
  have hne : bedA.id ≠ bedChunks.id := by decide
  have hfree : ¬Layout.Collides .cas bedA.id .pack bedChunks.id := fun h => absurd h.1 (by decide)
  have h := ((Layout.layouts_isolated Backend.simple hne .cas .pack).mpr hfree).2
  exact ⟨hne, (h Layout.fullBucket [.delete .ok] (fun _ => 0) (fun _ => none)).1⟩

/-- A delete of the content-addressed Bed `beds` removes the packed Bed `chunks`. -/
theorem layouts_not_isolated :
    (∃ k, Layout.Touches Backend.simple bedBeds.id .cas k ∧
      Layout.Holds Backend.simple bedChunks.id k .pack) ∧
    Layout.stat Backend.simple bedChunks.id Layout.fullBucket .pack = .ok (some ⟨0, 0⟩) ∧
    Layout.stat Backend.simple bedChunks.id
      (Layout.run Backend.simple bedBeds.id .cas Layout.fullBucket [.delete .ok]) .pack =
      .ok none := by
  refine ⟨Layout.Collides.touches ⟨rfl, rfl⟩, rfl, ?_⟩
  rfl

end Hostel.Sync
