/-
# Hostel.Sync.PackHistory — pack snapshots under failures and crashes.

`Intact` says that the head leads to the manifest and the packs of the last tree that was committed.
The packs a call puts, its manifest and its head each keep it, so a history of calls does
(`tracked_history`), and a restore finds that tree (`Intact.restore_eq`).
-/
import Hostel.Sync.PackWriter

namespace Hostel.Sync.Pack

open Hostel.Logic List Option KeyStore

variable {ι : Type} [DecidableEq ι] {D : Desync ι} {K : PackTools} {target : Nat} {S : Set Bytes}
  {pre bed : Key} {o : Objects}

/-! ## The invariant -/

abbrev Commit := Int × List Entry

/-- The head, the manifest it names and the packs the manifest names hold the tree. -/
def Points (D : Desync ι) (K : PackTools) (pre bed : Key) (o : Objects) (m : Commit) : Prop :=
  ∃ mf locs x, buildPackManifest D (D.treeIndex m.2) locs = some mf ∧
    (∀ i l, locs i = some l → Good D pre bed o i l) ∧
    o (snapshotKey pre bed (K.objectID (K.encodeManifest mf))) = some x ∧
    x.body = K.encodeManifest mf ∧
    o (headKey pre bed) =
      some (headObject K (K.objectID (K.encodeManifest mf)) m.1 (D.treeIndex m.2))

/-- The store of one Bed whose last commit is `m`. -/
structure Intact (D : Desync ι) (K : PackTools) (S : Set Bytes) (pre bed : Key) (o : Objects)
    (m : Option Commit) : Prop where
  named : Named K S pre bed o
  absent : m = none → o (headKey pre bed) = none
  points : ∀ c, m = some c → Points D K pre bed o c

section Writes

variable (hbed : Plain bed) (hS : S.InjOn K.objectID) {m : Option Commit}
include hbed hS

omit [DecidableEq ι] in
theorem Intact.onlyPacks (h : Intact D K S pre bed o m) {ws : List Write}
    (hws : OnlyPacks K S pre bed ws) : Intact D K S pre bed (o.after ws) m := by
  have hhead : o.after ws (headKey pre bed) = o (headKey pre bed) :=
    hws.untouched fun p hp => packKey_ne_headKey hbed hp
  refine ⟨h.named.onlyPacks hbed hws, fun hm => by rw [hhead, h.absent hm], fun c hm => ?_⟩
  obtain ⟨mf, locs, x, hbuild, hgood, hx, hbody, hpoint⟩ := h.points c hm
  refine ⟨mf, locs, x, hbuild, fun i l hl => (hgood i l hl).packs hbed hS hws h.named, ?_, hbody,
    by rw [hhead, hpoint]⟩
  rw [hws.untouched fun p hp => packKey_ne_snapshotKey hbed hp (K.objectID_valid _), hx]

omit [DecidableEq ι] in
theorem Intact.manifest (h : Intact D K S pre bed o m) {b : Bytes} (hb : b ∈ S) :
    Intact D K S pre bed
      (o.after [.put (snapshotKey pre bed (K.objectID b)) ⟨b, .none⟩]) m := by
  have hsid := K.objectID_valid b
  have hother {k : Key} (hk : snapshotKey pre bed (K.objectID b) ≠ k) :
      o.after [.put (snapshotKey pre bed (K.objectID b)) ⟨b, .none⟩] k =
      o k := after_put_of_ne hk.symm
  have hpack p (hp : validObjectID p = true) := hother (packKey_ne_snapshotKey hbed hp hsid).symm
  have hhead := hother (snapshotKey_ne_headKey hbed hsid)
  have hnamed : Named K S pre bed
      (o.after [.put (snapshotKey pre bed (K.objectID b)) ⟨b, .none⟩]) := by
    refine ⟨fun p x hp hx => h.named.packs p x hp (by rwa [hpack p hp] at hx), fun p x hp hx => ?_⟩
    rcases after_eq_some hx with hold | hput
    · exact h.named.snapshots p x hp hold
    · obtain ⟨hkey, rfl⟩ := KeyStore.Write.put.inj (mem_singleton.mp hput)
      exact ⟨(snapshotKey_inj hbed hp hsid hkey).symm, hb⟩
  refine ⟨hnamed, fun hm => by rw [hhead, h.absent hm], fun c hm => ?_⟩
  obtain ⟨mf, locs, x, hbuild, hgood, hx, hbody, hpoint⟩ := h.points c hm
  -- if this is the manifest of the head, it is put again with the bytes it has
  have hmanifest : ∃ y, o.after [.put (snapshotKey pre bed (K.objectID b)) ⟨b, .none⟩]
      (snapshotKey pre bed (K.objectID (K.encodeManifest mf))) = some y ∧
      y.body = K.encodeManifest mf := by
    by_cases hsame : snapshotKey pre bed (K.objectID b) =
        snapshotKey pre bed (K.objectID (K.encodeManifest mf))
    · have hmf : K.encodeManifest mf ∈ S :=
        hbody ▸ (h.named.snapshots _ _ (K.objectID_valid _) hx).2
      have hbytes : b = K.encodeManifest mf :=
        hS hb hmf (snapshotKey_inj hbed hsid (K.objectID_valid _) hsame)
      exact ⟨⟨b, .none⟩, by rw [← hsame]; simp [write], hbytes⟩
    · exact ⟨x, by rw [hother hsame, hx], hbody⟩
  obtain ⟨y, hy, hybody⟩ := hmanifest
  exact ⟨mf, locs, y, hbuild, fun i l hl => (hgood i l hl).congr (hpack _ (hgood i l hl).valid), hy,
    hybody, by rw [hhead, hpoint]⟩

omit hS [DecidableEq ι] in
theorem Intact.head (h : Intact D K S pre bed o m) {g : Int} {t : List Entry} {mf : PackManifest}
    {locs : ι → Option PackLocation} (hbuild : buildPackManifest D (D.treeIndex t) locs = some mf)
    (hgood : ∀ i l, locs i = some l → Good D pre bed o i l) {x : Object}
    (hx : o (snapshotKey pre bed (K.objectID (K.encodeManifest mf))) = some x)
    (hbody : x.body = K.encodeManifest mf) :
    Intact D K S pre bed (o.after [.put (headKey pre bed)
      (headObject K (K.objectID (K.encodeManifest mf)) g (D.treeIndex t))]) (some (g, t)) := by
  have hother {k : Key} (hk : k ≠ headKey pre bed) : o.after [.put (headKey pre bed)
      (headObject K (K.objectID (K.encodeManifest mf)) g (D.treeIndex t))] k =
      o k := after_put_of_ne hk
  have hpack p (hp : validObjectID p = true) := hother (packKey_ne_headKey hbed hp)
  have hsnapshot p (hp : validObjectID p = true) := hother (snapshotKey_ne_headKey hbed hp)
  refine ⟨⟨fun p y hp hy => h.named.packs p y hp (by rwa [hpack p hp] at hy),
    fun p y hp hy => h.named.snapshots p y hp (by rwa [hsnapshot p hp] at hy)⟩, nofun, ?_⟩
  rintro c hc
  cases hc
  exact ⟨mf, locs, x, hbuild, fun i l hl => (hgood i l hl).congr (hpack _ (hgood i l hl).valid),
    by rw [hsnapshot _ (K.objectID_valid _), hx], hbody, by simp [write]⟩

end Writes

/-! ## What a call reads -/

theorem Points.load {m : Commit} (h : Points D K pre bed o m) :
    ∃ mf locs, loadHead K pre bed o =
        some ⟨K.objectID (K.encodeManifest mf), m.1, Desync.length (D.treeIndex m.2)⟩ ∧
      loadManifest K pre bed o (K.objectID (K.encodeManifest mf)) = some mf ∧
      mf.index = D.writeIndex (D.treeIndex m.2) ∧ manifestLocations D mf = some locs ∧
      (∀ i l, locs i = some l → Good D pre bed o i l) ∧
      ∀ c ∈ D.treeIndex m.2, (locs c.id).isSome = true := by
  obtain ⟨mf, locs, x, hbuild, hgood, hx, hbody, hpoint⟩ := h
  obtain ⟨hindex, locs', hlocs', hgood', hcovers⟩ := manifestLocations_build hgood hbuild
  refine ⟨mf, locs', ?_, ?_, hindex, hlocs', hgood', hcovers⟩
  · simp [loadHead, hpoint, headObject, K.decodeHead_encodeHead, K.objectID_valid]
  · simp [loadManifest, K.objectID_valid, hx, hbody, K.decodeManifest_encodeManifest]

variable {known : ι → Option PackLocation} {m : Option Commit} {f : Faults}
  {filter : SnapshotFilter} {c : Call}

/-- What `Persist` starts from in an intact store: good locations, and a head whose manifest is
there. -/
theorem Intact.prepare (h : Intact D K S pre bed o m) {prev : Option PackHead}
    (hprep : prepare D K pre bed o c f = .ok (filter, prev, known)) :
    newSnapshotFilter c.volumeRoots = .ok filter ∧
      (∀ i l, known i = some l → Good D pre bed o i l) ∧
      ∀ head, prev = some head → ∃ x, o (snapshotKey pre bed head.snapshot) = some x ∧
        K.objectID x.body = head.snapshot := by
  revert hprep
  fun_cases Pack.prepare D K pre bed o c f with
  | case3 filter' hfilter hhead hnone =>
    intro hprep
    cases hprep
    exact ⟨hfilter, nofun, nofun⟩
  | case8 filter' hfilter hhead x hx hfence hload head hloadHead known' hknown =>
    intro hprep
    cases hprep
    refine ⟨hfilter, ?_⟩
    cases m with
    | none =>
      rw [h.absent rfl] at hx
      cases hx
    | some m =>
      obtain ⟨mf, locs, hhead', hmanifest, -, hlocs, hgood, -⟩ := (h.points m rfl).load
      rw [hhead'] at hloadHead
      cases hloadHead
      rw [hmanifest, bind_some, hlocs] at hknown
      cases hknown
      refine ⟨hgood, fun head hhead => ?_⟩
      cases hhead
      unfold loadManifest at hmanifest
      rw [if_pos (K.objectID_valid _)] at hmanifest
      obtain ⟨x, hx, hrest⟩ := bind_eq_some_iff.mp hmanifest
      split_ifs at hrest with hid
      exact ⟨x, hx, hid⟩
  | _ =>
    intro hprep
    cases hprep

/-! ## What a call writes -/

variable (D K pre bed target) in
theorem packTree_extends (filter : SnapshotFilter) (c : Call) (f : Faults)
    (known : ι → Option PackLocation) : Extends K pre bed (newPackWriter known)
      (packTree D K target pre bed filter c f known).1 := by
  unfold packTree
  split
  · exact storeChunks_extends D K target pre bed f _ _
  · have hstream := storeChunks_extends D K target pre bed f (newPackWriter known)
      (D.distinct [] (D.treeChunks (filteredFS filter c.dir)))
    split
    case h_1 w heq => rwa [heq] at hstream
    case h_2 w heq =>
      rw [heq] at hstream
      have hflush := flush_extends K pre bed f w
      split
      case h_1 w' heq' =>
        rw [heq'] at hflush
        exact hstream.trans hflush
      case h_2 w' heq' =>
        rw [heq'] at hflush
        split
        · exact hstream.trans hflush
        · exact hstream.trans hflush

variable {w : PackWriter ι}

theorem packTree_ok (hbed : Plain bed) (hS : S.InjOn K.objectID) (hn : Named K S pre bed o)
    (hknown : ∀ i l, known i = some l → Good D pre bed o i l) {m : PackManifest}
    (h : packTree D K target pre bed filter c f known = (w, .ok m))
    (hws : OnlyPacks K S pre bed w.writes) :
    buildPackManifest D (D.treeIndex (filteredFS filter c.dir)) w.locations = some m ∧
      ∀ i l, w.locations i = some l → Good D pre bed (o.after w.writes) i l := by
  unfold packTree at h
  split at h
  · cases h
  · split at h
    · cases h
    case h_2 w₁ hstream =>
      split at h
      · cases h
      case h_2 w₂ hflush =>
        split at h
        · cases h
        case h_2 m' hbuild =>
          cases h
          have hw := ((packing_new.storeChunks hstream).1.flush hflush).1
          exact ⟨hbuild, (hw.writing hbed hS hn hknown hws).located⟩

variable (K pre bed) in
omit [DecidableEq ι] in
/-- The manifest, unless the previous head names it, and then the head. -/
theorem commit_writes (c : Call) (f : Faults) (prev : Option PackHead) (idx : Index ι)
    (m : PackManifest) : ∃ ms hs, (commit K pre bed c f prev idx m).writes = ms ++ hs ∧
      (ms = [] ∨ ms = [.put (snapshotKey pre bed (K.objectID (K.encodeManifest m)))
        ⟨K.encodeManifest m, .none⟩]) ∧
      (hs = [] ∨
        hs = [.put (headKey pre bed)
          (headObject K (K.objectID (K.encodeManifest m)) c.generation idx)] ∧
        (ms ≠ [] ∨ ∃ head, prev = some head ∧
          head.snapshot = K.objectID (K.encodeManifest m))) := by
  unfold commit
  dsimp only
  split
  case isTrue hprev =>
    have hnames : ∃ head, prev = some head ∧
        head.snapshot = K.objectID (K.encodeManifest m) := by
      cases prev with
      | none => cases hprev
      | some head => exact ⟨head, rfl, of_decide_eq_true hprev⟩
    cases f.commit with
    | ok | late => exact ⟨[], _, rfl, .inl rfl, .inr ⟨rfl, .inr hnames⟩⟩
    | lost => exact ⟨[], [], rfl, .inl rfl, .inl rfl⟩
  case isFalse =>
    cases f.manifest with
    | lost => exact ⟨[], [], rfl, .inl rfl, .inl rfl⟩
    | late => exact ⟨_, [], rfl, .inr rfl, .inl rfl⟩
    | ok =>
      cases f.commit with
      | ok | late => exact ⟨_, _, rfl, .inr rfl, .inr ⟨rfl, .inl (by simp)⟩⟩
      | lost => exact ⟨_, [], rfl, .inr rfl, .inl rfl⟩

/-! ## One call -/

def commitOf (c : Call) : Option Commit := c.tree.map fun t => (c.generation, t)

theorem puts_headKey_onlyPacks (hbed : Plain bed) {ws : List Write}
    (h : OnlyPacks K S pre bed ws) : puts (headKey pre bed) ws = false := by
  rw [Bool.eq_false_iff]
  intro hputs
  obtain ⟨x, hx⟩ := puts_iff.mp hputs
  obtain ⟨b, -, hb⟩ := h _ hx
  exact packKey_ne_headKey hbed (K.objectID_valid b) (KeyStore.Write.put.inj hb).1.symm

omit [DecidableEq ι] in
theorem Extends.onlyPacks (h : Extends K pre bed (newPackWriter known) w)
    (hS : ∀ b ∈ bodies w.writes, b ∈ S) : OnlyPacks K S pre bed w.writes := by
  obtain ⟨bs, hbs⟩ := h
  intro x hx
  have hmem := hx
  rw [hbs] at hmem
  obtain ⟨b, -, rfl⟩ := mem_map.mp (show x ∈ bs.map (putPack K pre bed) from hmem)
  exact ⟨b, hS b (mem_filterMap.mpr ⟨_, hx, rfl⟩), rfl⟩

theorem packTree_onlyPacks {r : Except StoreError PackManifest}
    (h : packTree D K target pre bed filter c f known = (w, r))
    (hS : ∀ b ∈ bodies w.writes, b ∈ S) : OnlyPacks K S pre bed w.writes := by
  have hext := packTree_extends D K target pre bed filter c f known
  rw [h] at hext
  exact hext.onlyPacks hS

variable {locs : ι → Option PackLocation}

omit [DecidableEq ι] in
theorem Intact.commit (hbed : Plain bed) (hS : S.InjOn K.objectID)
    (h : Intact D K S pre bed o m) {prev : Option PackHead} {t : List Entry} {mf : PackManifest}
    (hbuild : buildPackManifest D (D.treeIndex t) locs = some mf)
    (hgood : ∀ i l, locs i = some l → Good D pre bed o i l) (hmf : K.encodeManifest mf ∈ S)
    (hprev : ∀ head, prev = some head → ∃ x, o (snapshotKey pre bed head.snapshot) = some x ∧
      K.objectID x.body = head.snapshot) :
    Intact D K S pre bed (o.after (commit K pre bed c f prev (D.treeIndex t) mf).writes)
      (if puts (headKey pre bed) (commit K pre bed c f prev (D.treeIndex t) mf).writes
        then some (c.generation, t) else m) := by
  obtain ⟨ms, hs, hws, hms, hhs⟩ := commit_writes K pre bed c f prev (D.treeIndex t) mf
  have hsid := K.objectID_valid (K.encodeManifest mf)
  have hputs : puts (headKey pre bed) ms = false := by
    rcases hms with rfl | rfl
    · rfl
    · simpa [puts] using (snapshotKey_ne_headKey hbed hsid).symm
  -- with or without its `Put`, the manifest leaves the packs alone
  have hmid : Intact D K S pre bed (o.after ms) m := by
    rcases hms with rfl | rfl
    · exact h
    · exact h.manifest hbed hS hmf
  have hpack p (hp : validObjectID p = true) :
      o.after ms (packKey pre bed p) = o (packKey pre bed p) := by
    rcases hms with rfl | rfl
    · rfl
    · exact after_put_of_ne (packKey_ne_snapshotKey hbed hp hsid)
  rw [hws, puts_append, hputs, Bool.false_or, after_append]
  rcases hhs with rfl | ⟨rfl, hthere⟩
  · exact hmid
  · have hmanifest : ∃ x, o.after ms (snapshotKey pre bed (K.objectID (K.encodeManifest mf))) =
        some x ∧ x.body = K.encodeManifest mf := by
      rcases hms with rfl | rfl
      · -- the previous head names this manifest, so it is there and has these bytes
        obtain ⟨head, hhead, hnames⟩ := hthere.resolve_left (by simp)
        obtain ⟨x, hx, hid⟩ := hprev head hhead
        rw [hnames] at hx hid
        exact ⟨x, hx, hS (h.named.snapshots _ _ hsid hx).2 hmf hid⟩
      · exact ⟨⟨K.encodeManifest mf, .none⟩, by simp [write], rfl⟩
    obtain ⟨x, hx, hbody⟩ := hmanifest
    rw [if_pos (by simp [puts])]
    exact hmid.head hbed hbuild
      (fun i l hl => (hgood i l hl).congr (hpack _ (hgood i l hl).valid)) hx hbody

variable (target) in
/-- A call keeps the invariant, for its own tree if it committed and for the last one otherwise. -/
theorem Intact.persist (hbed : Plain bed) (hS : S.InjOn K.objectID)
    (h : Intact D K S pre bed o m) (c : Call) (f : Faults)
    (hdig : ∀ b ∈ digested D K target pre bed o c f, b ∈ S) :
    Intact D K S pre bed (o.after (persist D K target pre bed o c f).writes)
      (if puts (headKey pre bed) (persist D K target pre bed o c f).writes then commitOf c
        else m) := by
  rcases hprep : Pack.prepare D K pre bed o c f with e | ⟨filter, prev, known⟩
  · have hfail : Pack.persist D K target pre bed o c f = .fail e := by rw [Pack.persist, hprep]
    rw [hfail]
    exact h
  obtain ⟨hfilter, hknown, hprev⟩ := h.prepare hprep
  obtain ⟨w, r, hr⟩ : ∃ w r, packTree D K target pre bed filter c f known = (w, r) := ⟨_, _, rfl⟩
  simp only [digested, hprep, hr] at hdig
  have hpacks : OnlyPacks K S pre bed w.writes :=
    packTree_onlyPacks hr fun b hb => hdig b (mem_append_left _ hb)
  cases r with
  | error e =>
    have hstop : Pack.persist D K target pre bed o c f = ⟨w.writes, some e⟩ := by
      simp only [Pack.persist, hprep, hr]
    rw [hstop, puts_headKey_onlyPacks hbed hpacks, if_neg (by simp)]
    exact h.onlyPacks hbed hS hpacks
  | ok mf =>
    have hgo : Pack.persist D K target pre bed o c f =
        (Pack.commit K pre bed c f prev (D.treeIndex (filteredFS filter c.dir)) mf).precede
          w.writes := by
      simp only [Pack.persist, hprep, hr]
    have hcommit : commitOf c = some (c.generation, filteredFS filter c.dir) := by
      simp [commitOf, Call.tree, hfilter]
    obtain ⟨hbuild, hgood⟩ := packTree_ok hbed hS h.named hknown hr hpacks
    have hmf : K.encodeManifest mf ∈ S := hdig _ (by simp)
    have hprev' : ∀ head, prev = some head →
        ∃ x, o.after w.writes (snapshotKey pre bed head.snapshot) = some x ∧
          K.objectID x.body = head.snapshot := by
      intro head hhead
      obtain ⟨x, hx, hid⟩ := hprev head hhead
      refine ⟨x, ?_, hid⟩
      rw [hpacks.untouched fun p hp => packKey_ne_snapshotKey hbed hp
        (hid ▸ K.objectID_valid x.body), hx]
    rw [hgo, Effects.precede_writes, puts_append, puts_headKey_onlyPacks hbed hpacks,
      Bool.false_or, after_append, hcommit]
    exact (h.onlyPacks hbed hS hpacks).commit hbed hS hbuild hgood hmf hprev'

/-! ## The reader -/

/-- The cached packs are those of the store. -/
def CacheOk (pre bed : Key) (o : Objects) (cache : Cache) : Prop :=
  ∀ e ∈ cache, ∃ x, o (packKey pre bed e.1) = some x ∧ x.body = e.2

theorem readPack_some {cache cache' : Cache} {p : Key} {b : Bytes} (hc : CacheOk pre bed o cache)
    (h : readPack K pre bed o cache p = some (b, cache')) :
    CacheOk pre bed o cache' ∧ ∃ x, o (packKey pre bed p) = some x ∧ x.body = b := by
  unfold readPack at h
  split at h
  case h_1 e he =>
    cases h
    have hp : e.1 = p := by simpa using find?_some he
    have hmem := hc e (mem_of_find?_eq_some he)
    exact ⟨forall_mem_cons.mpr ⟨hmem, fun e' he' => hc e' (mem_of_mem_filter he')⟩, hp ▸ hmem⟩
  case h_2 =>
    obtain ⟨x, hx, h⟩ := bind_eq_some_iff.mp h
    split_ifs at h
    cases h
    refine ⟨fun e' he' => ?_, x, hx, rfl⟩
    rcases mem_cons.mp (mem_of_mem_take he') with rfl | he'
    · exact ⟨x, hx, rfl⟩
    · exact hc e' he'

/-- The cache is invisible: a pack is read as the store holds it. -/
theorem readPack_eq {cache : Cache} (hc : CacheOk pre bed o cache) {p : Key} {x : Object}
    (hx : o (packKey pre bed p) = some x) (hid : K.objectID x.body = p) :
    ∃ cache', readPack K pre bed o cache p = some (x.body, cache') ∧
      CacheOk pre bed o cache' := by
  obtain ⟨⟨b, cache'⟩, h⟩ : ∃ r, readPack K pre bed o cache p = some r := by
    unfold readPack
    split
    · exact ⟨_, rfl⟩
    · exact ⟨_, by rw [hx, bind_some, if_pos hid]⟩
  obtain ⟨hc', y, hy, rfl⟩ := readPack_some hc h
  cases hx.symm.trans hy
  exact ⟨cache', h, hc'⟩

theorem getChunk_eq (hn : Named K S pre bed o) {c : Bytes}
    {l : PackLocation} (hl : locs (D.chunkID c) = some l)
    (hgood : Good D pre bed o (D.chunkID c) l) {cache : Cache} (hc : CacheOk pre bed o cache) :
    ∃ cache', getChunk D K pre bed o locs cache (D.chunkID c) = some (c, cache') ∧
      CacheOk pre bed o cache' := by
  obtain ⟨hvalid, -, -, x, d, hx, hd, hslice⟩ := hgood
  -- content addressing: the location can only lead to this chunk
  rw [D.chunkID_injective hd] at hslice
  obtain ⟨cache', hread, hc'⟩ := readPack_eq hc hx (hn.packs _ _ hvalid hx).1
  exact ⟨cache', by simp [getChunk, hl, hread, hslice], hc'⟩

theorem getChunks_indexFrom (hn : Named K S pre bed o)
    (hgood : ∀ i l, locs i = some l → Good D pre bed o i l) {cs : List Bytes}
    (hlocs : ∀ c ∈ cs, (locs (D.chunkID c)).isSome = true) (start : Nat) {cache : Cache}
    (hc : CacheOk pre bed o cache) :
    getChunks D K pre bed o locs cache (D.indexFrom start cs) = some cs := by
  induction cs generalizing start cache with
  | nil => rfl
  | cons c cs ih =>
    obtain ⟨l, hl⟩ := isSome_iff_exists.mp (hlocs c (by simp))
    obtain ⟨cache', hget, hc'⟩ := getChunk_eq hn hl (hgood _ l hl) hc
    have hrest := ih (fun d hd => hlocs d (by simp [hd])) (start + c.length) hc'
    simp [Desync.indexFrom, getChunks, hget, hrest]

theorem Intact.restore_eq {g : Int} {t : List Entry} (h : Intact D K S pre bed o (some (g, t))) :
    restore D K pre bed o = .ok t := by
  obtain ⟨mf, locs, hhead, hmanifest, hindex, hlocs, hgood, hcovers⟩ := (h.points _ rfl).load
  have hall : ((D.treeIndex t).all fun x => (locs x.id).isSome) = true := all_eq_true.mpr hcovers
  have hchunks : ∀ c ∈ D.treeChunks t, (locs (D.chunkID c)).isSome = true := by
    intro c hc
    have hid : D.chunkID c ∈ (D.treeIndex t).map IndexChunk.id := by
      rw [Desync.treeIndex, D.index_ids]
      exact mem_map_of_mem hc
    obtain ⟨x, hx, hxid⟩ := mem_map.mp hid
    rw [← hxid]
    exact hcovers x hx
  have hget : getChunks D K pre bed o locs [] (D.treeIndex t) = some (D.treeChunks t) :=
    getChunks_indexFrom h.named hgood hchunks 0 (by simp [CacheOk])
  have huntar : D.untar (D.treeChunks t).flatten = some t := by
    rw [Desync.treeChunks, D.flatten_chunks, D.untar_tar]
  simp only [restore, hhead, hmanifest, hindex, D.readIndex_writeIndex, hlocs, hall, if_true, hget,
    bind_some, huntar]

/-- The head names a manifest that passes its digest check, and the manifest locates every chunk of
its index in a pack that is there and holds the chunk's stored bytes there. -/
theorem Intact.references (h : Intact D K S pre bed o m) {x : Object}
    (hx : o (headKey pre bed) = some x) :
    ∃ head y mf idx locs, K.decodeHead x.body = some head ∧
      o (snapshotKey pre bed head.snapshot) = some y ∧ K.objectID y.body = head.snapshot ∧
      K.decodeManifest y.body = some mf ∧ D.readIndex mf.index = some idx ∧
      manifestLocations D mf = some locs ∧
      ∀ e ∈ idx, ∃ l z data, locs e.id = some l ∧ o (packKey pre bed l.pack) = some z ∧
        D.chunkID data = e.id ∧ slice l z.body = some (D.storage data) := by
  cases m with
  | none =>
    rw [h.absent rfl] at hx
    cases hx
  | some m =>
    obtain ⟨mf, locs, y, hbuild, hgood, hy, hbody, hpoint⟩ := h.points m rfl
    rw [hpoint] at hx
    cases hx
    obtain ⟨hindex, locs', hlocs', hgood', hcovers⟩ := manifestLocations_build hgood hbuild
    refine ⟨_, y, mf, D.treeIndex m.2, locs', K.decodeHead_encodeHead _, hy, by rw [hbody], ?_, ?_,
      hlocs', fun e he => ?_⟩
    · rw [hbody, K.decodeManifest_encodeManifest]
    · rw [hindex, D.readIndex_writeIndex]
    · obtain ⟨l, hl⟩ := isSome_iff_exists.mp (hcovers e he)
      obtain ⟨-, -, -, z, data, hz, hdata, hslice⟩ := hgood' _ l hl
      exact ⟨l, z, data, hl, hz, hdata, hslice⟩

/-! ## Histories -/

/-- The store, the last call whose head `Put` took effect, and the bytes that were digested. -/
structure History where
  objects : Objects
  last : Option Call
  digested : List Bytes

variable (D K target pre bed) in
def call (s : History) (c : Call × Faults) : History :=
  { objects := s.objects.after (persist D K target pre bed s.objects c.1 c.2).writes
    last :=
      if puts (headKey pre bed) (persist D K target pre bed s.objects c.1 c.2).writes then
        some c.1
      else s.last
    digested := s.digested ++ digested D K target pre bed s.objects c.1 c.2 }

variable (D K target pre bed) in
def history (o : Objects) (cs : List (Call × Faults)) : History :=
  cs.foldl (call D K target pre bed) ⟨o, none, []⟩

def Fresh (pre bed : Key) (o : Objects) : Prop :=
  o (headKey pre bed) = none ∧
    ∀ p, validObjectID p = true → o (packKey pre bed p) = none ∧ o (snapshotKey pre bed p) = none

/-- The store is that of the last call that committed, if the digested bytes are in `S`. -/
structure Tracked (D : Desync ι) (K : PackTools) (S : Set Bytes) (pre bed : Key) (s : History) :
    Prop where
  intact : Intact D K S pre bed s.objects (s.last.bind commitOf)
  tree : ∀ c, s.last = some c → ∃ t, c.tree = some t

theorem tree_of_puts (h : puts (headKey pre bed) (persist D K target pre bed o c f).writes = true) :
    ∃ t, c.tree = some t := by
  unfold persist at h
  split at h
  · cases h
  case h_2 filter prev known hprep =>
    have hfilter : newSnapshotFilter c.volumeRoots = .ok filter := by
      revert hprep
      fun_cases Pack.prepare D K pre bed o c f <;> intro hprep <;> cases hprep <;> assumption
    exact ⟨filteredFS filter c.dir, by rw [Call.tree, hfilter]⟩

theorem Tracked.call (hbed : Plain bed) (hS : S.InjOn K.objectID) {s : History}
    (h : Tracked D K S pre bed s) (c : Call × Faults)
    (hdig : ∀ b ∈ (call D K target pre bed s c).digested, b ∈ S) :
    Tracked D K S pre bed (call D K target pre bed s c) := by
  have hstep := h.intact.persist target hbed hS c.1 c.2
    fun b hb => hdig b (mem_append_right _ hb)
  unfold Pack.call
  split
  case isTrue hputs =>
    refine ⟨by simpa [hputs] using hstep, fun d hd => ?_⟩
    rw [← some.inj hd]
    exact tree_of_puts hputs
  case isFalse hputs => exact ⟨by simpa [hputs] using hstep, h.tree⟩

theorem tracked_history (hbed : Plain bed) {o : Objects} (hfresh : Fresh pre bed o)
    (hS : S.InjOn K.objectID) (cs : List (Call × Faults))
    (hdig : ∀ b ∈ (history D K target pre bed o cs).digested, b ∈ S) :
    Tracked D K S pre bed (history D K target pre bed o cs) := by
  have hinit : Tracked D K S pre bed ⟨o, none, []⟩ := by
    refine ⟨⟨⟨fun p x hp hx => ?_, fun p x hp hx => ?_⟩, fun _ => hfresh.1, nofun⟩, nofun⟩
    · exact absurd ((hfresh.2 p hp).1.symm.trans hx) (by simp)
    · exact absurd ((hfresh.2 p hp).2.symm.trans hx) (by simp)
  -- the digested bytes only grow, so the hypothesis on all of them covers every prefix
  have hrun : (∀ b ∈ (history D K target pre bed o cs).digested, b ∈ S) →
      Tracked D K S pre bed (history D K target pre bed o cs) :=
    foldlRecOn (motive := fun s => (∀ b ∈ s.digested, b ∈ S) → Tracked D K S pre bed s)
      cs (Pack.call D K target pre bed) (fun _ => hinit) fun s hs c _ hdig =>
        (hs fun b hb => hdig b (mem_append_left _ hb)).call hbed hS c hdig
  exact hrun hdig

/-! ## The theorem -/

/-- However the calls of a history fail or crash, a head leads to a manifest that passes its check
and on to packs that hold every chunk, and a restore yields the tree of the last call whose head
`Put` took effect, if the digest has no collision among the packs and manifests of the history. -/
theorem pack_history_restorable {wide : Char → Bool} (D : Desync ι) (K : PackTools) (target : Nat)
    (pre : Key) (b : BedID wide) {o : Objects} (hfresh : Fresh pre b.id o)
    (cs : List (Call × Faults))
    (hsha : Set.InjOn K.objectID {x | x ∈ (history D K target pre b.id o cs).digested}) :
    (∀ x, (history D K target pre b.id o cs).objects (headKey pre b.id) = some x →
      ∃ head y mf idx locs, K.decodeHead x.body = some head ∧
        (history D K target pre b.id o cs).objects (snapshotKey pre b.id head.snapshot) = some y ∧
        K.objectID y.body = head.snapshot ∧ K.decodeManifest y.body = some mf ∧
        D.readIndex mf.index = some idx ∧ manifestLocations D mf = some locs ∧
        ∀ e ∈ idx, ∃ l z data, locs e.id = some l ∧
          (history D K target pre b.id o cs).objects (packKey pre b.id l.pack) = some z ∧
          D.chunkID data = e.id ∧ slice l z.body = some (D.storage data)) ∧
    (∀ c, (history D K target pre b.id o cs).last = some c →
      ∃ t, c.tree = some t ∧
        restore D K pre b.id (history D K target pre b.id o cs).objects = .ok t) ∧
    ((history D K target pre b.id o cs).last = none →
      (history D K target pre b.id o cs).objects (headKey pre b.id) = none) := by
  obtain ⟨h, htree⟩ := tracked_history (D := D) b.plain hfresh hsha cs fun _ hx => hx
  refine ⟨fun x hx => h.references hx, fun c hc => ?_, fun hnone => h.absent (by rw [hnone]; rfl)⟩
  obtain ⟨t, ht⟩ := htree c hc
  have hcommit : commitOf c = some (c.generation, t) := by rw [commitOf, ht, map_some]
  rw [hc, bind_some, hcommit] at h
  exact ⟨t, ht, h.restore_eq⟩

/-- A file is persisted, then another content of it by a call that loses its head `Put`, and by one
that commits. -/
def changedFile : List (Call × Faults) :=
  [(fileCall 1 [1], .none), (fileCall 2 [2], { Faults.none with commit := .lost }),
    (fileCall 3 [2], .none)]

theorem changedFile_digested :
    (history Desync.simple PackTools.simple 1 [] plainBed.id (fun _ => none) changedFile).digested =
      [[0, 1], [1], [0, 2], [1, 2], [0, 2], [1, 2]] := by
  decide +kernel

/-- Only the first call puts the pack of the chunk the archives share. -/
theorem pack_history_restorable_lost :
    ((changedFile.inits.zip changedFile).map fun h =>
      puts (packKey [] plainBed.id (sampleDigest (Desync.simple.storage [1])))
        (persist Desync.simple PackTools.simple 1 [] plainBed.id
          (history Desync.simple PackTools.simple 1 [] plainBed.id (fun _ => none) h.1).objects
          h.2.1 h.2.2).writes) = [true, false, false] ∧
    ∃ t, (fileCall 3 [2]).tree = some t ∧
      restore Desync.simple PackTools.simple [] plainBed.id
        (history Desync.simple PackTools.simple 1 [] plainBed.id (fun _ => none)
          changedFile).objects = .ok t := by
  have hsha : ∀ x ∈ ([[0, 1], [1], [0, 2], [1, 2], [0, 2], [1, 2]] : List Bytes),
      ∀ y ∈ ([[0, 1], [1], [0, 2], [1, 2], [0, 2], [1, 2]] : List Bytes),
      sampleDigest x = sampleDigest y → x = y := by decide +kernel
  exact ⟨by decide +kernel,
    (pack_history_restorable Desync.simple PackTools.simple 1 [] plainBed
      ⟨rfl, fun _ _ => ⟨rfl, rfl⟩⟩ changedFile
      (by rw [changedFile_digested]; exact fun x hx y hy => hsha x hx y hy)).2.1 (fileCall 3 [2])
      (by decide +kernel)⟩

end Hostel.Sync.Pack
