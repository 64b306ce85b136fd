/-
# Hostel.Sync.Cas — the content-addressed layout, and its snapshots under failures and crashes.

`Persist` uploads the chunks that the previous index does not name, puts the index, which is the
commit point, and then deletes every chunk object the new index does not name.  `Faults` says which
requests fail and which writes of a failed or crashed call took effect.

`Intact` is about the store alone: a chunk object holds the chunk its name says, and an index names
chunks that are there.  Uploads, the commit and the collection each keep it, so a history of calls
does (`tracked_history`), and a restore finds the tree of the last call that committed.
-/
import Hostel.Sync.Desync

namespace Hostel.Sync.Cas

open Hostel.Logic List Option KeyStore

variable {ι : Type}

/-! ## Faults -/

/-- How far the handling of one chunk got: no worker reached it, its `HEAD` failed, or its `Put`
ended in some way. -/
inductive Request
  | notReached
  | headFails
  | put (out : Outcome)
  deriving DecidableEq

/-- What goes wrong in one call of `Persist`. -/
structure Faults (ι : Type) where
  /-- The pre-write stat fails. -/
  head : Bool
  /-- Reading the previous index fails. -/
  load : Bool
  /-- Archiving breaks off, after a stream of these chunks. -/
  broken : Option (List Bytes)
  request : ι → Request
  index : Outcome
  list : Bool
  /-- The deletes of the collection that take effect. -/
  deleted : Key → Bool

def Faults.none : Faults ι :=
  { head := false, load := false, broken := .none, request := fun _ => .put .ok, index := .ok
    list := false, deleted := fun _ => true }

/-! ## The layout -/

section Layout

variable [DecidableEq ι] (D : Desync ι) (pre bed : Key)

def keyOf (i : ι) : Key := chunkKey pre bed (D.idString i)

/-- `StatSnapshot`; metadata that is no number reads as 0. -/
def stat (o : Objects) : Option SnapshotInfo :=
  (o (indexKey pre bed)).map fun x => ⟨x.metadata.generation.getD 0, x.metadata.bytes.getD 0⟩

def loadIndex (o : Objects) : Except StoreError (Index ι) :=
  match o (indexKey pre bed) with
  | none => .error .load
  | some x =>
    match D.readIndex x.body with
    | none => .error .load
    | some idx => .ok idx

/-- The ids `known` is primed with: those of the previous index. -/
def known (prev : Option (Index ι)) (i : ι) : Bool := (prev.getD []).any fun x => decide (x.id = i)

def putChunk (c : Bytes) : Write := .put (keyOf D pre bed (D.chunkID c)) ⟨D.storage c, .none⟩

/-- `ChunkStorage.StoreChunk` over `HasChunk` and `StoreChunk` of `casObjStore`: the writes that
took effect, and whether it succeeded.  Chunks of different ids have different keys, so the order of
the workers does not matter. -/
def storeChunk (o : Objects) (known : ι → Bool) (f : Faults ι) (c : Bytes) : List Write × Bool :=
  if known (D.chunkID c) then ([], true)
  else match f.request (D.chunkID c) with
    | .notReached | .headFails => ([], false)
    | .put out =>
      if (o (keyOf D pre bed (D.chunkID c))).isSome then ([], true)
      else match out with
        | .ok => ([putChunk D pre bed c], true)
        | .lost => ([], false)
        | .late => ([putChunk D pre bed c], false)

/-- The uploads of `ChunkStream`. -/
def uploads (o : Objects) (known : ι → Bool) (f : Faults ι) (cs : List Bytes) : List Write :=
  (D.distinct [] cs).flatMap fun c => (storeChunk D pre bed o known f c).1

/-- Whether `ChunkStream` succeeds. -/
def uploaded (o : Objects) (known : ι → Bool) (f : Faults ι) (cs : List Bytes) : Bool :=
  (D.distinct [] cs).all fun c => (storeChunk D pre bed o known f c).2

def sameChunks (a b : Index ι) : Bool := decide (a.map IndexChunk.id = b.map IndexChunk.id)

def indexObject (generation : Int) (idx : Index ι) : Object :=
  ⟨D.writeIndex idx, ⟨some generation, some (Desync.length idx)⟩⟩

/-- The keys the collection after the commit of `idx` deletes: those listed under the chunk prefix
whose last element is no chunk of `idx`. -/
def garbage (o : Objects) (f : Faults ι) (idx : Index ι) (k : Key) : Bool :=
  o.lists (chunkPrefix pre bed) k &&
    !(idx.any fun c => decide (D.idString c.id = baseName k)) && f.deleted k

/-- The collection; its failures are not failures of the persist. -/
def collect (o : Objects) (f : Faults ι) (prev : Option (Index ι)) (idx : Index ι) : Effects :=
  if prev.any (sameChunks idx) || f.list then ⟨[], .none⟩
  else ⟨[.delete (garbage D pre bed o f idx)], .none⟩

/-- `Persist` from the upload on. -/
def publish (o : Objects) (filter : SnapshotFilter) (c : Call) (f : Faults ι)
    (prev : Option (Index ι)) : Effects :=
  match f.broken with
  | some cs => ⟨uploads D pre bed o (known prev) f cs, some .chunk⟩
  | .none =>
    let cs := D.treeChunks (filteredFS filter c.dir)
    let ws := uploads D pre bed o (known prev) f cs
    if uploaded D pre bed o (known prev) f cs then
      let x := indexObject D c.generation (D.index cs)
      Effects.precede ws
        (putThen f.index (indexKey pre bed) x
          (collect D pre bed (o.after (ws ++ [.put (indexKey pre bed) x])) f prev (D.index cs)))
    else ⟨ws, some .chunk⟩

def persist (o : Objects) (c : Call) (f : Faults ι) : Effects :=
  match newSnapshotFilter c.volumeRoots with
  | .error e => .fail e
  | .ok filter =>
    if f.head then .fail .preWriteStat
    else match o (indexKey pre bed) with
      | none => publish D pre bed o filter c f none
      | some x =>
        match x.fences c.generation with
        | some g => .fail (.conflict g c.generation)
        | none =>
          if f.load then .fail .load
          else match loadIndex D pre bed o with
            | .error e => .fail e
            | .ok prev => publish D pre bed o filter c f (some prev)

def getChunk (o : Objects) (i : ι) : Option Bytes :=
  (o (keyOf D pre bed i)).bind fun x => D.chunkFromStorage i x.body

def restore (o : Objects) : Except StoreError (List Entry) :=
  match loadIndex D pre bed o with
  | .error e => .error e
  | .ok idx =>
    match D.untarIndex (getChunk D pre bed o) idx with
    | none => .error .archive
    | some t => .ok t

/-- `Delete`: the listed chunks and the index. -/
def delete (o : Objects) (lists deletes : Bool) (deleted : Key → Bool) : Effects :=
  deleteListed (fun k => o.lists (chunkPrefix pre bed) k || decide (k = indexKey pre bed))
    lists deletes deleted

end Layout

/-! ## Keys -/

variable {D : Desync ι} {pre bed : Key}

theorem indexKey_not_under (hbed : Plain bed) :
    (chunkPrefix pre bed).isPrefixOf (indexKey pre bed) = false := by
  rw [Bool.eq_false_iff]
  intro h
  obtain ⟨r, -, hr⟩ := at_chunkPrefix hbed h
  -- the second elements differ
  have hsame := hr.unique (at_indexKey hbed)
  simp only [cons.injEq] at hsame
  exact absurd hsame.2.1 (by decide)

variable (D pre bed) in
theorem keyOf_under (i : ι) : (chunkPrefix pre bed).isPrefixOf (keyOf D pre bed i) = true := by
  rw [List.isPrefixOf_iff_prefix]
  exact prefix_append _ _

theorem keyOf_ne_indexKey (hbed : Plain bed) (i : ι) : keyOf D pre bed i ≠ indexKey pre bed := by
  intro h
  have hunder := keyOf_under D pre bed i
  rw [h, indexKey_not_under hbed] at hunder
  cases hunder

theorem baseName_keyOf (i : ι) : baseName (keyOf D pre bed i) = D.idString i :=
  baseName_append (.inr ⟨_, rfl⟩) (D.slash_notMem_idString i) (D.idString_ne_nil i)

/-! ## Uploads -/

variable (D pre bed) in
/-- One chunk is put or nothing is, and if that succeeds the chunk was known, was there, or was
put. -/
theorem storeChunk_spec (o : Objects) (known : ι → Bool) (f : Faults ι) (c : Bytes) :
    ((storeChunk D pre bed o known f c).1 = [] ∨
      (storeChunk D pre bed o known f c).1 = [putChunk D pre bed c]) ∧
    ((storeChunk D pre bed o known f c).2 = true →
      known (D.chunkID c) = true ∨ o (keyOf D pre bed (D.chunkID c)) ≠ none ∨
        (storeChunk D pre bed o known f c).1 = [putChunk D pre bed c]) := by
  fun_cases storeChunk D pre bed o known f c with
  | case1 hknown => exact ⟨.inl rfl, fun _ => .inl hknown⟩
  | case2 | case3 | case6 => exact ⟨.inl rfl, nofun⟩
  | case4 _ out _ hthere =>
    exact ⟨.inl rfl, fun _ => .inr (.inl (isSome_iff_ne_none.mp hthere))⟩
  | case5 => exact ⟨.inr rfl, fun _ => .inr (.inr rfl)⟩
  | case7 => exact ⟨.inr rfl, nofun⟩

variable {f : Faults ι} {o : Objects}

theorem mem_uploads [DecidableEq ι] {known : ι → Bool} {cs : List Bytes} {w : Write}
    (h : w ∈ uploads D pre bed o known f cs) : ∃ c ∈ cs, w = putChunk D pre bed c := by
  obtain ⟨c, hc, hw⟩ := mem_flatMap.mp h
  refine ⟨c, D.distinct_subset hc, ?_⟩
  rcases (storeChunk_spec D pre bed o known f c).1 with hnil | hput
  · rw [hnil] at hw
    cases hw
  · rw [hput] at hw
    exact mem_singleton.mp hw

/-- When the stream succeeds every chunk was known, was there, or was put. -/
theorem uploaded_spec [DecidableEq ι] {known : ι → Bool} {cs : List Bytes}
    (h : uploaded D pre bed o known f cs = true) {c : Bytes} (hc : c ∈ cs) :
    known (D.chunkID c) = true ∨ o (keyOf D pre bed (D.chunkID c)) ≠ none ∨
      putChunk D pre bed c ∈ uploads D pre bed o known f cs := by
  have hd : c ∈ D.distinct [] cs := (D.mem_distinct hc).resolve_left (by simp)
  rcases (storeChunk_spec D pre bed o known f c).2 (all_eq_true.mp h c hd) with hk | ho | hput
  · exact .inl hk
  · exact .inr (.inl ho)
  · exact .inr (.inr (mem_flatMap.mpr ⟨c, hd, by simp [hput]⟩))

/-! ## The invariant -/

/-- A commit: the generation and the tree. -/
abbrev Commit := Int × List Entry

/-- The store of one Bed whose last commit is `m`. -/
structure Intact (D : Desync ι) (pre bed : Key) (o : Objects) (m : Option Commit) : Prop where
  /-- A chunk object holds the chunk its name says. -/
  content : ∀ i x, o (keyOf D pre bed i) = some x → ∃ c, D.chunkID c = i ∧ x.body = D.storage c
  /-- The index is that of the last commit. -/
  index : o (indexKey pre bed) = m.map fun m => indexObject D m.1 (D.treeIndex m.2)
  /-- The chunks of the last commit are there. -/
  present : ∀ g t, m = some (g, t) → ∀ c ∈ D.treeChunks t, o (keyOf D pre bed (D.chunkID c)) ≠ none

variable {m : Option Commit}

theorem Intact.loadIndex_eq (h : Intact D pre bed o m) {idx : Index ι}
    (hload : loadIndex D pre bed o = .ok idx) : ∃ g t, m = some (g, t) ∧ idx = D.treeIndex t := by
  unfold loadIndex at hload
  rw [h.index] at hload
  cases m with
  | none => cases hload
  | some m =>
    simp only [map_some, indexObject, D.readIndex_writeIndex] at hload
    exact ⟨m.1, m.2, rfl, (Except.ok.inj hload).symm⟩

theorem Intact.references (h : Intact D pre bed o m) {x : Object}
    (hx : o (indexKey pre bed) = some x) :
    ∃ idx, D.readIndex x.body = some idx ∧ ∀ e ∈ idx, ∃ data y, D.chunkID data = e.id ∧
      o (keyOf D pre bed e.id) = some y ∧ y.body = D.storage data := by
  rw [h.index] at hx
  obtain ⟨⟨g, t⟩, rfl, rfl⟩ := map_eq_some_iff.mp hx
  refine ⟨D.treeIndex t, D.readIndex_writeIndex _, fun e he => ?_⟩
  obtain ⟨c, hc, hid⟩ := D.mem_index he
  obtain ⟨y, hy⟩ := ne_none_iff_exists'.mp (h.present g t rfl c hc)
  obtain ⟨d, hd, hbody⟩ := h.content _ _ hy
  exact ⟨d, y, hd.trans hid, hid ▸ hy, hbody⟩

section

variable (hbed : Plain bed)
include hbed

theorem Intact.uploads (h : Intact D pre bed o m) {ws : List Write}
    (hws : ∀ w ∈ ws, ∃ c, w = putChunk D pre bed c) : Intact D pre bed (o.after ws) m := by
  refine ⟨?_, ?_, ?_⟩
  · intro i x hx
    rcases after_eq_some hx with hold | hput
    · exact h.content i x hold
    · obtain ⟨c, hc⟩ := hws _ hput
      obtain ⟨hkey, hobj⟩ := KeyStore.Write.put.inj hc
      exact ⟨c, (D.idString_injective (append_cancel_left hkey)).symm, by rw [hobj]⟩
  · rw [after_untouched, h.index]
    intro w hw
    obtain ⟨c, rfl⟩ := hws w hw
    exact decide_eq_false (keyOf_ne_indexKey hbed _).symm
  · intro g t hm c hc
    refine after_occupied (h.present g t hm c hc) fun ks hks => ?_
    obtain ⟨d, hd⟩ := hws _ hks
    cases hd

theorem Intact.commit (h : Intact D pre bed o m) {g : Int} {t : List Entry}
    (hpresent : ∀ c ∈ D.treeChunks t, o (keyOf D pre bed (D.chunkID c)) ≠ none) :
    Intact D pre bed (o.after [.put (indexKey pre bed) (indexObject D g (D.treeIndex t))])
      (some (g, t)) := by
  -- the index has a key of its own
  have hother (i : ι) : o.after [.put (indexKey pre bed) (indexObject D g (D.treeIndex t))]
      (keyOf D pre bed i) = o (keyOf D pre bed i) := after_put_of_ne (keyOf_ne_indexKey hbed i)
  refine ⟨?_, ?_, ?_⟩
  · intro i x hx
    rw [hother] at hx
    exact h.content i x hx
  · simp [write]
  · intro g' t' hm c hc
    cases hm
    rw [hother]
    exact hpresent c hc

theorem Intact.collect {g : Int} {t : List Entry}
    (h : Intact D pre bed o (some (g, t))) (f : Faults ι) (o' : Objects) :
    Intact D pre bed (o.after [.delete (garbage D pre bed o' f (D.treeIndex t))])
    (some (g, t)) := by
  refine ⟨?_, ?_, ?_⟩
  · intro i x hx
    rcases after_eq_some hx with hold | hput
    · exact h.content i x hold
    · cases mem_singleton.mp hput
  · rw [after_untouched, h.index]
    intro w hw
    rw [mem_singleton.mp hw]
    simp [KeyStore.Write.touches, garbage, Objects.lists, indexKey_not_under hbed]
  · intro g' t' hm c hc
    cases hm
    refine after_occupied (h.present g t rfl c hc) fun ks hks => ?_
    cases mem_singleton.mp hks
    -- the last element of the chunk's key is the text of its id, which the index names
    have hid : D.chunkID c ∈ (D.treeIndex t).map IndexChunk.id := by
      rw [Desync.treeIndex, D.index_ids]
      exact mem_map_of_mem hc
    obtain ⟨x, hx, hxid⟩ := mem_map.mp hid
    have hkept : ((D.treeIndex t).any fun x =>
        decide (D.idString x.id = baseName (keyOf D pre bed (D.chunkID c)))) = true :=
      any_eq_true.mpr ⟨x, hx, by simp [baseName_keyOf, hxid]⟩
    simp [garbage, hkept]

theorem puts_indexKey_uploads {us : List Write}
    (h : ∀ w ∈ us, ∃ d, w = putChunk D pre bed d) : puts (indexKey pre bed) us = false := by
  rw [Bool.eq_false_iff]
  intro hputs
  obtain ⟨x, hx⟩ := puts_iff.mp hputs
  obtain ⟨d, hd⟩ := h _ hx
  exact keyOf_ne_indexKey hbed _ (KeyStore.Write.put.inj hd).1.symm

theorem Intact.chunks_present (h : Intact D pre bed o m) {us : List Write}
    (hus : ∀ w ∈ us, ∃ d, w = putChunk D pre bed d) {d : Bytes}
    (hd : o (keyOf D pre bed (D.chunkID d)) ≠ none ∨ putChunk D pre bed d ∈ us ∨
      ∃ prev, loadIndex D pre bed o = .ok prev ∧ D.chunkID d ∈ prev.map IndexChunk.id) :
    o.after us (keyOf D pre bed (D.chunkID d)) ≠ none := by
  have hkeep (ks : Key → Bool) (hks : .delete ks ∈ us) :
      ks (keyOf D pre bed (D.chunkID d)) = false := by
    obtain ⟨e, he⟩ := hus _ hks
    cases he
  rcases hd with ho | hput | ⟨prev, hload, hmem⟩
  · exact after_occupied ho hkeep
  · exact after_put_occupied hput hkeep
  · -- the previous index is that of the last commit, whose chunks are there
    obtain ⟨g, t, rfl, rfl⟩ := h.loadIndex_eq hload
    rw [Desync.treeIndex, D.index_ids] at hmem
    obtain ⟨e, he, hid⟩ := mem_map.mp hmem
    rw [← hid]
    exact (h.uploads hbed hus).present g t rfl e he

end

/-! ## What a call writes -/

variable [DecidableEq ι]

/-- The writes of a call that committed: uploads, the index, and perhaps a collection. -/
def Committed (D : Desync ι) (pre bed : Key) (o : Objects) (c : Call) (f : Faults ι)
    (ws : List Write) : Prop :=
  ∃ t us gc, c.tree = some t ∧
    ws = us ++ .put (indexKey pre bed) (indexObject D c.generation (D.treeIndex t)) :: gc ∧
    (∀ w ∈ us, ∃ d, w = putChunk D pre bed d) ∧
    -- a chunk of the tree was there, was uploaded, or is named by the previous index
    (∀ d ∈ D.treeChunks t, o (keyOf D pre bed (D.chunkID d)) ≠ none ∨ putChunk D pre bed d ∈ us ∨
      ∃ prev, loadIndex D pre bed o = .ok prev ∧ D.chunkID d ∈ prev.map IndexChunk.id) ∧
    (gc = [] ∨ ∃ o', gc = [.delete (garbage D pre bed o' f (D.treeIndex t))])

theorem publish_shape {filter : SnapshotFilter} {c : Call}
    {prev : Option (Index ι)} (hfilter : newSnapshotFilter c.volumeRoots = .ok filter)
    (hprev : ∀ idx, prev = some idx → loadIndex D pre bed o = .ok idx) :
    (∀ w ∈ (publish D pre bed o filter c f prev).writes, ∃ d, w = putChunk D pre bed d) ∨
      Committed D pre bed o c f (publish D pre bed o filter c f prev).writes := by
  have htree : c.tree = some (filteredFS filter c.dir) := by rw [Call.tree, hfilter]
  have huploads (known : ι → Bool) (cs : List Bytes) :
      ∀ w ∈ Cas.uploads D pre bed o known f cs, ∃ d, w = putChunk D pre bed d := fun w hw => by
    obtain ⟨d, -, rfl⟩ := mem_uploads hw
    exact ⟨d, rfl⟩
  have hknown (i : ι) (hi : known prev i = true) :
      ∃ idx, loadIndex D pre bed o = .ok idx ∧ i ∈ idx.map IndexChunk.id := by
    obtain ⟨x, hx, hxi⟩ := any_eq_true.mp hi
    cases prev with
    | none => cases hx
    | some idx => exact ⟨idx, hprev idx rfl, mem_map.mpr ⟨x, hx, of_decide_eq_true hxi⟩⟩
  unfold publish
  split
  · exact .inl (huploads _ _)
  · dsimp only
    split
    case isFalse => exact .inl (huploads _ _)
    case isTrue hok =>
      have hserved := fun d (hd : d ∈ D.treeChunks (filteredFS filter c.dir)) =>
        show o (keyOf D pre bed (D.chunkID d)) ≠ none ∨ _ ∨ _ from
          (uploaded_spec hok hd).elim (fun hk => .inr (.inr (hknown _ hk)))
            fun h => h.elim .inl fun hput => .inr (.inl hput)
      cases f.index with
      | lost => exact .inl (by simpa [putThen] using huploads _ _)
      | late => exact .inr ⟨_, _, [], htree, rfl, huploads _ _, hserved, .inl rfl⟩
      | ok =>
        refine .inr ⟨_, _, _, htree, rfl, huploads _ _, hserved, ?_⟩
        unfold Cas.collect
        split
        · exact .inl rfl
        · exact .inr ⟨_, rfl⟩

variable (D pre bed) in
theorem persist_shape (o : Objects) (c : Call) (f : Faults ι) :
    (∀ w ∈ (persist D pre bed o c f).writes, ∃ d, w = putChunk D pre bed d) ∨
      Committed D pre bed o c f (persist D pre bed o c f).writes := by
  fun_cases persist D pre bed o c f with
  | case3 filter hfilter => exact publish_shape hfilter nofun
  | case7 filter hfilter _ x _ _ _ prev hprev =>
    exact publish_shape hfilter fun idx hidx => by rw [← some.inj hidx, hprev]
  | _ => exact .inl (by simp)

/-! ## One call -/

def commitOf (c : Call) : Option Commit := c.tree.map fun t => (c.generation, t)

/-- A call keeps the invariant, for its own tree if it committed and for the last one otherwise. -/
theorem Intact.persist (hbed : Plain bed) (h : Intact D pre bed o m) (c : Call) (f : Faults ι) :
    Intact D pre bed (o.after (persist D pre bed o c f).writes)
      (if puts (indexKey pre bed) (persist D pre bed o c f).writes then commitOf c
        else m) := by
  rcases persist_shape D pre bed o c f with
    hus | ⟨t, us, gc, htree, hws, hus, hserved, hgc⟩
  · rw [puts_indexKey_uploads hbed hus, if_neg (by simp)]
    exact h.uploads hbed hus
  · have hputs : puts (indexKey pre bed) (Cas.persist D pre bed o c f).writes = true :=
      puts_iff.mpr ⟨_, hws ▸ mem_append_right _ (mem_cons_self ..)⟩
    have hcommit : commitOf c = some (c.generation, t) := by rw [commitOf, htree, map_some]
    rw [if_pos hputs, hcommit, hws, after_append]
    have hafter := (h.uploads hbed hus).commit hbed (g := c.generation)
      fun d hd => h.chunks_present hbed hus (hserved d hd)
    rcases hgc with rfl | ⟨o', rfl⟩
    · exact hafter
    · exact hafter.collect hbed f o'

/-! ## Histories -/

variable (D pre bed) in
/-- One call: the store after it, and the last call whose index `Put` took effect. -/
def call (s : Objects × Option Call) (c : Call × Faults ι) : Objects × Option Call :=
  (s.1.after (persist D pre bed s.1 c.1 c.2).writes,
    if puts (indexKey pre bed) (persist D pre bed s.1 c.1 c.2).writes then some c.1
    else s.2)

variable (D pre bed) in
def history (o : Objects) (cs : List (Call × Faults ι)) : Objects × Option Call :=
  cs.foldl (call D pre bed) (o, none)

def Fresh (D : Desync ι) (pre bed : Key) (o : Objects) : Prop :=
  o (indexKey pre bed) = none ∧ ∀ i, o (keyOf D pre bed i) = none

/-- The store is that of the last call that committed. -/
structure Tracked (D : Desync ι) (pre bed : Key) (s : Objects × Option Call) : Prop where
  intact : Intact D pre bed s.1 (s.2.bind commitOf)
  tree : ∀ c, s.2 = some c → ∃ t, c.tree = some t

theorem tree_of_puts (hbed : Plain bed) {c : Call}
    (h : puts (indexKey pre bed) (persist D pre bed o c f).writes = true) :
    ∃ t, c.tree = some t := by
  rcases persist_shape D pre bed o c f with hus | ⟨t, us, gc, htree, -⟩
  · rw [puts_indexKey_uploads hbed hus] at h
    cases h
  · exact ⟨t, htree⟩

theorem Tracked.call (hbed : Plain bed) {s : Objects × Option Call} (h : Tracked D pre bed s)
    (c : Call × Faults ι) : Tracked D pre bed (call D pre bed s c) := by
  have hstep := h.intact.persist hbed c.1 c.2
  unfold Cas.call
  split
  case isTrue hputs =>
    refine ⟨by simpa [hputs] using hstep, fun d hd => ?_⟩
    rw [← some.inj hd]
    exact tree_of_puts hbed hputs
  case isFalse hputs => exact ⟨by simpa [hputs] using hstep, h.tree⟩

theorem tracked_history (hbed : Plain bed) (hfresh : Fresh D pre bed o)
    (cs : List (Call × Faults ι)) : Tracked D pre bed (history D pre bed o cs) := by
  have hinit : Tracked D pre bed (o, none) := by
    refine ⟨⟨fun i x hx => ?_, hfresh.1, nofun⟩, nofun⟩
    exact absurd ((hfresh.2 i).symm.trans hx) (by simp)
  exact foldlRecOn cs (Cas.call D pre bed) hinit fun s hs c _ => hs.call hbed c

/-! ## What an intact store gives back -/

theorem Intact.restore_eq {g : Int} {t : List Entry} (h : Intact D pre bed o (some (g, t))) :
    restore D pre bed o = .ok t := by
  have hload : loadIndex D pre bed o = .ok (D.treeIndex t) := by
    simp [loadIndex, h.index, indexObject, D.readIndex_writeIndex]
  have hget : ∀ c ∈ D.treeChunks t, getChunk D pre bed o (D.chunkID c) = some c := by
    intro c hc
    obtain ⟨y, hy⟩ := ne_none_iff_exists'.mp (h.present g t rfl c hc)
    obtain ⟨d, hd, hbody⟩ := h.content _ _ hy
    -- content addressing: the object can only hold this chunk
    rw [D.chunkID_injective hd] at hbody
    simp [getChunk, hy, hbody]
  simp only [restore, hload, D.untarIndex_index hget]

/-- A call whose generation is not above the stored one writes nothing, and if it gets to compare
the two it reports the conflict. -/
theorem persist_conflict {x : Object} {g : Int} (hx : o (indexKey pre bed) = some x)
    (hg : x.metadata.generation = some g) {c : Call} (hle : c.generation ≤ g) (f : Faults ι) :
    (persist D pre bed o c f).writes = [] ∧
      ∀ filter, newSnapshotFilter c.volumeRoots = .ok filter → f.head = false →
        (persist D pre bed o c f).error = some (.conflict g c.generation) := by
  have hfence : x.fences c.generation = some g := by simp [Object.fences, hg, hle]
  cases hfilter : newSnapshotFilter c.volumeRoots with
  | error e => exact ⟨by simp [persist, hfilter], nofun⟩
  | ok filter =>
    cases hhead : f.head with
    | true => exact ⟨by simp [persist, hfilter, hhead], fun _ _ h => absurd h (by simp)⟩
    | false => simp [persist, hfilter, hhead, hx, hfence]

/-- However the calls of a history fail or crash, an index names chunks that are there, a restore
yields the tree of the last call whose index `Put` took effect, and a call that is not above the
stored generation is refused without a write. -/
theorem cas_history_restorable {wide : Char → Bool} (D : Desync ι) (pre : Key) (b : BedID wide)
    (hfresh : Fresh D pre b.id o) (cs : List (Call × Faults ι)) :
    (∀ x, (history D pre b.id o cs).1 (indexKey pre b.id) = some x →
      ∃ idx, D.readIndex x.body = some idx ∧ ∀ e ∈ idx, ∃ data y, D.chunkID data = e.id ∧
        (history D pre b.id o cs).1 (keyOf D pre b.id e.id) = some y ∧
        y.body = D.storage data) ∧
    (∀ c, (history D pre b.id o cs).2 = some c →
      ∃ t, c.tree = some t ∧ restore D pre b.id (history D pre b.id o cs).1 = .ok t) ∧
    ((history D pre b.id o cs).2 = none →
      (history D pre b.id o cs).1 (indexKey pre b.id) = none) ∧
    (∀ info c f, stat pre b.id (history D pre b.id o cs).1 = some info →
      c.generation ≤ info.generation →
      (persist D pre b.id (history D pre b.id o cs).1 c f).writes = [] ∧
      ∀ filter, newSnapshotFilter c.volumeRoots = .ok filter → f.head = false →
        (persist D pre b.id (history D pre b.id o cs).1 c f).error =
          some (.conflict info.generation c.generation)) := by
  obtain ⟨h, htree⟩ := tracked_history b.plain hfresh cs
  refine ⟨fun x hx => h.references hx, fun c hc => ?_, fun hnone => ?_, ?_⟩
  · obtain ⟨t, ht⟩ := htree c hc
    have hcommit : commitOf c = some (c.generation, t) := by rw [commitOf, ht, map_some]
    rw [hc, bind_some, hcommit] at h
    exact ⟨t, ht, h.restore_eq⟩
  · rw [h.index, hnone]
    rfl
  · intro info c f hstat hle
    obtain ⟨x, hx, rfl⟩ := map_eq_some_iff.mp hstat
    have hindex := h.index
    rw [hx] at hindex
    obtain ⟨m, -, hm⟩ := map_eq_some_iff.mp hindex.symm
    have hg : x.metadata.generation = some m.1 := by rw [← hm]; rfl
    simp only [hg, getD_some] at hle ⊢
    exact persist_conflict hx hg hle f

/-- A file is persisted, then another content of it by a call that loses its index `Put`, and by one
that commits. -/
def changedFile : List (Call × Faults Bytes) :=
  [(fileCall 1 [1], .none), (fileCall 2 [2], { Faults.none with index := .lost }),
    (fileCall 3 [2], .none)]

/-- Only the first call uploads the chunk the archives share. -/
theorem cas_history_restorable_lost :
    ((changedFile.inits.zip changedFile).map fun h =>
      puts (keyOf Desync.simple [] plainBed.id [1])
        (persist Desync.simple [] plainBed.id
          (history Desync.simple [] plainBed.id (fun _ => none) h.1).1 h.2.1 h.2.2).writes) =
      [true, false, false] ∧
    ∃ t, (fileCall 3 [2]).tree = some t ∧
      restore Desync.simple [] plainBed.id
        (history Desync.simple [] plainBed.id (fun _ => none) changedFile).1 = .ok t :=
  ⟨by decide +kernel,
    (cas_history_restorable Desync.simple [] plainBed ⟨rfl, fun _ => rfl⟩ _).2.1 _ rfl⟩

end Hostel.Sync.Cas
