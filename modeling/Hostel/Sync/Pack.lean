/-
# Hostel.Sync.Pack — the layout that groups chunks into packs.

`Persist` appends the chunks that the previous manifest does not locate to pack objects, which it
flushes while the stream runs, then puts the manifest and last `head.json`, the commit point.  Packs
and manifests are named by the digest of their bytes.  `Restore` follows the head to the manifest
and the manifest to the packs, of which it caches the last two.

The digest and the two JSON encodings are parameters (`PackTools`); that the digest has no
collisions is a hypothesis of the theorems about histories, on the bytes a history writes.
-/
import Hostel.Sync.Desync

namespace Hostel.Sync.Pack

open Hostel.Logic

/-! ## Documents -/

structure PackHead where
  snapshot : Key
  generation : Int
  bytes : Int
  deriving DecidableEq, Repr

structure PackChunkRef where
  id : Key
  pack : Key
  offset : Int
  length : Int
  deriving DecidableEq, Repr

structure PackManifest where
  index : Bytes
  chunks : List PackChunkRef
  deriving DecidableEq, Repr

structure PackLocation where
  pack : Key
  offset : Int
  length : Int
  deriving DecidableEq, Repr

/-- The digest, as a hexadecimal text, and the JSON encodings of the two documents. -/
structure PackTools where
  objectID : Bytes → Key
  objectID_valid : ∀ b, validObjectID (objectID b) = true
  encodeHead : PackHead → Bytes
  decodeHead : Bytes → Option PackHead
  decodeHead_encodeHead : ∀ h, decodeHead (encodeHead h) = some h
  encodeManifest : PackManifest → Bytes
  decodeManifest : Bytes → Option PackManifest
  decodeManifest_encodeManifest : ∀ m, decodeManifest (encodeManifest m) = some m

instance encodableChar : Encodable Char :=
  Encodable.ofLeftInverse Char.toNat Char.ofNat Char.ofNat_toNat

deriving instance Encodable for PackHead, PackChunkRef, PackManifest

/-- A digest: which numbers below 64 are among the bytes. -/
def sampleDigest (b : Bytes) : Key :=
  (List.range 64).map fun n => if UInt8.ofNat n ∈ b then '1' else '0'

/-- The manifests of the sample indexes, with one chunk per pack. -/
def sampleManifests : List PackManifest :=
  sampleIndexes.map fun idx => ⟨Desync.simple.writeIndex idx, idx.map fun c =>
    ⟨Desync.simple.idString c.id, sampleDigest (Desync.simple.storage c.id), 0, 2⟩⟩

/-- Tools that satisfy the laws. -/
def PackTools.simple : PackTools where
  objectID := sampleDigest
  objectID_valid b := by
    simp only [validObjectID, sampleDigest, List.length_map, List.length_range, List.all_map]
    refine Bool.and_eq_true_iff.mpr ⟨rfl, List.all_eq_true.mpr fun n _ => ?_⟩
    dsimp only [Function.comp]
    split <;> decide
  encodeHead := word [⟨sampleDigest [1], 1, 1⟩, ⟨sampleDigest [1, 2], 3, 2⟩]
  decodeHead := ofWord _
  decodeHead_encodeHead := ofWord_word _
  encodeManifest := word sampleManifests
  decodeManifest := ofWord _
  decodeManifest_encodeManifest := ofWord_word _

/-- What goes wrong in one call of `Persist`. -/
structure Faults where
  /-- The pre-write stat fails. -/
  head : Bool
  /-- Reading the previous head or manifest fails. -/
  load : Bool
  /-- Archiving breaks off, after a stream of these chunks. -/
  broken : Option (List Bytes)
  /-- How the `n`th pack `Put` of the call ends. -/
  pack : Nat → Outcome
  manifest : Outcome
  commit : Outcome

def Faults.none : Faults :=
  { head := false, load := false, broken := .none, pack := fun _ => .ok, manifest := .ok
    commit := .ok }

variable {ι : Type} [DecidableEq ι]

section Layout

variable (D : Desync ι) (K : PackTools) (target : Nat) (pre bed : Key)

/-! ## The writer -/

structure PendingPackChunk (ι : Type) where
  id : ι
  offset : Int
  length : Int

/-- `packWriter`, with the writes that took effect and the number of `Put`s so far. -/
structure PackWriter (ι : Type) where
  buf : Bytes
  pending : List (PendingPackChunk ι)
  locations : ι → Option PackLocation
  writes : List Write
  puts : Nat

def newPackWriter (known : ι → Option PackLocation) : PackWriter ι :=
  { buf := [], pending := [], locations := known, writes := [], puts := 0 }

def putPack (b : Bytes) : Write := .put (packKey pre bed (K.objectID b)) ⟨b, .none⟩

/-- The locations once the pending chunks are in the pack `id`. -/
def locate (locations : ι → Option PackLocation) (id : Key) :
    List (PendingPackChunk ι) → ι → Option PackLocation
  | [] => locations
  | p :: rest => locate (Function.update locations p.id (some ⟨id, p.offset, p.length⟩)) id rest

/-- `flushLocked`: the writer afterwards, and whether it succeeded. -/
def flush (f : Faults) (w : PackWriter ι) : PackWriter ι × Bool :=
  if w.buf = [] then (w, true)
  else match f.pack w.puts with
    | .ok =>
      ({ buf := [], pending := []
         locations := locate w.locations (K.objectID w.buf) w.pending
         writes := w.writes ++ [putPack K pre bed w.buf], puts := w.puts + 1 }, true)
    | .lost => ({ w with puts := w.puts + 1 }, false)
    | .late =>
      ({ w with writes := w.writes ++ [putPack K pre bed w.buf], puts := w.puts + 1 }, false)

/-- Go on with the writer unless the step before failed. -/
def andThen (r : PackWriter ι × Bool) (next : PackWriter ι → PackWriter ι × Bool) :
    PackWriter ι × Bool :=
  if r.2 then next r.1 else r

/-- The chunk is appended to the buffer and is pending. -/
def append (w : PackWriter ι) (c : Bytes) : PackWriter ι :=
  { w with
    buf := w.buf ++ D.storage c
    pending := w.pending ++ [⟨D.chunkID c, w.buf.length, (D.storage c).length⟩] }

/-- `StoreChunk` from the append on: a full buffer is flushed. -/
def appendChunk (f : Faults) (w : PackWriter ι) (c : Bytes) : PackWriter ι × Bool :=
  if target ≤ (append D w c).buf.length then flush K pre bed f (append D w c)
  else (append D w c, true)

/-- `HasChunk` and `StoreChunk` of `packWriter`. -/
def storeChunk (f : Faults) (w : PackWriter ι) (c : Bytes) : PackWriter ι × Bool :=
  if (w.locations (D.chunkID c)).isSome then (w, true)
  else if 0 < w.buf.length ∧ target < w.buf.length + (D.storage c).length then
    -- a chunk that would overflow a non-empty buffer flushes it first
    andThen (flush K pre bed f w) fun w => appendChunk D K target pre bed f w c
  else appendChunk D K target pre bed f w c

/-- `ChunkStream` with one worker: it stops at the first failure. -/
def storeChunks (f : Faults) (w : PackWriter ι) : List Bytes → PackWriter ι × Bool
  | [] => (w, true)
  | c :: cs => andThen (storeChunk D K target pre bed f w c) fun w => storeChunks f w cs

/-! ## Manifests -/

def refOf (i : ι) (l : PackLocation) : PackChunkRef := ⟨D.idString i, l.pack, l.offset, l.length⟩

/-- `buildPackManifest`; `none` if a chunk has no location. -/
def buildPackManifest (idx : Index ι) (locations : ι → Option PackLocation) : Option PackManifest :=
  (idx.mapM fun c => (locations c.id).map (refOf D c.id)).map fun refs => ⟨D.writeIndex idx, refs⟩

/-- The loop of `manifestLocations`. -/
def addLocations (locations : ι → Option PackLocation) :
    List PackChunkRef → Option (ι → Option PackLocation)
  | [] => some locations
  | ref :: refs =>
    match D.idFromString ref.id with
    | none => none
    | some i =>
      if validObjectID ref.pack = true ∧ 0 ≤ ref.offset ∧ 0 < ref.length then
        match locations i with
        | some old =>
          if old = ⟨ref.pack, ref.offset, ref.length⟩ then
            addLocations (Function.update locations i (some ⟨ref.pack, ref.offset, ref.length⟩))
              refs
          else none
        | none =>
          addLocations (Function.update locations i (some ⟨ref.pack, ref.offset, ref.length⟩)) refs
      else none

def manifestLocations (m : PackManifest) : Option (ι → Option PackLocation) :=
  addLocations D (fun _ => none) m.chunks

def loadHead (o : Objects) : Option PackHead :=
  (o (headKey pre bed)).bind fun x => (K.decodeHead x.body).filter fun h => validObjectID h.snapshot

def loadManifest (o : Objects) (snapshotID : Key) : Option PackManifest :=
  if validObjectID snapshotID then
    (o (snapshotKey pre bed snapshotID)).bind fun x =>
      if K.objectID x.body = snapshotID then K.decodeManifest x.body else none
  else none

/-! ## The operations -/

def stat (o : Objects) : Option SnapshotInfo :=
  (o (headKey pre bed)).map fun x => ⟨x.metadata.generation.getD 0, x.metadata.bytes.getD 0⟩

def headObject (snapshotID : Key) (generation : Int) (idx : Index ι) : Object :=
  ⟨K.encodeHead ⟨snapshotID, generation, Desync.length idx⟩,
    ⟨some generation, some (Desync.length idx)⟩⟩

/-- `Persist` from the manifest on. -/
def commit (c : Call) (f : Faults) (prev : Option PackHead) (idx : Index ι) (m : PackManifest) :
    Effects :=
  let snapshotID := K.objectID (K.encodeManifest m)
  let head :=
    putThen f.commit (headKey pre bed) (headObject K snapshotID c.generation idx) ⟨[], none⟩
  if prev.any fun h => decide (h.snapshot = snapshotID) then head
  else putThen f.manifest (snapshotKey pre bed snapshotID) ⟨K.encodeManifest m, .none⟩ head

/-- `Persist` up to the manifest: the writer after the stream and its last flush, and the manifest
of the tree. -/
def packTree (filter : SnapshotFilter) (c : Call) (f : Faults) (known : ι → Option PackLocation) :
    PackWriter ι × Except StoreError PackManifest :=
  match f.broken with
  | some cs =>
    ((storeChunks D K target pre bed f (newPackWriter known) (D.distinct [] cs)).1, .error .chunk)
  | none =>
    match storeChunks D K target pre bed f (newPackWriter known)
      (D.distinct [] (D.treeChunks (filteredFS filter c.dir))) with
    | (w, false) => (w, .error .chunk)
    | (w, true) =>
      match flush K pre bed f w with
      | (w', false) => (w', .error .put)
      | (w', true) =>
        match buildPackManifest D (D.treeIndex (filteredFS filter c.dir)) w'.locations with
        | none => (w', .error .encode)
        | some m => (w', .ok m)

/-- `Persist` up to the stream: the filter, the previous head, and the locations its manifest
gives. -/
def prepare (o : Objects) (c : Call) (f : Faults) :
    Except StoreError (SnapshotFilter × Option PackHead × (ι → Option PackLocation)) :=
  match newSnapshotFilter c.volumeRoots with
  | .error e => .error e
  | .ok filter =>
    if f.head then .error .preWriteStat
    else match o (headKey pre bed) with
      | none => .ok (filter, none, fun _ => none)
      | some x =>
        match x.fences c.generation with
        | some g => .error (.conflict g c.generation)
        | none =>
          if f.load then .error .load
          else match loadHead K pre bed o with
            | none => .error .load
            | some head =>
              match (loadManifest K pre bed o head.snapshot).bind (manifestLocations D) with
              | none => .error .load
              | some known => .ok (filter, some head, known)

def persist (o : Objects) (c : Call) (f : Faults) : Effects :=
  match prepare D K pre bed o c f with
  | .error e => .fail e
  | .ok (filter, prev, known) =>
    match packTree D K target pre bed filter c f known with
    | (w, .error e) => ⟨w.writes, some e⟩
    | (w, .ok m) =>
      (commit K pre bed c f prev (D.treeIndex (filteredFS filter c.dir)) m).precede w.writes

def bodies (ws : List Write) : List Bytes :=
  ws.filterMap fun
    | .put _ x => some x.body
    | .delete _ => none

/-- The bytes whose digest a call relies on: the packs it puts, and its manifest. -/
def digested (o : Objects) (c : Call) (f : Faults) : List Bytes :=
  match prepare D K pre bed o c f with
  | .error _ => []
  | .ok (filter, _, known) =>
    let r := packTree D K target pre bed filter c f known
    bodies r.1.writes ++ match r.2 with
    | .error _ => []
    | .ok m => [K.encodeManifest m]

/-- `Delete`: whatever is listed under the Bed's prefix. -/
def delete (o : Objects) (lists deletes : Bool) (deleted : Key → Bool) : Effects :=
  deleteListed (o.lists (bedPrefix pre bed)) lists deletes deleted

/-! ## The reader -/

def slice (l : PackLocation) (b : Bytes) : Option Bytes :=
  if l.offset < 0 ∨ l.offset + l.length < l.offset ∨ (b.length : Int) < l.offset + l.length then
    none
  else some ((b.drop l.offset.toNat).take l.length.toNat)

/-- The packs `packReader` holds, the last used first. -/
abbrev Cache := List (Key × Bytes)

def packReadCache : Nat := 2

/-- A pack from the cache or the store; what is read is checked against its name. -/
def readPack (o : Objects) (cache : Cache) (pack : Key) : Option (Bytes × Cache) :=
  match cache.find? fun e => decide (e.1 = pack) with
  | some e => some (e.2, e :: cache.filter fun e' => decide (e'.1 ≠ pack))
  | none =>
    (o (packKey pre bed pack)).bind fun x =>
      if K.objectID x.body = pack then some (x.body, ((pack, x.body) :: cache).take packReadCache)
      else none

def getChunk (o : Objects) (locations : ι → Option PackLocation) (cache : Cache) (i : ι) :
    Option (Bytes × Cache) :=
  (locations i).bind fun l =>
    (readPack K pre bed o cache l.pack).bind fun r =>
      ((slice l r.1).bind (D.chunkFromStorage i)).map fun c => (c, r.2)

/-- The chunks of an index, through one reader. -/
def getChunks (o : Objects) (locations : ι → Option PackLocation) (cache : Cache) :
    Index ι → Option (List Bytes)
  | [] => some []
  | x :: rest =>
    (getChunk D K pre bed o locations cache x.id).bind fun r =>
      (getChunks o locations r.2 rest).map (r.1 :: ·)

def restore (o : Objects) : Except StoreError (List Entry) :=
  match loadHead K pre bed o with
  | none => .error .load
  | some head =>
    match loadManifest K pre bed o head.snapshot with
    | none => .error .load
    | some m =>
      match D.readIndex m.index, manifestLocations D m with
      | some idx, some locations =>
        if idx.all fun x => (locations x.id).isSome then
          match (getChunks D K pre bed o locations [] idx).bind fun cs => D.untar cs.flatten with
          | none => .error .archive
          | some t => .ok t
        else .error .load
      | _, _ => .error .load

end Layout

end Hostel.Sync.Pack
