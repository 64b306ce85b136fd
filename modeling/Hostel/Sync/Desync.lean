/-
# Hostel.Sync.Desync — the chunk library under the CAS and pack layouts.

`desync` is a dependency: it serializes a tree, cuts the stream into chunks, names a chunk by a
digest of its content, and encodes chunks and the index.  `Desync` is what the layouts use of it,
with the laws they rely on: every encoding can be read back, and chunk ids are collision-free.  So
an index and the chunks it names give the tree back (`untarIndex_index`).
-/
import Hostel.Sync.Filter
import Mathlib.Logic.Equiv.List
import Mathlib.Tactic.DeriveEncodable

namespace Hostel.Sync

open Hostel.Logic List

structure IndexChunk (ι : Type) where
  id : ι
  start : Nat
  size : Nat
  deriving DecidableEq, Repr

abbrev Index (ι : Type) := List (IndexChunk ι)

/-- The chunk library, over chunk ids `ι`. -/
structure Desync (ι : Type) where
  /-- `Tar` and `UnTar`. -/
  tar : List Entry → Bytes
  untar : Bytes → Option (List Entry)
  untar_tar : ∀ t, untar (tar t) = some t
  /-- The chunks a `Chunker` cuts a stream into. -/
  chunks : Bytes → List Bytes
  flatten_chunks : ∀ b, (chunks b).flatten = b
  /-- The id of a chunk, and its text. -/
  chunkID : Bytes → ι
  chunkID_injective : Function.Injective chunkID
  idString : ι → Key
  idFromString : Key → Option ι
  idFromString_idString : ∀ i, idFromString (idString i) = some i
  idString_hex : ∀ i, (idString i).all isHexDigit = true
  idString_ne_nil : ∀ i, idString i ≠ []
  /-- The encoding of a chunk for storage. -/
  storage : Bytes → Bytes
  fromStorage : Bytes → Option Bytes
  fromStorage_storage : ∀ c, fromStorage (storage c) = some c
  storage_ne_nil : ∀ c, storage c ≠ []
  /-- The encoding of an index. -/
  writeIndex : Index ι → Bytes
  readIndex : Bytes → Option (Index ι)
  readIndex_writeIndex : ∀ x, readIndex (writeIndex x) = some x

variable {ι : Type} (D : Desync ι)

namespace Desync

/-- The index of the chunks of a stream, from an offset on. -/
def indexFrom (start : Nat) : List Bytes → Index ι
  | [] => []
  | c :: cs => ⟨D.chunkID c, start, c.length⟩ :: indexFrom (start + c.length) cs

def index (cs : List Bytes) : Index ι := D.indexFrom 0 cs

/-- `Index.Length`: where the last chunk ends. -/
def length (x : Index ι) : Nat := ((x.getLast?).map fun c => c.start + c.size).getD 0

def treeChunks (t : List Entry) : List Bytes := D.chunks (D.tar t)

def treeIndex (t : List Entry) : Index ι := D.index (D.treeChunks t)

/-- `UnTarIndex`: fetch the chunks of the index and unpack what they add up to. -/
def untarIndex (get : ι → Option Bytes) (x : Index ι) : Option (List Entry) :=
  (x.mapM fun c => get c.id).bind fun cs => D.untar cs.flatten

theorem indexFrom_ids (start : Nat) (cs : List Bytes) :
    (D.indexFrom start cs).map IndexChunk.id = cs.map D.chunkID := by
  induction cs generalizing start with
  | nil => rfl
  | cons c cs ih => simp [indexFrom, ih]

@[simp] theorem index_ids (cs : List Bytes) : (D.index cs).map IndexChunk.id = cs.map D.chunkID :=
  D.indexFrom_ids 0 cs

variable {cs : List Bytes}

theorem mem_index {x : IndexChunk ι} (h : x ∈ D.index cs) : ∃ c ∈ cs, D.chunkID c = x.id := by
  have : x.id ∈ cs.map D.chunkID := by
    rw [← D.index_ids]
    exact mem_map_of_mem h
  simpa using this

theorem mapM_indexFrom {get : ι → Option Bytes}
    (h : ∀ c ∈ cs, get (D.chunkID c) = some c) (start : Nat) :
    (D.indexFrom start cs).mapM (fun c => get c.id) = some cs := by
  induction cs generalizing start with
  | nil => rfl
  | cons c cs ih =>
    have hc := h c (by simp)
    have hcs := ih (fun d hd => h d (by simp [hd])) (start + c.length)
    simp [indexFrom, mapM_cons, hc, hcs]

/-- The index of a tree and a source that serves its chunks give the tree back. -/
theorem untarIndex_index {get : ι → Option Bytes} {t : List Entry}
    (h : ∀ c ∈ D.treeChunks t, get (D.chunkID c) = some c) :
    D.untarIndex get (D.treeIndex t) = some t := by
  unfold untarIndex treeIndex index
  rw [D.mapM_indexFrom h, Option.bind_some, treeChunks, D.flatten_chunks, D.untar_tar]

theorem idString_injective : Function.Injective D.idString := by
  intro i j h
  have hi := D.idFromString_idString i
  rw [h, D.idFromString_idString] at hi
  exact (Option.some.inj hi).symm

theorem slash_notMem_idString (i : ι) : slash ∉ D.idString i :=
  slash_notMem_of_hex (D.idString_hex i)

variable [DecidableEq ι]

/-- The chunks `ChunkStream` hands on: `markProcessed` lets every id through once. -/
def distinct (seen : List ι) : List Bytes → List Bytes
  | [] => []
  | c :: cs =>
    if D.chunkID c ∈ seen then distinct seen cs
    else c :: distinct (D.chunkID c :: seen) cs

/-- `NewChunkFromStorage`: the id is recomputed from the decoded chunk. -/
def chunkFromStorage (i : ι) (b : Bytes) : Option Bytes :=
  (D.fromStorage b).filter fun c => D.chunkID c = i

@[simp] theorem chunkFromStorage_storage (c : Bytes) :
    D.chunkFromStorage (D.chunkID c) (D.storage c) = some c := by
  simp [chunkFromStorage, D.fromStorage_storage]

theorem distinct_subset {seen : List ι} {c : Bytes} (h : c ∈ D.distinct seen cs) : c ∈ cs := by
  induction cs generalizing seen with
  | nil => cases h
  | cons d cs ih =>
    simp only [distinct] at h
    split_ifs at h with hd
    · exact mem_cons_of_mem _ (ih h)
    · rcases mem_cons.mp h with rfl | h
      · simp
      · exact mem_cons_of_mem _ (ih h)

/-- Every chunk is handed on, or one of its id was before. -/
theorem mem_distinct {seen : List ι} {c : Bytes} (h : c ∈ cs) :
    D.chunkID c ∈ seen ∨ c ∈ D.distinct seen cs := by
  induction cs generalizing seen with
  | nil => cases h
  | cons d cs ih =>
    simp only [distinct]
    split_ifs with hd
    · rcases mem_cons.mp h with rfl | h
      · exact .inl hd
      · exact ih h
    · rcases mem_cons.mp h with rfl | h
      · exact .inr (by simp)
      · have hrest : D.chunkID c ∈ D.chunkID d :: seen ∨
            c ∈ D.distinct (D.chunkID d :: seen) cs := ih h
        rcases hrest with hseen | hmem
        · rcases mem_cons.mp hseen with heq | hseen
          · -- the same id means the same chunk
            rw [D.chunkID_injective heq]
            exact .inr (by simp)
          · exact .inl hseen
        · exact .inr (mem_cons_of_mem _ hmem)

end Desync

/-! ## A library that satisfies the laws -/

instance encodableByte : Encodable UInt8 :=
  Encodable.ofLeftInverse UInt8.toNat UInt8.ofNat (by simp)

deriving instance Encodable for Leaf, Info, Entry, IndexChunk

section Word

variable {α : Type} [Encodable α] [DecidableEq α]

/-- A code: the bytes `1, 2, …` for the values of a list, and a number of zeros for the others. -/
def word (short : List α) (a : α) : Bytes :=
  if a ∈ short then (range' 1 (short.idxOf a + 1)).map UInt8.ofNat
  else replicate (Encodable.encode a) 0

def ofWord (short : List α) (b : Bytes) : Option α :=
  if b.head? = some 1 then short[b.length - 1]? else Encodable.decode b.length

theorem ofWord_word (short : List α) (a : α) : ofWord short (word short a) = some a := by
  unfold ofWord word
  by_cases h : a ∈ short
  · simp [h, range'_succ, getElem?_idxOf]
  · simp [h, head?_replicate]

end Word

/-- Two workspaces whose archives share their first byte. -/
def sampleTrees : List (List Entry) :=
  [[1], [2]].map fun data => filteredFS ⟨defaultRoots⟩ (fileCall 0 data).dir

def sampleIndexes : List (Index Bytes) := [[⟨[1], 0, 1⟩], [⟨[1], 0, 1⟩, ⟨[2], 1, 1⟩]]

/-- One chunk per byte, which its content identifies. -/
def Desync.simple : Desync Bytes where
  tar := word sampleTrees
  untar := ofWord sampleTrees
  untar_tar := ofWord_word _
  chunks b := b.map ([·])
  flatten_chunks b := by simp [← flatMap_def]
  chunkID := id
  chunkID_injective := Function.injective_id
  idString b := replicate (Encodable.encode b + 1) 'a'
  idFromString s := Encodable.decode (s.length - 1)
  idFromString_idString b := by simp
  idString_hex b := by
    rw [all_replicate, if_neg (by simp)]
    decide
  idString_ne_nil b := by simp
  storage b := 0 :: b
  fromStorage := tail?
  fromStorage_storage _ := rfl
  storage_ne_nil b := by simp
  writeIndex := word sampleIndexes
  readIndex := ofWord sampleIndexes
  readIndex_writeIndex := ofWord_word _

end Hostel.Sync
