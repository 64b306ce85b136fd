/-
# Hostel.Sync.PackReader — what goes into packs comes out.

The reader slices a pack between bounds that are `int64`s, whose sum can wrap around, and keeps the
last packs it read.  Neither shows: a location is read as the bytes it says or refused
(`access_eq_bytes`), and every read, in any order, gives what one read of the store gives
(`chunkStorage_spec`).
-/
import Hostel.Sync.PackHistory

namespace Hostel.Sync.Pack

open Hostel.Logic List Option KeyStore

/-! ## The reader -/

inductive Access
  | panic
  | failed
  | bytes (b : Bytes)
  deriving DecidableEq

/-- The expression `b[lo:hi]`. -/
def subslice (b : Bytes) (lo hi : Int) : Access :=
  if 0 ≤ lo ∧ lo ≤ hi ∧ hi ≤ b.length then .bytes ((b.drop lo.toNat).take (hi - lo).toNat)
  else .panic

/-- `chunkStorage`, once it has the pack. -/
def access (l : PackLocation) (b : Bytes) : Access :=
  let last := (l.offset + l.length).bmod (2 ^ 64)
  if l.offset < 0 ∨ last < l.offset ∨ (b.length : Int) < last then .failed
  else subslice b l.offset last

section

variable {ι : Type} [DecidableEq ι] (D : Desync ι) (K : PackTools) (targetBytes : Int)
  (pre bed : Key)

/-- `chunkStorage`, with the cache it leaves. -/
def chunkStorage (o : Objects) (cache : Cache) (l : PackLocation) : Access × Cache :=
  match readPack K pre bed o cache l.pack with
  -- a `Get` that fails is one of an object that is not there
  | none => (.failed, cache)
  | some (b, cache) => (access l b, cache)

def readChunks (o : Objects) (locations : ι → Option PackLocation) (cache : Cache) :
    List ι → List Access
  | [] => []
  | i :: rest =>
    match locations i with
    | none => .failed :: readChunks o locations cache rest
    | some l =>
      let (a, cache) := chunkStorage K pre bed o cache l
      a :: readChunks o locations cache rest

/-- A read fails, or returns what its location says, within the pack it got. -/
def InRange (o : Objects) (cache : Cache) (l : PackLocation) : Prop :=
  (chunkStorage K pre bed o cache l).1 = .failed ∨
    ∃ p cache', readPack K pre bed o cache l.pack = some (p, cache') ∧
      0 ≤ l.offset ∧ l.offset + l.length ≤ p.length ∧
      (chunkStorage K pre bed o cache l).1 = .bytes ((p.drop l.offset.toNat).take l.length.toNat)

/-! ## The writer -/

def packTargetBytes : Nat := 32 * 2 ^ 20

/-- The target of `newPackWriter`. -/
def writerTarget : Nat := if targetBytes ≤ 0 then packTargetBytes else targetBytes.toNat

/-- The chunks written through one writer, and `Flush`, when every `Put` succeeds. -/
def writeChunks (known : ι → Option PackLocation) (cs : List Bytes) : PackWriter ι × Bool :=
  andThen (storeChunks D K (writerTarget targetBytes) pre bed .none (newPackWriter known) cs)
    (flush K pre bed .none)

/-- The bytes stored for a chunk: those its known location led to, else those of its first
occurrence. -/
def Stored (o : Objects) (known : ι → Option PackLocation) (cs : List Bytes) (i : ι)
    (d : Bytes) : Prop :=
  match known i with
  | some l => (chunkStorage K pre bed o [] l).1 = .bytes d
  | none => (cs.find? fun c => decide (D.chunkID c = i)).map D.storage = some d

/-- The packs that are put, and those the known locations name. -/
def relied (o : Objects) (known : ι → Option PackLocation) (w : PackWriter ι) : Set Bytes :=
  {p | p ∈ bodies w.writes ∨ ∃ i l x, known i = some l ∧
    o (packKey pre bed l.pack) = some x ∧ x.body = p}

end

/-! ## Bounds -/

variable {l : PackLocation} {b d : Bytes}

theorem access_ne_panic (l : PackLocation) (b : Bytes) : access l b ≠ .panic := by
  unfold access
  dsimp only
  split_ifs with hrange
  · exact nofun
  · rw [subslice, if_pos (by omega)]
    exact nofun

/-- A sum that wraps around is refused, so what is returned is what the location says. -/
theorem access_eq_bytes (hoff : l.offset < 2 ^ 63) (hlen : 0 < l.length ∧ l.length < 2 ^ 63)
    (h : access l b = .bytes d) : slice l b = some d := by
  unfold access at h
  dsimp only at h
  split_ifs at h with hrange
  have hsum : (l.offset + l.length).bmod (2 ^ 64) = l.offset + l.length := by
    rw [Int.bmod_def] at hrange ⊢
    split_ifs at hrange ⊢ <;> omega
  rw [hsum] at h hrange
  rw [subslice, if_pos (by omega), Access.bytes.injEq] at h
  rw [slice, if_neg (by omega), ← h, show l.offset + l.length - l.offset = l.length by omega]

theorem access_of_slice (h : slice l b = some d) (hb : b.length < 2 ^ 63) :
    access l b = .bytes d := by
  obtain ⟨hoff, hlen, hend, rfl⟩ := slice_eq_some h
  have hsum : (l.offset + l.length).bmod (2 ^ 64) = l.offset + l.length :=
    Int.bmod_eq_of_le (by omega) (by omega)
  rw [access, hsum, if_neg (by omega), subslice, if_pos (by omega),
    show l.offset + l.length - l.offset = l.length by omega]

variable {ι : Type} {D : Desync ι} {K : PackTools} {pre bed : Key} {o : Objects}

/-- Whatever is in the cache, a location is read within its pack or not at all. -/
theorem chunkStorage_range (hoff : l.offset < 2 ^ 63)
    (hlen : 0 < l.length ∧ l.length < 2 ^ 63) (o : Objects) (cache : Cache) :
    InRange K pre bed o cache l := by
  unfold InRange chunkStorage
  split
  · exact .inl rfl
  · next p cache' hread =>
    cases haccess : access l p with
    | panic => exact absurd haccess (access_ne_panic l p)
    | failed => exact .inl rfl
    | bytes d =>
      obtain ⟨hoff', -, hend, rfl⟩ := slice_eq_some (access_eq_bytes hoff hlen haccess)
      exact .inr ⟨p, cache', hread, hoff', hend, rfl⟩

/-! ## Reads -/

theorem chunkStorage_spec {cache : Cache} (hc : CacheOk pre bed o cache) (l : PackLocation) :
    CacheOk pre bed o (chunkStorage K pre bed o cache l).2 ∧
      ∀ x, o (packKey pre bed l.pack) = some x → K.objectID x.body = l.pack →
        (chunkStorage K pre bed o cache l).1 = access l x.body := by
  unfold chunkStorage
  split
  · next hread =>
    refine ⟨hc, fun x hx hid => ?_⟩
    obtain ⟨cache', hsome, -⟩ := readPack_eq hc hx hid
    cases hread.symm.trans hsome
  · next b cache' hread =>
    obtain ⟨hc', y, hy, rfl⟩ := readPack_some hc hread
    refine ⟨hc', fun x hx _ => ?_⟩
    cases hx.symm.trans hy
    rfl

/-- What a fresh reader returns is in a pack that carries its name. -/
theorem chunkStorage_nil (h : (chunkStorage K pre bed o [] l).1 = .bytes d) :
    ∃ x, o (packKey pre bed l.pack) = some x ∧ K.objectID x.body = l.pack ∧
    access l x.body = .bytes d := by
  unfold chunkStorage at h
  split at h
  · cases h
  next b cache' hread =>
  obtain ⟨x, hx, hbody⟩ :=
    bind_eq_some_iff.mp (show (o (packKey pre bed l.pack)).bind _ = some (b, cache') from hread)
  split_ifs at hbody with hid
  cases hbody
  exact ⟨x, hx, hid, h⟩

/-- Reads, in any order, of locations that lead to given bytes. -/
theorem readChunks_forall {locs : ι → Option PackLocation} {want : ι → Bytes → Prop}
    (h : ∀ i d, want i d → ∃ l x, locs i = some l ∧ o (packKey pre bed l.pack) = some x ∧
      K.objectID x.body = l.pack ∧ access l x.body = .bytes d) (reads : List ι) {cache : Cache}
    (hc : CacheOk pre bed o cache) :
    Forall₂ (fun i a => ∀ d, want i d → a = .bytes d) reads
    (readChunks K pre bed o locs cache reads) := by
  induction reads generalizing cache with
  | nil => exact .nil
  | cons i reads ih =>
    unfold readChunks
    split
    · next hnone =>
      refine .cons (fun d hd => ?_) (ih hc)
      obtain ⟨l, x, hl, -⟩ := h i d hd
      cases hnone.symm.trans hl
    · next l hl =>
      obtain ⟨hc', hread⟩ := chunkStorage_spec (K := K) hc l
      refine .cons (fun d hd => ?_) (ih hc')
      obtain ⟨l', x, hl', hx, hid, haccess⟩ := h i d hd
      cases hl.symm.trans hl'
      exact (hread x hx hid).trans haccess

/-! ## Writes -/

variable [DecidableEq ι]

variable {target : Nat} {known : ι → Option PackLocation} {cs : List Bytes} {w : PackWriter ι}

variable (K pre bed) in
theorem flush_ok (w : PackWriter ι) : (flush K pre bed .none w).2 = true := by
  unfold flush
  split <;> rfl

variable (D K target pre bed) in
theorem storeChunks_ok (w : PackWriter ι) (cs : List Bytes) :
    (storeChunks D K target pre bed .none w cs).2 = true := by
  have happend (w : PackWriter ι) (c : Bytes) :
      (appendChunk D K target pre bed .none w c).2 = true := by
    unfold appendChunk
    split
    · exact flush_ok ..
    · rfl
  induction cs generalizing w with
  | nil => rfl
  | cons c cs ih =>
    have hstore : (storeChunk D K target pre bed .none w c).2 = true := by
      unfold storeChunk
      split
      · rfl
      · split
        · rw [andThen, if_pos (flush_ok ..)]
          exact happend _ c
        · exact happend w c
    rw [storeChunks, andThen, if_pos hstore]
    exact ih _

theorem writeChunks_spec {targetBytes : Int} {ok : Bool}
    (h : writeChunks D K targetBytes pre bed known cs = (w, ok)) :
    ok = true ∧ Packing D K pre bed known w ∧ Extends K pre bed (newPackWriter known) w ∧
      ∀ c ∈ cs, (w.locations (D.chunkID c)).isSome = true := by
  have hstream := storeChunks_ok D K pre bed (writerTarget targetBytes) (newPackWriter known) cs
  have hext :=
    storeChunks_extends D K (writerTarget targetBytes) pre bed .none (newPackWriter known) cs
  unfold writeChunks at h
  generalize hw₁ :
    storeChunks D K (writerTarget targetBytes) pre bed .none (newPackWriter known) cs = r at *
  obtain ⟨w₁, ok₁⟩ := r
  cases hstream
  have hlast := flush_ok K pre bed w₁
  have hext' := flush_extends K pre bed .none w₁
  rw [andThen, if_pos rfl] at h
  rw [h] at hlast hext'
  cases hlast
  obtain ⟨hpacking, hcovers⟩ := packing_new.storeChunks hw₁
  obtain ⟨hpacking', hlocated⟩ := hpacking.flush h
  exact ⟨rfl, hpacking', hext.trans hext', fun c hc => hlocated _ (hcovers _ (.inr ⟨c, hc, rfl⟩))⟩

/-- **Packs are transparent.** After the chunks of any sequence were written through one writer,
whatever was known before, each has a location, and every read of it, in any order, returns the
bytes stored for its first occurrence.  Whatever manifest is accepted and whatever a reader has
read, a read stays within its pack. -/
theorem packed_chunks_read_back {wide : Char → Bool} (D : Desync ι) (K : PackTools)
    (targetBytes : Int) (pre : Key) (bed : BedID wide) (o : Objects)
    (known : ι → Option PackLocation) (cs : List Bytes) {w : PackWriter ι} {ok : Bool}
    (hw : writeChunks D K targetBytes pre bed.id known cs = (w, ok))
    (hint : ∀ p ∈ bodies w.writes, p.length < 2 ^ 63)
    (hsha : (relied pre bed.id o known w).InjOn K.objectID) :
    ok = true ∧ (∀ c ∈ cs, (w.locations (D.chunkID c)).isSome = true) ∧
    (∀ reads, Forall₂ (fun i a => ∀ d, Stored D K pre bed.id o known cs i d → a = .bytes d) reads
      (readChunks K pre bed.id (o.after w.writes) w.locations [] reads)) ∧
    ∀ m locs, manifestLocations D m = some locs →
    (∀ ref ∈ m.chunks, ref.offset < 2 ^ 63 ∧ ref.length < 2 ^ 63) →
      ∀ o cache i l, locs i = some l → InRange K pre bed.id o cache l := by
  obtain ⟨hok, hpacking, hext, hlocated⟩ := writeChunks_spec hw
  have hws := hext.onlyPacks (S := relied pre bed.id o known w) fun b hb => .inl hb
  refine ⟨hok, hlocated,
    fun reads => readChunks_forall (fun i d hd => ?_) reads (by simp [CacheOk]), ?_⟩
  · unfold Stored at hd
    split at hd
    · -- a known chunk is not stored again, and its pack is not changed
      next l hl =>
      obtain ⟨x, hx, hid, haccess⟩ := chunkStorage_nil hd
      obtain ⟨y, hy, hbody⟩ := hws.after_kept bed.plain hsha hx hid (.inr ⟨i, l, x, hl, hx, rfl⟩)
      rw [← hbody] at hid haccess
      exact ⟨l, y, hpacking.kept i l hl, hy, hid, haccess⟩
    · -- a repeat that was still pending is stored again: its id is that of the same bytes
      next hnew =>
      obtain ⟨c, hc, rfl⟩ := map_eq_some_iff.mp hd
      have hid : D.chunkID c = i := by simpa using find?_some hc
      obtain ⟨l, hl⟩ := isSome_iff_exists.mp (hlocated c (mem_of_find?_eq_some hc))
      rw [hid] at hl
      rcases hpacking.located i l hl with hknown | ⟨b, c', hb, hpack, -, hc', hslice⟩
      · cases hnew.symm.trans hknown
      · obtain ⟨y, hy, hbody⟩ := hws.after_put bed.plain hsha hb
        have haccess := access_of_slice hslice (hint b (mem_filterMap.mpr ⟨_, hb, rfl⟩))
        rw [D.chunkID_injective (hc'.trans hid.symm)] at haccess
        rw [← hpack] at hy
        exact ⟨l, y, hl, hy, hbody ▸ hpack.symm, hbody ▸ haccess⟩
  · intro m locs hm hrefs o cache i l hl
    have hbounds : l.offset < 2 ^ 63 ∧ 0 < l.length ∧ l.length < 2 ^ 63 :=
      addLocations_forall (P := fun l => l.offset < 2 ^ 63 ∧ 0 < l.length ∧ l.length < 2 ^ 63)
        (fun ref href _ _ hlen => ⟨(hrefs ref href).1, hlen, (hrefs ref href).2⟩)
        (by simp) hm i l hl
    exact chunkStorage_range hbounds.1 hbounds.2 o cache

/-- A chunk that is written twice before its pack is put. -/
def writtenTwice : PackWriter Bytes :=
  (writeChunks Desync.simple PackTools.simple 0 [] plainBed.id (fun _ => none) [[1], [1]]).1

theorem packed_chunks_read_back_repeat :
    readChunks PackTools.simple [] plainBed.id (KeyStore.after (fun _ => none) writtenTwice.writes)
      writtenTwice.locations [] [[1]] = [.bytes [0, 1]] := by
  have hwrites : bodies writtenTwice.writes = [[0, 1, 0, 1]] := by decide
  obtain ⟨-, -, hreads, -⟩ :=
    packed_chunks_read_back Desync.simple PackTools.simple 0 [] plainBed (fun _ => none)
    (fun _ => none) [[1], [1]] (w := writtenTwice) rfl (by simp [hwrites])
      (by simp [relied, hwrites])
  obtain ⟨a, rest, ha, hrest, heq⟩ := forall₂_cons_left_iff.mp (hreads [[1]])
  rw [heq, forall₂_nil_left_iff.mp hrest, ha [0, 1] rfl]

end Hostel.Sync.Pack
