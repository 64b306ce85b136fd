/-
# Hostel.Sync.PackWriter — the locations of chunks in packs, and the writer that keeps them good.

An object under a digest is only ever put again with the same bytes, as long as the digest has no
collisions among the bytes that are written (`S` below).  So a location that was good stays good
(`Good.packs`).  The writer keeps the locations it was given, and its own lead into the packs it put
(`Packing`); so they are all good if the given ones were (`Packing.writing`), and a manifest gives
the locations it was built from back (`manifestLocations_build`).
-/
import Hostel.Logic.FiniteMap
import Hostel.Sync.Pack
import Mathlib.Data.Set.Function

namespace Hostel.Sync.Pack

open Hostel.Logic Function List KeyStore Option

/-! ## Keys -/

section Keys

variable {pre bed p q : Key} (hbed : Plain bed)
include hbed

section

variable (hp : validObjectID p = true)
include hp

theorem packKey_inj (hq : validObjectID q = true)
    (h : packKey pre bed p = packKey pre bed q) : p = q := by
  have hsame := (at_packKey hbed hp).unique (h ▸ at_packKey hbed hq)
  simp only [cons.injEq, true_and, and_true] at hsame
  exact append_cancel_right hsame.2

theorem snapshotKey_inj (hq : validObjectID q = true)
    (h : snapshotKey pre bed p = snapshotKey pre bed q) : p = q := by
  have hsame := (at_snapshotKey hbed hp).unique (h ▸ at_snapshotKey hbed hq)
  simp only [cons.injEq, true_and, and_true] at hsame
  exact append_cancel_right hsame

theorem packKey_ne_snapshotKey (hq : validObjectID q = true) :
    packKey pre bed p ≠ snapshotKey pre bed q := by
  intro h
  have hsame := (at_packKey hbed hp).unique (h ▸ at_snapshotKey hbed hq)
  simp only [cons.injEq] at hsame
  exact absurd hsame.2.2.1 (by decide)

theorem packKey_ne_headKey : packKey pre bed p ≠ headKey pre bed := by
  intro h
  have hsame := (at_packKey hbed hp).unique (h ▸ at_headKey hbed)
  simp only [cons.injEq] at hsame
  exact absurd hsame.2.2.1 (by decide)

theorem snapshotKey_ne_headKey : snapshotKey pre bed p ≠ headKey pre bed := by
  intro h
  have hsame := (at_snapshotKey hbed hp).unique (h ▸ at_headKey hbed)
  simp only [cons.injEq] at hsame
  exact absurd hsame.2.2.1 (by decide)

end

end Keys

/-! ## Slices -/

variable {l : PackLocation}

theorem slice_eq_some {b d : Bytes} (h : slice l b = some d) :
    0 ≤ l.offset ∧ 0 ≤ l.length ∧ l.offset + l.length ≤ b.length ∧
      d = (b.drop l.offset.toNat).take l.length.toNat := by
  unfold slice at h
  split_ifs at h with hbounds
  refine ⟨by omega, by omega, by omega, (some.inj h).symm⟩

theorem slice_append {b d : Bytes} (h : slice l b = some d) (e : Bytes) :
    slice l (b ++ e) = some d := by
  obtain ⟨hoff, hlen, hend, rfl⟩ := slice_eq_some h
  have hbounds : ¬(l.offset < 0 ∨ l.offset + l.length < l.offset ∨
      (((b ++ e).length : Nat) : Int) < l.offset + l.length) := by
    rw [length_append]
    omega
  rw [slice, if_neg hbounds, drop_append_of_le_length (by omega),
    take_append_of_le_length (by rw [length_drop]; omega)]

theorem slice_end (p : Key) (b e : Bytes) : slice ⟨p, b.length, e.length⟩ (b ++ e) = some e := by
  have hbounds : ¬((b.length : Int) < 0 ∨ (b.length : Int) + e.length < b.length ∨
      (((b ++ e).length : Nat) : Int) < b.length + e.length) := by
    rw [length_append]
    omega
  rw [slice, if_neg hbounds]
  simp

/-! ## Objects named by their digest -/

variable {ι : Type} {D : Desync ι} {K : PackTools} {target : Nat} {S : Set Bytes} {pre bed : Key}
  {o : Objects}

/-- The packs and manifests of the Bed carry their digest as name, and their bytes are in `S`. -/
structure Named (K : PackTools) (S : Set Bytes) (pre bed : Key) (o : Objects) : Prop where
  packs : ∀ p x, validObjectID p = true → o (packKey pre bed p) = some x →
    K.objectID x.body = p ∧ x.body ∈ S
  snapshots : ∀ p x, validObjectID p = true → o (snapshotKey pre bed p) = some x →
    K.objectID x.body = p ∧ x.body ∈ S

/-- The location leads to the stored bytes of the chunk. -/
structure Good (D : Desync ι) (pre bed : Key) (o : Objects) (i : ι) (l : PackLocation) : Prop where
  valid : validObjectID l.pack = true
  offset : 0 ≤ l.offset
  length : 0 < l.length
  bytes : ∃ x c, o (packKey pre bed l.pack) = some x ∧ D.chunkID c = i ∧
    slice l x.body = some (D.storage c)

variable {i : ι}

theorem Good.congr (h : Good D pre bed o i l) {o' : Objects}
    (hsame : o' (packKey pre bed l.pack) = o (packKey pre bed l.pack)) : Good D pre bed o' i l := by
  obtain ⟨hvalid, hoff, hlen, x, c, hx, hrest⟩ := h
  exact ⟨hvalid, hoff, hlen, x, c, hsame.trans hx, hrest⟩

/-- Writes that only put packs, with bytes in `S`. -/
def OnlyPacks (K : PackTools) (S : Set Bytes) (pre bed : Key) (ws : List Write) : Prop :=
  ∀ w ∈ ws, ∃ b ∈ S, w = putPack K pre bed b

variable {ws : List Write}

theorem OnlyPacks.no_delete (h : OnlyPacks K S pre bed ws) {ks : Key → Bool} : .delete ks ∉ ws := by
  intro hks
  obtain ⟨b, -, hb⟩ := h _ hks
  cases hb

theorem OnlyPacks.untouched (h : OnlyPacks K S pre bed ws) {k : Key}
    (hk : ∀ p, validObjectID p = true → packKey pre bed p ≠ k) : o.after ws k = o k := by
  refine after_untouched fun w hw => ?_
  obtain ⟨b, -, rfl⟩ := h w hw
  exact decide_eq_false (hk _ (K.objectID_valid b)).symm

theorem OnlyPacks.pack_eq (hbed : Plain bed) (h : OnlyPacks K S pre bed ws)
    {p : Key} (hp : validObjectID p = true) {x : Object} (hx : .put (packKey pre bed p) x ∈ ws) :
    K.objectID x.body = p ∧ x.body ∈ S := by
  obtain ⟨b, hb, heq⟩ := h _ hx
  obtain ⟨hkey, rfl⟩ := KeyStore.Write.put.inj heq
  exact ⟨(packKey_inj hbed hp (K.objectID_valid b) hkey).symm, hb⟩

theorem Named.onlyPacks (hbed : Plain bed) (h : Named K S pre bed o)
    (hws : OnlyPacks K S pre bed ws) : Named K S pre bed (o.after ws) := by
  refine ⟨fun p x hp hx => ?_, fun p x hp hx => h.snapshots p x hp ?_⟩
  · rcases after_eq_some hx with hold | hput
    · exact h.packs p x hp hold
    · exact hws.pack_eq hbed hp hput
  · rwa [hws.untouched fun q hq => packKey_ne_snapshotKey hbed hq hp] at hx

section Puts

variable (hbed : Plain bed) (hS : S.InjOn K.objectID) (hws : OnlyPacks K S pre bed ws)
include hbed hS hws

/-- A pack that is there can only be put again with the bytes it has. -/
theorem OnlyPacks.after_kept {p : Key} {x : Object} (hx : o (packKey pre bed p) = some x)
    (hid : K.objectID x.body = p) (hxS : x.body ∈ S) :
    ∃ y, o.after ws (packKey pre bed p) = some y ∧ y.body = x.body := by
  have hthere : o.after ws (packKey pre bed p) ≠ none :=
    after_occupied (by simp [hx]) fun ks hks => absurd hks hws.no_delete
  obtain ⟨y, hy⟩ := ne_none_iff_exists'.mp hthere
  refine ⟨y, hy, ?_⟩
  rcases after_eq_some hy with hold | hput
  · rw [hx] at hold
    rw [some.inj hold]
  · obtain ⟨hyid, hyS⟩ := hws.pack_eq hbed (hid ▸ K.objectID_valid _) hput
    exact hS hyS hxS (hyid.trans hid.symm)

/-- A pack that is put is there with its bytes, however often it is put. -/
theorem OnlyPacks.after_put {b : Bytes} (hb : putPack K pre bed b ∈ ws) :
    ∃ y, o.after ws (packKey pre bed (K.objectID b)) = some y ∧ y.body = b := by
  obtain ⟨y, hy, hput⟩ :=
    after_of_puts (puts_iff.mpr ⟨_, hb⟩) fun ks hks => absurd hks hws.no_delete
  obtain ⟨hid, hyS⟩ := hws.pack_eq hbed (K.objectID_valid b) hput
  obtain ⟨-, hbS⟩ := hws.pack_eq hbed (K.objectID_valid b) hb
  exact ⟨y, hy, hS hyS hbS hid⟩

theorem Good.packs (hn : Named K S pre bed o) (h : Good D pre bed o i l) :
    Good D pre bed (o.after ws) i l := by
  obtain ⟨hvalid, hoff, hlen, x, c, hx, hc, hslice⟩ := h
  obtain ⟨hid, hxS⟩ := hn.packs _ _ hvalid hx
  obtain ⟨y, hy, hbody⟩ := hws.after_kept hbed hS hx hid hxS
  exact ⟨hvalid, hoff, hlen, y, c, hy, hc, hbody ▸ hslice⟩

end Puts

/-! ## The writer -/

/-- The chunk has a location or is pending. -/
def PackWriter.Covers (w : PackWriter ι) (i : ι) : Prop :=
  (w.locations i).isSome = true ∨ ∃ p ∈ w.pending, p.id = i

/-- What the writer holds is right: its locations are good, and its pending chunks are in its
buffer. -/
structure Writing (D : Desync ι) (pre bed : Key) (o : Objects) (w : PackWriter ι) : Prop where
  located : ∀ i l, w.locations i = some l → Good D pre bed (o.after w.writes) i l
  pending : ∀ p ∈ w.pending, 0 < p.length ∧
    ∃ c, D.chunkID c = p.id ∧ slice ⟨[], p.offset, p.length⟩ w.buf = some (D.storage c)
  empty : w.buf = [] → w.pending = []

/-- The location is in a pack that was put, and leads there to the stored bytes of the chunk. -/
def InPack (D : Desync ι) (K : PackTools) (pre bed : Key) (ws : List Write) (i : ι)
    (l : PackLocation) : Prop :=
  ∃ b c, putPack K pre bed b ∈ ws ∧ l.pack = K.objectID b ∧ 0 < l.length ∧ D.chunkID c = i ∧
    slice l b = some (D.storage c)

/-- The writer has kept the known locations, its own are in packs it put, and its pending chunks,
none of them known, are in its buffer. -/
structure Packing (D : Desync ι) (K : PackTools) (pre bed : Key) (known : ι → Option PackLocation)
    (w : PackWriter ι) : Prop where
  kept : ∀ i l, known i = some l → w.locations i = some l
  located : ∀ i l, w.locations i = some l → known i = some l ∨ InPack D K pre bed w.writes i l
  pending : ∀ p ∈ w.pending, known p.id = none ∧ 0 < p.length ∧
    ∃ c, D.chunkID c = p.id ∧ slice ⟨[], p.offset, p.length⟩ w.buf = some (D.storage c)
  empty : w.buf = [] → w.pending = []

variable {known : ι → Option PackLocation}

theorem packing_new : Packing D K pre bed known (newPackWriter known) :=
  ⟨fun _ _ => id, fun _ _ => .inl, by simp [newPackWriter], fun _ => rfl⟩

/-- The writer has put further packs. -/
def Extends (K : PackTools) (pre bed : Key) (w w' : PackWriter ι) : Prop :=
  ∃ bs : List Bytes, w'.writes = w.writes ++ bs.map (putPack K pre bed)

theorem Extends.refl (w : PackWriter ι) : Extends K pre bed w w := ⟨[], by simp⟩

variable {w : PackWriter ι}

theorem Extends.trans {w' w'' : PackWriter ι} (h : Extends K pre bed w w')
    (h' : Extends K pre bed w' w'') : Extends K pre bed w w'' := by
  obtain ⟨bs, hbs⟩ := h
  obtain ⟨bs', hbs'⟩ := h'
  exact ⟨bs ++ bs', by rw [hbs', hbs, map_append, append_assoc]⟩

theorem Packing.writing (hbed : Plain bed) (hS : S.InjOn K.objectID) (hn : Named K S pre bed o)
    (hknown : ∀ i l, known i = some l → Good D pre bed o i l) (h : Packing D K pre bed known w)
    (hws : OnlyPacks K S pre bed w.writes) : Writing D pre bed o w := by
  refine ⟨fun i l hl => ?_, fun p hp => (h.pending p hp).2, h.empty⟩
  rcases h.located i l hl with hl | ⟨b, c, hb, hpack, hlen, hc, hslice⟩
  · exact (hknown i l hl).packs hbed hS hws hn
  · obtain ⟨y, hy, hbody⟩ := hws.after_put hbed hS hb
    rw [← hpack] at hy
    exact ⟨hpack ▸ K.objectID_valid b, (slice_eq_some hslice).1, hlen, y, c, hy, hc, hbody ▸ hslice⟩

variable {c : Bytes}

theorem Packing.append (h : Packing D K pre bed known w) (hc : known (D.chunkID c) = none) :
    Packing D K pre bed known (append D w c) := by
  refine ⟨h.kept, h.located, fun p hp => ?_, fun hempty => ?_⟩
  · rcases mem_append.mp hp with hp | hp
    · obtain ⟨hnew, hlen, d, hd, hslice⟩ := h.pending p hp
      exact ⟨hnew, hlen, d, hd, slice_append hslice _⟩
    · rw [mem_singleton.mp hp]
      refine ⟨hc, ?_, c, rfl, slice_end _ _ _⟩
      have := length_pos_iff.mpr (D.storage_ne_nil c)
      dsimp only
      omega
  · exact absurd (append_eq_nil_iff.mp hempty).2 (D.storage_ne_nil c)

theorem covers_append (h : w.Covers i ∨ i = D.chunkID c) : (append D w c).Covers i := by
  rcases h with (h | ⟨p, hp, rfl⟩) | rfl
  · exact .inl h
  · exact .inr ⟨p, mem_append_left _ hp, rfl⟩
  · exact .inr ⟨_, mem_append_right _ (mem_singleton.mpr rfl), rfl⟩

variable [DecidableEq ι]

variable {locations : ι → Option PackLocation} {ps : List (PendingPackChunk ι)}

theorem locate_eq_some {id : Key}
   
    (h : locate locations id ps i = some l) :
    locations i = some l ∨ ∃ p ∈ ps, p.id = i ∧ l = ⟨id, p.offset, p.length⟩ := by
  induction ps generalizing locations with
  | nil => exact .inl h
  | cons p ps ih =>
    rcases ih h with hold | ⟨q, hq, hrest⟩
    · obtain ⟨rfl, rfl⟩ | ⟨-, hold⟩ := update_eq_some.mp hold
      · exact .inr ⟨p, by simp, rfl, rfl⟩
      · exact .inl hold
    · exact .inr ⟨q, by simp [hq], hrest⟩

theorem locate_covers {id : Key}
   
    (h : (locations i).isSome = true ∨ ∃ p ∈ ps, p.id = i) :
    (locate locations id ps i).isSome = true := by
  induction ps generalizing locations with
  | nil => exact h.resolve_right (by simp)
  | cons p ps ih =>
    refine ih ?_
    by_cases hi : i = p.id
    · exact .inl (by simp [hi])
    · rw [update_of_ne hi]
      rcases h with h | ⟨q, hq, rfl⟩
      · exact .inl h
      · rcases mem_cons.mp hq with rfl | hq
        · exact absurd rfl hi
        · exact .inr ⟨q, hq, rfl⟩

variable (K pre bed) in
theorem flush_extends (f : Faults) (w : PackWriter ι) :
    Extends K pre bed w (flush K pre bed f w).1 := by
  unfold flush
  split
  · exact .refl w
  · split
    · exact ⟨[w.buf], rfl⟩
    · exact ⟨[], by simp⟩
    · exact ⟨[w.buf], rfl⟩

theorem locate_other {id : Key}
    (h : ∀ p ∈ ps, p.id ≠ i) : locate locations id ps i = locations i := by
  induction ps generalizing locations with
  | nil => rfl
  | cons p ps ih =>
    rw [locate, ih fun q hq => h q (by simp [hq]), update_of_ne (h p (by simp)).symm]

theorem Packing.flush {f : Faults} {w' : PackWriter ι} (h : Packing D K pre bed known w)
    (hflush : flush K pre bed f w = (w', true)) :
    Packing D K pre bed known w' ∧ ∀ i, w.Covers i → (w'.locations i).isSome = true := by
  unfold Pack.flush at hflush
  split at hflush
  case isTrue hempty =>
    obtain ⟨rfl, -⟩ := Prod.mk.inj hflush
    refine ⟨h, fun i hi => hi.resolve_right ?_⟩
    simp [h.empty hempty]
  case isFalse hbuf =>
    split at hflush
    case h_2 => cases hflush
    case h_3 => cases hflush
    case h_1 =>
      obtain ⟨rfl, -⟩ := Prod.mk.inj hflush
      refine ⟨⟨fun i l hl => ?_, fun i l hl => ?_, by simp, fun _ => rfl⟩,
        fun i hi => locate_covers hi⟩
      · refine (locate_other fun p hp hid => ?_).trans (h.kept i l hl)
        have hnew := (h.pending p hp).1
        rw [hid, hl] at hnew
        cases hnew
      · rcases locate_eq_some hl with hl | ⟨p, hp, rfl, rfl⟩
        · refine (h.located i l hl).imp_right ?_
          rintro ⟨b, c, hb, hrest⟩
          exact ⟨b, c, mem_append_left _ hb, hrest⟩
        · -- the pack that was just put is the buffer the pending chunks are in
          obtain ⟨-, hlen, c, hc, hslice⟩ := h.pending p hp
          exact .inr ⟨w.buf, c, by simp, rfl, hlen, hc, hslice⟩

omit [DecidableEq ι] in
theorem Extends.andThen {r : PackWriter ι × Bool}
    {next : PackWriter ι → PackWriter ι × Bool} (h : Extends K pre bed w r.1)
    (hnext : ∀ w, Extends K pre bed w (next w).1) : Extends K pre bed w (andThen r next).1 := by
  unfold Pack.andThen
  split
  · exact h.trans (hnext r.1)
  · exact h

omit [DecidableEq ι] in
theorem andThen_eq_true {r : PackWriter ι × Bool} {next : PackWriter ι → PackWriter ι × Bool}
    {w' : PackWriter ι} (h : andThen r next = (w', true)) :
    ∃ w, r = (w, true) ∧ next w = (w', true) := by
  obtain ⟨w, ok⟩ := r
  cases ok with
  | true => exact ⟨w, rfl, h⟩
  | false => exact absurd (congrArg Prod.snd h) (by simp [andThen])

variable (D K target pre bed) in
theorem appendChunk_extends (f : Faults) (w : PackWriter ι) (c : Bytes) :
    Extends K pre bed w (appendChunk D K target pre bed f w c).1 := by
  unfold appendChunk
  split
  · exact flush_extends K pre bed f (append D w c)
  · exact .refl w

variable (D K target pre bed) in
theorem storeChunk_extends (f : Faults) (w : PackWriter ι) (c : Bytes) :
    Extends K pre bed w (storeChunk D K target pre bed f w c).1 := by
  unfold storeChunk
  split
  · exact .refl w
  · split
    · exact (flush_extends K pre bed f w).andThen fun w' =>
        appendChunk_extends D K target pre bed f w' c
    · exact appendChunk_extends D K target pre bed f w c

variable (D K target pre bed) in
theorem storeChunks_extends (f : Faults) (w : PackWriter ι) (cs : List Bytes) :
    Extends K pre bed w (storeChunks D K target pre bed f w cs).1 := by
  induction cs generalizing w with
  | nil => exact .refl w
  | cons c cs ih => exact (storeChunk_extends D K target pre bed f w c).andThen ih

section Success

variable {f : Faults} {w w' : PackWriter ι}

theorem Packing.appendChunk (h : Packing D K pre bed known w) (hc : known (D.chunkID c) = none)
    (hstep : appendChunk D K target pre bed f w c = (w', true)) :
    Packing D K pre bed known w' ∧ ∀ i, w.Covers i ∨ i = D.chunkID c → w'.Covers i := by
  unfold Pack.appendChunk at hstep
  split at hstep
  · obtain ⟨hw, hcovers⟩ := (h.append hc).flush hstep
    exact ⟨hw, fun i hi => .inl (hcovers i (covers_append hi))⟩
  · obtain ⟨rfl, -⟩ := Prod.mk.inj hstep
    exact ⟨h.append hc, fun i hi => covers_append hi⟩

theorem Packing.storeChunk (h : Packing D K pre bed known w)
    (hstep : storeChunk D K target pre bed f w c = (w', true)) :
    Packing D K pre bed known w' ∧ ∀ i, w.Covers i ∨ i = D.chunkID c → w'.Covers i := by
  unfold Pack.storeChunk at hstep
  split at hstep
  case isTrue hknown =>
    obtain ⟨rfl, -⟩ := Prod.mk.inj hstep
    refine ⟨h, fun i hi => hi.elim id fun hi => .inl ?_⟩
    rw [hi]
    exact hknown
  case isFalse hnew =>
    -- a repeat may still be pending, but what is known has a location
    have hc : known (D.chunkID c) = none :=
      eq_none_iff_forall_ne_some.mpr fun l hl => hnew (by simp [h.kept _ _ hl])
    split at hstep
    · obtain ⟨w₁, hflush, happend⟩ := andThen_eq_true hstep
      obtain ⟨hw₁, hcovers₁⟩ := h.flush hflush
      obtain ⟨hw, hcovers⟩ := hw₁.appendChunk hc happend
      exact ⟨hw, fun i hi => hcovers i (hi.imp_left fun hi => .inl (hcovers₁ i hi))⟩
    · exact h.appendChunk hc hstep

/-- A stream that ends well leaves every chunk located or pending. -/
theorem Packing.storeChunks {cs : List Bytes} (h : Packing D K pre bed known w)
    (hstep : storeChunks D K target pre bed f w cs = (w', true)) :
    Packing D K pre bed known w' ∧ ∀ i, (w.Covers i ∨ ∃ c ∈ cs, i = D.chunkID c) → w'.Covers i := by
  induction cs generalizing w with
  | nil =>
    obtain ⟨rfl, -⟩ := Prod.mk.inj hstep
    exact ⟨h, fun i hi => hi.resolve_right (by simp)⟩
  | cons c cs ih =>
    obtain ⟨w₁, hfirst, hrest⟩ := andThen_eq_true hstep
    obtain ⟨hw₁, hcovers₁⟩ := h.storeChunk hfirst
    obtain ⟨hw, hcovers⟩ := ih hw₁ hrest
    refine ⟨hw, fun i hi => hcovers i ?_⟩
    rcases hi with hi | ⟨d, hd, rfl⟩
    · exact .inl (hcovers₁ i (.inl hi))
    · rcases mem_cons.mp hd with rfl | hd
      · exact .inl (hcovers₁ _ (.inr rfl))
      · exact .inr ⟨d, hd, rfl⟩

end Success

/-! ## Manifests -/

/-- The locations a manifest gives are those it was built from, for the chunks of its index. -/
theorem addLocations_refs {locs acc : ι → Option PackLocation}
    (hvalid : ∀ i l, locs i = some l → validObjectID l.pack = true ∧ 0 ≤ l.offset ∧ 0 < l.length)
    (hacc : ∀ i l, acc i = some l → locs i = some l) {idx : Index ι} {refs : List PackChunkRef}
    (h : idx.mapM (fun c => (locs c.id).map (refOf D c.id)) = some refs) :
    ∃ acc', addLocations D acc refs = some acc' ∧ (∀ i l, acc' i = some l → locs i = some l) ∧
      (∀ i, (acc i).isSome = true → (acc' i).isSome = true) ∧
      ∀ c ∈ idx, (acc' c.id).isSome = true := by
  induction idx generalizing acc refs with
  | nil =>
    cases h
    exact ⟨acc, rfl, hacc, fun _ => id, by simp⟩
  | cons c idx ih =>
    rw [mapM_cons] at h
    obtain ⟨ref, href, h⟩ := bind_eq_some_iff.mp h
    obtain ⟨refs', hrefs', h⟩ := bind_eq_some_iff.mp h
    cases h
    obtain ⟨l, hl, rfl⟩ := map_eq_some_iff.mp href
    have hacc' : ∀ i l', update acc c.id (some l) i = some l' → locs i = some l' := by
      intro i l' hi
      obtain ⟨rfl, rfl⟩ | ⟨-, hi⟩ := update_eq_some.mp hi
      · exact hl
      · exact hacc i l' hi
    have hstep : addLocations D acc (refOf D c.id l :: refs') =
        addLocations D (update acc c.id (some l)) refs' := by
      rw [addLocations, refOf, D.idFromString_idString]
      dsimp only
      rw [if_pos (hvalid _ _ hl)]
      cases hold : acc c.id with
      | none => rfl
      | some old =>
        -- an earlier reference to the same chunk gave the same location
        have : old = l := some.inj ((hacc _ _ hold).symm.trans hl)
        simp [this]
    obtain ⟨acc₂, hadd, hsub, hmono, hcovers⟩ := ih hacc' hrefs'
    refine ⟨acc₂, hstep ▸ hadd, hsub, fun i hi => hmono i ?_, fun d hd => ?_⟩
    · by_cases hic : i = c.id
      · simp [hic]
      · rwa [update_of_ne hic]
    · rcases mem_cons.mp hd with rfl | hd
      · exact hmono _ (by simp)
      · exact hcovers d hd

/-- What holds of every reference that is accepted holds of every location. -/
theorem addLocations_forall {P : PackLocation → Prop} {acc locs : ι → Option PackLocation}
    {refs : List PackChunkRef}
    (hrefs : ∀ ref ∈ refs, validObjectID ref.pack = true → 0 ≤ ref.offset → 0 < ref.length →
      P ⟨ref.pack, ref.offset, ref.length⟩)
    (hacc : ∀ i l, acc i = some l → P l) (h : addLocations D acc refs = some locs) :
    ∀ i l, locs i = some l → P l := by
  fun_induction addLocations D acc refs with
  | case1 acc =>
    cases h
    exact hacc
  | case3 acc ref refs j _ hvalid _ ih | case5 acc ref refs j _ hvalid _ ih =>
    refine ih (fun ref' hmem => hrefs ref' (by simp [hmem])) (fun i l hi => ?_) h
    obtain ⟨rfl, rfl⟩ | ⟨-, hi⟩ := update_eq_some.mp hi
    · exact hrefs ref (by simp) hvalid.1 hvalid.2.1 hvalid.2.2
    · exact hacc i l hi
  | _ => cases h

theorem manifestLocations_build {locs : ι → Option PackLocation}
    (hgood : ∀ i l, locs i = some l → Good D pre bed o i l) {idx : Index ι} {m : PackManifest}
    (h : buildPackManifest D idx locs = some m) :
    m.index = D.writeIndex idx ∧ ∃ locs', manifestLocations D m = some locs' ∧
      (∀ i l, locs' i = some l → Good D pre bed o i l) ∧
      ∀ c ∈ idx, (locs' c.id).isSome = true := by
  obtain ⟨refs, hrefs, rfl⟩ := map_eq_some_iff.mp h
  have hvalid i l (hl : locs i = some l) :=
    And.intro (hgood i l hl).valid (And.intro (hgood i l hl).offset (hgood i l hl).length)
  obtain ⟨locs', hadd, hsub, -, hcovers⟩ :=
    addLocations_refs (D := D) hvalid
      (show ∀ i l, (fun _ => none : ι → Option PackLocation) i = some l →
      locs i = some l from nofun)
      hrefs
  exact ⟨rfl, locs', hadd, fun i l hl => hgood i l (hsub i l hl), hcovers⟩

end Hostel.Sync.Pack
