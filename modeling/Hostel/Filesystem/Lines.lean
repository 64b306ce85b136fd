/-
# Hostel.Filesystem.Lines — reading a range of the lines of a file.

`ReadLines` gets its offset and limit from the query string unchecked: any `int`s, and their sum is
a machine sum.  It answers the range asked for unless the offset is negative or the sum overflows;
then the slice expression panics.
-/
import Hostel.Sync.Objects

namespace Hostel.Filesystem

open Hostel.Sync List Option

def newline : UInt8 := 0x0a

/-- `strings.SplitAfter(s, "\n")`. -/
def splitAfter : Bytes → List Bytes
  | [] => [[]]
  | b :: bs => if b = newline then [b] :: splitAfter bs else (splitAfter bs).modifyHead (b :: ·)

/-- The lines that `ReadLines` counts. -/
def fileLines (data : Bytes) : List Bytes :=
  let lines := splitAfter data
  -- a file that ends with a newline has no line after it
  if lines.getLast? = some [] then lines.dropLast else lines

/-- The slice expression `xs[lo:hi]`; `none` is its panic. -/
def slice (xs : List Bytes) (lo hi : Int) : Option (List Bytes) :=
  if 0 ≤ lo ∧ lo ≤ hi ∧ hi ≤ xs.length then some ((xs.take hi.toNat).drop lo.toNat) else none

/-- `ReadLines` of a file with this content. -/
def readLines (data : Bytes) (offset limit : Int64) : Option Bytes :=
  let lines := fileLines data
  if lines.length ≤ offset.toInt then some []
  else
    let stop : Int :=
      if 0 < limit.toInt ∧ (offset + limit).toInt < lines.length then (offset + limit).toInt
      else lines.length
    (slice lines offset.toInt stop).map flatten

/-! ## The lines of a file -/

/-- The pieces are the lines of the text: each ends with the newline it has, and only the last may
lack one. -/
structure IsLines (data : Bytes) (lines : List Bytes) : Prop where
  join : lines.flatten = data
  shape : ∃ (full : List Bytes) (tail : Bytes), (∀ l ∈ full, newline ∉ l) ∧ newline ∉ tail ∧
    lines = full.map (· ++ [newline]) ++ if tail = [] then [] else [tail]

theorem splitAfter_shape (data : Bytes) :
    ∃ (full : List Bytes) (tail : Bytes), (∀ l ∈ full, newline ∉ l) ∧ newline ∉ tail ∧
      splitAfter data = full.map (· ++ [newline]) ++ [tail] ∧ (splitAfter data).flatten = data := by
  induction data with
  | nil => exact ⟨[], [], by simp, by simp, rfl, rfl⟩
  | cons b bs ih =>
    obtain ⟨full, tail, hfull, htail, hsplit, hjoin⟩ := ih
    by_cases hb : b = newline
    · refine ⟨[] :: full, tail, ?_, htail, ?_, ?_⟩
      · simpa using hfull
      · simp [splitAfter, hb, hsplit]
      · simp [splitAfter, hb, hjoin]
    · -- the byte belongs to the first piece, which is the tail if there is no newline
      cases full with
      | nil =>
        refine ⟨[], b :: tail, by simp, by simp [Ne.symm hb, htail], ?_, ?_⟩
        · simp [splitAfter, hb, hsplit]
        · simpa [splitAfter, hb, hsplit] using hjoin
      | cons l full =>
        refine ⟨(b :: l) :: full, tail, ?_, htail, ?_, ?_⟩
        · obtain ⟨hl, hrest⟩ := forall_mem_cons.mp hfull
          exact forall_mem_cons.mpr ⟨by simp [Ne.symm hb, hl], hrest⟩
        · simp [splitAfter, hb, hsplit]
        · simpa [splitAfter, hb, hsplit] using hjoin

theorem isLines_fileLines (data : Bytes) : IsLines data (fileLines data) := by
  obtain ⟨full, tail, hfull, htail, hsplit, hjoin⟩ := splitAfter_shape data
  have hlines : fileLines data = full.map (· ++ [newline]) ++ if tail = [] then [] else [tail] := by
    by_cases hnil : tail = [] <;> simp [fileLines, hsplit, hnil]
  refine ⟨?_, full, tail, hfull, htail, hlines⟩
  rw [hlines, ← hjoin, hsplit]
  split_ifs with hnil <;> simp [hnil]

/-! ## The range -/

/-- The lines from `offset` on, `limit` of them if it is positive; a negative offset reads as 0. -/
def lineRange (lines : List Bytes) (offset limit : Int) : Bytes :=
  let rest := lines.drop offset.toNat
  (if 0 < limit then rest.take limit.toNat else rest).flatten

theorem toInt_add_of_nonneg {a b : Int64} (ha : 0 ≤ a.toInt) (hb : 0 < b.toInt) :
    (a + b).toInt = a.toInt + b.toInt ∧ a.toInt + b.toInt < 2 ^ 63 ∨
      (a + b).toInt < 0 ∧ 2 ^ 63 ≤ a.toInt + b.toInt := by
  have ha' := a.toInt_lt
  have hb' := b.toInt_lt
  rw [Int64.toInt_add, Int.bmod_def]
  split_ifs <;> omega

/-- `ReadLines` answers the range of lines it is asked for exactly if the offset is not negative
and, when it is a line of the file and the limit is positive, their sum is an `int`. -/
theorem readLines_range_iff (data : Bytes) (offset limit : Int64) :
    IsLines data (fileLines data) ∧
      (readLines data offset limit = some (lineRange (fileLines data) offset.toInt limit.toInt) ↔
        0 ≤ offset.toInt ∧ (offset.toInt < (fileLines data).length → 0 < limit.toInt →
          offset.toInt + limit.toInt < 2 ^ 63)) := by
  refine ⟨isLines_fileLines data, ?_⟩
  have hadd := @toInt_add_of_nonneg offset limit
  simp only [readLines, lineRange]
  generalize (offset + limit).toInt = sum, offset.toInt = off, limit.toInt = lim,
    fileLines data = lines at hadd ⊢
  by_cases hneg : off < 0
  · -- no slice starts below 0
    rw [if_neg (by omega), slice, if_neg (by omega)]
    simp only [map_none, reduceCtorEq, false_iff]
    omega
  by_cases hpast : (lines.length : Int) ≤ off
  · have hdrop : lines.drop off.toNat = [] := drop_eq_nil_of_le (by omega)
    simp only [if_pos hpast, hdrop, take_nil, ite_self, flatten_nil, true_iff]
    omega
  rw [if_neg hpast]
  by_cases hlim : 0 < lim
  · rcases hadd (by omega) hlim with ⟨rfl, hlt⟩ | ⟨hwrap, hge⟩
    · have hrange :
          slice lines off (if 0 < lim ∧ off + lim < lines.length then off + lim else lines.length) =
          some ((lines.drop off.toNat).take lim.toNat) := by
        split_ifs with hend <;> rw [slice, if_pos (by omega), drop_take]
        · rw [show (off + lim).toNat - off.toNat = lim.toNat by omega]
        · rw [take_of_length_le (by simp), take_of_length_le (by simp; omega)]
      simp only [hrange, if_pos hlim, map_some, true_iff]
      omega
    · -- the sum has wrapped to a negative end of the slice
      rw [if_pos ⟨hlim, by omega⟩, slice, if_neg (by omega)]
      simp only [map_none, reduceCtorEq, false_iff]
      omega
  · have hall : lines.take (lines.length : Int).toNat = lines := take_of_length_le (by simp)
    rw [if_neg (fun h => hlim h.1), slice, if_pos (by omega), hall, if_neg hlim]
    simp only [map_some, true_iff]
    omega

/-- One line after the first of two, with the largest limit; and the line before the first. -/
theorem line_range_panics :
    readLines [0x61, newline, 0x62] 1 (Int64.ofInt (2 ^ 63 - 1)) = none ∧
      readLines [0x61, newline, 0x62] (-1) 1 = none := by
  decide

end Hostel.Filesystem
