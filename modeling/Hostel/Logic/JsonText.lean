/-
# Hostel.Logic.JsonText — the strings of JSON text.

The encoder writes HTML characters, control characters and the two line separators as escapes, every
other scalar value as it is, and an invalid byte as the escape of U+FFFD.  The decoder reads
escapes, surrogate pairs among them, and takes invalid bytes for U+FFFD.  So a string comes back
repaired (`unquote_quoteBody`), and the encoding of an invalid byte is longer than that of the
U+FFFD it comes back as (`length_quote_repair`).
-/
import Hostel.Logic.Utf8

namespace Hostel.Logic.Json

open Utf8 List Option

variable {s t : List UInt8}

def hexDigit (n : Nat) : UInt8 := if n < 10 then UInt8.ofNat (48 + n) else UInt8.ofNat (87 + n)

def hexValue (b : UInt8) : Option Nat :=
  if 48 ≤ b.toNat ∧ b.toNat ≤ 57 then some (b.toNat - 48)
  else if 97 ≤ b.toNat ∧ b.toNat ≤ 102 then some (b.toNat - 87)
  else if 65 ≤ b.toNat ∧ b.toNat ≤ 70 then some (b.toNat - 55)
  else none

theorem hexValue_hexDigit : ∀ n, n < 16 → hexValue (hexDigit n) = some n := by decide

/-- The escapes of two characters: what follows the backslash, and the byte it stands for. -/
def shortEscapes : List (UInt8 × UInt8) :=
  [(0x5c, 0x5c), (0x22, 0x22), (0x62, 0x08), (0x66, 0x0c), (0x6e, 0x0a), (0x72, 0x0d), (0x74, 0x09)]

/-- Whether the encoder writes the character as an escape of four hexadecimal digits. -/
def isWide (c : Char) : Bool :=
  decide (c.toNat < 0x20) || c == '<' || c == '>' || c == '&' || c == '\u2028' ||
    c == '\u2029'

/-- The escape of four hexadecimal digits. -/
def wideEscape (n : Nat) : List UInt8 :=
  [0x5c, 0x75, hexDigit (n / 4096), hexDigit (n / 256 % 16), hexDigit (n / 16 % 16),
    hexDigit (n % 16)]

/-- What the encoder writes for a rune. -/
def escape : Rune → List UInt8
  | .invalid _ => wideEscape 0xfffd
  | .scalar c =>
    match shortEscapes.find? fun p => p.2.toNat = c.toNat with
    | some p => [0x5c, p.1]
    | none => if isWide c then wideEscape c.toNat else encode c

/-- The encoding of a string without its quotes. -/
def quoteBody (s : List UInt8) : List UInt8 := (runes s).flatMap escape

def quote (s : List UInt8) : List UInt8 := 0x22 :: (quoteBody s ++ [0x22])

/-- The value of the four digits of an escape at the front. -/
def getu4 : List UInt8 → Option Nat
  | x :: u :: a :: b :: c :: d :: _ =>
    if x = 0x5c ∧ u = 0x75 then do
      let a ← hexValue a
      let b ← hexValue b
      let c ← hexValue c
      let d ← hexValue d
      return ((a * 16 + b) * 16 + c) * 16 + d
    else none
  | _ => none

def isSurrogate (r : Nat) : Bool := decide (0xd800 ≤ r ∧ r < 0xe000)

/-- The character two surrogates make. -/
def pairChar (r₁ r₂ : Nat) : Option Char :=
  if (0xd800 ≤ r₁ ∧ r₁ < 0xdc00) ∧ 0xdc00 ≤ r₂ ∧ r₂ < 0xe000 then
    some (Char.ofNat ((r₁ - 0xd800) * 1024 + (r₂ - 0xdc00) + 0x10000))
  else none

/-- The byte an escape of two characters stands for; the decoder also knows the escaped slash. -/
def shortValue (e : UInt8) : Option UInt8 :=
  if e = 0x2f then some 0x2f else (shortEscapes.find? fun p => p.1 = e).map Prod.snd

/-- The decoder's next step inside a string: the bytes it produces, and what is left. -/
def unquoteOne : List UInt8 → Option (List UInt8 × List UInt8)
  | [] => none
  | b :: s =>
    if b = 0x5c then
      match getu4 (b :: s) with
      | some r =>
        let t := s.drop 5
        if isSurrogate r then
          match (getu4 t).bind (pairChar r) with
          | some c => some (encode c, t.drop 6)
          | none => some (encode '\ufffd', t)
        else some (encode (Char.ofNat r), t)
      | none =>
        match s with
        | e :: t => (shortValue e).map fun x => ([x], t)
        | [] => none
    else if b = 0x22 ∨ b < 0x20 then none
    else if b < 0x80 then some ([b], s)
    else
      match front (b :: s) with
      | some c => some (encode c, (b :: s).drop c.utf8Size)
      | none => some (encode '\ufffd', s)

/-- The decoder inside a string, for at most `n` steps: the string and what follows its closing
quote. -/
def unquote : Nat → List UInt8 → Option (List UInt8 × List UInt8)
  | 0, _ | _ + 1, [] => none
  | n + 1, b :: s =>
    if b = 0x22 then some ([], s)
    else do
      let (x, t) ← unquoteOne (b :: s)
      let (y, u) ← unquote n t
      return (x ++ y, u)

variable {n : Nat}

theorem getu4_wideEscape (h : n < 65536) (t : List UInt8) : getu4 (wideEscape n ++ t) = some n := by
  simp only [wideEscape, cons_append, nil_append, getu4, and_self, if_true,
    hexValue_hexDigit _ (show n / 4096 < 16 by omega),
    hexValue_hexDigit _ (show n / 256 % 16 < 16 by omega),
    hexValue_hexDigit _ (show n / 16 % 16 < 16 by omega),
    hexValue_hexDigit _ (show n % 16 < 16 by omega)]
  show some _ = some _
  congr 1
  omega

theorem unquoteOne_wideEscape (h : n < 65536) (hs : isSurrogate n = false) (t : List UInt8) :
    unquoteOne (wideEscape n ++ t) = some (encode (Char.ofNat n), t) := by
  have hg := getu4_wideEscape h t
  simp only [wideEscape, cons_append, nil_append] at hg ⊢
  simp only [unquoteOne, if_true, hg, hs, drop_succ_cons, drop_zero, Bool.false_eq_true, if_false]

theorem shortEscapes_spec {p : UInt8 × UInt8} (hp : p ∈ shortEscapes) :
    p.1 ≠ 0x75 ∧ shortValue p.1 = some p.2 ∧ p.2.toNat < 0x80 := by
  have hall : shortEscapes.all (fun p => p.1 ≠ 0x75 ∧ shortValue p.1 = some p.2 ∧
      p.2.toNat < 0x80) := by decide
  exact of_decide_eq_true (all_eq_true.mp hall p hp)

/-- A short escape is no escape of four digits, so it is read by the table. -/
theorem unquoteOne_shortEscape {p : UInt8 × UInt8} (hp : p ∈ shortEscapes) (t : List UInt8) :
    unquoteOne (0x5c :: p.1 :: t) = some ([p.2], t) := by
  obtain ⟨hne, hvalue, -⟩ := shortEscapes_spec hp
  have hg : getu4 (0x5c :: p.1 :: t) = none := by
    unfold getu4
    split
    · next heq =>
      simp only [cons.injEq] at heq
      exact if_neg fun h => hne (heq.2.1.trans h.2)
    · rfl
  simp [unquoteOne, hg, hvalue]

theorem unquoteOne_encode {c : Char} (hw : isWide c = false)
    (hs : ∀ p ∈ shortEscapes, p.2.toNat ≠ c.toNat) (t : List UInt8) :
    unquoteOne (encode c ++ t) = some (encode c, t) := by
  obtain ⟨b, l, hl, hb, hascii⟩ := encode_eq_cons c
  have hfront := front_append c t
  have hdrop : (encode c ++ t).drop c.utf8Size = t := by
    rw [← String.length_utf8EncodeChar c, drop_left]
  have hquote := hs (0x22, 0x22) (by decide)
  have hslash := hs (0x5c, 0x5c) (by decide)
  have hctl : 0x20 ≤ c.toNat := by
    by_contra hlt
    simp [isWide, show c.toNat < 0x20 by omega] at hw
  rw [hl] at hfront hdrop ⊢
  rw [cons_append] at hfront hdrop ⊢
  by_cases hc : c.toNat < 0x80
  · obtain ⟨hbc, rfl⟩ := hascii hc
    have h₁ : b ≠ 0x5c := fun h => hslash (by rw [← hbc, h])
    have h₂ : ¬(b = 0x22 ∨ b < 0x20) := by
      rintro (h | h)
      · exact hquote (by rw [← hbc, h])
      · have := UInt8.lt_iff_toNat_lt.mp h
        simp at this
        omega
    have h₃ : b < 0x80 := UInt8.lt_iff_toNat_lt.mpr (by simpa [hbc] using hc)
    simp only [unquoteOne, if_neg h₁, if_neg h₂, if_pos h₃, nil_append]
  · have hb' : 0x80 ≤ b.toNat := hb.mpr (by omega)
    have h₁ : b ≠ 0x5c := fun h => by simp [h] at hb'
    have h₂ : ¬(b = 0x22 ∨ b < 0x20) := by
      rintro (h | h)
      · simp [h] at hb'
      · have := UInt8.lt_iff_toNat_lt.mp h
        simp at this
        omega
    have h₃ : ¬b < 0x80 := fun h => by
      have := UInt8.lt_iff_toNat_lt.mp h
      simp at this
      omega
    simp only [unquoteOne, if_neg h₁, if_neg h₂, if_neg h₃, hfront, hdrop, hl]

theorem unquoteOne_escape (r : Rune) (t : List UInt8) :
    unquoteOne (escape r ++ t) = some (encode r.toChar, t) := by
  cases r with
  | invalid b => exact unquoteOne_wideEscape (by decide) (by decide) t
  | scalar c =>
    show unquoteOne ((match shortEscapes.find? fun p => p.2.toNat = c.toNat with
      | some p => [0x5c, p.1]
      | none => if isWide c then wideEscape c.toNat else encode c) ++ t) = some (encode c, t)
    cases hp : shortEscapes.find? fun p => p.2.toNat = c.toNat with
    | some p =>
      have hmem := mem_of_find?_eq_some hp
      have hval : p.2.toNat = c.toNat := by simpa using find?_some hp
      rw [show [0x5c, p.1] ++ t = 0x5c :: p.1 :: t from rfl, unquoteOne_shortEscape hmem]
      have hsmall : p.2.toNat < 0x80 := (shortEscapes_spec hmem).2.2
      obtain ⟨b, l, hl, -, hascii⟩ := encode_eq_cons c
      obtain ⟨hbc, rfl⟩ := hascii (by omega)
      rw [hl, UInt8.toNat_inj.mp (hval.trans hbc.symm)]
    | none =>
      have hno : ∀ p ∈ shortEscapes, p.2.toNat ≠ c.toNat := by simpa using find?_eq_none.mp hp
      by_cases hw : isWide c = true
      · have hsmall : c.toNat < 0x2030 := by
          simp only [isWide, Bool.or_eq_true, decide_eq_true_eq, beq_iff_eq] at hw
          rcases hw with ((((h | rfl) | rfl) | rfl) | rfl) | rfl
          · omega
          all_goals decide
        simp only [if_pos hw]
        rw [unquoteOne_wideEscape (by omega) (by simp [isSurrogate]; omega), Char.ofNat_toNat]
      · simp only [if_neg hw]
        exact unquoteOne_encode (by simpa using hw) hno t

theorem escape_eq_cons (r : Rune) : ∃ b l, escape r = b :: l ∧ b ≠ 0x22 := by
  cases h : escape r with
  | nil =>
    have := unquoteOne_escape r []
    rw [h] at this
    cases this
  | cons b l =>
    refine ⟨b, l, rfl, ?_⟩
    rintro rfl
    have := unquoteOne_escape r []
    rw [h] at this
    simp [unquoteOne] at this

theorem unquote_flatMap_escape (rs : List Rune) (t : List UInt8) (h : rs.length < n) :
    unquote n (rs.flatMap escape ++ 0x22 :: t) = some (rs.flatMap fun r => encode r.toChar, t) := by
  induction rs generalizing n with
  | nil =>
    obtain ⟨m, rfl⟩ : ∃ m, n = m + 1 := ⟨n - 1, by omega⟩
    simp [unquote]
  | cons r rs ih =>
    rw [length_cons] at h
    obtain ⟨m, rfl⟩ : ∃ m, n = m + 1 := ⟨n - 1, by omega⟩
    obtain ⟨b, l, hl, hb⟩ := escape_eq_cons r
    have hone := unquoteOne_escape r (rs.flatMap escape ++ 0x22 :: t)
    rw [hl, cons_append] at hone
    rw [flatMap_cons, append_assoc, hl, cons_append, unquote, if_neg hb, hone]
    simp [ih (show rs.length < m by omega)]

theorem length_runes_le (s : List UInt8) : (runes s).length ≤ (quoteBody s).length := by
  unfold quoteBody
  induction runes s with
  | nil => exact Nat.le_refl _
  | cons r rs ih =>
    obtain ⟨b, l, hl, -⟩ := escape_eq_cons r
    simp only [flatMap_cons, length_append, length_cons, hl]
    omega

theorem unquote_quoteBody (s t : List UInt8) (h : (quoteBody s).length < n) :
    unquote n (quoteBody s ++ 0x22 :: t) = some (repair s, t) :=
  unquote_flatMap_escape (runes s) t (Nat.lt_of_le_of_lt (length_runes_le s) h)

/-- Repairing a string never makes its encoding longer, and it makes it shorter where a byte was
invalid. -/
theorem length_escape_repaired (rs : List Rune) :
    ((rs.map fun r => Rune.scalar r.toChar).flatMap escape).length ≤ (rs.flatMap escape).length ∧
      (((rs.map fun r => Rune.scalar r.toChar).flatMap escape).length = (rs.flatMap escape).length →
        rs.all Rune.isScalar = true) := by
  induction rs with
  | nil => exact ⟨Nat.le_refl _, fun _ => rfl⟩
  | cons r rs ih =>
    simp only [map_cons, flatMap_cons, length_append, all_cons, Bool.and_eq_true]
    cases r with
    | scalar c =>
      rw [show Rune.toChar (.scalar c) = c from rfl]
      exact ⟨by omega, fun h => ⟨rfl, ih.2 (by omega)⟩⟩
    | invalid b =>
      have h₁ : (escape (Rune.scalar (Rune.toChar (.invalid b)))).length = 3 := by
        show (escape (Rune.scalar '\ufffd')).length = 3
        decide
      have h₂ : (escape (.invalid b)).length = 6 := rfl
      rw [h₁, h₂]
      exact ⟨by omega, fun h => by omega⟩

theorem length_quote_repair (s : List UInt8) :
    (quote (repair s)).length ≤ (quote s).length ∧
      ((quote (repair s)).length = (quote s).length → repair s = s) := by
  have h := length_escape_repaired (runes s)
  simp only [quote, quoteBody, runes_repair, length_cons, length_append]
  exact ⟨by omega, fun heq => repair_of_valid (h.2 (by omega))⟩

theorem shortValue_lt {e x : UInt8} (h : shortValue e = some x) : x.toNat < 0x80 := by
  unfold shortValue at h
  split_ifs at h with he
  · cases h
    decide
  · obtain ⟨p, hp, rfl⟩ := map_eq_some_iff.mp h
    exact (shortEscapes_spec (mem_of_find?_eq_some hp)).2.2

theorem encoded_of_unquoteOne {x : List UInt8} (h : unquoteOne s = some (x, t)) :
    ∃ c, x = encode c := by
  cases s with
  | nil => cases h
  | cons b s =>
    simp only [unquoteOne] at h
    split_ifs at h with h₁ h₂ h₃
    · -- an escape
      split at h
      · next r hr =>
        split_ifs at h
        · split at h <;> cases h <;> exact ⟨_, rfl⟩
        · cases h
          exact ⟨_, rfl⟩
      · split at h
        · obtain ⟨y, hy, he⟩ := map_eq_some_iff.mp h
          cases he
          exact ⟨Char.ofNat y.toNat, (encode_ofNat (shortValue_lt hy)).symm⟩
        · cases h
    · cases h
      exact ⟨Char.ofNat b.toNat, (encode_ofNat (UInt8.lt_iff_toNat_lt.mp h₃)).symm⟩
    · split at h <;> cases h <;> exact ⟨_, rfl⟩

theorem repair_of_unquote {x : List UInt8} (h : unquote n s = some (x, t)) : repair x = x := by
  have hcs : ∃ cs : List Char, x = cs.flatMap encode := by
    induction n generalizing s x with
    | zero => cases h
    | succ n ih =>
      cases s with
      | nil => cases h
      | cons b s =>
        simp only [unquote] at h
        split_ifs at h with hb
        · cases h
          exact ⟨[], rfl⟩
        · obtain ⟨⟨y, u⟩, hy, h⟩ := bind_eq_some_iff.mp h
          obtain ⟨⟨z, v⟩, hz, h⟩ := bind_eq_some_iff.mp h
          cases h
          obtain ⟨c, rfl⟩ := encoded_of_unquoteOne hy
          obtain ⟨cs, rfl⟩ := ih hz
          exact ⟨c :: cs, rfl⟩
  obtain ⟨cs, rfl⟩ := hcs
  exact repair_flatMap_encode cs

end Hostel.Logic.Json
