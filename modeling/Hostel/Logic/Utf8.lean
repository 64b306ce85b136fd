/-
# Hostel.Logic.Utf8 — byte strings read as UTF-8.

`runes` cuts a byte string up as a lenient decoder does: a well-formed sequence is one scalar value,
and a byte that starts none is a rune of its own.  Nothing is lost by the cut
(`flatMap_bytes_runes`), and what is made of scalar values is cut into them again
(`runes_flatMap_encode`).  `repair` replaces every invalid byte by U+FFFD; it is the identity on the
valid strings and nowhere else.

The encoder and the decoder of one scalar value are the ones of the core library.
-/
import Mathlib.Data.List.Basic
import Mathlib.Tactic.Ring

namespace Hostel.Logic

open List

namespace Utf8

def ascii (s : String) : List UInt8 := s.toList.map fun c => c.val.toUInt8

variable {s t : List UInt8} {c : Char}

abbrev encode (c : Char) : List UInt8 := String.utf8EncodeChar c

/-- The scalar value that a well-formed sequence at the front encodes. -/
def front (s : List UInt8) : Option Char := s.toByteArray.utf8DecodeChar? 0

theorem front_append (c : Char) (t : List UInt8) : front (encode c ++ t) = some c := by
  rw [front, toByteArray_append]
  exact ByteArray.utf8DecodeChar?_utf8EncodeChar_append

theorem eq_append_of_front (h : front s = some c) : s = encode c ++ s.drop c.utf8Size := by
  obtain ⟨l, hl⟩ := ByteArray.exists_of_utf8DecodeChar?_eq_some h
  have hs : s = encode c ++ l.data.toList := by
    have := congrArg (fun b : ByteArray => b.data.toList) hl
    simpa using this
  have hdrop : s.drop c.utf8Size = l.data.toList := by
    rw [hs, ← String.length_utf8EncodeChar c]
    exact drop_left
  rw [hdrop, ← hs]

theorem encode_eq_cons (c : Char) :
    ∃ b l, encode c = b :: l ∧ (0x80 ≤ b.toNat ↔ 0x80 ≤ c.toNat) ∧
      (c.toNat < 0x80 → b.toNat = c.toNat ∧ l = []) := by
  show ∃ b l, String.utf8EncodeChar c = b :: l ∧ _ ∧ _
  have hc : c.val.toNat = c.toNat := rfl
  fun_cases String.utf8EncodeChar c with
  | case1 v hv =>
    refine ⟨_, _, rfl, ?_, fun _ => ⟨?_, rfl⟩⟩ <;> simp only [UInt8.toNat_ofNat'] <;> omega
  | case2 v hv hv' | case3 v hv hv' hv'' | case4 v hv hv' hv'' =>
    refine ⟨_, _, rfl, ?_, fun h => ?_⟩ <;> simp only [UInt8.toNat_ofNat'] <;> omega

/-- A piece of a byte string: a scalar value, or a byte that starts none. -/
inductive Rune
  | scalar (c : Char)
  | invalid (b : UInt8)
  deriving DecidableEq, Repr

def Rune.bytes : Rune → List UInt8
  | .scalar c => encode c
  | .invalid b => [b]

/-- The scalar value a lenient reader takes the rune for. -/
def Rune.toChar : Rune → Char
  | .scalar c => c
  | .invalid _ => '\ufffd'

def Rune.isScalar : Rune → Bool
  | .scalar _ => true
  | .invalid _ => false

/-- The first runes of a byte string, at most `n` of them. -/
def cut : Nat → List UInt8 → List Rune
  | 0, _ | _ + 1, [] => []
  | n + 1, b :: s =>
    match front (b :: s) with
    | some c => .scalar c :: cut n (s.drop (c.utf8Size - 1))
    | none => .invalid b :: cut n s

/-- The runes of a byte string; every one takes a byte, so the length bounds their number. -/
def runes (s : List UInt8) : List Rune := cut s.length s

/-- A string is cut from the front: a scalar value or an invalid byte at a time. -/
@[elab_as_elim]
theorem front_induction {P : List UInt8 → Prop} (s : List UInt8) (nil : P [])
    (scalar : ∀ c t, P t → P (encode c ++ t))
    (invalid : ∀ b t, front (b :: t) = none → P t → P (b :: t)) : P s := by
  induction hn : s.length using Nat.strongRecOn generalizing s with
  | ind n ih =>
    cases s with
    | nil => exact nil
    | cons b s =>
      rw [length_cons] at hn
      cases h : front (b :: s) with
      | none => exact invalid b s h (ih s.length (by omega) s rfl)
      | some c =>
        have hpos := c.utf8Size_pos
        rw [eq_append_of_front h]
        refine scalar c _ (ih _ ?_ _ rfl)
        rw [length_drop, length_cons]
        omega

/-- More fuel than bytes changes nothing. -/
theorem cut_eq_runes {n : Nat} (h : s.length ≤ n) : cut n s = runes s := by
  have hcut : ∀ m n (s : List UInt8), s.length ≤ m → s.length ≤ n → cut m s = cut n s := by
    intro m
    induction m with
    | zero =>
      intro n s hm _
      have hs : s = [] := length_eq_zero_iff.mp (by omega)
      subst hs
      cases n <;> rfl
    | succ m ih =>
      intro n s hm hn
      cases s with
      | nil => cases n <;> rfl
      | cons b s =>
        rw [length_cons] at hm hn
        obtain ⟨k, rfl⟩ : ∃ k, n = k + 1 := ⟨n - 1, by omega⟩
        simp only [cut]
        cases front (b :: s) with
        | none => simp only [ih k s (by omega) (by omega)]
        | some c =>
          have hlen := length_drop (i := c.utf8Size - 1) (l := s)
          simp only [ih k (s.drop (c.utf8Size - 1)) (by omega) (by omega)]
  exact hcut n s.length s h (Nat.le_refl _)

@[simp] theorem runes_nil : runes [] = [] := rfl

@[simp] theorem runes_encode_append (c : Char) (t : List UInt8) :
    runes (encode c ++ t) = .scalar c :: runes t := by
  obtain ⟨b, l, hl, -⟩ := encode_eq_cons c
  have hfront : front (b :: (l ++ t)) = some c := by
    have := front_append c t
    rwa [hl] at this
  have hsize : c.utf8Size - 1 = l.length := by
    have := String.length_utf8EncodeChar c
    rw [show String.utf8EncodeChar c = b :: l from hl, length_cons] at this
    omega
  rw [hl, cons_append, runes, length_cons, cut, hfront]
  simp only [hsize, drop_left]
  rw [cut_eq_runes (by simp)]

theorem runes_of_front_none {b : UInt8} (h : front (b :: s) = none) :
    runes (b :: s) = .invalid b :: runes s := by
  rw [runes, length_cons, cut, h, cut_eq_runes (Nat.le_refl _)]

theorem runes_flatMap_encode (cs : List Char) : runes (cs.flatMap encode) = cs.map .scalar := by
  induction cs with
  | nil => rfl
  | cons c cs ih => simp only [flatMap_cons, runes_encode_append, ih, map_cons]

theorem flatMap_bytes_runes (s : List UInt8) : (runes s).flatMap Rune.bytes = s := by
  induction s using front_induction with
  | nil => rfl
  | scalar c t ih => rw [runes_encode_append, flatMap_cons, ih]; rfl
  | invalid b t h ih => rw [runes_of_front_none h, flatMap_cons, ih]; rfl

example : runes [65, 0xff, 0xe2, 0x80, 0xa8, 0xc3] =
    [.scalar 'A', .invalid 0xff, .scalar '\u2028', .invalid 0xc3] := by decide

/-- `utf8.Valid`: every rune is a scalar value. -/
def valid (s : List UInt8) : Bool := (runes s).all Rune.isScalar

/-- The string with U+FFFD in the place of every invalid byte. -/
def repair (s : List UInt8) : List UInt8 := (runes s).flatMap fun r => encode r.toChar

theorem runes_repair (s : List UInt8) :
    runes (repair s) = (runes s).map fun r => .scalar r.toChar := by
  have h : repair s = ((runes s).map Rune.toChar).flatMap encode := by
    rw [flatMap_map]
    rfl
  rw [h, runes_flatMap_encode, map_map]
  rfl

theorem valid_repair (s : List UInt8) : valid (repair s) = true := by
  simp [valid, runes_repair, Rune.isScalar]

theorem repair_of_valid (h : valid s = true) : repair s = s := by
  have hrunes : ∀ r ∈ runes s, encode r.toChar = r.bytes := by
    intro r hr
    cases r with
    | scalar c => rfl
    | invalid b => exact absurd (all_eq_true.mp h _ hr) (by simp [Rune.isScalar])
  calc repair s = (runes s).flatMap Rune.bytes := flatMap_congr hrunes
    _ = s := flatMap_bytes_runes s

theorem repair_eq_self_iff : repair s = s ↔ valid s = true :=
  ⟨fun h => h ▸ valid_repair s, repair_of_valid⟩

theorem repair_flatMap_encode (cs : List Char) :
    repair (cs.flatMap encode) = cs.flatMap encode := by
  refine repair_of_valid ?_
  rw [valid, runes_flatMap_encode]
  simp [Rune.isScalar]

@[simp] theorem repair_repair (s : List UInt8) : repair (repair s) = repair s :=
  repair_of_valid (valid_repair s)

@[simp] theorem repair_eq_nil_iff : repair s = [] ↔ s = [] := by
  constructor
  · intro h
    have hrunes := runes_repair s
    rw [h, runes_nil] at hrunes
    rw [← flatMap_bytes_runes s, map_eq_nil_iff.mp hrunes.symm]
    rfl
  · rintro rfl
    rfl

theorem encode_ofNat {b : UInt8} (h : b.toNat < 0x80) : encode (Char.ofNat b.toNat) = [b] := by
  have hc : (Char.ofNat b.toNat).toNat = b.toNat := by
    rw [Char.ofNat, dif_pos (show b.toNat.isValidChar from Or.inl (by omega))]
    rfl
  obtain ⟨b', l, hl, -, hascii⟩ := encode_eq_cons (Char.ofNat b.toNat)
  obtain ⟨hb, rfl⟩ := hascii (by omega)
  rw [hl, UInt8.toNat_inj.mp (hb.trans hc)]

theorem repair_of_ascii (h : ∀ b ∈ s, b.toNat < 0x80) : repair s = s := by
  have hs : s = (s.map fun b => Char.ofNat b.toNat).flatMap encode := by
    rw [flatMap_map]
    calc s = s.flatMap fun b => [b] := (flatMap_singleton' s).symm
      _ = _ := flatMap_congr fun b hb => (encode_ofNat (h b hb)).symm
  rw [hs, repair_flatMap_encode]

end Utf8

end Hostel.Logic
