/-
# Hostel.Logic.Json — JSON values as bytes, and back.

`render` is the compact encoder and `parse` a recursive-descent decoder of the whole grammar.
Strings are byte strings, so a value comes back with its strings repaired (`parse_render`); a value
without anything to repair is told from every other one (`eq_of_render_eq`).
-/
import Hostel.Logic.JsonText

namespace Hostel.Logic

/-- A JSON value; the strings are byte strings, and a number that is not an integer keeps its
text. -/
inductive Json
  | null
  | bool (b : Bool)
  | int (n : Int)
  | real (text : List UInt8)
  | str (s : List UInt8)
  | arr (elems : List Json)
  | obj (members : List (List UInt8 × Json))

namespace Json

open Utf8 List Option Nat Bool

/-! ## The encoder -/

def digits (n : Nat) : List UInt8 := (toDigits 10 n).map fun c => c.val.toUInt8

def renderInt : Int → List UInt8
  | .ofNat n => digits n
  | .negSucc n => 0x2d :: digits (n + 1)

mutual

def render : Json → List UInt8
  | .null => ascii "null"
  | .bool b => ascii (if b then "true" else "false")
  | .int n => renderInt n
  | .real text => text
  | .str s => quote s
  | .arr [] => [0x5b, 0x5d]
  | .arr (v :: vs) => 0x5b :: (render v ++ renderElems vs)
  | .obj [] => [0x7b, 0x7d]
  | .obj ((k, v) :: ms) => 0x7b :: (quote k ++ 0x3a :: (render v ++ renderMembers ms))

/-- The rest of an array after one of its elements. -/
def renderElems : List Json → List UInt8
  | [] => [0x5d]
  | v :: vs => 0x2c :: (render v ++ renderElems vs)

/-- The rest of an object after one of its members. -/
def renderMembers : List (List UInt8 × Json) → List UInt8
  | [] => [0x7d]
  | (k, v) :: ms => 0x2c :: (quote k ++ 0x3a :: (render v ++ renderMembers ms))

end

/-! ## The decoder -/

def isBlank (b : UInt8) : Bool := b == 0x20 || b == 0x09 || b == 0x0a || b == 0x0d

def skip (s : List UInt8) : List UInt8 := s.dropWhile isBlank

def isDigit (b : UInt8) : Bool := decide (0x30 ≤ b.toNat ∧ b.toNat ≤ 0x39)

def digitsValue (ds : List UInt8) : Nat := ds.foldl (fun n b => 10 * n + (b.toNat - 0x30)) 0

/-- The digits of an integer part: a zero, or digits that do not start with one. -/
def intPart : List UInt8 → Option (List UInt8 × List UInt8)
  | [] => none
  | b :: s =>
    if b = 0x30 then some ([b], s)
    else if isDigit b then some (b :: s.takeWhile isDigit, s.dropWhile isDigit)
    else none

def someDigits (s : List UInt8) : Option (List UInt8 × List UInt8) :=
  if s.takeWhile isDigit = [] then none else some (s.takeWhile isDigit, s.dropWhile isDigit)

def fracPart : List UInt8 → Option (List UInt8 × List UInt8)
  | [] => some ([], [])
  | b :: s => if b = 0x2e then (someDigits s).map fun p => (b :: p.1, p.2) else some ([], b :: s)

def expPart : List UInt8 → Option (List UInt8 × List UInt8)
  | [] => some ([], [])
  | b :: s =>
    if b = 0x65 ∨ b = 0x45 then
      match s with
      | [] => none
      | x :: t =>
        if x = 0x2b ∨ x = 0x2d then (someDigits t).map fun p => (b :: x :: p.1, p.2)
        else (someDigits s).map fun p => (b :: p.1, p.2)
    else some ([], b :: s)

def unsigned (negative : Bool) (s : List UInt8) : Option (Json × List UInt8) := do
  let (i, s) ← intPart s
  let (f, s) ← fracPart s
  let (e, s) ← expPart s
  let sign : List UInt8 := if negative then [0x2d] else []
  if f = [] ∧ e = [] then
    return (.int (if negative then -(digitsValue i : Int) else digitsValue i), s)
  else return (.real (sign ++ i ++ f ++ e), s)

def number : List UInt8 → Option (Json × List UInt8)
  | [] => none
  | b :: s => if b = 0x2d then unsigned true s else unsigned false (b :: s)

def literal (word : List UInt8) (v : Json) (s : List UInt8) : Option (Json × List UInt8) :=
  if word.isPrefixOf s then some (v, s.drop word.length) else none

mutual

/-- A value; the fuel bounds the tokens. -/
def value : Nat → List UInt8 → Option (Json × List UInt8)
  | 0, _ => none
  | n + 1, s =>
    match skip s with
    | [] => none
    | b :: t =>
      if b = 0x22 then (unquote n t).map fun p => (.str p.1, p.2)
      else if b = 0x5b then
        match skip t with
        | [] => none
        | x :: u =>
          if x = 0x5d then some (.arr [], u) else (elems n t).map fun p => (.arr p.1, p.2)
      else if b = 0x7b then
        match skip t with
        | [] => none
        | x :: u =>
          if x = 0x7d then some (.obj [], u) else (members n t).map fun p => (.obj p.1, p.2)
      else if b = 0x6e then literal (ascii "null") .null (b :: t)
      else if b = 0x74 then literal (ascii "true") (.bool true) (b :: t)
      else if b = 0x66 then literal (ascii "false") (.bool false) (b :: t)
      else number (b :: t)

/-- The elements of an array that has one. -/
def elems : Nat → List UInt8 → Option (List Json × List UInt8)
  | 0, _ => none
  | n + 1, s => do
    let (v, s) ← value n s
    match skip s with
    | [] => none
    | b :: t =>
      if b = 0x5d then some ([v], t)
      else if b = 0x2c then (elems n t).map fun p => (v :: p.1, p.2)
      else none

/-- The members of an object that has one. -/
def members : Nat → List UInt8 → Option (List (List UInt8 × Json) × List UInt8)
  | 0, _ => none
  | n + 1, s =>
    match skip s with
    | [] => none
    | q :: s =>
      if q = 0x22 then do
        let (k, s) ← unquote n s
        match skip s with
        | [] => none
        | c :: s =>
          if c = 0x3a then do
            let (v, s) ← value n s
            match skip s with
            | [] => none
            | b :: t =>
              if b = 0x7d then some ([(k, v)], t)
              else if b = 0x2c then (members n t).map fun p => ((k, v) :: p.1, p.2)
              else none
          else none
      else none

end

def parse (s : List UInt8) : Option Json := do
  let (v, t) ← value (s.length + 1) s
  if skip t = [] then some v else none

/-! ## Round trip -/

mutual

def repaired : Json → Json
  | .null => .null
  | .bool b => .bool b
  | .int n => .int n
  | .real text => .real text
  | .str s => .str (repair s)
  | .arr vs => .arr (repairedElems vs)
  | .obj ms => .obj (repairedMembers ms)

def repairedElems : List Json → List Json
  | [] => []
  | v :: vs => repaired v :: repairedElems vs

def repairedMembers : List (List UInt8 × Json) → List (List UInt8 × Json)
  | [] => []
  | (k, v) :: ms => (repair k, repaired v) :: repairedMembers ms

end

mutual

/-- No number but integers. -/
def integral : Json → Bool
  | .real _ => false
  | .arr vs => integralElems vs
  | .obj ms => integralMembers ms
  | _ => true

def integralElems : List Json → Bool
  | [] => true
  | v :: vs => integral v && integralElems vs

def integralMembers : List (List UInt8 × Json) → Bool
  | [] => true
  | (_, v) :: ms => integral v && integralMembers ms

end

/-- What may follow a number without becoming part of it. -/
def endsNumber : List UInt8 → Bool
  | [] => true
  | b :: _ => !(isDigit b || b == 0x2e || b == 0x65 || b == 0x45)

/-! ### Numbers -/

theorem toDigits_head (n : Nat) : ∃ c l, Nat.toDigits 10 n = c :: l ∧ (c = '0' → l = []) := by
  induction n using Nat.strongRecOn with
  | ind n ih =>
    rw [toDigits_eq_if (by decide)]
    split
    · exact ⟨_, _, rfl, fun _ => rfl⟩
    · next hn =>
      obtain ⟨c, l, hl, hc⟩ := ih (n / 10) (by omega)
      refine ⟨c, l ++ [digitChar (n % 10)], by rw [hl]; rfl, ?_⟩
      rintro rfl
      -- the quotient is not zero, so it is not written as a zero
      rw [hc rfl] at hl
      have hval := ofDigitChars_ten_toDigits (n := n / 10)
      rw [hl] at hval
      have : n / 10 = 0 := by rw [← hval]; rfl
      omega

theorem toNat_toUInt8_of_isDigit {c : Char} (h : c.isDigit = true) :
    c.val.toUInt8.toNat = c.toNat ∧ 0x30 ≤ c.toNat ∧ c.toNat ≤ 0x39 := by
  simp only [Char.isDigit, and_eq_true, decide_eq_true_eq] at h
  have h₁ := UInt32.le_iff_toNat_le.mp h.1
  have h₂ := UInt32.le_iff_toNat_le.mp h.2
  have hc : c.val.toNat = c.toNat := rfl
  simp only [UInt32.toNat_toUInt8]
  have h₁' : 0x30 ≤ c.toNat := h₁
  have h₂' : c.toNat ≤ 0x39 := h₂
  omega

theorem isDigit_of_mem_digits {n : Nat} : ∀ b ∈ digits n, isDigit b = true := by
  intro b hb
  obtain ⟨c, hc, rfl⟩ := mem_map.mp hb
  obtain ⟨h, h₁, h₂⟩ :=
    toNat_toUInt8_of_isDigit (isDigit_of_mem_toDigits (by decide) (by decide) hc)
  simp only [isDigit, h, decide_eq_true_eq]
  exact ⟨h₁, h₂⟩

theorem digitsValue_digits (n : Nat) : digitsValue (digits n) = n := by
  have hdig : ∀ c ∈ toDigits 10 n, c.val.toUInt8.toNat = c.toNat := fun c hc =>
    (toNat_toUInt8_of_isDigit (isDigit_of_mem_toDigits (by decide) (by decide) hc)).1
  calc digitsValue (digits n)
      = (toDigits 10 n).foldl (fun m c => 10 * m + (c.val.toUInt8.toNat - 0x30)) 0 := by
        rw [digitsValue, digits, foldl_map]
    _ = (toDigits 10 n).foldl (fun m c => 10 * m + (c.toNat - '0'.toNat)) 0 :=
        foldl_ext _ _ 0 fun m c hc => by rw [hdig c hc]; rfl
    _ = n := by rw [← ofDigitChars_eq_foldl, ofDigitChars_ten_toDigits]

theorem digits_eq_cons (n : Nat) :
    ∃ b l, digits n = b :: l ∧ isDigit b = true ∧ (b = 0x30 → l = []) := by
  obtain ⟨c, l, hl, hc⟩ := toDigits_head n
  have hmem : c ∈ toDigits 10 n := hl ▸ mem_cons_self
  have hdig := isDigit_of_mem_toDigits (by decide) (by decide) hmem
  refine ⟨c.val.toUInt8, l.map fun c => c.val.toUInt8, by rw [digits, hl]; rfl,
    isDigit_of_mem_digits (n := n) _ (by rw [digits, hl]; exact mem_cons_self), fun h => ?_⟩
  have hc' : c = '0' := by
    have := congrArg UInt8.toNat h
    rw [(toNat_toUInt8_of_isDigit hdig).1] at this
    exact Char.toNat_inj.mp this
  rw [hc hc']
  rfl

theorem takeWhile_append_of_endsNumber {l t : List UInt8} (hl : ∀ b ∈ l, isDigit b = true)
    (ht : endsNumber t = true) :
    (l ++ t).takeWhile isDigit = l ∧ (l ++ t).dropWhile isDigit = t := by
  have hstop : t.takeWhile isDigit = [] ∧ t.dropWhile isDigit = t := by
    cases t with
    | nil => exact ⟨rfl, rfl⟩
    | cons b t =>
      have hb : isDigit b = false := by
        simp only [endsNumber, not_eq_true', or_eq_false_iff] at ht
        exact ht.1.1.1
      simp [hb]
  rw [takeWhile_append_of_pos hl, dropWhile_append_of_pos hl, hstop.1, hstop.2]
  simp

variable {t : List UInt8}

theorem intPart_digits (n : Nat) (ht : endsNumber t = true) :
    intPart (digits n ++ t) = some (digits n, t) := by
  obtain ⟨b, l, hl, hb, hzero⟩ := digits_eq_cons n
  have hall : ∀ x ∈ l, isDigit x = true := fun x hx =>
    isDigit_of_mem_digits (n := n) x (hl ▸ mem_cons_of_mem _ hx)
  obtain ⟨htake, hdrop⟩ := takeWhile_append_of_endsNumber hall ht
  rw [hl, cons_append, intPart]
  by_cases h0 : b = 0x30
  · rw [if_pos h0, hzero h0]
    rfl
  · rw [if_neg h0, if_pos hb, htake, hdrop]

theorem fracPart_of_endsNumber (ht : endsNumber t = true) : fracPart t = some ([], t) := by
  cases t with
  | nil => rfl
  | cons b t =>
    have hb : b ≠ 0x2e := by
      rintro rfl
      simp [endsNumber] at ht
    rw [fracPart, if_neg hb]

theorem expPart_of_endsNumber (ht : endsNumber t = true) : expPart t = some ([], t) := by
  cases t with
  | nil => rfl
  | cons b t =>
    have hb : ¬(b = 0x65 ∨ b = 0x45) := by
      rintro (rfl | rfl) <;> simp [endsNumber] at ht
    exact if_neg hb

theorem unsigned_digits (negative : Bool) (n : Nat) (ht : endsNumber t = true) :
    unsigned negative (digits n ++ t) = some (.int (if negative then -(n : Int) else n), t) := by
  simp [unsigned, intPart_digits n ht, fracPart_of_endsNumber ht, expPart_of_endsNumber ht,
    digitsValue_digits]

theorem number_renderInt (n : Int) (ht : endsNumber t = true) :
    number (renderInt n ++ t) = some (.int n, t) := by
  cases n with
  | ofNat n =>
    obtain ⟨b, l, hl, hb, -⟩ := digits_eq_cons n
    have hne : b ≠ 0x2d := by
      rintro rfl
      simp [isDigit] at hb
    have h := unsigned_digits false n ht
    rw [hl] at h
    rw [renderInt, hl, cons_append, number, if_neg hne]
    exact h
  | negSucc n =>
    rw [renderInt, cons_append, number, if_pos rfl, unsigned_digits true (n + 1) ht]
    rfl

/-! ### Values -/

theorem skip_cons {b : UInt8} (h : isBlank b = false) (s : List UInt8) :
    skip (b :: s) = b :: s := by
  rw [skip, dropWhile_cons, if_neg (by simp [h])]

/-- How a value starts: with no blank, and not with the end of an array. -/
theorem render_eq_cons {v : Json} (h : integral v = true) :
    ∃ b l, render v = b :: l ∧ isBlank b = false ∧ b ≠ 0x5d := by
  cases v with
  | null => exact ⟨_, _, rfl, by decide, by decide⟩
  | bool b => cases b <;> exact ⟨_, _, rfl, by decide, by decide⟩
  | int n =>
    cases n with
    | ofNat n =>
      obtain ⟨b, l, hl, hb, -⟩ := digits_eq_cons n
      simp only [isDigit, decide_eq_true_eq] at hb
      refine ⟨b, l, by rw [render, renderInt, hl], ?_, by rintro rfl; simp at hb⟩
      simp only [isBlank, or_eq_false_iff, beq_eq_false_iff_ne]
      refine ⟨⟨⟨?_, ?_⟩, ?_⟩, ?_⟩ <;> rintro rfl <;> simp at hb
    | negSucc n => exact ⟨_, _, by rw [render, renderInt], by decide, by decide⟩
  | real text => cases h
  | str s => exact ⟨_, _, by rw [render, quote], by decide, by decide⟩
  | arr vs => cases vs <;> exact ⟨_, _, by rw [render], by decide, by decide⟩
  | obj ms => rcases ms with - | ⟨⟨k, v⟩, ms⟩ <;> exact ⟨_, _, by rw [render], by decide, by decide⟩

theorem endsNumber_renderElems (vs : List Json) (t : List UInt8) :
    endsNumber (renderElems vs ++ t) = true := by
  cases vs <;> simp [renderElems, endsNumber, isDigit]

theorem endsNumber_renderMembers (ms : List (List UInt8 × Json)) (t : List UInt8) :
    endsNumber (renderMembers ms ++ t) = true := by
  rcases ms with - | ⟨⟨k, v⟩, ms⟩ <;> simp [renderMembers, endsNumber, isDigit]

/-- `value` reads the value back, wherever it stands. -/
def Reads (v : Json) : Prop :=
  ∀ n t, (render v).length < n → endsNumber t = true →
    value n (render v ++ t) = some (repaired v, t)

theorem value_int (n : Int) : Reads (.int n) := by
  intro m t hm ht
  obtain ⟨k, rfl⟩ : ∃ k, m = k + 1 := ⟨m - 1, by omega⟩
  obtain ⟨b, l, hl, hblank, -⟩ := render_eq_cons (v := .int n) rfl
  have hnum := number_renderInt n ht
  rw [show renderInt n = b :: l by rw [← hl, render], cons_append] at hnum
  -- the first byte is a digit or the sign, so no other kind of value starts there
  have hfirst : b = 0x2d ∨ isDigit b = true := by
    cases n with
    | ofNat n =>
      obtain ⟨b', l', hl', hb', -⟩ := digits_eq_cons n
      rw [render, renderInt, hl'] at hl
      cases hl
      exact .inr hb'
    | negSucc n =>
      cases hl
      exact .inl rfl
  have hne : b ≠ 0x22 ∧ b ≠ 0x5b ∧ b ≠ 0x7b ∧ b ≠ 0x6e ∧ b ≠ 0x74 ∧ b ≠ 0x66 := by
    rcases hfirst with rfl | hd
    · decide
    · simp only [isDigit, decide_eq_true_eq] at hd
      refine ⟨?_, ?_, ?_, ?_, ?_, ?_⟩ <;> rintro rfl <;> simp at hd
  obtain ⟨h₁, h₂, h₃, h₄, h₅, h₆⟩ := hne
  rw [hl, cons_append, value, skip_cons hblank]
  simp only [if_neg h₁, if_neg h₂, if_neg h₃, if_neg h₄, if_neg h₅, if_neg h₆, hnum, repaired]

theorem value_str (s : List UInt8) : Reads (.str s) := by
  intro m t hm ht
  obtain ⟨k, rfl⟩ : ∃ k, m = k + 1 := ⟨m - 1, by omega⟩
  simp only [render, quote, length_cons, length_append, length_nil] at hm
  simp only [render, quote, cons_append, append_assoc, nil_append, value,
    skip_cons (show isBlank 0x22 = false from rfl), if_true]
  rw [unquote_quoteBody s t (by omega)]
  rfl

attribute [local simp] repaired repairedElems repairedMembers

mutual

theorem value_render : (v : Json) → integral v = true → Reads v
  | .null, _ | .arr [], _ | .obj [], _ => by
    intro m t hm ht
    obtain ⟨k, rfl⟩ : ∃ k, m = k + 1 := ⟨m - 1, by omega⟩
    rfl
  | .bool b, _ => by
    intro m t hm ht
    obtain ⟨k, rfl⟩ : ∃ k, m = k + 1 := ⟨m - 1, by omega⟩
    cases b <;> rfl
  | .int n, _ => value_int n
  | .real _, h => by cases h
  | .str s, _ => value_str s
  | .arr (v :: vs), h => by
    intro m t hm ht
    have hv : integral v = true ∧ integralElems vs = true := by
      simpa [integral, integralElems] using h
    obtain ⟨k, rfl⟩ : ∃ k, m = k + 1 := ⟨m - 1, by omega⟩
    obtain ⟨b, l, hl, hblank, hb⟩ := render_eq_cons hv.1
    have ih := elems_render vs hv.2 v (value_render v hv.1) k t (by
      simp only [render, length_cons, length_append] at hm ⊢
      omega)
    simp only [render, cons_append, append_assoc, value,
      skip_cons (show isBlank 0x5b = false from rfl)]
    rw [hl, cons_append] at ih ⊢
    rw [skip_cons hblank, ih]
    simp [hb]
  | .obj ((key, v) :: ms), h => by
    intro m t hm ht
    have hv : integral v = true ∧ integralMembers ms = true := by
      simpa [integral, integralMembers] using h
    obtain ⟨k, rfl⟩ : ∃ k, m = k + 1 := ⟨m - 1, by omega⟩
    have ih := members_render ms hv.2 key v (value_render v hv.1) k t (by
      simp only [render, length_cons, length_append] at hm ⊢
      omega)
    simp only [render, cons_append, append_assoc, value,
      skip_cons (show isBlank 0x7b = false from rfl)]
    simp only [quote, cons_append] at ih ⊢
    rw [skip_cons (show isBlank 0x22 = false from rfl), ih]
    simp

theorem elems_render : (vs : List Json) → integralElems vs = true → ∀ v, Reads v → ∀ n t,
    (render v ++ renderElems vs).length < n →
    elems n (render v ++ (renderElems vs ++ t)) = some (repaired v :: repairedElems vs, t)
  | [], _, v, hv, n, t, hn => by
    obtain ⟨k, rfl⟩ : ∃ k, n = k + 1 := ⟨n - 1, by omega⟩
    simp only [renderElems, length_append, length_cons, length_nil] at hn
    rw [elems, hv k _ (by omega) (endsNumber_renderElems [] t)]
    simp [renderElems, skip_cons (show isBlank 0x5d = false from rfl)]
  | w :: ws, h, v, hv, n, t, hn => by
    have hw : integral w = true ∧ integralElems ws = true := by simpa [integralElems] using h
    obtain ⟨k, rfl⟩ : ∃ k, n = k + 1 := ⟨n - 1, by omega⟩
    simp only [renderElems, length_append, length_cons] at hn
    have ih := elems_render ws hw.2 w (value_render w hw.1) k t (by
      simp only [length_append]
      omega)
    rw [elems, hv k _ (by omega) (endsNumber_renderElems (w :: ws) t)]
    simp [renderElems, skip_cons (show isBlank 0x2c = false from rfl), ih]

theorem members_render : (ms : List (List UInt8 × Json)) → integralMembers ms = true →
    ∀ key v, Reads v → ∀ n t, (quote key ++ 0x3a :: (render v ++ renderMembers ms)).length < n →
    members n (quote key ++ 0x3a :: (render v ++ (renderMembers ms ++ t))) =
      some ((repair key, repaired v) :: repairedMembers ms, t)
  | [], _, key, v, hv, n, t, hn => by
    obtain ⟨k, rfl⟩ : ∃ k, n = k + 1 := ⟨n - 1, by omega⟩
    simp only [renderMembers, quote, length_append, length_cons, length_nil] at hn
    simp only [quote, cons_append, append_assoc, nil_append, members,
      skip_cons (show isBlank 0x22 = false from rfl), if_true]
    rw [unquote_quoteBody key _ (by omega)]
    simp only [bind_eq_bind, bind_some, skip_cons (show isBlank 0x3a = false from rfl), if_true]
    rw [hv k _ (by omega) (endsNumber_renderMembers [] t)]
    simp [renderMembers, skip_cons (show isBlank 0x7d = false from rfl)]
  | (key', w) :: ms, h, key, v, hv, n, t, hn => by
    have hw : integral w = true ∧ integralMembers ms = true := by simpa [integralMembers] using h
    obtain ⟨k, rfl⟩ : ∃ k, n = k + 1 := ⟨n - 1, by omega⟩
    simp only [renderMembers, quote, length_append, length_cons, length_nil] at hn
    have ih := members_render ms hw.2 key' w (value_render w hw.1) k t (by
      simp only [quote, length_append, length_cons, length_nil]
      omega)
    simp only [quote, cons_append, append_assoc, nil_append, members,
      skip_cons (show isBlank 0x22 = false from rfl), if_true]
    rw [unquote_quoteBody key _ (by omega)]
    simp only [bind_eq_bind, bind_some, skip_cons (show isBlank 0x3a = false from rfl), if_true]
    rw [hv k _ (by omega) (endsNumber_renderMembers ((key', w) :: ms) t)]
    simp only [quote, cons_append, append_assoc, nil_append] at ih
    simp [renderMembers, quote, skip_cons (show isBlank 0x2c = false from rfl), ih]

end

theorem parse_render {v : Json} (h : integral v = true) : parse (render v) = some (repaired v) := by
  have hv := value_render v h ((render v).length + 1) [] (lt_succ_self _) rfl
  rw [append_nil] at hv
  rw [parse, hv]
  rfl

theorem repaired_of_number {s t : List UInt8} {v : Json} (h : number s = some (v, t)) :
    repaired v = v := by
  have hunsigned : ∀ neg (s : List UInt8), unsigned neg s = some (v, t) → repaired v = v := by
    intro neg s h
    obtain ⟨⟨i, s₁⟩, -, h⟩ := bind_eq_some_iff.mp h
    obtain ⟨⟨f, s₂⟩, -, h⟩ := bind_eq_some_iff.mp h
    obtain ⟨⟨e, s₃⟩, -, h⟩ := bind_eq_some_iff.mp h
    simp only at h
    split_ifs at h <;> cases h <;> rfl
  cases s with
  | nil => cases h
  | cons b s =>
    simp only [number] at h
    split_ifs at h
    · exact hunsigned true s h
    · exact hunsigned false _ h

theorem repaired_of_literal {word s t : List UInt8} {v w : Json} (hw : repaired w = w)
    (h : literal word w s = some (v, t)) : repaired v = v := by
  unfold literal at h
  split_ifs at h
  cases h
  exact hw

/-- What the decoder accepts has nothing to repair, whatever the text was. -/
theorem repaired_of_accepted (n : Nat) :
    (∀ s v t, value n s = some (v, t) → repaired v = v) ∧
    (∀ s vs t, elems n s = some (vs, t) → repairedElems vs = vs) ∧
    (∀ s ms t, members n s = some (ms, t) → repairedMembers ms = ms) := by
  induction n with
  | zero =>
    refine ⟨?_, ?_, ?_⟩ <;> intro s v t h <;> cases h
  | succ n ih =>
    obtain ⟨ihv, ihe, ihm⟩ := ih
    refine ⟨?_, ?_, ?_⟩
    · intro s v t h
      unfold value at h
      split at h
      · cases h
      · split_ifs at h
        · obtain ⟨p, hp, he⟩ := map_eq_some_iff.mp h
          cases he
          rw [repaired, repair_of_unquote hp]
        · split at h
          · cases h
          · split_ifs at h
            · cases h
              rfl
            · obtain ⟨p, hp, he⟩ := map_eq_some_iff.mp h
              cases he
              rw [repaired, ihe _ _ _ hp]
        · split at h
          · cases h
          · split_ifs at h
            · cases h
              rfl
            · obtain ⟨p, hp, he⟩ := map_eq_some_iff.mp h
              cases he
              rw [repaired, ihm _ _ _ hp]
        iterate 3
          · exact repaired_of_literal rfl h
        · exact repaired_of_number h
    · intro s vs t h
      obtain ⟨⟨v, s₁⟩, hv, h⟩ := bind_eq_some_iff.mp h
      simp only at h
      split at h
      · cases h
      · split_ifs at h
        · cases h
          rw [repairedElems, repairedElems, ihv _ _ _ hv]
        · obtain ⟨p, hp, he⟩ := map_eq_some_iff.mp h
          cases he
          rw [repairedElems, ihv _ _ _ hv, ihe _ _ _ hp]
    · intro s ms t h
      unfold members at h
      split at h
      · cases h
      · split_ifs at h
        obtain ⟨⟨k, s₁⟩, hk, h⟩ := bind_eq_some_iff.mp h
        simp only at h
        split at h
        · cases h
        · split_ifs at h
          obtain ⟨⟨v, s₂⟩, hv, h⟩ := bind_eq_some_iff.mp h
          split at h
          · cases h
          · split_ifs at h
            · cases h
              rw [repairedMembers, repairedMembers, repair_of_unquote hk, ihv _ _ _ hv]
            · obtain ⟨p, hp, he⟩ := map_eq_some_iff.mp h
              cases he
              rw [repairedMembers, repair_of_unquote hk, ihv _ _ _ hv, ihm _ _ _ hp]

theorem repaired_of_parse {s : List UInt8} {v : Json} (h : parse s = some v) : repaired v = v := by
  obtain ⟨⟨w, t⟩, hw, h⟩ := bind_eq_some_iff.mp h
  simp only at h
  split_ifs at h
  cases h
  exact (repaired_of_accepted _).1 _ _ _ hw

mutual

/-- The text of a value is as long as that of its repair only if there was nothing to repair. -/
theorem length_render_repaired : (v : Json) →
    (render (repaired v)).length ≤ (render v).length ∧
      ((render (repaired v)).length = (render v).length → repaired v = v)
  | .null | .bool _ | .int _ | .real _ => by simp
  | .str s => by
    have h := length_quote_repair s
    simp only [repaired, render]
    exact ⟨h.1, fun heq => by rw [h.2 heq]⟩
  | .arr [] => by simp
  | .arr (v :: vs) => by
    have hv := length_render_repaired v
    have hvs := length_renderElems_repaired vs
    simp only [repaired, repairedElems, render, length_cons, length_append]
    exact ⟨by omega, fun heq => by rw [hv.2 (by omega), hvs.2 (by omega)]⟩
  | .obj [] => by simp
  | .obj ((k, v) :: ms) => by
    have hk := length_quote_repair k
    have hv := length_render_repaired v
    have hms := length_renderMembers_repaired ms
    simp only [repaired, repairedMembers, render, length_cons, length_append]
    exact ⟨by omega, fun heq => by rw [hk.2 (by omega), hv.2 (by omega), hms.2 (by omega)]⟩

theorem length_renderElems_repaired : (vs : List Json) →
    (renderElems (repairedElems vs)).length ≤ (renderElems vs).length ∧
      ((renderElems (repairedElems vs)).length = (renderElems vs).length → repairedElems vs = vs)
  | [] => by simp
  | v :: vs => by
    have hv := length_render_repaired v
    have hvs := length_renderElems_repaired vs
    simp only [repairedElems, renderElems, length_cons, length_append]
    exact ⟨by omega, fun heq => by rw [hv.2 (by omega), hvs.2 (by omega)]⟩

theorem length_renderMembers_repaired : (ms : List (List UInt8 × Json)) →
    (renderMembers (repairedMembers ms)).length ≤ (renderMembers ms).length ∧
      ((renderMembers (repairedMembers ms)).length = (renderMembers ms).length →
        repairedMembers ms = ms)
  | [] => by simp
  | (k, v) :: ms => by
    have hk := length_quote_repair k
    have hv := length_render_repaired v
    have hms := length_renderMembers_repaired ms
    simp only [repairedMembers, renderMembers, length_cons, length_append]
    exact ⟨by omega, fun heq => by rw [hk.2 (by omega), hv.2 (by omega), hms.2 (by omega)]⟩

end

theorem eq_of_render_eq {v w : Json} (hv : integral v = true) (hw : integral w = true)
    (hfix : repaired w = w) (h : render v = render w) : v = w := by
  have hrep : repaired v = w := by
    have := parse_render hv
    rw [h, parse_render hw, hfix] at this
    exact (some.inj this).symm
  have hsame : repaired v = v := (length_render_repaired v).2 (by rw [hrep, h])
  rw [← hsame, hrep]

end Json

end Hostel.Logic
