/-
# Hostel.Logic.NetipText — the texts of IP addresses and prefixes.

Dotted decimals; hexadecimal groups, of which one run of zeros may be left out; an embedded IPv4
address; a zone.  Of the many spellings of an address one is canonical, and reading it gives the
address back (`parseAddr_string`, and `parsePrefix_string` for prefixes).
-/
import Mathlib.Tactic.IntervalCases
import Hostel.Logic.Netip

namespace Hostel.Logic.Netip

open List Nat

/-! ## Decimal and hexadecimal numerals -/

/-- A decimal numeral without sign or leading zero, at most `max`. -/
def decimal (max : Nat) (s : Text) : Option Nat :=
  if s ≠ [] ∧ s.all Char.isDigit ∧ (s.length = 1 ∨ s.head? ≠ some '0') ∧
      ofDigitChars 10 s 0 ≤ max then
    some (ofDigitChars 10 s 0)
  else none

def hexDigit (c : Char) : Option Nat :=
  if c.isDigit then some (c.toNat - 48)
  else if 'a' ≤ c ∧ c ≤ 'f' then some (c.toNat - 87)
  else if 'A' ≤ c ∧ c ≤ 'F' then some (c.toNat - 55)
  else none

def isHex (c : Char) : Bool := (hexDigit c).isSome

def hexValue (s : Text) : Nat := s.foldl (fun acc c => acc * 16 + (hexDigit c).getD 0) 0

/-! ## Reading -/

/-- The four octets of a dotted address. -/
def parseIPv4Fields (s : Text) : Option (Nat × Nat × Nat × Nat) :=
  match (s.splitOn '.').map (decimal 255) with
  | [some a, some b, some c, some d] => some (a, b, c, d)
  | _ => none

def parseIPv4 (s : Text) : Option Addr :=
  match parseIPv4Fields s with
  | some (a, b, c, d) => some (.v4 (BitVec.ofNat 32 (a * 2 ^ 24 + b * 2 ^ 16 + c * 2 ^ 8 + d)))
  | none => none

/-- The loop over the colon-separated fields: `room` fields may still come, `gs` have been read, and
`ellipsis` is where `::` stood. -/
def parseFields : Nat → Text → List Nat → Option Nat → Option (List Nat × Option Nat)
  | 0, s, gs, ellipsis => if s = [] then some (gs, ellipsis) else none
  | room + 1, s, gs, ellipsis =>
    let digits := s.takeWhile isHex
    if digits = [] ∨ 4 < digits.length then none
    else
      let gs' := gs ++ [hexValue digits]
      match s.dropWhile isHex with
      | [] => some (gs', ellipsis)
      | '.' :: _ =>
        -- an embedded IPv4 address ends the text
        if (ellipsis = none ∧ gs.length ≠ 6) ∨ 8 < gs.length + 2 then none
        else
          match parseIPv4Fields s with
          | some (a, b, c, d) => some (gs ++ [a * 256 + b, c * 256 + d], ellipsis)
          | none => none
      | [':'] => none
      | ':' :: ':' :: rest =>
        if ellipsis.isSome then none
        else if rest = [] then some (gs', some gs'.length)
        else parseFields room rest gs' (some gs'.length)
      | ':' :: rest => parseFields room rest gs' ellipsis
      | _ :: _ => none

/-- What `::` leaves out is filled in; it leaves out at least one group. -/
def expand : List Nat × Option Nat → Option (List Nat)
  | (gs, none) => if gs.length = 8 then some gs else none
  | (gs, some k) =>
    if gs.length < 8 then some (gs.take k ++ replicate (8 - gs.length) 0 ++ gs.drop k) else none

/-- The number that the groups are the digits of in base `2 ^ 16`. -/
def ofGroups (gs : List Nat) : BitVec 128 :=
  BitVec.ofNat 128 (gs.foldl (fun acc g => acc * 2 ^ 16 + g) 0)

/-- The part before the first `%`, and the zone behind it. -/
def splitZone (s : Text) : Option (Text × Text) :=
  match s.dropWhile (· != '%') with
  | [] => some (s, [])
  | [_] => none
  | _ :: zone => some (s.takeWhile (· != '%'), zone)

/-- The fields of an IPv6 text without its zone; it may begin with `::` or be nothing else. -/
def bodyFields : Text → Option (List Nat × Option Nat)
  | [':', ':'] => some ([], some 0)
  | ':' :: ':' :: rest => parseFields 8 rest [] (some 0)
  | body => parseFields 8 body [] none

def parseIPv6 (s : Text) : Option Addr :=
  match splitZone s with
  | none => none
  | some (body, zone) =>
    match (bodyFields body).bind expand with
    | some gs => some (.v6 (ofGroups gs) zone)
    | none => none

/-- `netip.ParseAddr`; the first punctuation decides the family. -/
def parseAddr (s : Text) : Option Addr :=
  match s.find? (fun c => c == '.' || c == ':' || c == '%') with
  | some '.' => parseIPv4 s
  | some ':' => parseIPv6 s
  | _ => none

/-! ## Writing -/

def decText (n : Nat) : Text := toDigits 10 n

def hexText (n : Nat) : Text := toDigits 16 n

def string4 (b : BitVec 32) : Text :=
  ['.'].intercalate
    [decText (b.toNat / 2 ^ 24), decText (b.toNat / 2 ^ 16 % 256), decText (b.toNat / 2 ^ 8 % 256),
      decText (b.toNat % 256)]

/-- The eight groups of 16 bits. -/
def groups (b : BitVec 128) : List Nat :=
  [b.toNat / 2 ^ 112, b.toNat / 2 ^ 96 % 2 ^ 16, b.toNat / 2 ^ 80 % 2 ^ 16,
    b.toNat / 2 ^ 64 % 2 ^ 16, b.toNat / 2 ^ 48 % 2 ^ 16, b.toNat / 2 ^ 32 % 2 ^ 16,
    b.toNat / 2 ^ 16 % 2 ^ 16, b.toNat % 2 ^ 16]

/-- How many zero groups stand at the front. -/
def zeros (gs : List Nat) : Nat := (gs.takeWhile (· == 0)).length

/-- The start and the length of the first longest run of at least two zero groups; the length is
zero if there is none. -/
def zeroRun (gs : List Nat) : Nat × Nat :=
  (range gs.length).foldl
    (fun best i =>
      let l := zeros (gs.drop i)
      if 2 ≤ l ∧ best.2 < l then (i, l) else best)
    (gs.length, 0)

def joinHex (gs : List Nat) : Text := [':'].intercalate (gs.map hexText)

def string6 (b : BitVec 128) : Text :=
  match zeroRun (groups b) with
  | (_, 0) => joinHex (groups b)
  | (start, len + 1) =>
    joinHex ((groups b).take start) ++ ':' :: ':' :: joinHex ((groups b).drop (start + (len + 1)))

def zoneText : Text → Text
  | [] => []
  | z => '%' :: z

/-- The text of an IPv6 address without its zone. -/
def body6 (b : BitVec 128) : Text :=
  if Addr.mapped b then "::ffff:".toList ++ string4 (b.setWidth 32) else string6 b

def Addr.string : Addr → Text
  | .v4 b => string4 b
  | .v6 b z => body6 b ++ zoneText z

def Prefix.string (p : Prefix) : Text := p.addr.string ++ '/' :: decText p.bits

/-- The parts before and behind the last `c`. -/
def cutLast (c : Char) (s : Text) : Option (Text × Text) :=
  match s.reverse.dropWhile (· != c) with
  | [] => none
  | _ :: front => some (front.reverse, (s.reverse.takeWhile (· != c)).reverse)

def parsePrefix (s : Text) : Option Prefix :=
  match cutLast '/' s with
  | none => none
  | some (ip, bits) =>
    match parseAddr ip with
    | none => none
    | some a =>
      if a.zone ≠ [] then none
      else
        match decimal a.bitLen bits with
        | some n => some ⟨a, n⟩
        | none => none

/-! ## Numerals are read back -/

theorem decText_ne_nil (n : Nat) : decText n ≠ [] := toDigits_ne_nil

theorem decText_head (n : Nat) : (decText n).length = 1 ∨ (decText n).head? ≠ some '0' := by
  induction n using Nat.strong_induction_on with
  | _ n ih =>
    by_cases hn : n < 10
    · left
      rw [decText, toDigits_of_lt_base hn]
      rfl
    · right
      rw [decText, toDigits_of_base_le (by omega) (by omega),
        head?_append_of_ne_nil _ toDigits_ne_nil]
      rcases ih (n / 10) (by omega) with hone | hhead
      · -- a single leading digit is not zero, as the quotient is not
        have hlt : n / 10 < 10 := by
          simpa using (length_toDigits_le_iff (b := 10) (k := 1) (by omega) (by omega)).mp hone.le
        rw [toDigits_of_lt_base hlt]
        have hpos : 0 < n / 10 := by omega
        interval_cases n / 10 <;> decide
      · exact hhead

variable {c : Char}

theorem isDigit_of_mem_decText {n : Nat} (h : c ∈ decText n) : c.isDigit = true :=
  isDigit_of_mem_toDigits (by omega) (by omega) h

theorem decimal_decText {max n : Nat} (h : n ≤ max) : decimal max (decText n) = some n := by
  have hval : ofDigitChars 10 (decText n) 0 = n := ofDigitChars_ten_toDigits
  rw [decimal, hval, if_pos]
  refine ⟨decText_ne_nil n, ?_, decText_head n, h⟩
  rw [all_eq_true]
  exact fun c hc => isDigit_of_mem_decText hc

theorem hexDigit_digitChar {d : Nat} (h : d < 16) : hexDigit (digitChar d) = some d := by
  interval_cases d <;> decide

theorem hexValue_append (s : Text) (c : Char) :
    hexValue (s ++ [c]) = hexValue s * 16 + (hexDigit c).getD 0 := by
  rw [hexValue, foldl_append]
  rfl

@[simp] theorem hexValue_hexText (n : Nat) : hexValue (hexText n) = n := by
  induction n using Nat.strong_induction_on with
  | _ n ih =>
    by_cases hn : n < 16
    · rw [hexText, toDigits_of_lt_base hn]
      simp [hexValue, hexDigit_digitChar hn]
    · rw [hexText, toDigits_of_base_le (by omega) (by omega), hexValue_append,
        hexDigit_digitChar (mod_lt _ (by omega)), ← hexText, ih _ (by omega)]
      simp only [Option.getD_some]
      omega

theorem isHex_of_mem_hexText {n : Nat} (h : c ∈ hexText n) : isHex c = true := by
  induction n using Nat.strong_induction_on with
  | _ n ih =>
    by_cases hn : n < 16
    · rw [hexText, toDigits_of_lt_base hn, mem_singleton] at h
      rw [h, isHex, hexDigit_digitChar hn]
      rfl
    · rw [hexText, toDigits_of_base_le (by omega) (by omega), mem_append, mem_singleton] at h
      rcases h with h | rfl
      · exact ih (n / 16) (by omega) h
      · rw [isHex, hexDigit_digitChar (mod_lt _ (by omega))]
        rfl

theorem length_hexText_le {n : Nat} (h : n < 2 ^ 16) : (hexText n).length ≤ 4 :=
  (length_toDigits_le_iff (by omega) (by omega)).mpr (by simpa using h)

theorem hexText_ne_nil (n : Nat) : hexText n ≠ [] := toDigits_ne_nil

theorem isHex_of_isDigit (h : c.isDigit = true) : isHex c = true := by
  simp [isHex, hexDigit, h]

/-! ## Dotted addresses are read back -/

theorem string4_eq (b : BitVec 32) :
    string4 b = decText (b.toNat / 2 ^ 24) ++ '.' :: ['.'].intercalate
      [decText (b.toNat / 2 ^ 16 % 256), decText (b.toNat / 2 ^ 8 % 256),
        decText (b.toNat % 256)] :=
  rfl

theorem string4_eq_cons (b : BitVec 32) : ∃ c tail, string4 b = c :: tail ∧ c.isDigit = true := by
  obtain ⟨c, tail, htext⟩ := exists_cons_of_ne_nil (decText_ne_nil (b.toNat / 2 ^ 24))
  refine ⟨c, _, by rw [string4_eq, htext, cons_append], ?_⟩
  exact isDigit_of_mem_decText (htext ▸ mem_cons_self)

theorem parseIPv4Fields_string4 (b : BitVec 32) :
    parseIPv4Fields (string4 b) =
      some (b.toNat / 2 ^ 24, b.toNat / 2 ^ 16 % 256, b.toNat / 2 ^ 8 % 256, b.toNat % 256) := by
  have hb : b.toNat < 2 ^ 32 := b.isLt
  have hdot : ∀ n, '.' ∉ decText n := fun n hmem => by
    have := isDigit_of_mem_decText hmem
    simp at this
  have hsplit : (string4 b).splitOn '.' =
      [decText (b.toNat / 2 ^ 24), decText (b.toNat / 2 ^ 16 % 256),
      decText (b.toNat / 2 ^ 8 % 256), decText (b.toNat % 256)] :=
    splitOn_intercalate '.' (by simp [hdot]) (cons_ne_nil _ _)
  rw [parseIPv4Fields, hsplit, map_cons, map_cons, map_cons, map_cons,
    map_nil, decimal_decText (by omega), decimal_decText (by omega), decimal_decText (by omega),
    decimal_decText (by omega)]

theorem parseIPv4_string4 (b : BitVec 32) : parseIPv4 (string4 b) = some (.v4 b) := by
  have hb : b.toNat < 2 ^ 32 := b.isLt
  rw [parseIPv4, parseIPv4Fields_string4]
  refine congrArg (fun x => some (Addr.v4 x)) (BitVec.eq_of_toNat_eq ?_)
  rw [BitVec.toNat_ofNat]
  omega

/-! ## Groups are read back -/

theorem span_append {p : Char → Bool} {s t : Text} (hs : ∀ c ∈ s, p c = true)
    (ht : ∀ c, t.head? = some c → p c = false) : (s ++ t).takeWhile p = s ∧
    (s ++ t).dropWhile p = t := by
  rw [takeWhile_append_of_pos hs, dropWhile_append_of_pos hs]
  cases t with
  | nil => simp
  | cons c tail => simp [ht c rfl]

section Fields

variable {g room : Nat} {gs acc : List Nat} {rest : Text} {ellipsis : Option Nat}

theorem span_hexText (g : Nat) (rest : Text) (h : ∀ c, rest.head? = some c → isHex c = false) :
    (hexText g ++ rest).takeWhile isHex = hexText g ∧ (hexText g ++ rest).dropWhile isHex = rest :=
  span_append (fun _ => isHex_of_mem_hexText) h

theorem parseFields_end (hg : g < 2 ^ 16) :
    parseFields (room + 1) (hexText g) acc ellipsis = some (acc ++ [g], ellipsis) := by
  obtain ⟨htake, hdrop⟩ := span_hexText g [] (by simp)
  rw [append_nil] at htake hdrop
  have hlen := length_hexText_le hg
  simp [parseFields, htake, hdrop, hexText_ne_nil, hlen]

theorem parseFields_colon (hg : g < 2 ^ 16) {c : Char} (hc : c ≠ ':') :
    parseFields (room + 1) (hexText g ++ ':' :: c :: rest) acc ellipsis =
      parseFields room (c :: rest) (acc ++ [g]) ellipsis := by
  obtain ⟨htake, hdrop⟩ := span_hexText g (':' :: c :: rest)
    (fun x hx => by cases hx; decide)
  have hlen := length_hexText_le hg
  rw [parseFields, htake, hdrop, if_neg (by simp [hexText_ne_nil, hlen]), hexValue_hexText]
  split
  · contradiction
  · next heq => cases heq
  · next heq => cases heq
  · next heq =>
    cases heq
    exact absurd rfl hc
  · next heq =>
    cases heq
    rfl
  · next hno heq =>
    cases heq
    exact (hno rfl).elim

theorem parseFields_ellipsis (hg : g < 2 ^ 16) :
    parseFields (room + 1) (hexText g ++ ':' :: ':' :: rest) acc none =
      if rest = [] then some (acc ++ [g], some (acc.length + 1))
      else parseFields room rest (acc ++ [g]) (some (acc.length + 1)) := by
  obtain ⟨htake, hdrop⟩ := span_hexText g (':' :: ':' :: rest)
    (fun x hx => by cases hx; decide)
  have hlen := length_hexText_le hg
  rw [parseFields, htake, hdrop, if_neg (by simp [hexText_ne_nil, hlen]), hexValue_hexText]
  simp

theorem joinHex_cons_cons (g g' : Nat) (gs : List Nat) :
    joinHex (g :: g' :: gs) = hexText g ++ ':' :: joinHex (g' :: gs) := by
  simp [joinHex, intercalate]

theorem joinHex_singleton (g : Nat) : joinHex [g] = hexText g := by
  simp [joinHex, intercalate]

theorem joinHex_eq_cons (g : Nat) (gs : List Nat) :
    ∃ c tail, joinHex (g :: gs) = c :: tail ∧ isHex c = true := by
  obtain ⟨c, tail, htext⟩ := exists_cons_of_ne_nil (hexText_ne_nil g)
  have hc : isHex c = true := isHex_of_mem_hexText (htext ▸ mem_cons_self)
  cases gs with
  | nil => exact ⟨c, tail, by rw [joinHex_singleton, htext], hc⟩
  | cons g' gs => exact ⟨c, _, by rw [joinHex_cons_cons, htext, cons_append], hc⟩

theorem ne_colon_of_isHex {c : Char} (h : isHex c = true) : c ≠ ':' := by
  rintro rfl
  exact absurd h (by decide)

theorem parseFields_joinHex (hne : gs ≠ []) (hgs : ∀ g ∈ gs, g < 2 ^ 16)
    (hroom : gs.length ≤ room) :
    parseFields room (joinHex gs) acc ellipsis = some (acc ++ gs, ellipsis) := by
  induction gs generalizing room acc with
  | nil => exact absurd rfl hne
  | cons g gs ih =>
    obtain ⟨hg, hgs⟩ := forall_mem_cons.mp hgs
    obtain ⟨room, rfl⟩ : ∃ r, room = r + 1 := ⟨room - 1, by simp at hroom; omega⟩
    cases gs with
    | nil => rw [joinHex_singleton, parseFields_end hg]
    | cons g' gs =>
      obtain ⟨c, tail, hjoin, hc⟩ := joinHex_eq_cons g' gs
      rw [joinHex_cons_cons, hjoin, parseFields_colon hg (ne_colon_of_isHex hc), ← hjoin,
        ih (cons_ne_nil _ _) hgs (by simpa using hroom), append_assoc, singleton_append]

theorem parseFields_joinHex_ellipsis (hne : gs ≠ []) (hgs : ∀ g ∈ gs, g < 2 ^ 16) :
    parseFields (gs.length + room) (joinHex gs ++ ':' :: ':' :: rest) acc none =
      if rest = [] then some (acc ++ gs, some (acc.length + gs.length))
      else parseFields room rest (acc ++ gs) (some (acc.length + gs.length)) := by
  induction gs generalizing acc with
  | nil => exact absurd rfl hne
  | cons g gs ih =>
    obtain ⟨hg, hgs⟩ := forall_mem_cons.mp hgs
    have hroom : (g :: gs).length + room = gs.length + room + 1 := by
      simp only [length_cons]
      omega
    rw [hroom]
    cases gs with
    | nil =>
      rw [joinHex_singleton, parseFields_ellipsis hg]
      simp
    | cons g' gs =>
      obtain ⟨c, tail, hjoin, hc⟩ := joinHex_eq_cons g' gs
      rw [joinHex_cons_cons, hjoin, append_assoc, cons_append, cons_append,
        parseFields_colon hg (ne_colon_of_isHex hc), ← cons_append, ← hjoin,
        ih (cons_ne_nil _ _) hgs]
      simp only [length_append, length_cons, length_nil, append_assoc, singleton_append]
      have hcount : acc.length + (0 + 1) + (gs.length + 1) = acc.length + (gs.length + 1 + 1) := by
        omega
      rw [hcount]

end Fields

/-! ## The run of zeros that is left out -/

/-- A run lies inside the groups and holds zeros only. -/
def IsRun (gs : List Nat) (run : Nat × Nat) : Prop :=
  run.2 = 0 ∨ run.1 + run.2 ≤ gs.length ∧ (gs.drop run.1).take run.2 = replicate run.2 0

theorem isRun_zeros (gs : List Nat) {i : Nat} (hi : i ≤ gs.length) :
    IsRun gs (i, zeros (gs.drop i)) := by
  right
  have hle : zeros (gs.drop i) ≤ (gs.drop i).length := (List.takeWhile_prefix _).length_le
  refine ⟨by rw [length_drop] at hle; simp only; omega, ?_⟩
  have htake : (gs.drop i).take (zeros (gs.drop i)) = (gs.drop i).takeWhile (· == 0) :=
    (prefix_iff_eq_take.mp (List.takeWhile_prefix _)).symm
  rw [htake, eq_replicate_iff]
  refine ⟨rfl, fun g hg => ?_⟩
  simpa using all_eq_true.mp all_takeWhile g hg

theorem isRun_zeroRun (gs : List Nat) : IsRun gs (zeroRun gs) := by
  rw [zeroRun]
  -- every candidate is a run, so the best of them is
  apply foldlRecOn (range gs.length) (motive := fun best => IsRun gs best)
  · exact Or.inl rfl
  · intro best hbest i hi
    have hi' : i ≤ gs.length := (mem_range.mp hi).le
    dsimp only
    split
    · exact isRun_zeros gs hi'
    · exact hbest

/-- What is left of the groups, with the place of the run, expands to the groups. -/
theorem expand_zeroRun {gs : List Nat} {start len : Nat} (hgs : gs.length = 8)
    (hrun : zeroRun gs = (start, len + 1)) :
    expand (gs.take start ++ gs.drop (start + (len + 1)), some start) = some gs := by
  have hspec := isRun_zeroRun gs
  rw [hrun] at hspec
  rcases hspec with hzero | ⟨hle, hzeros⟩
  · cases hzero
  · simp only at hle hzeros
    have hstart : (gs.take start).length = start := by
      rw [length_take]
      omega
    have hlen : (gs.take start ++ gs.drop (start + (len + 1))).length = 8 - (len + 1) := by
      rw [length_append, hstart, length_drop]
      omega
    have hleft : (gs.take start ++ gs.drop (start + (len + 1))).take start = gs.take start :=
      take_left' hstart
    have hright : (gs.take start ++ gs.drop (start + (len + 1))).drop start =
        gs.drop (start + (len + 1)) := drop_left' hstart
    have hcount : 8 - (8 - (len + 1)) = len + 1 := by omega
    rw [expand, if_pos (by rw [hlen]; omega), hlen, hleft, hright, hcount, ← hzeros, append_assoc,
      ← drop_drop, take_append_drop, take_append_drop]

/-! ## Addresses are read back -/

theorem length_groups (b : BitVec 128) : (groups b).length = 8 := rfl

theorem groups_lt (b : BitVec 128) : ∀ g ∈ groups b, g < 2 ^ 16 := by
  have hb : b.toNat < 2 ^ 128 := b.isLt
  simp only [groups, mem_cons, not_mem_nil, or_false]
  rintro g (rfl | rfl | rfl | rfl | rfl | rfl | rfl | rfl) <;> omega

theorem ofGroups_groups (b : BitVec 128) : ofGroups (groups b) = b := by
  have hb : b.toNat < 2 ^ 128 := b.isLt
  apply BitVec.eq_of_toNat_eq
  rw [ofGroups, BitVec.toNat_ofNat]
  simp only [groups, foldl_cons, foldl_nil]
  omega

theorem bodyFields_cons {rest : Text} (hc : c ≠ ':') :
    bodyFields (c :: rest) = parseFields 8 (c :: rest) [] none := by
  rw [bodyFields]
  · rintro ⟨⟩
    exact hc rfl
  · rintro rest ⟨⟩
    exact hc rfl

theorem bodyFields_colons {rest : Text} :
    bodyFields (':' :: ':' :: c :: rest) = parseFields 8 (c :: rest) [] (some 0) := by
  rw [bodyFields]
  rintro ⟨⟩

/-- Groups on both sides of `::`, on either of which there may be none. -/
theorem bodyFields_join {left right : List Nat} (hleft : ∀ g ∈ left, g < 2 ^ 16)
    (hright : ∀ g ∈ right, g < 2 ^ 16) (hlen : left.length + right.length ≤ 8) :
    bodyFields (joinHex left ++ ':' :: ':' :: joinHex right) =
    some (left ++ right, some left.length) := by
  cases left with
  | nil =>
    cases right with
    | nil => rfl
    | cons g gs =>
      obtain ⟨c, tail, hjoin, -⟩ := joinHex_eq_cons g gs
      show bodyFields (':' :: ':' :: joinHex (g :: gs)) = _
      rw [hjoin, bodyFields_colons, ← hjoin,
        parseFields_joinHex (cons_ne_nil _ _) hright (by simpa using hlen)]
      rfl
  | cons g gs =>
    obtain ⟨c, tail, hjoin, hc⟩ := joinHex_eq_cons g gs
    have hroom : 8 = (g :: gs).length + (8 - (g :: gs).length) := by omega
    rw [hjoin, cons_append, bodyFields_cons (ne_colon_of_isHex hc), ← cons_append, ← hjoin, hroom,
      parseFields_joinHex_ellipsis (cons_ne_nil _ _) hleft]
    cases right with
    | nil =>
      rw [if_pos (show joinHex [] = [] from rfl)]
      simp
    | cons g' gs' =>
      obtain ⟨c', tail', hjoin', -⟩ := joinHex_eq_cons g' gs'
      rw [if_neg (by rw [hjoin']; exact cons_ne_nil _ _),
        parseFields_joinHex (cons_ne_nil _ _) hright (by omega)]
      simp

theorem expand_bodyFields_string6 (b : BitVec 128) :
    (bodyFields (string6 b)).bind expand = some (groups b) := by
  have hlt := groups_lt b
  have hlen := length_groups b
  rw [string6]
  split
  case h_1 start hrun =>
    obtain ⟨g, gs, hgs⟩ := exists_cons_of_length_eq_add_one hlen
    obtain ⟨c, tail, hjoin, hc⟩ := joinHex_eq_cons g gs
    rw [hgs, hjoin, bodyFields_cons (ne_colon_of_isHex hc), ← hjoin, ← hgs,
      parseFields_joinHex (ne_nil_of_length_eq_add_one hlen) hlt hlen.le]
    rfl
  case h_2 start len hrun =>
    have hle : start + (len + 1) ≤ 8 := by
      rcases isRun_zeroRun (groups b) with hzero | ⟨hle, -⟩
      · rw [hrun] at hzero
        cases hzero
      · rw [hrun] at hle
        exact hle
    have hstart : ((groups b).take start).length = start := by
      rw [length_take, hlen]
      omega
    have hsum : ((groups b).take start).length + ((groups b).drop (start + (len + 1))).length ≤
        8 := by
      rw [hstart, length_drop, hlen]
      omega
    rw [bodyFields_join (fun g hg => hlt g (mem_of_mem_take hg))
      (fun g hg => hlt g (mem_of_mem_drop hg)) hsum, hstart]
    exact expand_zeroRun hlen hrun

theorem lower_octets (n : Nat) : n / 2 ^ 8 % 256 * 256 + n % 256 = n % 2 ^ 16 := by omega

/-- An embedded dotted address takes the place of two groups. -/
theorem parseFields_string4 {room k : Nat} {acc : List Nat} (b : BitVec 32)
    (hacc : acc.length ≤ 6) : parseFields (room + 1) (string4 b) acc (some k) =
      some (acc ++ [b.toNat / 2 ^ 16, b.toNat % 2 ^ 16], some k) := by
  have hb : b.toNat < 2 ^ 32 := b.isLt
  obtain ⟨htake, hdrop⟩ :=
    span_append (s := decText (b.toNat / 2 ^ 24)) (t := '.' :: ['.'].intercalate
      [decText (b.toNat / 2 ^ 16 % 256), decText (b.toNat / 2 ^ 8 % 256), decText (b.toNat % 256)])
    (fun c hc => isHex_of_isDigit (isDigit_of_mem_decText hc)) (by rintro c ⟨⟩; decide)
  rw [← string4_eq] at htake hdrop
  have hlen : (decText (b.toNat / 2 ^ 24)).length ≤ 4 :=
    (length_toDigits_le_iff (by omega) (by omega)).mpr (by omega)
  have hhead : ¬(decText (b.toNat / 2 ^ 24) = [] ∨ 4 < (decText (b.toNat / 2 ^ 24)).length) := by
    rintro (hnil | hlong)
    · exact decText_ne_nil _ hnil
    · omega
  have hplace : ¬((some k = none ∧ acc.length ≠ 6) ∨ 8 < acc.length + 2) := by
    rintro (⟨hnone, -⟩ | hlong)
    · cases hnone
    · omega
  rw [parseFields, htake, if_neg hhead, hdrop]
  simp only [if_neg hplace, parseIPv4Fields_string4]
  have hhigh : b.toNat / 2 ^ 24 * 256 + b.toNat / 2 ^ 16 % 256 = b.toNat / 2 ^ 16 := by omega
  rw [hhigh, lower_octets]

/-- The text of a mapped address ends in the dotted text of the IPv4 address it stands for. -/
theorem expand_bodyFields_mapped (b : BitVec 32) :
    (bodyFields ("::ffff:".toList ++ string4 b)).bind expand =
      some [0, 0, 0, 0, 0, 0xffff, b.toNat / 2 ^ 16, b.toNat % 2 ^ 16] := by
  obtain ⟨c, tail, hcons, hc⟩ := string4_eq_cons b
  have hffff : "::ffff:".toList ++ string4 b =
      ':' :: ':' :: (hexText 0xffff ++ ':' :: c :: tail) := by
    rw [hcons]
    rfl
  have hhex : hexText 0xffff = ['f', 'f', 'f', 'f'] := by decide
  rw [hffff, hhex, cons_append, bodyFields_colons, ← cons_append, ← hhex,
    parseFields_colon (by decide) (ne_colon_of_isHex (isHex_of_isDigit hc)), ← hcons,
    parseFields_string4 b (by simp)]
  rfl

theorem ofGroups_mapped {b : BitVec 128} (h : Addr.mapped b = true) :
    ofGroups [0, 0, 0, 0, 0, 0xffff, (b.setWidth 32).toNat / 2 ^ 16,
      (b.setWidth 32).toNat % 2 ^ 16] = b := by
  have hb : b.toNat < 2 ^ 128 := b.isLt
  have hm : b.toNat / 2 ^ 32 = 0xffff := beq_iff_eq.mp h
  apply BitVec.eq_of_toNat_eq
  rw [ofGroups, BitVec.toNat_ofNat, BitVec.toNat_setWidth]
  simp only [foldl_cons, foldl_nil]
  omega

theorem bodyFields_body6 (b : BitVec 128) :
    ∃ gs, (bodyFields (body6 b)).bind expand = some gs ∧ ofGroups gs = b := by
  by_cases hm : Addr.mapped b = true
  · rw [body6, if_pos hm, expand_bodyFields_mapped]
    exact ⟨_, rfl, ofGroups_mapped hm⟩
  · rw [body6, if_neg hm, expand_bodyFields_string6]
    exact ⟨_, rfl, ofGroups_groups b⟩

/-- The characters of an address text. -/
def isBody (c : Char) : Bool := isHex c || c == ':' || c == '.'

theorem mem_of_mem_intercalate {x c : Char} {ls : List Text} (h : c ∈ [x].intercalate ls) :
    c = x ∨ ∃ l ∈ ls, c ∈ l := by
  induction ls with
  | nil => cases h
  | cons l ls ih =>
    cases ls with
    | nil =>
      rw [intercalate_singleton] at h
      exact .inr ⟨l, mem_cons_self, h⟩
    | cons l' ls =>
      rw [intercalate_cons_cons, append_assoc, mem_append, mem_append, mem_singleton] at h
      rcases h with h | h | h
      · exact .inr ⟨l, mem_cons_self, h⟩
      · exact .inl h
      · exact (ih h).imp_right fun ⟨k, hk, hc⟩ => ⟨k, mem_cons_of_mem _ hk, hc⟩

theorem isBody_of_mem_string4 {b : BitVec 32} (h : c ∈ string4 b) : isBody c = true := by
  rcases mem_of_mem_intercalate h with rfl | ⟨l, hl, hc⟩
  · decide
  · have hdigit : c.isDigit = true := by
      simp only [mem_cons, not_mem_nil, or_false] at hl
      rcases hl with rfl | rfl | rfl | rfl <;> exact isDigit_of_mem_decText hc
    simp [isBody, isHex_of_isDigit hdigit]

theorem isBody_of_mem_joinHex {gs : List Nat} (h : c ∈ joinHex gs) : isBody c = true := by
  rcases mem_of_mem_intercalate h with rfl | ⟨l, hl, hc⟩
  · decide
  · obtain ⟨g, -, rfl⟩ := mem_map.mp hl
    simp [isBody, isHex_of_mem_hexText hc]

theorem isBody_of_mem_body6 {b : BitVec 128} (h : c ∈ body6 b) : isBody c = true := by
  rw [body6] at h
  split at h
  · rcases mem_append.mp h with h | h
    · have hall : ∀ c ∈ "::ffff:".toList, isBody c = true := all_eq_true.mp (by decide)
      exact hall c h
    · exact isBody_of_mem_string4 h
  · rw [string6] at h
    split at h
    · exact isBody_of_mem_joinHex h
    · rw [mem_append, mem_cons, mem_cons] at h
      rcases h with h | rfl | rfl | h
      · exact isBody_of_mem_joinHex h
      · decide
      · decide
      · exact isBody_of_mem_joinHex h

theorem isBody_of_mem_string {a : Addr} (hzone : a.zone = []) (h : c ∈ a.string) :
    isBody c = true := by
  cases a with
  | v4 b => exact isBody_of_mem_string4 h
  | v6 b z =>
    have hz : z = [] := hzone
    subst hz
    rw [Addr.string, zoneText, append_nil] at h
    exact isBody_of_mem_body6 h

variable {s : Text}

theorem splitZone_append (h : ∀ c ∈ s, isBody c = true) (z : Text) :
    splitZone (s ++ zoneText z) = some (s, z) := by
  have hne : ∀ c ∈ s, (c != '%') = true := fun c hc => by
    rw [bne_iff_ne]
    rintro rfl
    exact absurd (h _ hc) (by decide)
  obtain ⟨htake, hdrop⟩ := span_append (t := zoneText z) hne (by cases z <;> simp [zoneText])
  rw [splitZone, hdrop]
  cases z with
  | nil => simp [zoneText]
  | cons c z => exact congrArg (fun x => some (x, c :: z)) htake

/-- The first punctuation behind a number decides the family. -/
theorem find_punctuation {digits rest : Text} (hdigits : ∀ d ∈ digits, isHex d = true)
    (hc : c = '.' ∨ c = ':') :
    (digits ++ c :: rest).find? (fun c => c == '.' || c == ':' || c == '%') = some c := by
  have hnone : digits.find? (fun c => c == '.' || c == ':' || c == '%') = none := by
    rw [find?_eq_none]
    intro d hd hp
    have hhex := hdigits d hd
    simp only [Bool.or_eq_true, beq_iff_eq] at hp
    rcases hp with (rfl | rfl) | rfl <;> exact absurd hhex (by decide)
  rw [find?_append, hnone, Option.none_or]
  rcases hc with rfl | rfl <;> rfl

theorem joinHex_append_colon (g : Nat) (gs : List Nat) (rest : Text) :
    ∃ tail, joinHex (g :: gs) ++ ':' :: rest = hexText g ++ ':' :: tail := by
  cases gs with
  | nil => exact ⟨rest, by rw [joinHex_singleton]⟩
  | cons g' gs => exact ⟨_, by rw [joinHex_cons_cons, append_assoc, cons_append]⟩

theorem body6_eq (b : BitVec 128) :
    ∃ digits rest, body6 b = digits ++ ':' :: rest ∧ ∀ d ∈ digits, isHex d = true := by
  rw [body6]
  split
  · exact ⟨[], _, rfl, by simp⟩
  · rw [string6]
    split
    · exact ⟨_, _, joinHex_cons_cons _ _ _, fun d hd => isHex_of_mem_hexText hd⟩
    · next start len hrun =>
      cases (groups b).take start with
      | nil => exact ⟨[], _, rfl, by simp⟩
      | cons g gs =>
        obtain ⟨tail, htail⟩ := joinHex_append_colon g gs
          (':' :: joinHex ((groups b).drop (start + (len + 1))))
        exact ⟨_, tail, htail, fun d hd => isHex_of_mem_hexText hd⟩

/-- **The canonical text of an address is read as the address.** -/
@[simp] theorem parseAddr_string (a : Addr) : parseAddr a.string = some a := by
  cases a with
  | v4 b =>
    have hdigits : ∀ d ∈ decText (b.toNat / 2 ^ 24), isHex d = true :=
      fun d hd => isHex_of_isDigit (isDigit_of_mem_decText hd)
    rw [Addr.string, parseAddr, string4_eq, find_punctuation hdigits (.inl rfl), ← string4_eq]
    exact parseIPv4_string4 b
  | v6 b z =>
    obtain ⟨digits, rest, hbody, hdigits⟩ := body6_eq b
    obtain ⟨gs, hgs, hof⟩ := bodyFields_body6 b
    have hfirst : (body6 b ++ zoneText z).find? (fun c => c == '.' || c == ':' || c == '%') =
        some ':' := by
      rw [hbody, append_assoc, cons_append, find_punctuation hdigits (.inr rfl)]
    rw [Addr.string, parseAddr, hfirst]
    show parseIPv6 _ = _
    rw [parseIPv6, splitZone_append (fun c hc => isBody_of_mem_body6 hc)]
    simp only [hgs, hof]

/-! ## What is no address -/

theorem of_decimal {max n : Nat} (h : decimal max s = some n) :
    (∀ c ∈ s, c.isDigit = true) ∧ n ≤ max := by
  rw [decimal] at h
  split at h
  · next hs =>
    cases h
    exact ⟨all_eq_true.mp hs.2.1, hs.2.2.2⟩
  · cases h

theorem isBody_of_parseIPv4Fields {r : Nat × Nat × Nat × Nat} (h : parseIPv4Fields s = some r) :
    ∀ c ∈ s, isBody c = true := by
  rw [parseIPv4Fields] at h
  split at h
  case h_2 => cases h
  case h_1 a b c d hmap =>
    -- the four fields are numerals, and the text is the fields with dots between them
    have hfields : ∀ l ∈ s.splitOn '.', ∃ n, decimal 255 l = some n := fun l hl => by
      have hl' : decimal 255 l ∈ [some a, some b, some c, some d] := hmap ▸ mem_map_of_mem hl
      simp only [mem_cons, not_mem_nil, or_false] at hl'
      rcases hl' with hl' | hl' | hl' | hl' <;> exact ⟨_, hl'⟩
    intro x hx
    have hs : ['.'].intercalate (s.splitOn '.') = s := intercalate_splitOn '.'
    rw [← hs] at hx
    rcases mem_of_mem_intercalate hx with rfl | ⟨l, hl, hx⟩
    · decide
    · obtain ⟨n, hn⟩ := hfields l hl
      simp [isBody, isHex_of_isDigit ((of_decimal hn).1 x hx)]

theorem isBody_of_parseFields {room : Nat} {gs : List Nat} {ellipsis : Option Nat}
    {r : List Nat × Option Nat} (h : parseFields room s gs ellipsis = some r) :
    ∀ c ∈ s, isBody c = true := by
  induction room generalizing s gs ellipsis with
  | zero =>
    rw [parseFields] at h
    split at h
    · next hs => simp [hs]
    · cases h
  | succ room ih =>
    have hdigits : ∀ c ∈ s.takeWhile isHex, isBody c = true := fun c hc => by
      simp [isBody, all_eq_true.mp all_takeWhile c hc]
    have hrest : (∀ c ∈ s.dropWhile isHex, isBody c = true) → ∀ c ∈ s, isBody c = true :=
      fun hrest c hc => by
      rw [← takeWhile_append_dropWhile (p := isHex) (l := s), mem_append] at hc
      exact hc.elim (hdigits c) (hrest c)
    simp only [parseFields] at h
    split at h
    · cases h
    · split at h
      case h_1 hdrop => exact hrest (by simp [hdrop])
      case h_2 =>
        split at h
        · cases h
        · split at h
          · next hfields => exact isBody_of_parseIPv4Fields hfields
          · cases h
      case h_3 => cases h
      case h_4 tail hdrop =>
        refine hrest ?_
        rw [hdrop]
        simp only [forall_mem_cons]
        refine ⟨by decide, by decide, ?_⟩
        split at h
        · cases h
        · split at h
          · next htail => simp [htail]
          · exact ih h
      case h_5 tail _ _ hdrop =>
        refine hrest ?_
        rw [hdrop]
        exact forall_mem_cons.mpr ⟨by decide, ih h⟩
      case h_6 => cases h

theorem isBody_of_bodyFields {r : List Nat × Option Nat} (h : bodyFields s = some r) :
    ∀ c ∈ s, isBody c = true := by
  unfold bodyFields at h
  split at h
  · exact all_eq_true.mp (by decide)
  · exact forall_mem_cons.mpr ⟨by decide, forall_mem_cons.mpr
      ⟨by decide, isBody_of_parseFields h⟩⟩
  · exact isBody_of_parseFields h

theorem splitZone_eq {s body zone : Text} (h : splitZone s = some (body, zone)) :
    body = s ∧ zone = [] ∨ zone ≠ [] ∧ '%' ∈ s := by
  rw [splitZone] at h
  split at h
  · cases h
    exact .inl ⟨rfl, rfl⟩
  · cases h
  · next c tail hne hdrop =>
    cases h
    have hc : c ∈ s := (dropWhile_suffix _).subset (hdrop ▸ mem_cons_self)
    have hstop : (c != '%') = false := by
      have := head?_dropWhile_not (· != '%') s
      rw [hdrop] at this
      simpa using this
    exact .inr ⟨hne, bne_eq_false_iff_eq.mp hstop ▸ hc⟩

/-- An address text without a zone has no other characters than the ones of addresses, and one with
a zone has a `%`. -/
theorem chars_of_parseAddr {a : Addr} (h : parseAddr s = some a) :
    a.zone = [] ∧ (∀ c ∈ s, isBody c = true) ∨ a.zone ≠ [] ∧ '%' ∈ s := by
  rw [parseAddr] at h
  split at h
  · rw [parseIPv4] at h
    split at h
    · next hfields =>
      cases h
      exact .inl ⟨rfl, isBody_of_parseIPv4Fields hfields⟩
    · cases h
  · rw [parseIPv6] at h
    split at h
    · cases h
    next body zone hsplit =>
    split at h
    · next gs hgs =>
      cases h
      obtain ⟨fields, hfields, -⟩ := Option.bind_eq_some_iff.mp hgs
      rcases splitZone_eq hsplit with ⟨rfl, hnil⟩ | hzone
      · exact .inl ⟨hnil, isBody_of_bodyFields hfields⟩
      · exact .inr hzone
    · cases h
  · cases h

/-! ## Prefixes are read back -/

theorem cutLast_append {s t : Text} (h : c ∉ t) : cutLast c (s ++ c :: t) = some (s, t) := by
  have hne : ∀ d ∈ t.reverse, (d != c) = true := fun d hd => by
    rw [bne_iff_ne]
    rintro rfl
    exact h (mem_reverse.mp hd)
  have hrev : (s ++ c :: t).reverse = t.reverse ++ c :: s.reverse := by simp
  obtain ⟨htake, hdrop⟩ := span_append (t := c :: s.reverse) hne (by simp)
  simp only [cutLast, hrev, htake, hdrop, reverse_reverse]

theorem eq_of_cutLast {front back : Text} (h : cutLast c s = some (front, back)) :
    s = front ++ c :: back := by
  rw [cutLast] at h
  split at h
  · cases h
  next d front hdrop =>
  cases h
  have hstop : (d != c) = false := by
    have hhead := head?_dropWhile_not (· != c) s.reverse
    rw [hdrop] at hhead
    simpa using hhead
  have hsplit := takeWhile_append_dropWhile (p := (· != c)) (l := s.reverse)
  rw [hdrop, bne_eq_false_iff_eq.mp hstop] at hsplit
  simpa using (congrArg reverse hsplit).symm

variable {p : Prefix}

theorem slash_mem_of_parsePrefix (h : parsePrefix s = some p) : '/' ∈ s := by
  rw [parsePrefix] at h
  split at h
  · cases h
  · next hcut => exact eq_of_cutLast hcut ▸ by simp

theorem parsePrefix_addr_string {a : Addr} (h : a.zone = []) : parsePrefix a.string = none := by
  cases hparse : parsePrefix a.string with
  | none => rfl
  | some p =>
    have hslash := isBody_of_mem_string h (slash_mem_of_parsePrefix hparse)
    exact absurd hslash (by decide)

/-- **The canonical text of a valid prefix is read as the prefix.** -/
theorem parsePrefix_string (h : p.Valid) : parsePrefix p.string = some p := by
  have hslash : '/' ∉ decText p.bits := fun hmem => by
    have := isDigit_of_mem_decText hmem
    simp at this
  rw [parsePrefix, Prefix.string, cutLast_append hslash]
  simp only [parseAddr_string]
  rw [if_neg (by simp [h.zone_eq]), decimal_decText h.bits_le]

theorem chars_of_prefix_string (h : p.Valid) (hc : c ∈ p.string) : isBody c = true ∨ c = '/' := by
  rw [Prefix.string, mem_append, mem_cons] at hc
  rcases hc with hc | rfl | hc
  · exact .inl (isBody_of_mem_string h.zone_eq hc)
  · exact .inr rfl
  · exact .inl (by simp [isBody, isHex_of_isDigit (isDigit_of_mem_decText hc)])

theorem parseAddr_prefix_string (h : p.Valid) : parseAddr p.string = none := by
  cases hparse : parseAddr p.string with
  | none => rfl
  | some a =>
    exfalso
    have hslash : '/' ∈ p.string := by simp [Prefix.string]
    rcases chars_of_parseAddr hparse with ⟨-, hall⟩ | ⟨-, hpercent⟩
    · exact absurd (hall _ hslash) (by decide)
    · exact absurd (chars_of_prefix_string h hpercent) (by decide)

theorem valid_of_parsePrefix (h : parsePrefix s = some p) : p.Valid := by
  rw [parsePrefix] at h
  split at h
  · cases h
  · split at h
    · cases h
    next a ha =>
    split at h
    · cases h
    next hzone =>
    split at h
    · next n hn =>
      cases h
      exact ⟨(of_decimal hn).2, not_not.mp hzone⟩
    · cases h

end Hostel.Logic.Netip
