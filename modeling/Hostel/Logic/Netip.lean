/-
# Hostel.Logic.Netip — IP addresses and prefixes.

An address is 32 bits, or 128 bits with a zone.  A prefix matches an address of its own family by
the leading bits; on numbers that is a quotient (`agree_iff`), and so is masking.  The IPv6
addresses of `::ffff:0:0/96` stand for IPv4 addresses: `Addr.unmap` reads them so, and
`Prefix.unmapped` the prefixes below (`contains_unmapped`).
-/
import Mathlib.Data.List.Basic
import Mathlib.Data.Nat.Bitwise

namespace Hostel.Logic.Netip

open Nat

abbrev Text := List Char

/-- A valid address; the empty zone is the absence of one. -/
inductive Addr
  | v4 (bits : BitVec 32)
  | v6 (bits : BitVec 128) (zone : Text)
  deriving DecidableEq

namespace Addr

def is4 : Addr → Bool
  | v4 _ => true
  | v6 .. => false

def is6 : Addr → Bool
  | v4 _ => false
  | v6 .. => true

def zone : Addr → Text
  | v4 _ => []
  | v6 _ z => z

def bitLen : Addr → Nat
  | v4 _ => 32
  | v6 .. => 128

/-- The IPv6 addresses that stand for an IPv4 address, `::ffff:0:0/96`. -/
def mapped (b : BitVec 128) : Bool := b.toNat / 2 ^ 32 == 0xffff

def is4In6 : Addr → Bool
  | v4 _ => false
  | v6 b _ => mapped b

/-- The IPv4 address that a mapped address stands for. -/
def unmap : Addr → Addr
  | v4 b => v4 b
  | v6 b z => if mapped b then v4 (b.setWidth 32) else v6 b z

def isUnspecified (a : Addr) : Bool := a == v4 0 || a == v6 0 []

end Addr

/-! ## Prefixes -/

/-- An address and how many of its leading bits count. -/
structure Prefix where
  addr : Addr
  bits : Nat
  deriving DecidableEq

/-- The two numbers agree on all but the last `k` bits. -/
def agree {w : Nat} (k : Nat) (a b : BitVec w) : Bool := (a ^^^ b) >>> k == 0

def clear {w : Nat} (k : Nat) (a : BitVec w) : BitVec w := (a >>> k) <<< k

namespace Prefix

/-- `Prefix.Contains`; an address with a zone is in no prefix. -/
def contains (p : Prefix) : Addr → Bool
  | .v4 a =>
    match p.addr with
    | .v4 b => agree (32 - p.bits) a b
    | .v6 .. => false
  | .v6 a z =>
    match p.addr with
    | .v4 _ => false
    | .v6 b _ => z == [] && agree (128 - p.bits) a b

def masked (p : Prefix) : Prefix :=
  match p.addr with
  | .v4 b => ⟨.v4 (clear (32 - p.bits) b), p.bits⟩
  | .v6 b _ => ⟨.v6 (clear (128 - p.bits) b) [], p.bits⟩

structure Valid (p : Prefix) : Prop where
  bits_le : p.bits ≤ p.addr.bitLen
  zone_eq : p.addr.zone = []

/-- The prefix stands for a block of IPv4 addresses. -/
def isMapped (p : Prefix) : Bool := p.addr.is4In6 && decide (96 ≤ p.bits)

/-- A prefix of mapped addresses read as the IPv4 prefix it stands for. -/
def unmapped (p : Prefix) : Prefix := if p.isMapped then ⟨p.addr.unmap, p.bits - 96⟩ else p

end Prefix

/-- `netip.PrefixFrom` of an address and its own length. -/
def Addr.single : Addr → Prefix
  | .v4 b => ⟨.v4 b, 32⟩
  | .v6 b _ => ⟨.v6 b [], 128⟩

/-! ## Matching by leading bits -/

theorem agree_iff {w k : Nat} {a b : BitVec w} :
    agree k a b = true ↔ a.toNat / 2 ^ k = b.toNat / 2 ^ k := by
  show ((a ^^^ b) >>> k == 0#w) = true ↔ _
  rw [beq_iff_eq, BitVec.ushiftRight_xor_distrib, BitVec.xor_eq_zero_iff, ← BitVec.toNat_inj,
    BitVec.toNat_ushiftRight, BitVec.toNat_ushiftRight, shiftRight_eq_div_pow,
    shiftRight_eq_div_pow]

@[simp] theorem agree_self {w k : Nat} (a : BitVec w) : agree k a a = true := agree_iff.mpr rfl

theorem toNat_clear {w k : Nat} (a : BitVec w) : (clear k a).toNat = a.toNat / 2 ^ k * 2 ^ k := by
  have hle : a.toNat / 2 ^ k * 2 ^ k ≤ a.toNat := div_mul_le_self _ _
  rw [clear, BitVec.toNat_shiftLeft, BitVec.toNat_ushiftRight, shiftRight_eq_div_pow,
    shiftLeft_eq, mod_eq_of_lt (by omega)]

@[simp] theorem agree_clear {w k : Nat} (a b : BitVec w) : agree k a (clear k b) = agree k a b := by
  rw [Bool.eq_iff_iff, agree_iff, agree_iff, toNat_clear,
    Nat.mul_div_cancel _ (Nat.pow_pos Nat.two_pos)]

namespace Prefix

@[simp] theorem contains_masked (p : Prefix) (ip : Addr) :
    p.masked.contains ip = p.contains ip := by
  obtain ⟨a, n⟩ := p
  cases a <;> cases ip <;> simp [masked, contains]

theorem valid_masked {p : Prefix} (h : p.Valid) : p.masked.Valid := by
  obtain ⟨a, n⟩ := p
  have hn := h.bits_le
  cases a with
  | v4 b | v6 b z => exact ⟨hn, rfl⟩

theorem valid_single (a : Addr) : a.single.Valid := by
  cases a with
  | v4 b | v6 b z => exact ⟨le_refl _, rfl⟩

/-! ## Mapped prefixes -/

theorem isMapped_iff {p : Prefix} :
    p.isMapped = true ↔ ∃ b z, p.addr = .v6 b z ∧ b.toNat / 2 ^ 32 = 0xffff ∧ 96 ≤ p.bits := by
  obtain ⟨a, n⟩ := p
  cases a with
  | v4 b => simp [isMapped, Addr.is4In6]
  | v6 b z => simp [isMapped, Addr.is4In6, Addr.mapped]

/-- A mapped prefix matches no IPv4 address, although it stands for some. -/
theorem exists_contains_unmapped {p : Prefix} (h : p.isMapped = true) :
    ∃ b, p.unmapped.contains (.v4 b) = true ∧ p.contains (.v4 b) = false := by
  obtain ⟨b, z, hb, hm, -⟩ := isMapped_iff.mp h
  have hun : p.addr.unmap = .v4 (b.setWidth 32) := by
    rw [hb]
    exact if_pos (beq_iff_eq.mpr hm)
  refine ⟨b.setWidth 32, ?_, ?_⟩
  · rw [unmapped, if_pos h, hun]
    exact agree_self _
  · rw [contains, hb]

end Prefix

end Hostel.Logic.Netip
