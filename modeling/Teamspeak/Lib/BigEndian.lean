import Mathlib.Algebra.Group.Nat.Defs
import Mathlib.Data.List.Induction

/-!
# Numbers written in bytes, high byte first

* `value_bytes`, `bytes_value`: the two conversions undo each other at a fixed width.
* `value_append`: two strings after one another.
* `value_zipWith_xor`: the exclusive or, byte by byte.
-/

namespace Teamspeak.BigEndian

/-- The number that bytes write. -/
def value (bytes : List UInt8) : Nat := bytes.foldl (fun n b => n * 256 + b.toNat) 0

/-- The low `size` bytes of a number. -/
def bytes (n : Nat) : Nat → List UInt8
  | 0 => []
  | size + 1 => bytes (n / 256) size ++ [UInt8.ofNat n]

@[simp] theorem value_nil : value [] = 0 := rfl

@[simp] theorem length_bytes (n size : Nat) : (bytes n size).length = size := by
  induction size generalizing n with
  | zero => rfl
  | succ size ih => rw [bytes, List.length_append, ih, List.length_singleton]

theorem value_concat (l : List UInt8) (b : UInt8) : value (l ++ [b]) = value l * 256 + b.toNat := by
  rw [value, List.foldl_append, List.foldl_cons, List.foldl_nil, value]

theorem value_lt (l : List UInt8) : value l < 256 ^ l.length := by
  induction l using List.reverseRecOn with
  | nil => exact Nat.one_pos
  | append_singleton l b ih =>
    have hb := b.toNat_lt
    rw [value_concat, List.length_append, List.length_singleton, Nat.pow_succ]
    omega

theorem value_append (l m : List UInt8) : value (l ++ m) = value l * 256 ^ m.length + value m := by
  induction m using List.reverseRecOn with
  | nil => rw [List.append_nil, List.length_nil, Nat.pow_zero, Nat.mul_one, value_nil, Nat.add_zero]
  | append_singleton m b ih =>
    rw [← List.append_assoc, value_concat, value_concat, ih, List.length_append,
      List.length_singleton, Nat.pow_succ, Nat.add_mul, Nat.mul_assoc, Nat.add_assoc]

theorem value_cons (b : UInt8) (l : List UInt8) :
    value (b :: l) = b.toNat * 256 ^ l.length + value l := by
  have h : value [b] = b.toNat := by rw [value, List.foldl_cons, List.foldl_nil, Nat.zero_mul,
    Nat.zero_add]
  rw [← h]
  exact value_append [b] l

theorem value_bytes {n size : Nat} (h : n < 256 ^ size) : value (bytes n size) = n := by
  induction size generalizing n with
  | zero =>
    rw [Nat.pow_zero] at h
    rw [Nat.lt_one_iff.mp h]
    rfl
  | succ size ih =>
    have hdiv : n / 256 < 256 ^ size := by
      rw [Nat.div_lt_iff_lt_mul (by decide), ← Nat.pow_succ]
      exact h
    rw [bytes, value_concat, ih hdiv, UInt8.toNat_ofNat']
    omega

theorem bytes_value (l : List UInt8) : bytes (value l) l.length = l := by
  induction l using List.reverseRecOn with
  | nil => rfl
  | append_singleton l b ih =>
    have hb := b.toNat_lt
    have hdiv : (value l * 256 + b.toNat) / 256 = value l := by omega
    have hlast : UInt8.ofNat (value l * 256 + b.toNat) = b := by
      rw [← UInt8.toNat_inj, UInt8.toNat_ofNat']
      omega
    rw [List.length_append, List.length_singleton, bytes, value_concat, hdiv, ih, hlast]

/-- Strings of one length that write the same number are the same. -/
theorem value_inj {l m : List UInt8} (hlength : l.length = m.length) (h : value l = value m) :
    l = m := by
  rw [← bytes_value l, ← bytes_value m, h, hlength]

theorem value_replicate_zero (n : Nat) : value (List.replicate n 0) = 0 := by
  induction n with
  | zero => rfl
  | succ n ih =>
    rw [List.replicate_succ, value_cons, ih, Nat.add_zero, UInt8.toNat_zero, Nat.zero_mul]

/-- Digits in base `2 ^ w` are combined one by one. -/
theorem xor_digits {a b x y w : Nat} (hx : x < 2 ^ w) (hy : y < 2 ^ w) :
    (a * 2 ^ w + x) ^^^ (b * 2 ^ w + y) = (a ^^^ b) * 2 ^ w + (x ^^^ y) := by
  have hxy := Nat.xor_lt_two_pow hx hy
  refine Nat.eq_of_testBit_eq fun i => ?_
  rw [Nat.testBit_xor, Nat.mul_comm a, Nat.mul_comm b, Nat.mul_comm (a ^^^ b),
    Nat.testBit_two_pow_mul_add _ hx, Nat.testBit_two_pow_mul_add _ hy,
    Nat.testBit_two_pow_mul_add _ hxy]
  split <;> rw [Nat.testBit_xor]

theorem value_zipWith_xor {l m : List UInt8} (h : l.length = m.length) :
    value (List.zipWith (· ^^^ ·) l m) = value l ^^^ value m := by
  induction l using List.reverseRecOn generalizing m with
  | nil =>
    rw [List.length_nil] at h
    rw [List.length_eq_zero_iff.mp h.symm]
    rfl
  | append_singleton l b ih =>
    rcases List.eq_nil_or_concat m with rfl | ⟨m, c, rfl⟩
    · rw [List.length_append] at h
      exact absurd h (by simp)
    · rw [List.concat_eq_append, List.length_append, List.length_append, List.length_singleton,
        List.length_singleton] at h
      have h : l.length = m.length := by omega
      rw [List.concat_eq_append, List.zipWith_append h, List.zipWith_cons_cons,
        List.zipWith_nil_left, value_concat, value_concat, value_concat, ih h, UInt8.toNat_xor]
      exact (xor_digits (w := 8) b.toNat_lt c.toNat_lt).symm

end Teamspeak.BigEndian
