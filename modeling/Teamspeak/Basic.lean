import Mathlib.Data.Rat.Floor

/-!
# Bytes and times

Byte arrays are lists of `UInt8`, and a time is what `performance.now()` gives: a
number of milliseconds with a fraction, on a clock that does not go back.
-/

namespace Teamspeak

abbrev Bytes := List UInt8

/-- A time in milliseconds. -/
abbrev Time := ℚ

/-- `DataView.setUint16(_, n, false)`: the low 16 bits, high byte first. -/
def uint16BE (n : Nat) : Bytes := [UInt8.ofNat (n / 256), UInt8.ofNat n]

/-- `DataView.setBigUint64(_, n, false)`. -/
def uint64BE (n : Nat) : Bytes :=
  uint16BE (n / 281474976710656) ++ uint16BE (n / 4294967296) ++ uint16BE (n / 65536) ++ uint16BE n

/-- `DataView.getUint16(0, false)`; a missing byte reads as zero, which no caller
reaches. -/
def readUint16BE (data : Bytes) : Nat := (data.getD 0 0).toNat * 256 + (data.getD 1 0).toNat

theorem readUint16BE_lt (data : Bytes) : readUint16BE data < 65536 := by
  have h₀ := (data.getD 0 0).toNat_lt
  have h₁ := (data.getD 1 0).toNat_lt
  rw [readUint16BE]
  omega

theorem readUint16BE_uint16BE_append {n : Nat} (h : n < 65536) (rest : Bytes) :
    readUint16BE (uint16BE n ++ rest) = n := by
  simp only [readUint16BE, uint16BE, List.cons_append, List.getD_cons_zero, List.getD_cons_succ,
    UInt8.toNat_ofNat']
  omega

theorem uint16BE_inj {a b : Nat} (h : uint16BE a = uint16BE b) : a % 65536 = b % 65536 := by
  simp only [uint16BE, List.cons.injEq, and_true] at h
  have h₁ := congrArg UInt8.toNat h.1
  have h₂ := congrArg UInt8.toNat h.2
  simp only [UInt8.toNat_ofNat'] at h₁ h₂
  omega

theorem uint64BE_inj {a b : Nat} (ha : a < 18446744073709551616) (hb : b < 18446744073709551616)
    (h : uint64BE a = uint64BE b) : a = b := by
  simp only [uint64BE] at h
  obtain ⟨h, h₄⟩ := List.append_inj' h rfl
  obtain ⟨h, h₃⟩ := List.append_inj' h rfl
  obtain ⟨h₁, h₂⟩ := List.append_inj' h rfl
  have h₁ := uint16BE_inj h₁
  have h₂ := uint16BE_inj h₂
  have h₃ := uint16BE_inj h₃
  have h₄ := uint16BE_inj h₄
  omega

end Teamspeak
