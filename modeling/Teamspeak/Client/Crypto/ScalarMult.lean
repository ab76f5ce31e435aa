import Mathlib.Algebra.Module.Basic
import Mathlib.Data.ZMod.Basic
import Teamspeak.Client.Crypto.PublicKey

/-!
# Scalars that the library refuses

`scalarMultFull` of `primitives.ts`, and the scalars that it is called with.  The library
multiplies by 1 up to the group order less one; a scalar above is split by that order, which
takes a point with a torsion part elsewhere than to the identity.

* `scalarMultFull_eq`: the multiple, for every scalar whose quotient the library takes.
* `reduced_iff`: the points for which the remainder alone would do.
* `getSharedSecret2_eq`, `deriveKeyFromBlock_eq`: the two callers, whose scalars it always takes.
-/

namespace Teamspeak.Client

def curve25519KeySize : Nat := 32

/-- What the code uses of the library's points (`ed25519.Point`); `none` is a throw. -/
structure PointLibrary (P : Type) where
  /-- `CURVE().n`. -/
  n : Int
  zero : P
  add : P → P → P
  negate : P → P
  multiply : P → Int → Option P

/-- How it writes a point, and reads one. -/
structure PointEncoding (P : Type) where
  fromBytes : Bytes → Option P
  toBytes : P → Bytes

variable {P : Type}

/-- Multiply a point by a scalar that may be as large as the group order, or larger. -/
def scalarMultFull (L : PointLibrary P) (point : P) (scalar : Int) : Option P :=
  if scalar < L.n then if scalar = 0 then some L.zero else L.multiply point scalar
  else do
    let remainder := scalar.tmod L.n
    let quotient := scalar.tdiv L.n
    let mainPart ← (if remainder = 0 then some L.zero else L.multiply point remainder)
    -- `multiply` refuses the order itself.
    let pointTimesN := L.add (← L.multiply point (L.n - 1)) point
    let cofactorPart ← L.multiply pointTimesN quotient
    return L.add mainPart cofactorPart

/-! ### The callers -/

/-- Clamp a scalar. -/
def clampScalar (key : Bytes) : Bytes :=
  if key.length < curve25519KeySize then key
  else
    let key := key.set 0 (key.getD 0 0 &&& 248)
    key.set (curve25519KeySize - 1) ((key.getD (curve25519KeySize - 1) 0 &&& 127) ||| 64)

/-- A little-endian byte array as an unsigned number. -/
def bytesToBigIntLE (bytes : Bytes) : Nat :=
  bytes.foldr (fun b result => result <<< 8 ||| b.toNat) 0

/-- The sign bit of an encoded point, the other way. -/
def flipSign (bytes : Bytes) : Bytes :=
  bytes.set (curve25519KeySize - 1) (bytes.getD (curve25519KeySize - 1) 0 ^^^ 0x80)

/-- A private key without the top bit. -/
def clearTop (privateKey : Bytes) : Bytes :=
  privateKey.set (curve25519KeySize - 1) (privateKey.getD (curve25519KeySize - 1) 0 &&& 0x7f)

/-- `getSharedSecret2`; `none` where it throws. -/
def getSharedSecret2 (L : PointLibrary P) (E : PointEncoding P) (sha512 : Bytes → Bytes)
    (publicKeyBytes privateKeyBytes : Bytes) : Option Bytes :=
  if publicKeyBytes.length ≠ curve25519KeySize ∨
      privateKeyBytes.length ≠ curve25519KeySize then none
  else do
    let rawScalar := bytesToBigIntLE (clearTop privateKeyBytes)
    let pub ← E.fromBytes publicKeyBytes
    let sharedPoint ← scalarMultFull L (L.negate pub) rawScalar
    return sha512 (flipSign (E.toBytes sharedPoint))

/-- `deriveKeyFromBlock`, of a block's hash and key; `none` where it throws. -/
def deriveKeyFromBlock (L : PointLibrary P) (E : PointEncoding P) (hash key parent : Bytes) :
    Option Bytes := do
  let scalar := bytesToBigIntLE (clampScalar hash)
  let pub ← E.fromBytes key
  let par ← E.fromBytes parent
  let res ← scalarMultFull L (L.negate pub) scalar
  return flipSign (E.toBytes (L.add res (L.negate par)))

/-! ### Multiplying -/

/-- The library's points are a group, and it multiplies them by the scalars that it takes. -/
structure PointLibrary.Multiplies [AddCommGroup P] (L : PointLibrary P) : Prop where
  order_pos : 0 < L.n
  zero : L.zero = 0
  add : ∀ p q, L.add p q = p + q
  negate : ∀ p, L.negate p = -p
  multiply : ∀ p s, 1 ≤ s → s < L.n → L.multiply p s = some (s • p)

section

variable [AddCommGroup P] {L : PointLibrary P}

theorem PointLibrary.Multiplies.part (h : L.Multiplies) (point : P) {s : Int} (hs : 0 ≤ s)
    (hlt : s < L.n) :
    (if s = 0 then some L.zero else L.multiply point s) = some (s • point) := by
  split
  · rename_i hzero
    rw [hzero, h.zero, zero_smul]
  · exact h.multiply point s (by omega) hlt

/-- The multiple that `multiply` refuses. -/
theorem PointLibrary.Multiplies.add_order (h : L.Multiplies) (point : P) :
    L.add ((L.n - 1) • point) point = L.n • point := by
  rw [h.add, sub_smul, one_smul, sub_add_cancel]

/-- A scalar, split by the order. -/
theorem smul_split (n scalar : Int) (point : P) :
    scalar • point = (scalar % n) • point + (scalar / n) • (n • point) := by
  rw [smul_smul, ← add_smul, mul_comm, Int.emod_add_mul_ediv]

/-- **The multiple of every point by every scalar** whose quotient is below the order. -/
theorem scalarMultFull_eq (h : L.Multiplies) (point : P) {scalar : Int} (hscalar : 0 ≤ scalar)
    (hquotient : scalar / L.n < L.n) : scalarMultFull L point scalar = some (scalar • point) := by
  rw [scalarMultFull]
  split
  · rename_i hlt
    exact h.part point hscalar hlt
  · rename_i hge
    have hpos := h.order_pos
    have hquotient_pos : 1 ≤ scalar / L.n :=
      (Int.le_ediv_iff_mul_le hpos).mpr (by omega)
    have hremainder := Int.emod_nonneg scalar hpos.ne'
    have hremainder_lt := Int.emod_lt_of_pos scalar hpos
    rw [Int.tmod_eq_emod_of_nonneg hscalar, Int.tdiv_eq_ediv_of_nonneg hscalar]
    dsimp only
    rw [h.part point hremainder hremainder_lt, h.multiply point _ (by omega) (by omega)]
    dsimp only [Option.bind_eq_bind, Option.bind_some]
    rw [h.add_order, h.multiply _ _ hquotient_pos hquotient]
    dsimp only [Option.bind_some, Option.pure_def]
    rw [h.add, smul_split L.n scalar]

/-- The order of the curve's base point. -/
def baseOrder : Nat := 2 ^ 252 + 27742317777372353535851937790883648493

/-- The library over a cyclic group of the curve's order, of which the base point's is an
eighth. -/
def cyclicLibrary : PointLibrary (ZMod (8 * baseOrder)) where
  n := baseOrder
  zero := 0
  add p q := p + q
  negate p := -p
  multiply p s := if 1 ≤ s ∧ s < baseOrder then some (s • p) else none

theorem cyclicLibrary_multiplies : cyclicLibrary.Multiplies where
  order_pos := by decide
  zero := rfl
  add _ _ := rfl
  negate _ := rfl
  multiply _ _ hone hlt := if_pos ⟨hone, hlt⟩

/-- A point of the order of the whole group, by a scalar of 255 bits. -/
theorem scalarMultFull_wide :
    scalarMultFull cyclicLibrary 1 (2 ^ 255 - 1) = some ((2 ^ 255 - 1 : Int) • 1) :=
  scalarMultFull_eq cyclicLibrary_multiplies 1 (by decide) (by decide)

/-- The remainder alone gives the multiple just where the quotient's part is the identity. -/
theorem reduced_iff (n scalar : Int) (point : P) :
    (scalar % n) • point = scalar • point ↔ (scalar / n) • (n • point) = 0 := by
  rw [smul_split n scalar, left_eq_add]

/-! ### The scalars of the callers -/

theorem bytesToBigIntLE_eq (bytes : Bytes) :
    bytesToBigIntLE bytes = BigEndian.value bytes.reverse := by
  rw [BigEndian.value, List.foldl_reverse, bytesToBigIntLE]
  congr
  funext b result
  rw [← Nat.shiftLeft_add_eq_or_of_lt (i := 8) b.toNat_lt, Nat.shiftLeft_eq]

/-- 32 bytes with no top bit are a number of 255 bits. -/
theorem bytesToBigIntLE_set_lt {key : Bytes} (hlen : key.length = curve25519KeySize) {b : UInt8}
    (hb : b.toNat < 128) : bytesToBigIntLE (key.set (curve25519KeySize - 1) b) < 2 ^ 255 := by
  have hkey : key.set (curve25519KeySize - 1) b = key.take 31 ++ [b] := by
    rw [List.set_eq_take_append_cons_drop, if_pos (by rw [hlen]; decide)]
    rw [List.drop_eq_nil_of_le (by rw [hlen]; decide)]
    rfl
  have hvalue := BigEndian.value_lt (key.take 31).reverse
  rw [List.length_reverse, List.length_take, hlen, show min 31 curve25519KeySize = 31 from rfl]
    at hvalue
  rw [bytesToBigIntLE_eq, hkey, List.reverse_append, List.reverse_singleton, List.singleton_append,
    BigEndian.value_cons, List.length_reverse, List.length_take, hlen,
    show min 31 curve25519KeySize = 31 from rfl]
  calc b.toNat * 256 ^ 31 + BigEndian.value (key.take 31).reverse
      < b.toNat * 256 ^ 31 + 256 ^ 31 := Nat.add_lt_add_left hvalue _
    _ = (b.toNat + 1) * 256 ^ 31 := (Nat.succ_mul _ _).symm
    _ ≤ 128 * 256 ^ 31 := Nat.mul_le_mul_right _ hb
    _ = 2 ^ 255 := by norm_num

/-- A scalar of 255 bits is taken, the order of the library's curve being above `2 ^ 252`. -/
theorem scalarMultFull_of_lt (h : L.Multiplies) (horder : 2 ^ 252 < L.n) (point : P)
    {scalar : Nat} (hscalar : scalar < 2 ^ 255) :
    scalarMultFull L point scalar = some (scalar • point) := by
  rw [scalarMultFull_eq h point (Int.natCast_nonneg scalar), natCast_zsmul]
  have hlt : (scalar : Int) < 2 ^ 255 := by exact_mod_cast hscalar
  have hquotient : (scalar : Int) / L.n < 8 := (Int.ediv_lt_iff_lt_mul h.order_pos).mpr (by omega)
  omega

theorem clearTop_lt {key : Bytes} (hlen : key.length = curve25519KeySize) :
    bytesToBigIntLE (clearTop key) < 2 ^ 255 := by
  refine bytesToBigIntLE_set_lt hlen ?_
  rw [UInt8.toNat_and]
  exact Nat.and_lt_two_pow (n := 7) _ (by decide)

theorem clampScalar_lt {key : Bytes} (hlen : key.length = curve25519KeySize) :
    bytesToBigIntLE (clampScalar key) < 2 ^ 255 := by
  rw [clampScalar, if_neg (by rw [hlen]; decide)]
  refine bytesToBigIntLE_set_lt ((List.length_set).trans hlen) ?_
  rw [UInt8.toNat_or, UInt8.toNat_and]
  exact Nat.or_lt_two_pow (n := 7) (Nat.and_lt_two_pow _ (by decide)) (by decide)

/-- **The shared secret** of two keys of 32 bytes is that of the multiple of the negated public
key by the whole of the private key. -/
theorem getSharedSecret2_eq (h : L.Multiplies) (horder : 2 ^ 252 < L.n) (E : PointEncoding P)
    (sha512 : Bytes → Bytes) {publicKey privateKey : Bytes}
    (hpublic : publicKey.length = curve25519KeySize)
    (hprivate : privateKey.length = curve25519KeySize) :
    getSharedSecret2 L E sha512 publicKey privateKey =
      (E.fromBytes publicKey).map fun pub =>
        sha512 (flipSign (E.toBytes (bytesToBigIntLE (clearTop privateKey) • -pub))) := by
  rw [getSharedSecret2, if_neg (by simp [hpublic, hprivate])]
  cases E.fromBytes publicKey with
  | none => rfl
  | some pub =>
    simp only [scalarMultFull_of_lt h horder _ (clearTop_lt hprivate), h.negate]
    rfl

/-- **A key that is derived** is the parent's less the multiple of the block's. -/
theorem deriveKeyFromBlock_eq (h : L.Multiplies) (horder : 2 ^ 252 < L.n) (E : PointEncoding P)
    {hash : Bytes} (hhash : hash.length = curve25519KeySize) (key parent : Bytes) :
    deriveKeyFromBlock L E hash key parent =
      (E.fromBytes key).bind fun pub => (E.fromBytes parent).map fun par =>
        flipSign (E.toBytes (bytesToBigIntLE (clampScalar hash) • -pub + -par)) := by
  rw [deriveKeyFromBlock]
  cases E.fromBytes key with
  | none => rfl
  | some pub =>
    cases E.fromBytes parent with
    | none => rfl
    | some par =>
      simp only [scalarMultFull_of_lt h horder _ (clampScalar_lt hhash), h.negate, h.add]
      rfl

end

end Teamspeak.Client
