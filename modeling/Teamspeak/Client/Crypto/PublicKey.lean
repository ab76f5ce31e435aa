import Teamspeak.Client.Crypto.Base64
import Teamspeak.Lib.BigEndian

/-!
# Public keys in DER

The public key of an identity, as `identity.ts` writes it and reads it back: a SEQUENCE of a
BIT STRING, the size and the two coordinates, or, in the legacy form, of the coordinates
first.  A place that is not a number is `none`.

* `parseDerTlv_encode`: what was written under a tag is read back.
* `positiveIntToBytes_encodePositiveInt`: a coordinate is, whatever it starts with.
* `publicKey_roundTrip`: both forms give the point they were made of, and the canonical rule
  refuses the legacy form.
-/

namespace Teamspeak.Client

def p256ScalarSize : Nat := 32
def p256PointPrefix : UInt8 := 0x04

inductive DerError
  /-- `expected DER tag …, got …` -/
  | wrongTag (expected got : UInt8)
  /-- `unsupported DER length encoding` -/
  | unsupportedLength
  /-- `integer too large` -/
  | integerTooLarge
  /-- `invalid public key point encoding` -/
  | invalidPoint
  deriving DecidableEq

/-! ### Writing -/

def encodeDerLength (len : Nat) : Bytes :=
  if len < 128 then [UInt8.ofNat len]
  else if len < 256 then [0x81, UInt8.ofNat len]
  else [0x82, UInt8.ofNat (len / 256), UInt8.ofNat len]

def encodeDerTlv (tag : UInt8) (value : Bytes) : Bytes :=
  tag :: (encodeDerLength value.length ++ value)

/-- The leading zeros go, but not the last byte. -/
def stripZeros : Bytes → Bytes
  | b :: c :: rest => if b = 0 then stripZeros (c :: rest) else b :: c :: rest
  | v => v

/-- A zero goes before a high bit. -/
def signed (v : Bytes) : Bytes := if v.getD 0 0 &&& 0x80 ≠ 0 then 0 :: v else v

/-- `encodePositiveInt` of bytes. -/
def encodePositiveInt (v : Bytes) : Bytes := signed (stripZeros v)

/-- The bytes of a number, as the loop of `encodePositiveInt` finds them: there are four at
most. -/
def numberBytes : (rounds n : Nat) → Bytes
  | 0, _ => []
  | rounds + 1, n =>
    (if n / 256 > 0 then numberBytes rounds (n / 256) else []) ++ [UInt8.ofNat n]

/-- `encodePositiveInt` of a number. -/
def encodePositiveNumber (n : Nat) : Bytes := signed (numberBytes 4 n)

/-- What `encodeTsPublicKey` writes, before base64. -/
def tsPublicKeyDer (x y : Bytes) : Bytes :=
  let bitStringDer := encodeDerTlv 0x03 [0x07, 0x00]
  let integerSize := encodeDerTlv 0x02 (encodePositiveNumber 32)
  let integerX := encodeDerTlv 0x02 (encodePositiveInt x)
  let integerY := encodeDerTlv 0x02 (encodePositiveInt y)
  encodeDerTlv 0x30 (bitStringDer ++ (integerSize ++ (integerX ++ integerY)))

def encodeTsPublicKey (x y : Bytes) : Str := toBase64 (tsPublicKeyDer x y)

/-- The legacy form, `SEQUENCE { INTEGER(x), INTEGER(y), BIT_STRING, INTEGER }`: what it holds. -/
def legacyFields (x y bitString integer : Bytes) : Bytes :=
  encodeDerTlv 0x02 (encodePositiveInt x) ++ (encodeDerTlv 0x02 (encodePositiveInt y) ++
    (encodeDerTlv 0x03 bitString ++ encodeDerTlv 0x02 integer))

def legacyPublicKeyDer (x y bitString integer : Bytes) : Bytes :=
  encodeDerTlv 0x30 (legacyFields x y bitString integer)

/-! ### Reading -/

structure ParsedTlv where
  value : Bytes
  consumed : Option Nat

/-- The value of a length that is read up to `pos`. -/
def tlvAt (data : Bytes) (offset pos len : Nat) : ParsedTlv :=
  { value := (data.drop pos).take len, consumed := some (pos - offset + len) }

def parseDerTlv (data : Bytes) (expectedTag : UInt8) :
    (offset : Option Nat) → Except DerError ParsedTlv
  | none => .error (.wrongTag expectedTag 0)
  | some offset =>
    if data[offset]? ≠ some expectedTag then .error (.wrongTag expectedTag (data.getD offset 0))
    else
      match data[offset + 1]? with
      | none => .error .unsupportedLength
      | some firstLenByte =>
        if firstLenByte < 0x80 then .ok (tlvAt data offset (offset + 2) firstLenByte.toNat)
        else if firstLenByte = 0x81 then
          match data[offset + 2]? with
          -- no length: an empty slice, and nothing to go on from
          | none => .ok { value := [], consumed := none }
          | some len => .ok (tlvAt data offset (offset + 3) len.toNat)
        else if firstLenByte = 0x82 then
          .ok (tlvAt data offset (offset + 4)
            ((data.getD (offset + 2) 0).toNat * 256 + (data.getD (offset + 3) 0).toNat))
        else .error .unsupportedLength

/-- `offset += consumed`. -/
def advance (offset consumed : Option Nat) : Option Nat :=
  match offset, consumed with
  | some offset, some consumed => some (offset + consumed)
  | _, _ => none

def positiveIntToBytes (int : Bytes) (size : Nat) : Except DerError Bytes :=
  let stripped := stripZeros int
  if stripped.length > size then .error .integerTooLarge
  else if stripped.length = size then .ok stripped
  else .ok (List.replicate (size - stripped.length) 0 ++ stripped)

def buildUncompressedPoint (x y : Bytes) : Except DerError Bytes :=
  if x.length > p256ScalarSize ∨ y.length > p256ScalarSize then .error .invalidPoint
  else
    .ok (p256PointPrefix :: (List.replicate (p256ScalarSize - x.length) 0 ++ x ++
      (List.replicate (p256ScalarSize - y.length) 0 ++ y)))

def parseTsCanonicalPublicKey (data : Bytes) : Except DerError Bytes := do
  let seq := (← parseDerTlv data 0x30 (some 0)).value
  let bs ← parseDerTlv seq 0x03 (some 0)
  let offset := advance (some 0) bs.consumed
  let sizeInt ← parseDerTlv seq 0x02 offset
  let offset := advance offset sizeInt.consumed
  let xInt ← parseDerTlv seq 0x02 offset
  let offset := advance offset xInt.consumed
  let yInt ← parseDerTlv seq 0x02 offset
  buildUncompressedPoint (← positiveIntToBytes xInt.value p256ScalarSize)
    (← positiveIntToBytes yInt.value p256ScalarSize)

def parseTsLegacyPublicKey (data : Bytes) : Except DerError Bytes := do
  let seq := (← parseDerTlv data 0x30 (some 0)).value
  let xInt ← parseDerTlv seq 0x02 (some 0)
  let offset := advance (some 0) xInt.consumed
  let yInt ← parseDerTlv seq 0x02 offset
  buildUncompressedPoint (← positiveIntToBytes xInt.value p256ScalarSize)
    (← positiveIntToBytes yInt.value p256ScalarSize)

def parseTsPublicKeyDer (data : Bytes) : Except DerError Bytes :=
  match parseTsCanonicalPublicKey data with
  | .ok point => .ok point
  | .error _ => parseTsLegacyPublicKey data

/-! ### Values under a tag -/

theorem tlvAt_append (front before value rest : Bytes) :
    tlvAt (front ++ (before ++ (value ++ rest))) front.length (front.length + before.length)
        value.length = ⟨value, some (before.length + value.length)⟩ := by
  have hdrop : (front ++ (before ++ (value ++ rest))).drop (front.length + before.length) =
      value ++ rest := by
    rw [← List.drop_drop, List.drop_left, List.drop_left]
  rw [tlvAt, hdrop, List.take_left, Nat.add_sub_cancel_left]

theorem length_encodeDerTlv (tag : UInt8) (value : Bytes) :
    (encodeDerTlv tag value).length = 1 + (encodeDerLength value.length).length + value.length := by
  rw [encodeDerTlv, List.length_cons, List.length_append]
  omega

theorem getElem?_front (front l : Bytes) (k : Nat) :
    (front ++ l)[front.length + k]? = l[k]? := by
  rw [List.getElem?_append_right (Nat.le_add_right _ _), Nat.add_sub_cancel_left]

/-- What was written under a tag is read back, wherever it stands. -/
theorem parseDerTlv_encode (tag : UInt8) {value : Bytes} (h : value.length < 65536)
    (front rest : Bytes) :
    parseDerTlv (front ++ (encodeDerTlv tag value ++ rest)) tag (some front.length) =
      .ok ⟨value, some (encodeDerTlv tag value).length⟩ := by
  have hcons : encodeDerTlv tag value ++ rest =
      (tag :: encodeDerLength value.length) ++ (value ++ rest) := by
    rw [encodeDerTlv, List.cons_append, List.cons_append, List.append_assoc]
  have hlength : (encodeDerTlv tag value).length =
      (tag :: encodeDerLength value.length).length + value.length := by
    rw [length_encodeDerTlv, List.length_cons]
    omega
  have hvalue := tlvAt_append front (tag :: encodeDerLength value.length) value rest
  rw [hlength, ← hvalue, hcons]
  have htag : (front ++ ((tag :: encodeDerLength value.length) ++ (value ++ rest)))[front.length]? =
      some tag := getElem?_front front _ 0
  have hget (k : Nat) (hk : k < (encodeDerLength value.length).length) :
      (front ++ ((tag :: encodeDerLength value.length) ++ (value ++ rest)))[front.length + (k + 1)]? =
        (encodeDerLength value.length)[k]? := by
    rw [getElem?_front, List.cons_append, List.getElem?_cons_succ, List.getElem?_append_left hk]
  rw [parseDerTlv, if_neg (not_not_intro htag)]
  by_cases hshort : value.length < 128
  · have hbytes : encodeDerLength value.length = [UInt8.ofNat value.length] := if_pos hshort
    have hfirst := hget 0 (by rw [hbytes]; exact Nat.one_pos)
    have hnat : (UInt8.ofNat value.length).toNat = value.length := by
      rw [UInt8.toNat_ofNat']
      omega
    have hlt : UInt8.ofNat value.length < 0x80 := by
      rw [UInt8.lt_iff_toNat_lt, hnat]
      exact hshort
    rw [hbytes] at hfirst ⊢
    simp only [hfirst, List.getElem?_cons_zero, if_pos hlt, hnat]
    rfl
  · by_cases hmiddle : value.length < 256
    · have hbytes : encodeDerLength value.length = [0x81, UInt8.ofNat value.length] := by
        rw [encodeDerLength, if_neg hshort, if_pos hmiddle]
      have hfirst := hget 0 (by rw [hbytes]; exact Nat.two_pos)
      have hsecond := hget 1 (by rw [hbytes]; exact Nat.one_lt_two)
      have hnat : (UInt8.ofNat value.length).toNat = value.length := by
        rw [UInt8.toNat_ofNat']
        omega
      rw [hbytes] at hfirst hsecond ⊢
      simp only [hfirst, hsecond, List.getElem?_cons_zero, List.getElem?_cons_succ, hnat]
      rfl
    · have hbytes : encodeDerLength value.length =
          [0x82, UInt8.ofNat (value.length / 256), UInt8.ofNat value.length] := by
        rw [encodeDerLength, if_neg hshort, if_neg hmiddle]
      have hfirst := hget 0 (by rw [hbytes]; exact Nat.succ_pos 2)
      have hsecond := hget 1 (by rw [hbytes]; exact Nat.succ_lt_succ (Nat.succ_pos 1))
      have hthird := hget 2 (by rw [hbytes]; exact Nat.lt_succ_self 2)
      have hnat : (UInt8.ofNat (value.length / 256)).toNat * 256 +
          (UInt8.ofNat value.length).toNat = value.length := by
        rw [UInt8.toNat_ofNat', UInt8.toNat_ofNat']
        omega
      rw [hbytes] at hfirst hsecond hthird ⊢
      simp only [List.getD_eq_getElem?_getD, hfirst, hsecond, hthird, List.getElem?_cons_zero,
        List.getElem?_cons_succ, Option.getD_some, hnat]
      rfl

theorem parseDerTlv_whole (tag : UInt8) {value : Bytes} (h : value.length < 65536) :
    parseDerTlv (encodeDerTlv tag value) tag (some 0) =
      .ok ⟨value, some (encodeDerTlv tag value).length⟩ := by
  have hparsed := parseDerTlv_encode tag h [] []
  rwa [List.append_nil, List.nil_append] at hparsed

theorem length_encodeDerTlv_le (tag : UInt8) (value : Bytes) :
    (encodeDerTlv tag value).length ≤ value.length + 4 := by
  have hlength : (encodeDerLength value.length).length ≤ 3 := by
    rw [encodeDerLength]
    split
    · exact Nat.succ_le_succ (Nat.zero_le 2)
    · split
      · exact Nat.le_succ 2
      · exact Nat.le_refl 3
  rw [length_encodeDerTlv]
  omega

/-! ### Coordinates -/

theorem value_stripZeros (v : Bytes) : BigEndian.value (stripZeros v) = BigEndian.value v := by
  induction v using stripZeros.induct with
  | case1 c rest ih =>
    rw [stripZeros, if_pos rfl, ih, BigEndian.value_cons 0, UInt8.toNat_zero, Nat.zero_mul,
      Nat.zero_add]
  | case2 b c rest hb => rw [stripZeros, if_neg hb]
  | case3 v hv => rw [stripZeros.eq_2 v hv]

theorem length_stripZeros_le (v : Bytes) : (stripZeros v).length ≤ v.length := by
  induction v using stripZeros.induct with
  | case1 c rest ih =>
    rw [stripZeros, if_pos rfl]
    exact Nat.le_succ_of_le ih
  | case2 b c rest hb => rw [stripZeros, if_neg hb]
  | case3 v hv => rw [stripZeros.eq_2 v hv]

theorem value_signed (v : Bytes) : BigEndian.value (signed v) = BigEndian.value v := by
  rw [signed]
  split
  · rw [BigEndian.value_cons, UInt8.toNat_zero, Nat.zero_mul, Nat.zero_add]
  · rfl

/-- The zero before a high bit goes again. -/
theorem length_stripZeros_signed (v : Bytes) : (stripZeros (signed v)).length ≤ v.length := by
  rw [signed]
  split
  · next hbit =>
    cases v with
    | nil => exact absurd rfl hbit
    | cons b v =>
      rw [stripZeros, if_pos rfl]
      exact length_stripZeros_le _
  · exact length_stripZeros_le v

theorem length_signed_le (v : Bytes) : (signed v).length ≤ v.length + 1 := by
  rw [signed]
  split
  · exact Nat.le_refl _
  · exact Nat.le_succ _

theorem length_encodePositiveInt_le (v : Bytes) : (encodePositiveInt v).length ≤ v.length + 1 :=
  Nat.le_trans (length_signed_le _) (Nat.succ_le_succ (length_stripZeros_le v))

/-- A coordinate is read back, whatever it starts with. -/
theorem positiveIntToBytes_encodePositiveInt (v : Bytes) :
    positiveIntToBytes (encodePositiveInt v) v.length = .ok v := by
  have hvalue : BigEndian.value (stripZeros (encodePositiveInt v)) = BigEndian.value v := by
    rw [value_stripZeros, encodePositiveInt, value_signed, value_stripZeros]
  have hle : (stripZeros (encodePositiveInt v)).length ≤ v.length :=
    Nat.le_trans (length_stripZeros_signed _) (length_stripZeros_le v)
  rw [positiveIntToBytes, if_neg (Nat.not_lt_of_le hle)]
  split
  · next hlength => rw [BigEndian.value_inj hlength hvalue]
  · have hlength : (List.replicate (v.length - (stripZeros (encodePositiveInt v)).length) 0 ++
        stripZeros (encodePositiveInt v)).length = v.length := by
      rw [List.length_append, List.length_replicate]
      exact Nat.sub_add_cancel hle
    have hpadded : BigEndian.value (List.replicate (v.length -
        (stripZeros (encodePositiveInt v)).length) 0 ++ stripZeros (encodePositiveInt v)) =
        BigEndian.value v := by
      rw [BigEndian.value_append, BigEndian.value_replicate_zero, Nat.zero_mul, Nat.zero_add,
        hvalue]
    exact congrArg Except.ok (BigEndian.value_inj hlength hpadded)

theorem buildUncompressedPoint_eq {x y : Bytes} (hx : x.length = 32) (hy : y.length = 32) :
    buildUncompressedPoint x y = .ok (0x04 :: (x ++ y)) := by
  rw [buildUncompressedPoint, p256ScalarSize, hx, hy]
  rfl

/-! ### The two forms -/

section Forms

variable {x y : Bytes}

theorem parseTsCanonicalPublicKey_tsPublicKeyDer (hx : x.length = 32) (hy : y.length = 32) :
    parseTsCanonicalPublicKey (tsPublicKeyDer x y) = .ok (0x04 :: (x ++ y)) := by
  have hxInt := length_encodePositiveInt_le x
  have hyInt := length_encodePositiveInt_le y
  have hxBytes := positiveIntToBytes_encodePositiveInt x
  have hyBytes := positiveIntToBytes_encodePositiveInt y
  rw [hx] at hxInt hxBytes
  rw [hy] at hyInt hyBytes
  have hbs := length_encodeDerTlv_le 0x03 [0x07, 0x00]
  have hsize := length_encodeDerTlv_le 0x02 (encodePositiveNumber 32)
  have hxTlv := length_encodeDerTlv_le 0x02 (encodePositiveInt x)
  have hyTlv := length_encodeDerTlv_le 0x02 (encodePositiveInt y)
  have hnumber : (encodePositiveNumber 32).length = 1 := by decide
  generalize hseq : encodeDerTlv 0x03 [0x07, 0x00] ++
    (encodeDerTlv 0x02 (encodePositiveNumber 32) ++ (encodeDerTlv 0x02 (encodePositiveInt x) ++
      encodeDerTlv 0x02 (encodePositiveInt y))) = seq
  have hlength : seq.length < 65536 := by
    rw [← hseq]
    simp only [List.length_append]
    simp only [List.length_cons, List.length_nil] at hbs
    omega
  have hder : tsPublicKeyDer x y = encodeDerTlv 0x30 seq := by rw [tsPublicKeyDer, hseq]
  have h₁ : parseDerTlv seq 0x03 (some 0) =
      .ok ⟨[0x07, 0x00], some (encodeDerTlv 0x03 [0x07, 0x00]).length⟩ := by
    rw [← hseq]
    exact parseDerTlv_encode 0x03 (by decide) [] _
  have h₂ : parseDerTlv seq 0x02 (some (0 + (encodeDerTlv 0x03 [0x07, 0x00]).length)) =
      .ok ⟨encodePositiveNumber 32, some (encodeDerTlv 0x02 (encodePositiveNumber 32)).length⟩ := by
    rw [← hseq, Nat.zero_add]
    exact parseDerTlv_encode 0x02 (by decide) _ _
  have h₃ : parseDerTlv seq 0x02 (some (0 + (encodeDerTlv 0x03 [0x07, 0x00]).length +
      (encodeDerTlv 0x02 (encodePositiveNumber 32)).length)) =
      .ok ⟨encodePositiveInt x, some (encodeDerTlv 0x02 (encodePositiveInt x)).length⟩ := by
    rw [← hseq, Nat.zero_add, ← List.length_append, ← List.append_assoc]
    exact parseDerTlv_encode 0x02 (by omega) _ _
  have h₄ : parseDerTlv seq 0x02 (some (0 + (encodeDerTlv 0x03 [0x07, 0x00]).length +
      (encodeDerTlv 0x02 (encodePositiveNumber 32)).length +
      (encodeDerTlv 0x02 (encodePositiveInt x)).length)) =
      .ok ⟨encodePositiveInt y, some (encodeDerTlv 0x02 (encodePositiveInt y)).length⟩ := by
    have h := parseDerTlv_encode 0x02 (show (encodePositiveInt y).length < 65536 by omega)
      (encodeDerTlv 0x03 [0x07, 0x00] ++ encodeDerTlv 0x02 (encodePositiveNumber 32) ++
        encodeDerTlv 0x02 (encodePositiveInt x)) []
    rw [List.append_nil, List.append_assoc, List.append_assoc, hseq, List.length_append,
      List.length_append] at h
    rw [Nat.zero_add, h]
  rw [hder, parseTsCanonicalPublicKey, parseDerTlv_whole 0x30 hlength]
  simp only [bind, Except.bind, h₁, advance, h₂, h₃, h₄, p256ScalarSize, hxBytes, hyBytes,
    buildUncompressedPoint_eq hx hy]

theorem parseTsLegacyPublicKey_legacyPublicKeyDer (hx : x.length = 32) (hy : y.length = 32)
    {bitString integer : Bytes} (hlength : (legacyFields x y bitString integer).length < 65536) :
    parseTsLegacyPublicKey (legacyPublicKeyDer x y bitString integer) = .ok (0x04 :: (x ++ y)) ∧
      ∃ e, parseTsCanonicalPublicKey (legacyPublicKeyDer x y bitString integer) = .error e := by
  have hxInt := length_encodePositiveInt_le x
  have hyInt := length_encodePositiveInt_le y
  have hxBytes := positiveIntToBytes_encodePositiveInt x
  have hyBytes := positiveIntToBytes_encodePositiveInt y
  rw [hx] at hxInt hxBytes
  rw [hy] at hyInt hyBytes
  have h₁ : parseDerTlv (legacyFields x y bitString integer) 0x02 (some 0) =
      .ok ⟨encodePositiveInt x, some (encodeDerTlv 0x02 (encodePositiveInt x)).length⟩ :=
    parseDerTlv_encode 0x02 (by omega) [] _
  have h₂ : parseDerTlv (legacyFields x y bitString integer) 0x02
      (some (0 + (encodeDerTlv 0x02 (encodePositiveInt x)).length)) =
      .ok ⟨encodePositiveInt y, some (encodeDerTlv 0x02 (encodePositiveInt y)).length⟩ := by
    rw [Nat.zero_add]
    exact parseDerTlv_encode 0x02 (by omega) _ _
  -- the sequence starts with an INTEGER, where the canonical form has its BIT STRING
  have hwrong : parseDerTlv (legacyFields x y bitString integer) 0x03 (some 0) =
      .error (.wrongTag 0x03 0x02) := rfl
  rw [legacyPublicKeyDer]
  constructor
  · rw [parseTsLegacyPublicKey, parseDerTlv_whole 0x30 hlength]
    simp only [bind, Except.bind, h₁, advance, h₂, p256ScalarSize, hxBytes, hyBytes,
      buildUncompressedPoint_eq hx hy]
  · refine ⟨.wrongTag 0x03 0x02, ?_⟩
    rw [parseTsCanonicalPublicKey, parseDerTlv_whole 0x30 hlength]
    simp only [bind, Except.bind, hwrong]

end Forms

/-- Both forms give the point they were made of, whatever its coordinates start with, and the
canonical rule does not take the legacy form, whatever its BIT STRING and last INTEGER hold. -/
theorem publicKey_roundTrip {x y : Bytes} (hx : x.length = 32) (hy : y.length = 32) :
    parseTsPublicKeyDer (fromBase64 (encodeTsPublicKey x y)) = .ok (0x04 :: (x ++ y)) ∧
      ∀ bitString integer : Bytes, (legacyFields x y bitString integer).length < 65536 →
        parseTsPublicKeyDer (legacyPublicKeyDer x y bitString integer) = .ok (0x04 :: (x ++ y)) ∧
        ∃ e, parseTsCanonicalPublicKey (legacyPublicKeyDer x y bitString integer) = .error e := by
  refine ⟨?_, fun bitString integer hlength => ?_⟩
  · rw [encodeTsPublicKey, fromBase64_toBase64, parseTsPublicKeyDer,
      parseTsCanonicalPublicKey_tsPublicKeyDer hx hy]
  · obtain ⟨hlegacy, e, hrefused⟩ := parseTsLegacyPublicKey_legacyPublicKeyDer hx hy hlength
    refine ⟨?_, e, hrefused⟩
    rw [parseTsPublicKeyDer, hrefused]
    exact hlegacy

/-- With coordinates that start with zeros and with a high bit. -/
theorem publicKey_roundTrip_zeros :
    parseTsPublicKeyDer (legacyPublicKeyDer (List.replicate 31 0 ++ [0x80])
      (0xff :: List.replicate 31 0) [0x07, 0x00] (encodePositiveNumber 32)) =
      .ok (0x04 :: (List.replicate 31 0 ++ [0x80] ++ 0xff :: List.replicate 31 0)) :=
  ((publicKey_roundTrip (x := List.replicate 31 0 ++ [0x80]) (y := 0xff :: List.replicate 31 0)
    rfl rfl).2 [0x07, 0x00] (encodePositiveNumber 32) (by decide)).1

end Teamspeak.Client
