import Teamspeak.Basic
import Teamspeak.Lib.Cmac

/-!
# EAX and CMAC

`eax.ts`.  Blocks are byte strings here, shifted and combined byte by byte; `AES` with a key
is a function on the 128-bit blocks they write, and its CBC and CTR modes are those of that
function.  The subkeys of a key are derived each time, since the keys whose subkeys the
source remembers are never written to.

* `generateSubkeys_eq`: the subkeys are those of RFC 4493.
* `aesCmac_eq`: the last block of the chaining pass is the code of RFC 4493.
* `decrypt_eq_ok`: what `decrypt` accepts, and what it gives.
* `eax_correct`: the three together, with what `encrypt` made.
-/

namespace Teamspeak.Client

def eaxTagSize : Nat := 8
def eaxBlockSize : Nat := 16

/-! ### Subkeys -/

def xorBlock (a b : Bytes) : Bytes := List.zipWith (· ^^^ ·) a b

/-- One step of the loop of `shiftLeft1`, which goes from the last byte to the first: the
bytes shifted so far and the bit that left the last of them. -/
def shiftByte (b : UInt8) : Bytes × UInt8 → Bytes × UInt8
  | (out, carry) => (((b <<< 1) ||| carry) :: out, b >>> 7)

def shiftLeft1 (b : Bytes) : Bytes := (b.foldr shiftByte ([], 0)).1

/-- `RB`. -/
def rb : Bytes := List.replicate (eaxBlockSize - 1) 0 ++ [0x87]

section Subkeys

variable (E : Block → Block)

def aesEcb (block : Bytes) : Bytes := (E (.ofBytes block)).bytes

def generateSubkeys : Bytes × Bytes :=
  let l := aesEcb E (List.replicate eaxBlockSize 0)
  let k1 := shiftLeft1 l
  let k1 := if l.getD 0 0 &&& 0x80 ≠ 0 then xorBlock k1 rb else k1
  let k2 := shiftLeft1 k1
  let k2 := if k1.getD 0 0 &&& 0x80 ≠ 0 then xorBlock k2 rb else k2
  (k1, k2)

end Subkeys

/-- A byte shifted, with the bit that comes in. -/
theorem shiftByte_toNat (b : UInt8) {carry : UInt8} (h : carry.toNat ≤ 1) :
    ((b <<< 1) ||| carry).toNat + (b >>> 7).toNat * 256 = 2 * b.toNat + carry.toNat := by
  have hcarry : carry = 0 ∨ carry = 1 := by
    rcases Nat.le_one_iff_eq_zero_or_eq_one.mp h with h | h
    · exact Or.inl (UInt8.toNat_inj.mp h)
    · exact Or.inr (UInt8.toNat_inj.mp h)
  have hbyte : ∀ n < 256,
      ((UInt8.ofNat n <<< 1) ||| 0).toNat + (UInt8.ofNat n >>> 7).toNat * 256 = 2 * n ∧
        ((UInt8.ofNat n <<< 1) ||| 1).toNat + (UInt8.ofNat n >>> 7).toNat * 256 = 2 * n + 1 := by
    decide +kernel
  have hb := hbyte b.toNat b.toNat_lt
  rw [UInt8.ofNat_toNat] at hb
  rcases hcarry with rfl | rfl
  · exact hb.1
  · exact hb.2

theorem shiftByte_carry (b : UInt8) : (b >>> 7).toNat ≤ 1 := by
  have hbyte : ∀ n < 256, (UInt8.ofNat n >>> 7).toNat ≤ 1 := by decide +kernel
  have hb := hbyte b.toNat b.toNat_lt
  rwa [UInt8.ofNat_toNat] at hb

/-- The loop doubles: what is shifted out is in the carry. -/
theorem foldr_shiftByte (l : Bytes) :
    (l.foldr shiftByte ([], 0)).1.length = l.length ∧
      (l.foldr shiftByte ([], 0)).2.toNat ≤ 1 ∧
      BigEndian.value (l.foldr shiftByte ([], 0)).1 +
        (l.foldr shiftByte ([], 0)).2.toNat * 256 ^ l.length = 2 * BigEndian.value l := by
  induction l with
  | nil => exact ⟨rfl, Nat.zero_le 1, rfl⟩
  | cons b l ih =>
    obtain ⟨hlength, hcarry, hvalue⟩ := ih
    rw [List.foldr_cons]
    cases hstep : l.foldr shiftByte ([], 0) with
    | mk out carry =>
      rw [hstep] at hlength hcarry hvalue
      have hbyte := shiftByte_toNat b hcarry
      refine ⟨congrArg Nat.succ hlength, shiftByte_carry b, ?_⟩
      show BigEndian.value (((b <<< 1) ||| carry) :: out) + (b >>> 7).toNat * 256 ^ (l.length + 1) =
        2 * BigEndian.value (b :: l)
      rw [BigEndian.value_cons, BigEndian.value_cons, hlength]
      calc ((b <<< 1) ||| carry).toNat * 256 ^ l.length + BigEndian.value out +
            (b >>> 7).toNat * 256 ^ (l.length + 1)
          = (((b <<< 1) ||| carry).toNat + (b >>> 7).toNat * 256) * 256 ^ l.length +
              BigEndian.value out := by rw [Nat.pow_succ]; ring
        _ = 2 * b.toNat * 256 ^ l.length +
              (BigEndian.value out + carry.toNat * 256 ^ l.length) := by rw [hbyte]; ring
        _ = 2 * (b.toNat * 256 ^ l.length + BigEndian.value l) := by rw [hvalue]; ring

theorem length_shiftLeft1 (b : Bytes) : (shiftLeft1 b).length = b.length := (foldr_shiftByte b).1

theorem ofBytes_shiftLeft1 {b : Bytes} (h : b.length = 16) :
    Block.ofBytes (shiftLeft1 b) = Block.ofBytes b <<< 1 := by
  obtain ⟨-, -, hvalue⟩ := foldr_shiftByte b
  rw [h] at hvalue
  refine BitVec.eq_of_toNat_eq ?_
  rw [BitVec.toNat_shiftLeft, Block.ofBytes, Block.ofBytes, BitVec.toNat_ofNat, BitVec.toNat_ofNat,
    Nat.shiftLeft_eq, shiftLeft1]
  omega

/-- The bit that is shifted out is the first of the first byte. -/
theorem msb_ofBytes {b : Bytes} (h : b.length = 16) :
    (Block.ofBytes b).msb = decide (b.getD 0 0 &&& 0x80 ≠ 0) := by
  cases b with
  | nil => exact absurd h (by decide)
  | cons b l =>
    have hl : l.length = 15 := Nat.succ.inj h
    have hvalue := BigEndian.value_lt l
    have hb : (b &&& 0x80 ≠ 0) ↔ 128 ≤ b.toNat := by
      have hbyte : ∀ n < 256, (UInt8.ofNat n &&& 0x80 ≠ 0) ↔ 128 ≤ n := by decide +kernel
      have hb := hbyte b.toNat b.toNat_lt
      rwa [UInt8.ofNat_toNat] at hb
    rw [BitVec.msb_eq_decide, Block.toNat_ofBytes (Nat.le_of_eq h), BigEndian.value_cons, hl,
      List.getD_cons_zero]
    rw [hl] at hvalue
    refine decide_eq_decide.mpr (Iff.trans ?_ hb.symm)
    omega

theorem ofBytes_rb : Block.ofBytes rb = constRb := by decide

theorem length_xorBlock {a b : Bytes} (h : a.length = b.length) :
    (xorBlock a b).length = a.length := by
  rw [xorBlock, List.length_zipWith, h, Nat.min_self]

/-- A step from one subkey to the next. -/
theorem shifted_eq {b : Bytes} (h : b.length = 16) :
    (if b.getD 0 0 &&& 0x80 ≠ 0 then xorBlock (shiftLeft1 b) rb else shiftLeft1 b) =
      (double (.ofBytes b)).bytes := by
  have hshift : (shiftLeft1 b).length = 16 := (length_shiftLeft1 b).trans h
  have hrb : (shiftLeft1 b).length = rb.length := hshift
  rw [double, msb_ofBytes h]
  split
  · next hbit =>
    have hxor : (xorBlock (shiftLeft1 b) rb).length = 16 := (length_xorBlock hrb).trans hshift
    rw [decide_eq_true hbit, if_pos rfl, ← Block.bytes_ofBytes hxor, xorBlock,
      Block.ofBytes_zipWith_xor hrb, ofBytes_shiftLeft1 h, ofBytes_rb]
  · next hbit =>
    rw [decide_eq_false hbit, if_neg Bool.false_ne_true, ← ofBytes_shiftLeft1 h,
      Block.bytes_ofBytes hshift]

/-- The subkeys are those of RFC 4493. -/
theorem generateSubkeys_eq (E : Block → Block) :
    generateSubkeys E = ((subkeys E).1.bytes, (subkeys E).2.bytes) := by
  have hzero : Block.ofBytes (List.replicate eaxBlockSize 0) = 0 := by decide
  have hecb : aesEcb E (List.replicate eaxBlockSize 0) = (E 0).bytes := by rw [aesEcb, hzero]
  have h₁ := shifted_eq (Block.length_bytes (E 0))
  have h₂ := shifted_eq (Block.length_bytes (double (E 0)))
  rw [Block.ofBytes_bytes] at h₁ h₂
  rw [generateSubkeys, hecb]
  simp only [h₁, h₂, subkeys]

/-! ### CMAC -/

section Cmac

variable (E : Block → Block)

/-- `padded[start + i] ^= subkey[i]`, for every byte of the subkey. -/
def xorAt (padded : Bytes) (start : Nat) : Bytes → Bytes
  | [] => padded
  | k :: subkey => xorAt (padded.set start (padded.getD start 0 ^^^ k)) (start + 1) subkey

/-- `createCipheriv("aes-128-cbc")` without padding, from a zero vector. -/
def aesCbc (padded : Bytes) : Bytes := blockBytes (cbc E 0 (blocks padded))

def aesCmac (message : Bytes) : Bytes :=
  let (k1, k2) := generateSubkeys E
  let n := max 1 ((message.length + (eaxBlockSize - 1)) / eaxBlockSize)
  let lastBlockComplete := 0 < message.length ∧ message.length % eaxBlockSize = 0
  let padded := message ++ List.replicate (n * eaxBlockSize - message.length) 0
  let lastStart := (n - 1) * eaxBlockSize
  let padded := if ¬lastBlockComplete then padded.set message.length 0x80 else padded
  let subkey := if lastBlockComplete then k1 else k2
  let out := aesCbc E (xorAt padded lastStart subkey)
  out.drop (out.length - eaxBlockSize)

theorem xorAt_append (front last subkey : Bytes) (h : last.length = subkey.length) :
    xorAt (front ++ last) front.length subkey = front ++ xorBlock last subkey := by
  induction subkey generalizing front last with
  | nil =>
    rw [List.length_eq_zero_iff.mp h]
    rfl
  | cons k subkey ih =>
    cases last with
    | nil => exact absurd h (by simp)
    | cons b last =>
      have hset : (front ++ b :: last).set front.length
          ((front ++ b :: last).getD front.length 0 ^^^ k) = (front ++ [b ^^^ k]) ++ last := by
        rw [List.getD_eq_getElem?_getD, List.getElem?_append_right (Nat.le_refl _),
          List.set_append_right _ _ (Nat.le_refl _), Nat.sub_self, List.append_assoc]
        rfl
      have hstart : front.length + 1 = (front ++ [b ^^^ k]).length := by
        rw [List.length_append, List.length_singleton]
      rw [xorAt, hset, hstart, ih _ _ (Nat.succ.inj h), List.append_assoc]
      rfl

/-- The chaining pass over whole blocks, the last of them combined with a subkey. -/
theorem aesCbc_last {front last : Bytes} {m : Nat} (hfront : front.length = 16 * m)
    (hlast : last.length = 16) (subkey : Block) :
    (aesCbc E (xorAt (front ++ last) front.length subkey.bytes)).drop
        ((aesCbc E (xorAt (front ++ last) front.length subkey.bytes)).length - eaxBlockSize) =
      (E (((List.range m).map (blockAt front)).foldl (fun c x => E (c ^^^ x)) 0 ^^^
        (.ofBytes last ^^^ subkey))).bytes := by
  have hsub : last.length = subkey.bytes.length := by rw [hlast, Block.length_bytes]
  have hxor : (xorBlock last subkey.bytes).length = 16 := (length_xorBlock hsub).trans hlast
  rw [xorAt_append front last _ hsub, aesCbc, blocks_append hfront hxor, cbc_concat, eaxBlockSize,
    drop_blockBytes_concat, xorBlock, Block.ofBytes_zipWith_xor hsub, Block.ofBytes_bytes]

/-- A message is whole blocks and a last one, which is cut short or empty where the message
is. -/
theorem exists_lastBlock (message : Bytes) :
    ∃ m front last, message = front ++ last ∧ front.length = 16 * m ∧ last.length ≤ 16 ∧
      max 1 ((message.length + 15) / 16) = m + 1 ∧
      ((0 < message.length ∧ message.length % 16 = 0) ↔ last.length = 16) := by
  obtain ⟨m, hm⟩ : ∃ m, max 1 ((message.length + 15) / 16) = m + 1 :=
    Nat.exists_eq_add_one_of_ne_zero (by omega)
  refine ⟨m, message.take (16 * m), message.drop (16 * m), (List.take_append_drop _ _).symm,
    ?_, ?_, hm, ?_⟩
  · rw [List.length_take]
    omega
  · rw [List.length_drop]
    omega
  · rw [List.length_drop]
    omega

/-- What `padded` holds before the subkey is combined into it. -/
theorem padded_eq {front last : Bytes} {m : Nat} (hfront : front.length = 16 * m)
    (hlast : last.length ≤ 16) :
    (if last.length ≠ 16 then
        ((front ++ last) ++ List.replicate ((m + 1) * 16 - (front ++ last).length) 0).set
          (front ++ last).length 0x80
      else (front ++ last) ++ List.replicate ((m + 1) * 16 - (front ++ last).length) 0) =
      front ++ if last.length = 16 then last else padding last := by
  have hlength : (front ++ last).length = 16 * m + last.length := by
    rw [List.length_append, hfront]
  by_cases hflag : last.length = 16
  · have hnone : (m + 1) * 16 - (front ++ last).length = 0 := by omega
    rw [if_neg (not_not_intro hflag), if_pos hflag, hnone, List.replicate_zero, List.append_nil]
  · have hsome : (m + 1) * 16 - (front ++ last).length = 15 - last.length + 1 := by omega
    rw [if_pos hflag, if_neg hflag, hsome, List.set_append_right _ _ (Nat.le_refl _), Nat.sub_self,
      padding, List.append_assoc]
    rfl

theorem length_padding {x : Bytes} (h : x.length < 16) : (padding x).length = 16 := by
  rw [padding, List.length_append, List.length_cons, List.length_replicate]
  omega

/-- The library's code is that of RFC 4493. -/
theorem aesCmac_eq (message : Bytes) : aesCmac E message = (cmac E message).bytes := by
  obtain ⟨m, front, last, hmessage, hfront, hle, hn, hflag⟩ := exists_lastBlock message
  have hcount : (if message = [] then 1 else (message.length + 15) / 16) = m + 1 := by
    rw [← hn]
    cases message with
    | nil => rfl
    | cons b l =>
      rw [if_neg (List.cons_ne_nil b l), List.length_cons]
      omega
  have hcomplete : (message ≠ [] ∧ message.length % 16 = 0) ↔ last.length = 16 := by
    rw [← hflag, List.length_pos_iff]
  have hfinal : message.drop (16 * m) = last := by rw [hmessage, ← hfront, List.drop_left]
  -- the blocks before the last are read out of the message
  have hblocks : (List.range m).map (blockAt front) = (List.range m).map (blockAt message) := by
    refine List.map_congr_left fun i hi => ?_
    have hi := List.mem_range.mp hi
    rw [hmessage, blockAt_append (by omega)]
  have hstart : m * 16 = front.length := by rw [hfront, Nat.mul_comm]
  have hpadded := padded_eq hfront hle
  rw [← hmessage] at hpadded
  simp only [aesCmac, cmac, eaxBlockSize, generateSubkeys_eq, hcount, hcomplete, hn, hflag,
    Nat.add_sub_cancel, hfinal, Nat.reduceSub, hpadded, hstart]
  split
  · next h =>
    rw [← eaxBlockSize, aesCbc_last E hfront h, hblocks, List.foldl_map, BitVec.xor_comm]
  · next h =>
    have hpad : (padding last).length = 16 := length_padding (by omega)
    rw [← eaxBlockSize, aesCbc_last E hfront hpad, hblocks, List.foldl_map, BitVec.xor_comm]

end Cmac

/-! ### EAX -/

/-- `createCipheriv("aes-128-ctr")`. -/
def aesCtr (E : Block → Block) (iv data : Bytes) : Bytes := ctr E (.ofBytes iv) data

/-- A key that the constructor takes. -/
structure EAX where
  key : Bytes
  size : key.length = 16

def EAX.new (key : Bytes) : Option EAX := if h : key.length = 16 then some ⟨key, h⟩ else none

inductive DecryptError
  | tagMismatch
  /-- `timingSafeEqual` of arrays of different lengths -/
  | differentLengths
  deriving DecidableEq

namespace EAX

variable (aes : Bytes → Block → Block) (eax : EAX)

/-- `#cmac`: a block with the number in its last byte, then the data. -/
def cmac (tagByte : UInt8) (data : Bytes) : Bytes :=
  aesCmac (aes eax.key) (List.replicate (eaxBlockSize - 1) 0 ++ [tagByte] ++ data)

/-- The first bytes of the three codes, combined. -/
def tagOf (nStar hStar cStar : Bytes) : Bytes :=
  (List.range eaxTagSize).map fun i => nStar.getD i 0 ^^^ hStar.getD i 0 ^^^ cStar.getD i 0

def encrypt (nonce header plaintext : Bytes) : Bytes × Bytes :=
  let nStar := eax.cmac aes 0 nonce
  let hStar := eax.cmac aes 1 header
  let ciphertext := aesCtr (aes eax.key) nStar plaintext
  let cStar := eax.cmac aes 2 ciphertext
  (ciphertext, tagOf nStar hStar cStar)

def decrypt (nonce header ciphertext tag : Bytes) : Except DecryptError Bytes :=
  let nStar := eax.cmac aes 0 nonce
  let hStar := eax.cmac aes 1 header
  let cStar := eax.cmac aes 2 ciphertext
  let expected := tagOf nStar hStar cStar
  let tag := tag.take eaxTagSize
  if expected.length ≠ tag.length then .error .differentLengths
  else if expected ≠ tag then .error .tagMismatch
  else .ok (aesCtr (aes eax.key) nStar ciphertext)

theorem cmac_eq (t : UInt8) (data : Bytes) :
    eax.cmac aes t data = (omac (aes eax.key) t data).bytes := aesCmac_eq _ _

theorem length_tagOf (nStar hStar cStar : Bytes) : (tagOf nStar hStar cStar).length = 8 := by
  rw [tagOf, List.length_map, List.length_range, eaxTagSize]

theorem tagOf_bytes (x y z : Block) :
    tagOf x.bytes y.bytes z.bytes = (x ^^^ y ^^^ z).bytes.take 8 := by
  have hlength : ((x ^^^ y ^^^ z).bytes.take 8).length = 8 := by
    rw [List.length_take, Block.length_bytes]
    rfl
  refine List.ext_getElem ((length_tagOf _ _ _).trans hlength.symm) fun i h₁ h₂ => ?_
  rw [length_tagOf] at h₁
  have hi (x : Block) : i < x.bytes.length := by
    rw [Block.length_bytes]
    omega
  have hget (x : Block) : x.bytes.getD i 0 = x.bytes.get ⟨i, hi x⟩ :=
    (List.getElem_eq_getD 0).symm
  simp only [tagOf, List.getElem_map, List.getElem_range, List.getElem_take, Block.bytes_xor,
    List.getElem_zipWith, hget, List.get_eq_getElem]

/-- The tag that `decrypt` asks for. -/
def expectedTag (nonce header ciphertext : Bytes) : Bytes :=
  (omac (aes eax.key) 0 nonce ^^^ omac (aes eax.key) 1 header ^^^
    omac (aes eax.key) 2 ciphertext).bytes.take 8

/-- What `decrypt` accepts, and what it gives. -/
theorem decrypt_eq_ok {nonce header ciphertext tag plaintext : Bytes} :
    eax.decrypt aes nonce header ciphertext tag = .ok plaintext ↔
      tag.take 8 = eax.expectedTag aes nonce header ciphertext ∧
        plaintext = ctr (aes eax.key) (omac (aes eax.key) 0 nonce) ciphertext := by
  have htag : tagOf (eax.cmac aes 0 nonce) (eax.cmac aes 1 header) (eax.cmac aes 2 ciphertext) =
      eax.expectedTag aes nonce header ciphertext := by
    rw [cmac_eq, cmac_eq, cmac_eq, tagOf_bytes, expectedTag]
  have hstream : aesCtr (aes eax.key) (eax.cmac aes 0 nonce) ciphertext =
      ctr (aes eax.key) (omac (aes eax.key) 0 nonce) ciphertext := by
    rw [aesCtr, cmac_eq, Block.ofBytes_bytes]
  simp only [decrypt, htag, hstream, eaxTagSize]
  split
  · next h => exact ⟨nofun, fun hok => absurd (congrArg List.length hok.1.symm) h⟩
  · split
    · next h => exact ⟨nofun, fun hok => absurd hok.1.symm h⟩
    · next h =>
      rw [not_not] at h
      exact ⟨fun hok => ⟨h.symm, (Except.ok.inj hok).symm⟩, fun hok => congrArg _ hok.2.symm⟩

theorem decrypt_encrypt (nonce header plaintext : Bytes) :
    eax.decrypt aes nonce header (eax.encrypt aes nonce header plaintext).1
      (eax.encrypt aes nonce header plaintext).2 = .ok plaintext := by
  have hciphertext : (eax.encrypt aes nonce header plaintext).1 =
      ctr (aes eax.key) (omac (aes eax.key) 0 nonce) plaintext := by
    rw [encrypt, aesCtr, cmac_eq, Block.ofBytes_bytes]
  have htag : (eax.encrypt aes nonce header plaintext).2 =
      eax.expectedTag aes nonce header (eax.encrypt aes nonce header plaintext).1 := by
    rw [expectedTag, ← tagOf_bytes, ← cmac_eq, ← cmac_eq, ← cmac_eq]
    rfl
  refine (decrypt_eq_ok aes eax).mpr ⟨?_, ?_⟩
  · rw [← htag]
    exact List.take_of_length_le (Nat.le_of_eq (length_tagOf _ _ _))
  · rw [hciphertext, ctr_ctr]

end EAX

/-- The code of a message is that of RFC 4493 for any block function; `decrypt` gives back
what `encrypt` was given; and it takes a tag of 8 bytes only where that is the first 8 bytes
of the three codes combined. -/
theorem eax_correct :
    (∀ (E : Block → Block) (message : Bytes), aesCmac E message = (cmac E message).bytes) ∧
      ∀ (aes : Bytes → Block → Block) (eax : EAX) (nonce header : Bytes),
        (∀ plaintext, eax.decrypt aes nonce header (eax.encrypt aes nonce header plaintext).1
          (eax.encrypt aes nonce header plaintext).2 = .ok plaintext) ∧
        ∀ ciphertext tag : Bytes, tag.length = 8 →
          ((∃ plaintext, eax.decrypt aes nonce header ciphertext tag = .ok plaintext) ↔
            tag = (omac (aes eax.key) 0 nonce ^^^ omac (aes eax.key) 1 header ^^^
              omac (aes eax.key) 2 ciphertext).bytes.take 8) := by
  refine ⟨aesCmac_eq, fun aes eax nonce header =>
    ⟨eax.decrypt_encrypt aes nonce header, fun ciphertext tag htag => ?_⟩⟩
  have htake : tag.take 8 = tag := List.take_of_length_le (Nat.le_of_eq htag)
  constructor
  · rintro ⟨plaintext, h⟩
    exact htake.symm.trans ((eax.decrypt_eq_ok aes).mp h).1
  · intro h
    exact ⟨_, (eax.decrypt_eq_ok aes).mpr ⟨htake.trans h, rfl⟩⟩

/-- With the identity for a block function. -/
theorem eax_correct_id :
    (∃ plaintext, EAX.decrypt (fun _ x => x) ⟨List.replicate 16 0, rfl⟩ [1] [] [3, 131]
        [2, 3, 128, 0, 0, 0, 0, 0] = .ok plaintext) ∧
      EAX.decrypt (fun _ x => x) ⟨List.replicate 16 0, rfl⟩ [1] [] [3, 131]
        [2, 3, 129, 0, 0, 0, 0, 0] = .error .tagMismatch :=
  ⟨((eax_correct.2 (fun _ x => x) ⟨List.replicate 16 0, rfl⟩ [1] []).2 [3, 131]
    [2, 3, 128, 0, 0, 0, 0, 0] rfl).mpr (by decide), by decide⟩

end Teamspeak.Client
