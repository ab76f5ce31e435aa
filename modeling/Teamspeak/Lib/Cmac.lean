import Teamspeak.Lib.BigEndian

/-!
# Block modes and CMAC

Over a function `E` on 128-bit blocks: chaining (CBC), counter mode (CTR), and the
message authentication code of RFC 4493, in its own terms; the message is a byte string.

* `bytes_ofBytes`, `ofBytes_bytes`: blocks and their bytes.
* `blocks_append`: the blocks of a string whose beginning is whole blocks.
* `cbc_concat`: the last block that chaining gives.
* `ctr_ctr`: counter mode undoes itself.
-/

namespace Teamspeak

abbrev Block := BitVec 128

namespace Block

/-- The block that 16 bytes write, high byte first. -/
def ofBytes (b : List UInt8) : Block := BitVec.ofNat 128 (BigEndian.value b)

def bytes (x : Block) : List UInt8 := BigEndian.bytes x.toNat 16

@[simp] theorem length_bytes (x : Block) : x.bytes.length = 16 := BigEndian.length_bytes _ _

theorem toNat_ofBytes {b : List UInt8} (h : b.length ≤ 16) :
    (ofBytes b).toNat = BigEndian.value b := by
  have hlt := BigEndian.value_lt b
  have hle : 256 ^ b.length ≤ 256 ^ 16 := Nat.pow_le_pow_right (by decide) h
  rw [ofBytes, BitVec.toNat_ofNat]
  exact Nat.mod_eq_of_lt (Nat.lt_of_lt_of_le hlt hle)

@[simp] theorem ofBytes_bytes (x : Block) : ofBytes x.bytes = x := by
  have hlt : x.toNat < 256 ^ 16 := x.isLt
  rw [ofBytes, bytes, BigEndian.value_bytes hlt, BitVec.ofNat_toNat, BitVec.setWidth_eq]

theorem bytes_ofBytes {b : List UInt8} (h : b.length = 16) : (ofBytes b).bytes = b := by
  have hbytes := BigEndian.bytes_value b
  rw [h] at hbytes
  rw [bytes, toNat_ofBytes (Nat.le_of_eq h), hbytes]

theorem ofBytes_zipWith_xor {a b : List UInt8} (h : a.length = b.length) :
    ofBytes (List.zipWith (· ^^^ ·) a b) = ofBytes a ^^^ ofBytes b := by
  rw [ofBytes, BigEndian.value_zipWith_xor h, BitVec.ofNat_xor]
  rfl

theorem bytes_xor (x y : Block) :
    (x ^^^ y).bytes = List.zipWith (· ^^^ ·) x.bytes y.bytes := by
  have h : (List.zipWith (· ^^^ ·) x.bytes y.bytes).length = 16 := by
    rw [List.length_zipWith, length_bytes, length_bytes, Nat.min_self]
  have hx : x.bytes.length = y.bytes.length := by rw [length_bytes, length_bytes]
  rw [← bytes_ofBytes h, ofBytes_zipWith_xor hx, ofBytes_bytes, ofBytes_bytes]

end Block

/-! ### Byte strings in blocks -/

/-- The block of a byte string after `i` others; one that is cut short is as if zeros stood
before it. -/
def blockAt (data : List UInt8) (i : Nat) : Block := .ofBytes ((data.drop (16 * i)).take 16)

/-- The whole blocks of a byte string. -/
def blocks (data : List UInt8) : List Block := (List.range (data.length / 16)).map (blockAt data)

def blockBytes (l : List Block) : List UInt8 := l.flatMap Block.bytes

theorem blockAt_append {front : List UInt8} {i : Nat} (h : 16 * (i + 1) ≤ front.length)
    (rest : List UInt8) : blockAt (front ++ rest) i = blockAt front i := by
  rw [blockAt, blockAt, List.drop_append_of_le_length (by omega),
    List.take_append_of_le_length (by rw [List.length_drop]; omega)]

/-- A string of whole blocks and one block more. -/
theorem blocks_append {front last : List UInt8} {m : Nat} (hfront : front.length = 16 * m)
    (hlast : last.length = 16) :
    blocks (front ++ last) = (List.range m).map (blockAt front) ++ [.ofBytes last] := by
  have hlength : (front ++ last).length / 16 = m + 1 := by
    rw [List.length_append, hfront, hlast]
    omega
  have hend : blockAt (front ++ last) m = .ofBytes last := by
    rw [blockAt, ← hfront, List.drop_left, List.take_of_length_le (Nat.le_of_eq hlast)]
  have hbefore : ∀ i ∈ List.range m, blockAt (front ++ last) i = blockAt front i := by
    intro i hi
    have hi := List.mem_range.mp hi
    exact blockAt_append (by omega) last
  rw [blocks, hlength, List.range_succ, List.map_append, List.map_cons, List.map_nil, hend,
    List.map_congr_left hbefore]

theorem drop_blockBytes_concat (l : List Block) (x : Block) :
    (blockBytes (l ++ [x])).drop ((blockBytes (l ++ [x])).length - 16) = x.bytes := by
  have h : blockBytes (l ++ [x]) = blockBytes l ++ x.bytes := by
    rw [blockBytes, List.flatMap_append, List.flatMap_singleton, blockBytes]
  rw [h, List.length_append, Block.length_bytes, Nat.add_sub_cancel, List.drop_left]

section Modes

variable (E : Block → Block)

/-- Cipher block chaining of whole blocks: each is combined with the one before as it came
out, the first with the initial vector. -/
def cbc (iv : Block) : List Block → List Block
  | [] => []
  | x :: l => E (iv ^^^ x) :: cbc (E (iv ^^^ x)) l

/-- The last block that chaining gives. -/
theorem cbc_concat (iv : Block) (l : List Block) (x : Block) :
    cbc E iv (l ++ [x]) = cbc E iv l ++ [E (l.foldl (fun c m => E (c ^^^ m)) iv ^^^ x)] := by
  induction l generalizing iv with
  | nil => rfl
  | cons y l ih =>
    show E (iv ^^^ y) :: cbc E (E (iv ^^^ y)) (l ++ [x]) = _
    rw [ih]
    rfl

/-- The key stream of counter mode: the counter starts at the initial vector, and a block of
it is used up before the next. -/
def keystream (iv : Block) (i : Nat) : UInt8 :=
  (E (iv + BitVec.ofNat 128 (i / 16))).bytes.getD (i % 16) 0

def ctr (iv : Block) (data : List UInt8) : List UInt8 :=
  data.mapIdx fun i b => b ^^^ keystream E iv i

@[simp] theorem length_ctr (iv : Block) (data : List UInt8) :
    (ctr E iv data).length = data.length := List.length_mapIdx

/-- Counter mode undoes itself. -/
theorem ctr_ctr (iv : Block) (data : List UInt8) : ctr E iv (ctr E iv data) = data := by
  refine List.ext_getElem (by rw [length_ctr, length_ctr]) fun i h₁ h₂ => ?_
  simp only [ctr, List.getElem_mapIdx, UInt8.xor_assoc, UInt8.xor_self, UInt8.xor_zero]

/-! ### RFC 4493 -/

/-- `const_Rb`. -/
def constRb : Block := 0x87

/-- `MSB(x)` is 0: `x << 1`; else `(x << 1) XOR const_Rb`. -/
def double (x : Block) : Block := if x.msb then (x <<< 1) ^^^ constRb else x <<< 1

/-- `Generate_Subkey`: `K1` and `K2`. -/
def subkeys : Block × Block := (double (E 0), double (double (E 0)))

/-- `padding(x)`: a 1 bit and zeros, up to 16 bytes. -/
def padding (x : List UInt8) : List UInt8 := x ++ 0x80 :: List.replicate (15 - x.length) 0

/-- `AES-CMAC`, steps 1 to 7, over any block function. -/
def cmac (message : List UInt8) : Block :=
  let n := if message = [] then 1 else (message.length + 15) / 16
  let flag := message ≠ [] ∧ message.length % 16 = 0
  let final := message.drop (16 * (n - 1))
  let mLast : Block :=
    if flag then .ofBytes final ^^^ (subkeys E).1 else .ofBytes (padding final) ^^^ (subkeys E).2
  let x := (List.range (n - 1)).foldl (fun x i => E (x ^^^ blockAt message i)) 0
  E (mLast ^^^ x)

/-- `OMAC` with a number before the message, written in a block of its own. -/
def omac (t : UInt8) (message : List UInt8) : Block :=
  cmac E (List.replicate 15 0 ++ [t] ++ message)

end Modes

end Teamspeak
