import Teamspeak.Transport.Packet

/-!
# Encryption of packets

`crypt.ts`, as far as the packet handler uses it.  A `Cipher` stands for what
`getKeyNonce` and EAX do together: it encrypts and decrypts under the key and
nonce derived from the session's IV and a `KeyInput`.  `Crypt` is a connection's
encryption state, and decides what is encrypted at all: an Init1 packet never
is, an unencrypted one carries the fake signature, and before crypto init there
is no key but the public dummy one.  The map of derived keys is left out, since
it holds only what the cipher would derive again.
-/

namespace Teamspeak.Transport

/-- What the key and nonce of a packet derive from, besides the session's IV. -/
structure KeyInput where
  fromServer : Bool
  packetID : Nat
  generationID : Nat
  packetType : PacketType
  dummy : Bool
  deriving DecidableEq

/-- Authenticated encryption under the key of an IV and a `KeyInput`, and the
hash the fake signature is taken from.  `eaxDecrypt` refuses a tag that does not
match. -/
structure Cipher where
  eaxEncrypt : Bytes → KeyInput → (header plaintext : Bytes) → Bytes × Bytes
  eaxDecrypt : Bytes → KeyInput → (header ciphertext tag : Bytes) → Option Bytes
  sha1 : Bytes → Bytes

/-- A cipher for examples: it leaves the data in the clear, and its tag is the
generation. -/
def clearCipher : Cipher where
  eaxEncrypt _ key _ plaintext := (plaintext, uint64BE key.generationID)
  eaxDecrypt _ key _ ciphertext tag :=
    if key.generationID < 18446744073709551616 ∧ tag = uint64BE key.generationID then
      some ciphertext
    else none
  sha1 data := data

/-- The datagram a server with that cipher sends a packet in. -/
def clearDatagram (generation id : Nat) (t : TypeFlagged) (data : Bytes) : Bytes :=
  uint64BE generation ++ buildS2CHeader id t ++ data

def fakeSignatureSize : Nat := 8
def ivAlphaSize : Nat := 10

/-- `TS3INIT1` in ASCII. -/
def init1Mac : Bytes := [84, 83, 51, 73, 78, 73, 84, 49]

structure Crypt where
  cryptoInitComplete : Bool := false
  ivStruct : Bytes := []
  fakeSignature : Bytes := List.replicate fakeSignatureSize 0
  deriving DecidableEq

namespace Crypt

/-- Complete crypto init with the IV made of `alpha` and `beta` XORed into
`sharedKey`; refused when the lengths do not fit. -/
def setSharedSecret (C : Cipher) (_c : Crypt) (alpha beta sharedKey : Bytes) : Option Crypt :=
  if alpha.length ≠ ivAlphaSize ∨ beta.length = 0 ∨ ivAlphaSize + beta.length > sharedKey.length then
    none
  else
    let iv := (sharedKey.zip (alpha ++ beta)).map fun (k, b) => k ^^^ b
    some
      { cryptoInitComplete := true
        ivStruct := iv
        fakeSignature := (C.sha1 iv).take fakeSignatureSize }

/-- The IV a key derives from: none of the session's for the dummy key.  Before
crypto init completes there is no session key, and `getKeyNonce` throws. -/
def keyIV (c : Crypt) (dummy : Bool) : Option Bytes :=
  if dummy then some [] else if c.cryptoInitComplete then some c.ivStruct else none

def encrypt (C : Cipher) (c : Crypt) (packetType : PacketType) (packetID generationID : Nat)
    (header plaintext : Bytes) (dummy unencrypted : Bool) : Option (Bytes × Bytes) :=
  if packetType = .init1 then some (plaintext, init1Mac)
  else if unencrypted then some (plaintext, c.fakeSignature)
  else
    (c.keyIV dummy).map fun iv =>
      C.eaxEncrypt iv ⟨false, packetID, generationID, packetType, dummy⟩ header plaintext

def decrypt (C : Cipher) (c : Crypt) (packetType : PacketType) (packetID generationID : Nat)
    (header ciphertext tag : Bytes) (dummy unencrypted : Bool) : Option Bytes :=
  if packetType = .init1 then some ciphertext
  else if unencrypted then
    if tag.take fakeSignatureSize = c.fakeSignature then some ciphertext else none
  else
    (c.keyIV dummy).bind fun iv =>
      C.eaxDecrypt iv ⟨true, packetID, generationID, packetType, dummy⟩ header ciphertext tag

theorem cryptoInitComplete_of_setSharedSecret {C : Cipher} {c c' : Crypt} {a b k : Bytes}
    (h : c.setSharedSecret C a b k = some c') : c'.cryptoInitComplete = true := by
  simp only [setSharedSecret] at h
  split at h
  · exact absurd h (by simp)
  · rw [← Option.some.inj h]

/-- With a key to use, `encrypt` does not throw. -/
theorem encrypt_isSome (C : Cipher) {c : Crypt} {dummy : Bool}
    (h : dummy = true ∨ c.cryptoInitComplete = true) (t : PacketType) (id gen : Nat)
    (header plaintext : Bytes) (unencrypted : Bool) :
    (c.encrypt C t id gen header plaintext dummy unencrypted).isSome = true := by
  have hiv : (c.keyIV dummy).isSome = true := by
    rw [keyIV]
    rcases h with rfl | h
    · rfl
    · rw [h]; split <;> rfl
  rw [encrypt]
  split
  · rfl
  · split
    · rfl
    · rw [Option.isSome_map, hiv]

end Crypt

end Teamspeak.Transport
