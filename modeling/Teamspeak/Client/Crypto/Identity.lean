import Teamspeak.Client.Crypto.PublicKey
import Teamspeak.Core.Token

/-!
# Identities

`identity.ts`: an identity is a private key and an offset, found by trying offsets until the
hash of the public key and the offset is good enough.  The curve and the hash are node's:
`publicPoint` gives the point of a scalar, if the scalar is a private key, and importing and
exporting a key keeps its scalar.

* `parseIdentity_export`: what is read back from an exported identity.
* `upgrades_least`: the offset that upgrades come to is the first one good enough.
* `roundTrip_iff`: an identity is read back exactly if an offset of 64 bits is good enough.
-/

namespace Teamspeak.Client

def colon : UInt16 := unit ':'

def maxSecurityLevel : Nat := 160

/-- The largest offset, an unsigned 64-bit counter. -/
def maxUint64 : Nat := 2 ^ 64 - 1

/-- Why an identity is not read, by the message of its `InvalidIdentityError`. -/
inductive InvalidIdentity
  /-- `invalid identity format` -/
  | format
  /-- `invalid identity offset` -/
  | offset
  /-- `the private key is not canonical base64` -/
  | base64
  /-- `private key scalar too large` -/
  | scalarTooLarge
  /-- `invalid private key` -/
  | privateKey
  deriving DecidableEq

/-- The curve and the hash. -/
structure NodeCrypto where
  publicPoint : Bytes → Option (Bytes × Bytes)
  sha1 : Bytes → Bytes

variable {N : NodeCrypto}

/-- A private key: a scalar of full width that has a point. -/
@[ext] structure PrivateKey (N : NodeCrypto) where
  scalar : Bytes
  length_scalar : scalar.length = p256ScalarSize
  isSome_publicPoint : (N.publicPoint scalar).isSome = true

def PrivateKey.point (key : PrivateKey N) : Bytes × Bytes :=
  (N.publicPoint key.scalar).get key.isSome_publicPoint

@[ext] structure Identity (N : NodeCrypto) where
  privateKey : PrivateKey N
  offset : Nat

/-! ### Security levels -/

/-- The zero bits of a byte from bit `i` on, with `left` bits to look at. -/
def zeroBits (b : UInt8) (i : Nat) : Nat → Nat
  | 0 => 0
  | left + 1 => if b.toNat &&& (1 <<< i) = 0 then zeroBits b (i + 1) left + 1 else 0

def countLeadingZeros : Bytes → Nat
  | [] => 0
  | b :: data => if b = 0 then 8 + countLeadingZeros data else zeroBits b 0 8

def levelAt (N : NodeCrypto) (publicKey : Str) (offset : Nat) : Nat :=
  countLeadingZeros (N.sha1 (asciiBytes publicKey ++ asciiBytes (.ofNat offset)))

namespace Identity

def publicKey (id : Identity N) : Str :=
  encodeTsPublicKey id.privateKey.point.1 id.privateKey.point.2

def securityLevel (id : Identity N) : Nat := levelAt N id.publicKey id.offset

/-- `export()`. -/
def exported (id : Identity N) : Str :=
  toBase64 id.privateKey.scalar ++ colon :: Str.ofNat id.offset

/-- The loop of `upgradeToLevel`, for so many turns; its signal may end it at any of them. -/
def search (level : Nat → Nat) (targetLevel : Nat) : (turns offset : Nat) → Option Nat
  | 0, _ => none
  | turns + 1, offset =>
    if targetLevel ≤ level offset then some offset else search level targetLevel turns (offset + 1)

/-- The identity that `upgradeToLevel` resolves with, if it does within so many turns. -/
def upgradeToLevel (id : Identity N) (targetLevel turns : Nat) : Option (Identity N) :=
  if maxSecurityLevel < targetLevel then none
  else
    (search (levelAt N id.publicKey) targetLevel turns id.offset).map fun offset =>
      { id with offset }

/-- `generateIdentity` and `generateIdentitySync`, with the key that was made. -/
def generate (key : PrivateKey N) (targetLevel turns : Nat) : Option (Identity N) :=
  upgradeToLevel ⟨key, 0⟩ targetLevel turns

/-- One upgrade after another. -/
def upgrades (id : Identity N) : List (Nat × Nat) → Option (Identity N)
  | [] => some id
  | (targetLevel, turns) :: rest => (id.upgradeToLevel targetLevel turns).bind (·.upgrades rest)

end Identity

/-! ### Reading an identity -/

def lastIndexOf (s : Str) (c : UInt16) : Option Nat :=
  (s.reverse.idxOf? c).map (s.length - 1 - ·)

/-- The scalar at full width, as a key if it is one. -/
def importKey (N : NodeCrypto) (dBytes : Bytes) : Option (PrivateKey N) :=
  let padded := List.replicate (p256ScalarSize - dBytes.length) 0 ++ dBytes
  if h : padded.length = p256ScalarSize ∧ (N.publicPoint padded).isSome = true then
    some ⟨padded, h.1, h.2⟩
  else none

def parseIdentity (N : NodeCrypto) (s : Str) : Except InvalidIdentity (Identity N) :=
  match lastIndexOf s colon with
  | none => .error .format
  | some colonIdx =>
    let dBase64 := s.take colonIdx
    let offsetStr := s.drop (colonIdx + 1)
    if ¬(offsetStr ≠ [] ∧ offsetStr.all Str.isDigit) ∨ Str.digitsValue offsetStr > maxUint64 then
      .error .offset
    else
      let offset := Str.digitsValue offsetStr
      let dBytes := fromBase64 dBase64
      if dBytes.length = 0 ∨ toBase64 dBytes ≠ dBase64 then .error .base64
      else if dBytes.length > p256ScalarSize then .error .scalarTooLarge
      else
        match importKey N dBytes with
        | none => .error .privateKey
        | some key => .ok ⟨key, offset⟩

/-! ### What is read back -/

theorem lastIndexOf_append (front : Str) {c : UInt16} {tail : Str} (h : c ∉ tail) :
    lastIndexOf (front ++ c :: tail) c = some front.length := by
  have hreverse : (front ++ c :: tail).reverse = tail.reverse ++ c :: front.reverse := by
    rw [List.reverse_append, List.reverse_cons, List.append_assoc, List.singleton_append]
  rw [lastIndexOf, hreverse, idxOf?_append_cons (fun hc => h (List.mem_reverse.mp hc)),
    Option.map_some, List.length_append, List.length_cons, List.length_reverse]
  exact congrArg some (by omega)

theorem importKey_scalar (key : PrivateKey N) : importKey N key.scalar = some key := by
  have hpadded : List.replicate (p256ScalarSize - key.scalar.length) 0 ++ key.scalar =
      key.scalar := by
    rw [key.length_scalar, Nat.sub_self, List.replicate_zero, List.nil_append]
  have hvalid : (List.replicate (p256ScalarSize - key.scalar.length) 0 ++ key.scalar).length =
      p256ScalarSize ∧ (N.publicPoint (List.replicate (p256ScalarSize - key.scalar.length) 0 ++
        key.scalar)).isSome = true := by
    rw [hpadded]
    exact ⟨key.length_scalar, key.isSome_publicPoint⟩
  rw [importKey]
  simp only [dif_pos hvalid]
  exact congrArg some (PrivateKey.ext hpadded)

/-- An exported identity is read back as it was, unless its offset is refused. -/
theorem parseIdentity_exported (id : Identity N) :
    parseIdentity N id.exported =
      if maxUint64 < id.offset then .error .offset else .ok id := by
  have hcolon : colon ∉ Str.ofNat id.offset := by
    intro hc
    exact absurd (Str.isDigit_of_mem_ofNat hc) (by decide)
  have hdigits : (Str.ofNat id.offset).all Str.isDigit = true :=
    List.all_eq_true.mpr fun _ => Str.isDigit_of_mem_ofNat
  have hindex : lastIndexOf id.exported colon = some (toBase64 id.privateKey.scalar).length :=
    lastIndexOf_append _ hcolon
  have hkey : id.exported.take (toBase64 id.privateKey.scalar).length =
      toBase64 id.privateKey.scalar := List.take_left
  have hoffset : id.exported.drop ((toBase64 id.privateKey.scalar).length + 1) =
      Str.ofNat id.offset := by
    rw [← List.drop_drop, Identity.exported, List.drop_left, List.drop_succ_cons, List.drop_zero]
  have hlength : id.privateKey.scalar.length = 32 := id.privateKey.length_scalar
  have hform : ¬(¬(Str.ofNat id.offset ≠ [] ∧ (Str.ofNat id.offset).all Str.isDigit = true)) :=
    not_not_intro ⟨Str.ofNat_ne_nil _, hdigits⟩
  rw [parseIdentity, hindex]
  simp only [hkey, hoffset, Str.digitsValue_ofNat, fromBase64_toBase64, hlength, p256ScalarSize,
    importKey_scalar, hform, false_or, gt_iff_lt, ne_eq, not_true_eq_false, or_false,
    Nat.lt_irrefl, if_false, OfNat.ofNat_ne_zero]

/-! ### The search -/

/-- The offset found is good enough, and none before it is. -/
theorem search_spec {level : Nat → Nat} {targetLevel turns offset found : Nat}
    (h : Identity.search level targetLevel turns offset = some found) :
    offset ≤ found ∧ targetLevel ≤ level found ∧
      ∀ k, offset ≤ k → k < found → level k < targetLevel := by
  induction turns generalizing offset with
  | zero => exact nomatch h
  | succ turns ih =>
    rw [Identity.search] at h
    split at h
    · next hlevel =>
      obtain rfl := Option.some.inj h
      exact ⟨Nat.le_refl _, hlevel, fun k hk hlt => absurd hlt (Nat.not_lt_of_le hk)⟩
    · next hlevel =>
      obtain ⟨hle, hfound, hbefore⟩ := ih h
      refine ⟨Nat.le_of_succ_le hle, hfound, fun k hk hlt => ?_⟩
      rcases Nat.eq_or_lt_of_le hk with rfl | hk
      · exact Nat.lt_of_not_le hlevel
      · exact hbefore k hk hlt

/-- An offset that reaches every level asked for. -/
def GoodEnough (level : Nat → Nat) (targets : List (Nat × Nat)) (offset : Nat) : Prop :=
  ∀ target ∈ targets, target.1 ≤ level offset

/-- Upgrades keep the key, and come to the first offset that is good enough for them all. -/
theorem upgrades_least {id id' : Identity N} {targets : List (Nat × Nat)}
    (h : id.upgrades targets = some id') :
    id'.privateKey = id.privateKey ∧ id.offset ≤ id'.offset ∧
      GoodEnough (levelAt N id.publicKey) targets id'.offset ∧
      ∀ k, id.offset ≤ k → k < id'.offset →
        ¬GoodEnough (levelAt N id.publicKey) targets k := by
  induction targets generalizing id with
  | nil =>
    obtain rfl := Option.some.inj h
    exact ⟨rfl, Nat.le_refl _, nofun, fun k hk hlt => absurd hlt (Nat.not_lt_of_le hk)⟩
  | cons target targets ih =>
    obtain ⟨targetLevel, turns⟩ := target
    rw [Identity.upgrades, Option.bind_eq_some_iff] at h
    obtain ⟨next, hnext, h⟩ := h
    rw [Identity.upgradeToLevel] at hnext
    split at hnext
    · exact nomatch hnext
    · obtain ⟨found, hfound, rfl⟩ := Option.map_eq_some_iff.mp hnext
      obtain ⟨hle, hlevel, hbefore⟩ := search_spec hfound
      obtain ⟨hkey, hle', hgood, hleast⟩ := ih h
      refine ⟨hkey, Nat.le_trans hle hle', ?_, ?_⟩
      · intro target htarget
        rcases List.mem_cons.mp htarget with rfl | htarget
        · rcases Nat.eq_or_lt_of_le hle' with heq | hlt
          · exact heq ▸ hlevel
          · -- a later level was not reached where this one was, so it is the higher one
            by_contra hlow
            refine hleast found (Nat.le_refl _) hlt fun later hlater => ?_
            exact Nat.le_trans (hgood later hlater)
              (Nat.le_trans (Nat.le_of_lt (Nat.lt_of_not_le hlow)) hlevel)
        · exact hgood target htarget
      · intro k hk hlt hall
        rcases Nat.lt_or_ge k found with hk' | hk'
        · exact absurd (hall _ List.mem_cons_self) (Nat.not_le_of_lt (hbefore k hk hk'))
        · exact hleast k hk' hlt fun later hlater => hall later (List.mem_cons_of_mem _ hlater)

/-! ### Round trips -/

/-- The identity's exported form is read, with its scalar, its offset and so its level. -/
def RoundTrips (id : Identity N) : Prop :=
  ∃ id' : Identity N, parseIdentity N id.exported = .ok id' ∧
    id'.privateKey.scalar = id.privateKey.scalar ∧ id'.offset = id.offset ∧
    id'.securityLevel = id.securityLevel

theorem roundTrips_iff {id : Identity N} : RoundTrips id ↔ id.offset ≤ maxUint64 := by
  rw [RoundTrips, parseIdentity_exported]
  split
  · next h =>
    refine ⟨?_, fun hle => absurd h (Nat.not_lt_of_le hle)⟩
    rintro ⟨id', hread, -⟩
    exact nomatch hread
  · next h => exact ⟨fun _ => Nat.le_of_not_lt h, fun _ => ⟨id, rfl, rfl, rfl, rfl⟩⟩

theorem roundTrips_of_upgrades {start id : Identity N} {targets : List (Nat × Nat)}
    (h : start.upgrades targets = some id) :
    RoundTrips id ↔ ∃ offset, start.offset ≤ offset ∧ offset ≤ maxUint64 ∧
      GoodEnough (levelAt N start.publicKey) targets offset := by
  obtain ⟨-, hle, hgood, hleast⟩ := upgrades_least h
  rw [roundTrips_iff]
  constructor
  · intro hmax
    exact ⟨id.offset, hle, hmax, hgood⟩
  · rintro ⟨offset, hstart, hmax, hoffset⟩
    have hfirst : id.offset ≤ offset :=
      Nat.le_of_not_lt fun hlt => hleast offset hstart hlt hoffset
    exact Nat.le_trans hfirst hmax

/-- What was generated, or read, and then upgraded any number of times is read back exactly if
an offset of 64 bits, not before its first, reaches every level that was asked for. -/
theorem roundTrip_iff (targets : List (Nat × Nat)) (id : Identity N) :
    (∀ (key : PrivateKey N) (targetLevel turns : Nat),
      (Identity.generate key targetLevel turns).bind (·.upgrades targets) = some id →
      (RoundTrips id ↔ ∃ offset ≤ maxUint64,
        GoodEnough (levelAt N (Identity.publicKey ⟨key, 0⟩)) ((targetLevel, turns) :: targets)
          offset)) ∧
    ∀ (s : Str) (start : Identity N), parseIdentity N s = .ok start →
      start.upgrades targets = some id →
      (RoundTrips id ↔ ∃ offset, start.offset ≤ offset ∧ offset ≤ maxUint64 ∧
        GoodEnough (levelAt N start.publicKey) targets offset) := by
  refine ⟨fun key targetLevel turns h => ?_, fun s start _ h => roundTrips_of_upgrades h⟩
  have hupgrades : Identity.upgrades ⟨key, 0⟩ ((targetLevel, turns) :: targets) = some id := h
  rw [roundTrips_of_upgrades hupgrades]
  simp only [Nat.zero_le, true_and]

/-- The hash and the curve where the example needs them: the point of the scalar 4, and the
digests of its public key with the last offset of 64 bits and the next. -/
def fourthCrypto : NodeCrypto where
  publicPoint scalar :=
    if scalar = List.replicate 31 0 ++ [4] then some (
      [226, 83, 74, 53, 50, 208, 143, 187, 160, 45, 222, 101, 158, 230, 43, 208, 3, 31, 226, 219,
       120, 85, 150, 239, 80, 147, 2, 68, 107, 3, 8, 82],
      [224, 241, 87, 90, 76, 99, 60, 199, 25, 223, 238, 95, 218, 134, 45, 118, 78, 252, 150, 195,
       243, 14, 224, 5, 92, 66, 194, 63, 24, 78, 216, 198])
    else none
  sha1 data :=
    if data = asciiBytes (.of ("ME0DAgcAAgEgAiEA4lNKNTLQj7ugLd5lnuYr0AMf4tt4VZbvUJMCRGsDCFICIQDg8Vda" ++
        "TGM8xxnf7l/ahi12TvyWw/MO4AVcQsI/GE7Yxg==18446744073709551615")) then
      [87, 238, 173, 234, 184, 238, 129, 108, 226, 220, 201, 58, 148, 16, 149, 124, 144, 14, 40,
       22]
    else if data = asciiBytes (.of ("ME0DAgcAAgEgAiEA4lNKNTLQj7ugLd5lnuYr0AMf4tt4VZbvUJMCRGsDCFICIQDg" ++
        "8VdaTGM8xxnf7l/ahi12TvyWw/MO4AVcQsI/GE7Yxg==18446744073709551616")) then
      [214, 156, 91, 96, 168, 244, 144, 2, 105, 46, 21, 105, 73, 145, 48, 74, 101, 11, 238, 173]
    else []

def fourthKey : PrivateKey fourthCrypto :=
  ⟨List.replicate 31 0 ++ [4], rfl, by decide⟩

def fourthPublicKey : String :=
  "ME0DAgcAAgEgAiEA4lNKNTLQj7ugLd5lnuYr0AMf4tt4VZbvUJMCRGsDCFICIQDg" ++
    "8VdaTGM8xxnf7l/ahi12TvyWw/MO4AVcQsI/GE7Yxg=="

theorem publicKey_fourthKey :
    Identity.publicKey (⟨fourthKey, 0⟩ : Identity fourthCrypto) = .of fourthPublicKey := by
  decide

theorem asciiBytes_fourth {digits : String} {offset : Nat} (h : Str.of digits = .ofNat offset) :
    asciiBytes (.of (fourthPublicKey ++ digits)) =
      asciiBytes (.of fourthPublicKey) ++ asciiBytes (.ofNat offset) := by
  rw [← h, asciiBytes, asciiBytes, asciiBytes, Str.of, Str.of, Str.of, String.toList_append,
    List.map_append, List.map_append]

theorem level_last :
    levelAt fourthCrypto (Identity.publicKey ⟨fourthKey, 0⟩) 18446744073709551615 = 0 := by
  have hdata := @asciiBytes_fourth "18446744073709551615" 18446744073709551615 (by decide)
  have htext : fourthPublicKey ++ "18446744073709551615" =
      "ME0DAgcAAgEgAiEA4lNKNTLQj7ugLd5lnuYr0AMf4tt4VZbvUJMCRGsDCFICIQDg8Vda" ++
        "TGM8xxnf7l/ahi12TvyWw/MO4AVcQsI/GE7Yxg==18446744073709551615" := by decide
  have hsha : fourthCrypto.sha1 (asciiBytes (.of (fourthPublicKey ++ "18446744073709551615"))) =
      [87, 238, 173, 234, 184, 238, 129, 108, 226, 220, 201, 58, 148, 16, 149, 124, 144, 14, 40,
       22] := by
    rw [htext, fourthCrypto]
    simp only [↓reduceIte]
  rw [levelAt, publicKey_fourthKey, ← hdata, hsha]
  decide

theorem level_next :
    levelAt fourthCrypto (Identity.publicKey ⟨fourthKey, 0⟩) 18446744073709551616 = 1 := by
  have hlast := @asciiBytes_fourth "18446744073709551615" 18446744073709551615 (by decide)
  have hdata := @asciiBytes_fourth "18446744073709551616" 18446744073709551616 (by decide)
  have hlastText : fourthPublicKey ++ "18446744073709551615" =
      "ME0DAgcAAgEgAiEA4lNKNTLQj7ugLd5lnuYr0AMf4tt4VZbvUJMCRGsDCFICIQDg8Vda" ++
        "TGM8xxnf7l/ahi12TvyWw/MO4AVcQsI/GE7Yxg==18446744073709551615" := by decide
  have htext : fourthPublicKey ++ "18446744073709551616" =
      "ME0DAgcAAgEgAiEA4lNKNTLQj7ugLd5lnuYr0AMf4tt4VZbvUJMCRGsDCFICIQDg" ++
        "8VdaTGM8xxnf7l/ahi12TvyWw/MO4AVcQsI/GE7Yxg==18446744073709551616" := by decide
  have hne : asciiBytes (.of (fourthPublicKey ++ "18446744073709551616")) ≠
      asciiBytes (.of (fourthPublicKey ++ "18446744073709551615")) := by
    rw [hdata, hlast]
    exact fun heq => absurd (List.append_cancel_left heq) (by decide)
  have hsha : fourthCrypto.sha1 (asciiBytes (.of (fourthPublicKey ++ "18446744073709551616"))) =
      [214, 156, 91, 96, 168, 244, 144, 2, 105, 46, 21, 105, 73, 145, 48, 74, 101, 11, 238,
       173] := by
    rw [hlastText, htext] at hne
    rw [htext, fourthCrypto]
    simp only [if_neg hne, ↓reduceIte]
  rw [levelAt, publicKey_fourthKey, ← hdata, hsha]
  decide

/-- The last offset of 64 bits has level 0 there, and the next level 1. -/
theorem upgrades_fourthKey :
    Identity.upgrades (⟨fourthKey, 18446744073709551615⟩ : Identity fourthCrypto) [(1, 2)] =
      some ⟨fourthKey, 18446744073709551616⟩ := by
  have hsearch : Identity.search (levelAt fourthCrypto (Identity.publicKey ⟨fourthKey, 0⟩)) 1 2
      18446744073709551615 = some 18446744073709551616 := by
    rw [Identity.search, level_last, if_neg (by decide), Identity.search, level_next,
      if_pos (le_refl 1)]
  rw [Identity.upgrades, Identity.upgradeToLevel, if_neg (by decide)]
  exact congrArg (fun found => (found.map (Identity.mk fourthKey)).bind some) hsearch

theorem exported_fourthKey :
    parseIdentity fourthCrypto
        (.of "AAAAAAAAAAAAAAAAAAAAAAAAAAAAAAAAAAAAAAAAAAQ=:18446744073709551615") =
      .ok ⟨fourthKey, 18446744073709551615⟩ := by
  have hexported : Identity.exported (⟨fourthKey, 18446744073709551615⟩ : Identity fourthCrypto) =
      .of "AAAAAAAAAAAAAAAAAAAAAAAAAAAAAAAAAAAAAAAAAAQ=:18446744073709551615" := by decide
  rw [← hexported, parseIdentity_exported, if_neg (by decide)]

/-- The identity of the scalar 4 at the last offset of 64 bits, upgraded to level 1, is
exported in a form that is refused. -/
theorem roundTrip_overflow :
    ¬∀ (N : NodeCrypto) (s : Str) (start id : Identity N) (targets : List (Nat × Nat)),
      parseIdentity N s = .ok start → start.upgrades targets = some id → RoundTrips id := by
  intro h
  have hle := roundTrips_iff.mp (h fourthCrypto _ _ _ _ exported_fourthKey upgrades_fourthKey)
  exact absurd hle (by decide)

/-- The same, from the condition: the last offset of 64 bits is good enough for level 0, and
none from it on has level 1. -/
theorem roundTrip_iff_fourthKey :
    RoundTrips (⟨fourthKey, 18446744073709551615⟩ : Identity fourthCrypto) ∧
    ¬∃ offset, 18446744073709551615 ≤ offset ∧ offset ≤ maxUint64 ∧
      GoodEnough (levelAt fourthCrypto (Identity.publicKey ⟨fourthKey, 18446744073709551615⟩))
        [(1, 2)] offset := by
  constructor
  · refine ((roundTrip_iff [(0, 1)] _).2 _ _ exported_fourthKey ?_).mpr
      ⟨18446744073709551615, Nat.le_refl _, by decide, ?_⟩
    · rw [Identity.upgrades, Identity.upgradeToLevel, if_neg (by decide), Identity.search,
        if_pos (Nat.zero_le _)]
      rfl
    · rintro target htarget
      rw [List.mem_singleton.mp htarget]
      exact Nat.zero_le _
  · intro h
    have hread := ((roundTrip_iff [(1, 2)] _).2 _ _ exported_fourthKey upgrades_fourthKey).mpr h
    exact absurd (roundTrips_iff.mp hread) (by decide)

end Teamspeak.Client
