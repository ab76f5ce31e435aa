import Teamspeak.Client.Handshake

/-!
# Base64

`Buffer.from(s, "base64")` and how it undoes `toString("base64")`.

* `fromBase64_toBase64`: what was written is read back.
-/

namespace Teamspeak.Client

/-- What a character stands for; those of the URL alphabet are read too. -/
def sixBits (c : UInt16) : Option Nat :=
  if 65 ≤ c.toNat ∧ c.toNat ≤ 90 then some (c.toNat - 65)
  else if 97 ≤ c.toNat ∧ c.toNat ≤ 122 then some (c.toNat - 71)
  else if 48 ≤ c.toNat ∧ c.toNat ≤ 57 then some (c.toNat + 4)
  else if c.toNat = 43 ∨ c.toNat = 45 then some 62
  else if c.toNat = 47 ∨ c.toNat = 95 then some 63
  else none

/-- The whole bytes of groups of six bits. -/
def unpack : List Nat → Bytes
  | a :: b :: c :: d :: rest =>
    UInt8.ofNat (a * 4 + b / 16) :: UInt8.ofNat (b % 16 * 16 + c / 4) ::
      UInt8.ofNat (c % 4 * 64 + d) :: unpack rest
  | [a, b, c] => [UInt8.ofNat (a * 4 + b / 16), UInt8.ofNat (b % 16 * 16 + c / 4)]
  | [a, b] => [UInt8.ofNat (a * 4 + b / 16)]
  | _ => []

/-- `Buffer.from(s, "base64")`; it skips what it cannot read. -/
def fromBase64 (s : Str) : Bytes := unpack (s.filterMap sixBits)

theorem sixBits_alphabet {i : Nat} (h : i < 64) : sixBits (base64Alphabet.getD i 0) = some i := by
  have hall : ∀ i < 64, sixBits (base64Alphabet.getD i 0) = some i := by decide +kernel
  exact hall i h

theorem filterMap_alphabet {l : List Nat} (h : ∀ i ∈ l, i < 64) (rest : Str) :
    (l.map (base64Alphabet.getD · 0) ++ rest).filterMap sixBits = l ++ rest.filterMap sixBits := by
  induction l with
  | nil => rfl
  | cons i l ih =>
    rw [List.map_cons, List.cons_append,
      List.filterMap_cons_some (sixBits_alphabet (h i List.mem_cons_self)),
      ih fun j hj => h j (List.mem_cons_of_mem _ hj), List.cons_append]

/-- The digits of three bytes are below 64. -/
theorem digits_lt (a b c : UInt8) :
    ∀ i ∈ [a.toNat / 4, a.toNat % 4 * 16 + b.toNat / 16, b.toNat % 16 * 4 + c.toNat / 64,
      c.toNat % 64], i < 64 := by
  have ha := a.toNat_lt
  have hb := b.toNat_lt
  have hc := c.toNat_lt
  intro i hi
  simp only [List.mem_cons, List.not_mem_nil, or_false] at hi
  omega

theorem ofNat_eq {b : UInt8} {n : Nat} (h : n = b.toNat) : UInt8.ofNat n = b := by
  rw [h, UInt8.ofNat_toNat]

/-- What was written is read back. -/
theorem fromBase64_toBase64 (bytes : Bytes) : fromBase64 (toBase64 bytes) = bytes := by
  induction bytes using toBase64.induct with
  | case1 => rfl
  | case2 a =>
    have ha := a.toNat_lt
    have hdigits : ∀ i ∈ [a.toNat / 4, a.toNat % 4 * 16], i < 64 := by
      intro i hi
      simp only [List.mem_cons, List.not_mem_nil, or_false] at hi
      omega
    have hbits : (toBase64 [a]).filterMap sixBits = [a.toNat / 4, a.toNat % 4 * 16] :=
      filterMap_alphabet hdigits [equalSign, equalSign]
    rw [fromBase64, hbits, unpack]
    exact congrArg (fun b => [b]) (ofNat_eq (by omega))
  | case3 a b =>
    have ha := a.toNat_lt
    have hb := b.toNat_lt
    have hdigits : ∀ i ∈ [a.toNat / 4, a.toNat % 4 * 16 + b.toNat / 16, b.toNat % 16 * 4],
        i < 64 := by
      intro i hi
      simp only [List.mem_cons, List.not_mem_nil, or_false] at hi
      omega
    have hbits : (toBase64 [a, b]).filterMap sixBits =
        [a.toNat / 4, a.toNat % 4 * 16 + b.toNat / 16, b.toNat % 16 * 4] :=
      filterMap_alphabet hdigits [equalSign]
    rw [fromBase64, hbits, unpack, ofNat_eq (b := a) (by omega), ofNat_eq (b := b) (by omega)]
  | case4 a b c rest ih =>
    have ha := a.toNat_lt
    have hb := b.toNat_lt
    have hc := c.toNat_lt
    have hbits : (toBase64 (a :: b :: c :: rest)).filterMap sixBits =
        [a.toNat / 4, a.toNat % 4 * 16 + b.toNat / 16, b.toNat % 16 * 4 + c.toNat / 64,
          c.toNat % 64] ++ (toBase64 rest).filterMap sixBits :=
      filterMap_alphabet (digits_lt a b c) (toBase64 rest)
    rw [fromBase64, hbits]
    show unpack (a.toNat / 4 :: (a.toNat % 4 * 16 + b.toNat / 16) ::
      (b.toNat % 16 * 4 + c.toNat / 64) :: c.toNat % 64 :: (toBase64 rest).filterMap sixBits) = _
    rw [unpack, ofNat_eq (b := a) (by omega), ofNat_eq (b := b) (by omega),
      ofNat_eq (b := c) (by omega)]
    exact congrArg (fun l => a :: b :: c :: l) ih

end Teamspeak.Client
