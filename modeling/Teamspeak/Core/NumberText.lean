import Mathlib.Data.List.DropRight
import Teamspeak.Core.Command
import Teamspeak.Core.Errors
import Teamspeak.Core.Number

/-!
# Numbers as texts

`String(x)`: the shortest decimal that is rounded to `x`, of two as short the nearer one, with
its exponent written out from 21 digits before the point on.
-/

namespace Teamspeak

open Binary64 (Double roundAbs roundEven)

/-- `digits * 10 ^ exponent`. -/
structure Decimal where
  digits : Nat
  exponent : Int

namespace Decimal

def value (d : Decimal) : ℚ := d.digits * 10 ^ d.exponent

/-- The decimals of `k` digits next to `a`, the nearest first. -/
def next (a : ℚ) (k : Nat) : List Decimal :=
  let exponent := Int.log 10 a + 1 - k
  let scaled := a / 10 ^ exponent
  [⟨(roundEven scaled).toNat, exponent⟩, ⟨⌊scaled⌋.toNat, exponent⟩,
    ⟨⌊scaled⌋.toNat + 1, exponent⟩]

/-- The decimal of `k` digits that is rounded to `a`. -/
def ofLength (a : ℚ) (k : Nat) : Option Decimal := (next a k).find? fun d => roundAbs d.value = a

/-- The shortest decimal that is rounded to `a`; a whole number is one itself, and 17 digits are
enough for any other double. -/
def shortest (a : ℚ) : Option Decimal :=
  (List.range' 1 ((Int.log 10 a).toNat + 17)).findSome? (ofLength a)

def zero : UInt16 := unit '0'
def point : UInt16 := unit '.'

/-- `Number::toString`, of the digits and the exponent. -/
def text (d : Decimal) : Str :=
  let digits := (Str.ofNat d.digits).rdropWhile (· = zero)
  let k : Int := digits.length
  let n : Int := (Str.ofNat d.digits).length + d.exponent
  if k ≤ n ∧ n ≤ 21 then digits ++ List.replicate (n - k).toNat zero
  else if 0 < n ∧ n ≤ 21 then digits.take n.toNat ++ point :: digits.drop n.toNat
  else if -6 < n ∧ n ≤ 0 then zero :: point :: (List.replicate (-n).toNat zero ++ digits)
  else
    digits.take 1 ++ (if k = 1 then [] else point :: digits.drop 1) ++
      unit 'e' :: (if 1 ≤ n then unit '+' else dash) :: Str.ofNat (n - 1).natAbs

end Decimal

/-- The text of a number above 0. -/
def absText (a : ℚ) : Str := (Decimal.shortest a).elim [] Decimal.text

/-- `String(x)`. -/
def numberText : Double → Str
  | .infinite negative => (if negative then [dash] else []) ++ .of "Infinity"
  | .finite value =>
    if value = 0 then [Decimal.zero]
    else if value < 0 then dash :: absText (-value)
    else absText value

/-! ### Digits -/

theorem ofNat_mul_ten {n : Nat} (hn : 0 < n) :
    Str.ofNat (10 * n) = Str.ofNat n ++ [Decimal.zero] := by
  have happend := Nat.toDigits_append_toDigits (b := 10) (n := n) (d := 0) (by decide) hn (by decide)
  rw [Nat.add_zero, Nat.toDigits_zero] at happend
  rw [Str.ofNat, ← happend, List.map_append]
  rfl

theorem ofNat_mul_pow {n : Nat} (hn : 0 < n) (j : Nat) :
    Str.ofNat (n * 10 ^ j) = Str.ofNat n ++ List.replicate j Decimal.zero := by
  induction j with
  | zero => rw [Nat.pow_zero, Nat.mul_one, List.replicate_zero, List.append_nil]
  | succ j ih =>
    have hstep : n * 10 ^ (j + 1) = 10 * (n * 10 ^ j) := by ring
    rw [hstep, ofNat_mul_ten (Nat.mul_pos hn (Nat.pow_pos (by decide))), ih, List.append_assoc,
      List.replicate_succ']

/-- The zeros that end a list, taken off and put back. -/
theorem rdropWhile_append_replicate (s : Str) :
    s.rdropWhile (· = Decimal.zero) ++
      List.replicate (s.length - (s.rdropWhile (· = Decimal.zero)).length) Decimal.zero = s := by
  have happend := List.rdropWhile_append_rtakeWhile (p := (· = Decimal.zero)) (l := s)
  have hlength : (s.rtakeWhile (· = Decimal.zero)).length =
      s.length - (s.rdropWhile (· = Decimal.zero)).length := by
    have := congrArg List.length happend
    rw [List.length_append] at this
    omega
  have hzeros : s.rtakeWhile (· = Decimal.zero) =
      List.replicate (s.rtakeWhile (· = Decimal.zero)).length Decimal.zero :=
    List.eq_replicate_length.mpr fun c hc =>
      of_decide_eq_true (List.mem_rtakeWhile_imp (p := (· = Decimal.zero)) hc)
  rw [← hlength, ← hzeros]
  exact happend

theorem length_ofNat_le {n k : Nat} (hk : 0 < k) (h : n < 10 ^ k) : (Str.ofNat n).length ≤ k := by
  rw [Str.ofNat, List.length_map]
  exact (Nat.length_toDigits_le_iff (by decide) hk).mpr h

namespace Decimal

/-- A whole number is written out up to 21 digits, and has an exponent from there on. -/
theorem text_whole {d : Nat} (hd : 0 < d) (j : Nat) :
    (text ⟨d, j⟩ = Str.ofNat (d * 10 ^ j) ∧ (Str.ofNat (d * 10 ^ j)).length ≤ 21) ∨
      (unit 'e' ∈ text ⟨d, j⟩ ∧ 21 < (Str.ofNat (d * 10 ^ j)).length) := by
  have hdigits := rdropWhile_append_replicate (Str.ofNat d)
  have hshort := (List.rdropWhile_prefix (· = zero) (l := Str.ofNat d)).length_le
  have hlength : (Str.ofNat (d * 10 ^ j)).length = (Str.ofNat d).length + j := by
    rw [ofNat_mul_pow hd, List.length_append, List.length_replicate]
  rw [text]
  dsimp only
  rcases Nat.lt_or_ge 21 ((Str.ofNat d).length + j) with hlong | hle
  · right
    rw [if_neg (by omega), if_neg (by omega), if_neg (by omega)]
    exact ⟨List.mem_append_right _ List.mem_cons_self, by omega⟩
  · left
    have hzeros : (((Str.ofNat d).length + j : Int) -
        ((Str.ofNat d).rdropWhile (· = zero)).length).toNat =
        ((Str.ofNat d).length - ((Str.ofNat d).rdropWhile (· = zero)).length) + j := by omega
    rw [if_pos (by omega), hzeros, List.replicate_add, ← List.append_assoc, hdigits,
      ofNat_mul_pow hd]
    exact ⟨rfl, by rw [List.length_append, List.length_replicate]; exact hle⟩

theorem ofLength_exponent {a : ℚ} {k : Nat} {d : Decimal} (h : ofLength a k = some d) :
    d.exponent = Int.log 10 a + 1 - k := by
  have hmem := List.mem_of_find?_eq_some h
  simp only [next, List.mem_cons, List.not_mem_nil, or_false] at hmem
  rcases hmem with rfl | rfl | rfl
  · rfl
  · rfl
  · rfl

/-- With all of its digits a whole number is itself. -/
theorem ofLength_whole {m : Nat} (hdouble : roundAbs m = m) :
    ofLength m (Nat.log 10 m + 1) = some ⟨m, 0⟩ := by
  have hexponent : Int.log 10 (m : ℚ) + 1 - ((Nat.log 10 m + 1 : Nat) : Int) = 0 := by
    rw [Int.log_natCast]
    push_cast
    omega
  have hround : roundEven ((m : ℚ) / 10 ^ (0 : Int)) = m := by
    rw [zpow_zero, div_one]
    exact Binary64.roundEven_intCast m
  rw [ofLength, next, hexponent, hround, List.find?_cons_of_pos]
  · rfl
  · have hvalue : value ⟨m, 0⟩ = m := by rw [value, zpow_zero, mul_one]
    rw [Int.toNat_natCast, hvalue]
    exact decide_eq_true hdouble

/-- A whole number that is a double is written with no place after the point. -/
theorem shortest_whole {m : Nat} (hm : 0 < m) (hdouble : roundAbs m = m) :
    ∃ d j : Nat, shortest m = some ⟨d, j⟩ ∧ 0 < d ∧ roundAbs ((d * 10 ^ j : Nat) : ℚ) = m := by
  have hmem : Nat.log 10 m + 1 ∈ List.range' 1 ((Int.log 10 (m : ℚ)).toNat + 17) := by
    rw [Int.log_natCast, List.mem_range'_1]
    omega
  obtain ⟨found, hfound⟩ := Option.isSome_iff_exists.mp (List.findSome?_isSome_iff.mpr
    ⟨_, hmem, Option.isSome_of_eq_some (ofLength_whole hdouble)⟩)
  obtain ⟨before, k, after, hlist, hk, hbefore⟩ := List.findSome?_eq_some_iff.mp hfound
  -- no length above that of the number comes before it
  have hle : k ≤ Nat.log 10 m + 1 := by
    by_contra hlt
    have hsorted : (before ++ k :: after).Pairwise (· < ·) := hlist ▸ List.pairwise_lt_range'
    rw [hlist, List.mem_append] at hmem
    rcases hmem with hmem | hmem
    · have := hbefore _ hmem
      rw [ofLength_whole hdouble] at this
      cases this
    · rcases List.mem_cons.mp hmem with heq | hmem
      · omega
      · have := (List.pairwise_cons.mp (List.pairwise_append.mp hsorted).2.1).1 _ hmem
        omega
  have hexponent := ofLength_exponent hk
  rw [Int.log_natCast] at hexponent
  obtain ⟨j, hj⟩ : ∃ j : Nat, found.exponent = j := Int.eq_ofNat_of_zero_le (by omega)
  obtain ⟨d, e⟩ := found
  obtain rfl : e = j := hj
  have hround : roundAbs ((d * 10 ^ j : Nat) : ℚ) = m := by
    rw [ofLength] at hk
    have hdecide := List.find?_some hk
    have hvalue := of_decide_eq_true hdecide
    rw [value, zpow_natCast] at hvalue
    push_cast
    exact hvalue
  refine ⟨d, j, hfound, Nat.pos_of_ne_zero ?_, hround⟩
  rintro rfl
  rw [Nat.zero_mul, Nat.cast_zero, Binary64.roundAbs_zero] at hround
  exact hm.ne (by exact_mod_cast hround)

end Decimal

/-! ### Codes -/

/-- What is rounded to a number of 32 bits is that number. -/
theorem eq_of_roundAbs {p m : Nat} (h : roundAbs p = m) (hsmall : p < 2 ^ 53 ∨ m < 2 ^ 53) :
    p = m := by
  rcases Nat.lt_or_ge p (2 ^ 53) with hp | hp
  · rw [roundAbs_natCast hp] at h
    exact_mod_cast h
  · have hpower : roundAbs ((2 ^ 53 : Nat) : ℚ) = (2 ^ 53 : Nat) :=
      Binary64.roundAbs_of_dyadic (n := 1) (j := 53) (by norm_num) (by norm_num) (by norm_num)
    have hcast : ((2 ^ 53 : Nat) : ℚ) ≤ p := Nat.cast_le.mpr hp
    have hmono := Binary64.roundAbs_mono (Nat.cast_nonneg (2 ^ 53)) hcast
    rw [h, hpower, Nat.cast_le] at hmono
    omega

theorem round_natCast {n : Nat} (h : n < 2 ^ 53) : Binary64.round n = .finite n := by
  have hnonneg : (0 : ℚ) ≤ n := Nat.cast_nonneg n
  have hbound : (n : ℚ) < 2 ^ 1024 := by
    calc (n : ℚ) < (2 ^ 53 : Nat) := Nat.cast_lt.mpr h
      _ = 2 ^ 53 := by norm_num
      _ ≤ 2 ^ 1024 := pow_le_pow_right₀ one_le_two (by decide)
  rw [Binary64.round, abs_of_nonneg hnonneg, roundAbs_natCast h, if_neg hbound.not_ge,
    if_neg hnonneg.not_gt]

theorem isDigit_ofNat (n : Nat) : (Str.ofNat n).all Str.isDigit = true :=
  List.all_eq_true.mpr fun _ hc => Str.isDigit_of_mem_ofNat hc

theorem parseUint32_ofNat (n : Nat) :
    parseUint32 (some (Str.ofNat n)) = if n ≤ 0xffffffff then some n else none := by
  rw [parseUint32, Option.bind_some, Str.digitsValue_ofNat]
  simp only [Str.ofNat_ne_nil, isDigit_ofNat, ne_eq, not_false_eq_true, true_and]

theorem parseUint32_of_mem {s : Str} {c : UInt16} (hc : c ∈ s) (hdigit : Str.isDigit c = false) :
    parseUint32 (some s) = none := by
  rw [parseUint32, Option.bind_some, if_neg]
  rintro ⟨-, hall, -⟩
  rw [List.all_eq_true.mp hall c hc] at hdigit
  cases hdigit

/-- A whole number above 0 is read back if it has 32 bits. -/
theorem parseUint32_absText {m : Nat} (hm : 0 < m) (hdouble : roundAbs m = m) :
    parseUint32 (some (absText m)) = if m ≤ 0xffffffff then some m else none := by
  obtain ⟨d, j, hshortest, hd, hround⟩ := Decimal.shortest_whole hm hdouble
  rw [absText, hshortest, Option.elim_some]
  rcases Nat.lt_or_ge 0xffffffff m with hlarge | hsmall
  · have hp : 0xffffffff < d * 10 ^ j := by
      by_contra hle
      have := eq_of_roundAbs hround (Or.inl (by omega))
      omega
    rw [if_neg (by omega)]
    rcases Decimal.text_whole hd j with ⟨htext, -⟩ | ⟨hmem, -⟩
    · rw [htext, parseUint32_ofNat, if_neg (by omega)]
    · exact parseUint32_of_mem hmem (by decide)
  · have hp : d * 10 ^ j = m := eq_of_roundAbs hround (Or.inr (by omega))
    have hlength := length_ofNat_le (n := m) (k := 10) (by decide) (by omega)
    rcases Decimal.text_whole hd j with ⟨htext, -⟩ | ⟨-, hlong⟩
    · rw [htext, hp, parseUint32_ofNat]
    · rw [hp] at hlong
      omega

/-- **A whole number is read back as an error code** just when it has 32 bits. -/
theorem parseErrorCode_numberText {n : Int} {q : ℚ} (h : Binary64.round q = .finite n) :
    parseErrorCode (some (numberText (.finite n))) =
      if 0 ≤ n ∧ n ≤ 0xffffffff then n.toNat else undefinedErrorCode := by
  have hn : (n : ℚ) = if q < 0 then -roundAbs |q| else roundAbs |q| := by
    rw [Binary64.round] at h
    split at h
    · cases h
    · exact (Double.finite.inj h).symm
  have hnonneg : 0 ≤ roundAbs |q| := by
    have := Binary64.roundAbs_mono le_rfl (abs_nonneg q)
    rwa [Binary64.roundAbs_zero] at this
  rcases lt_trichotomy n 0 with hneg | rfl | hpos
  · have hcast : (n : ℚ) < 0 := by exact_mod_cast hneg
    rw [numberText, if_neg hcast.ne, if_pos hcast, parseErrorCode,
      parseUint32_of_mem (c := dash) List.mem_cons_self (by decide), if_neg (by omega)]
    rfl
  · decide
  · obtain ⟨m, rfl⟩ := Int.eq_ofNat_of_zero_le hpos.le
    have hcast : (0 : ℚ) < m := by exact_mod_cast hpos
    have hdouble : roundAbs m = m := by
      have hq : ¬ q < 0 := fun hq => by
        rw [if_pos hq] at hn
        push_cast at hn
        linarith
      rw [if_neg hq, Int.cast_natCast] at hn
      rw [hn]
      exact Binary64.roundAbs_roundAbs (abs_nonneg q)
    rw [Int.cast_natCast, numberText, if_neg hcast.ne', if_neg hcast.not_gt, parseErrorCode,
      parseUint32_absText (by omega) hdouble]
    rcases Nat.lt_or_ge 0xffffffff m with hlarge | hsmall
    · rw [if_neg (by omega), if_neg (by omega)]
      rfl
    · rw [if_pos hsmall, if_pos (by omega)]
      rfl

end Teamspeak
