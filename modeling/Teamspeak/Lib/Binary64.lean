import Mathlib.Algebra.Order.Field.Power
import Mathlib.Algebra.Order.Floor.Ring
import Mathlib.Data.Int.Log
import Mathlib.Data.Rat.Floor
import Mathlib.Tactic.FieldSimp
import Mathlib.Tactic.Linarith
import Mathlib.Tactic.NormNum
import Mathlib.Tactic.Positivity

/-!
# Rounding to a double

The double that is nearest to a rational number, a tie going to the even one: 53 bits, a last
place of `2 ^ (-1074)` at the least, and an infinity from `2 ^ 1024` on.

* `roundAbs_mono`: rounding keeps the order.
* `roundAbs_of_dyadic`, `roundAbs_roundAbs`: a number that is a double is not rounded.
* `roundAbs_mul_lt`: a part of a whole number is rounded to less than the whole.
-/

namespace Teamspeak.Binary64

/-- The nearest integer, of two the even one. -/
def roundEven (q : ℚ) : ℤ :=
  if q - ⌊q⌋ < 1 / 2 then ⌊q⌋
  else if 1 / 2 < q - ⌊q⌋ then ⌊q⌋ + 1
  else if ⌊q⌋ % 2 = 0 then ⌊q⌋
  else ⌊q⌋ + 1

/-- The power of two that the last place of a double near `a` stands for. -/
def place (a : ℚ) : ℤ := max (Int.log 2 a - 52) (-1074)

/-- A number from 0 up, rounded. -/
def roundAbs (a : ℚ) : ℚ := roundEven (a / 2 ^ place a) * 2 ^ place a

/-- A double that is a number; the two zeros are one. -/
inductive Double
  | finite (value : ℚ)
  | infinite (negative : Bool)
  deriving DecidableEq

/-- The double a number is rounded to. -/
def round (q : ℚ) : Double :=
  let r := roundAbs |q|
  if 2 ^ 1024 ≤ r then .infinite (q < 0) else .finite (if q < 0 then -r else r)

/-! ### To an integer -/

theorem roundEven_mem (q : ℚ) : roundEven q = ⌊q⌋ ∨ roundEven q = ⌊q⌋ + 1 := by
  unfold roundEven
  split_ifs
  · exact Or.inl rfl
  · exact Or.inr rfl
  · exact Or.inl rfl
  · exact Or.inr rfl

theorem roundEven_mono {p q : ℚ} (h : p ≤ q) : roundEven p ≤ roundEven q := by
  rcases lt_or_eq_of_le (Int.floor_mono h) with hlt | heq
  · have hp := roundEven_mem p
    have hq := roundEven_mem q
    omega
  · -- in one unit the part above the integer decides
    unfold roundEven
    rw [← heq]
    split_ifs <;> first | rfl | omega | (exfalso; linarith)

@[simp] theorem roundEven_intCast (n : ℤ) : roundEven (n : ℚ) = n := by
  rw [roundEven, Int.floor_intCast, sub_self, if_pos (by norm_num)]

/-! ### To a place -/

theorem two_zpow_pos (k : ℤ) : (0 : ℚ) < 2 ^ k := zpow_pos two_pos k

/-- A power of two is a whole number of times a smaller one. -/
theorem exists_multiple {j k : ℤ} (h : k ≤ j) : ∃ n : ℤ, (2 : ℚ) ^ j = n * 2 ^ k := by
  obtain ⟨d, hd⟩ := Int.eq_ofNat_of_zero_le (Int.sub_nonneg.mpr h)
  refine ⟨2 ^ d, ?_⟩
  push_cast
  rw [← zpow_natCast, ← zpow_add₀ two_ne_zero, ← hd]
  congr 1
  omega

/-- A multiple of the last place is not rounded. -/
theorem round_multiple {a : ℚ} {n j : ℤ} (ha : a = n * 2 ^ j) (hj : place a ≤ j) :
    roundAbs a = a := by
  obtain ⟨m, hm⟩ := exists_multiple hj
  have hdiv : a / 2 ^ place a = ((n * m : ℤ) : ℚ) := by
    rw [div_eq_iff (two_zpow_pos _).ne']
    conv_lhs => rw [ha, hm]
    push_cast
    ring
  rw [roundAbs, hdiv, roundEven_intCast, ← hdiv, div_mul_cancel₀ _ (two_zpow_pos _).ne']

@[simp] theorem roundAbs_zero : roundAbs 0 = 0 := by
  rw [roundAbs, zero_div, show (0 : ℚ) = ((0 : ℤ) : ℚ) from rfl, roundEven_intCast, Int.cast_zero,
    zero_mul]

/-- A number of 53 bits that is no finer than a double can be is not rounded. -/
theorem roundAbs_of_dyadic {a : ℚ} {n : ℕ} {j : ℤ} (ha : a = n * 2 ^ j) (hn : n < 2 ^ 53)
    (hj : -1074 ≤ j) : roundAbs a = a := by
  rcases Nat.eq_zero_or_pos n with rfl | hpos
  · rw [ha, Nat.cast_zero, zero_mul, roundAbs_zero]
  have hapos : 0 < a := by
    rw [ha]
    have : (0 : ℚ) < n := by exact_mod_cast hpos
    positivity
  have hlt : a < ((2 : ℕ) : ℚ) ^ (53 + j) := by
    rw [ha, Nat.cast_ofNat, zpow_add₀ two_ne_zero]
    have : (n : ℚ) < 2 ^ (53 : ℤ) := by exact_mod_cast hn
    exact mul_lt_mul_of_pos_right this (two_zpow_pos j)
  have hlog := (Int.lt_zpow_iff_log_lt (by norm_num) hapos).mp hlt
  exact round_multiple (n := n) (by exact_mod_cast ha) (max_le (by omega) hj)

/-- Within the doubles of one last place. -/
theorem roundAbs_mono_of_place {a b : ℚ} (h : a ≤ b) (hplace : place a = place b) :
    roundAbs a ≤ roundAbs b := by
  rw [roundAbs, roundAbs, hplace]
  refine mul_le_mul_of_nonneg_right ?_ (two_zpow_pos _).le
  exact_mod_cast roundEven_mono (div_le_div_of_nonneg_right h (two_zpow_pos _).le)

/-- A power of two that is one of its doubles is not passed. -/
theorem roundAbs_le_zpow {a : ℚ} {j : ℤ} (h : a ≤ 2 ^ j) (hj : place a ≤ j) :
    roundAbs a ≤ 2 ^ j := by
  obtain ⟨n, hn⟩ := exists_multiple hj
  rw [roundAbs, hn]
  refine mul_le_mul_of_nonneg_right ?_ (two_zpow_pos _).le
  have hle : a / 2 ^ place a ≤ (n : ℚ) := by
    rw [div_le_iff₀ (two_zpow_pos _), ← hn]
    exact h
  have := roundEven_mono hle
  rw [roundEven_intCast] at this
  exact_mod_cast this

theorem zpow_le_roundAbs {a : ℚ} {j : ℤ} (h : 2 ^ j ≤ a) (hj : place a ≤ j) :
    2 ^ j ≤ roundAbs a := by
  obtain ⟨n, hn⟩ := exists_multiple hj
  rw [roundAbs, hn]
  refine mul_le_mul_of_nonneg_right ?_ (two_zpow_pos _).le
  have hle : (n : ℚ) ≤ a / 2 ^ place a := by
    rw [le_div_iff₀ (two_zpow_pos _), ← hn]
    exact h
  have := roundEven_mono hle
  rw [roundEven_intCast] at this
  exact_mod_cast this

theorem place_mono {a b : ℚ} (ha : 0 < a) (h : a ≤ b) : place a ≤ place b :=
  max_le_max_right _ (by have := Int.log_mono_right (b := 2) ha h; omega)

/-- **Rounding keeps the order.** -/
theorem roundAbs_mono {a b : ℚ} (ha : 0 ≤ a) (h : a ≤ b) : roundAbs a ≤ roundAbs b := by
  rcases ha.eq_or_lt with rfl | ha
  · rw [roundAbs_zero, roundAbs]
    have hfloor : 0 ≤ roundEven (b / 2 ^ place b) := by
      have := roundEven_mono (div_nonneg h (two_zpow_pos (place b)).le)
      rwa [show (0 : ℚ) = ((0 : ℤ) : ℚ) from rfl, roundEven_intCast] at this
    have : (0 : ℚ) ≤ roundEven (b / 2 ^ place b) := by exact_mod_cast hfloor
    exact mul_nonneg this (two_zpow_pos _).le
  have hb : 0 < b := ha.trans_le h
  rcases (place_mono ha h).eq_or_lt with hplace | hplace
  · exact roundAbs_mono_of_place h hplace
  -- a power of two stands between them
  have hlog : Int.log 2 a + 1 ≤ Int.log 2 b := by
    unfold place at hplace
    omega
  have halt := Int.lt_zpow_succ_log_self (b := 2) (by norm_num) a
  have hble := Int.zpow_log_le_self (b := 2) (by norm_num) hb
  rw [Nat.cast_ofNat] at halt hble
  have hbplace : place b = Int.log 2 b - 52 := by
    unfold place at hplace ⊢
    omega
  calc roundAbs a ≤ 2 ^ Int.log 2 b := by
        refine roundAbs_le_zpow ?_ (by omega)
        exact halt.le.trans (zpow_le_zpow_right₀ (by norm_num) hlog)
    _ ≤ roundAbs b := zpow_le_roundAbs hble (by omega)

theorem place_lt {a : ℚ} (ha : 0 ≤ a) : a < 2 ^ (53 + place a) := by
  rcases ha.eq_or_lt with rfl | ha
  · exact two_zpow_pos _
  · have hlog : Int.log 2 a < 53 + place a := by
      rw [place]
      omega
    have := (Int.lt_zpow_iff_log_lt (b := 2) (by norm_num) ha).mpr hlog
    exact_mod_cast this

/-- What was rounded is a double. -/
theorem roundAbs_roundAbs {a : ℚ} (ha : 0 ≤ a) : roundAbs (roundAbs a) = roundAbs a := by
  have hquotient_nonneg : 0 ≤ a / 2 ^ place a := div_nonneg ha (two_zpow_pos _).le
  have hquotient : a / 2 ^ place a ≤ ((2 ^ 53 : ℤ) : ℚ) := by
    rw [div_le_iff₀ (two_zpow_pos _)]
    have := (place_lt ha).le
    rw [zpow_add₀ two_ne_zero] at this
    exact_mod_cast this
  have hle : roundEven (a / 2 ^ place a) ≤ 2 ^ 53 :=
    (roundEven_mono hquotient).trans_eq (roundEven_intCast _)
  have hnonneg : 0 ≤ roundEven (a / 2 ^ place a) := by
    have := roundEven_mono (p := ((0 : ℤ) : ℚ)) (by exact_mod_cast hquotient_nonneg)
    rwa [roundEven_intCast] at this
  have hplace : -1074 ≤ place a := le_max_right _ _
  obtain ⟨n, hn⟩ := Int.eq_ofNat_of_zero_le hnonneg
  rcases hle.lt_or_eq with hlt | heq
  · refine roundAbs_of_dyadic (n := n) (j := place a) ?_ (by omega) hplace
    rw [roundAbs, hn]
    rfl
  · refine round_multiple (n := 1) (j := 53 + place a) ?_ ?_
    · rw [roundAbs, heq, zpow_add₀ two_ne_zero]
      push_cast
      ring
    · rw [roundAbs, heq, place]
      have hpower : (((2 ^ 53 : ℤ) : ℚ) * 2 ^ place a) = ((2 : ℕ) : ℚ) ^ (53 + place a) := by
        rw [Nat.cast_ofNat, zpow_add₀ two_ne_zero]
        push_cast
        rfl
      rw [hpower, Int.log_zpow (by norm_num)]
      omega

/-! ### Below one -/

theorem roundEven_le (q : ℚ) : (roundEven q : ℚ) ≤ q + 1 / 2 := by
  have hfloor := Int.floor_le q
  unfold roundEven
  split_ifs with hlt hgt heven
  · linarith
  · push_cast
    linarith
  · linarith
  · push_cast
    linarith

/-- The double before 1. -/
theorem le_of_lt_one {r : ℚ} (hdouble : roundAbs r = r) (hr : r < 1) : r ≤ 1 - 2 ^ (-53 : ℤ) := by
  by_contra hlarge
  rw [not_le] at hlarge
  have hhalf : ((2 : ℕ) : ℚ) ^ (-1 : ℤ) ≤ r := by
    have : (2 : ℚ) ^ (-53 : ℤ) ≤ 2 ^ (-1 : ℤ) := zpow_le_zpow_right₀ (by norm_num) (by norm_num)
    rw [Nat.cast_ofNat]
    norm_num at this hlarge ⊢
    linarith
  have hpos : 0 < r := lt_of_lt_of_le (by norm_num) hhalf
  have hlog : Int.log 2 r = -1 := by
    have hge := (Int.zpow_le_iff_le_log (b := 2) (by norm_num) hpos).mp hhalf
    have hlt := (Int.lt_zpow_iff_log_lt (b := 2) (x := 0) (by norm_num) hpos).mp (by simpa using hr)
    omega
  have hplace : place r = -53 := by
    rw [place, hlog]
    rfl
  rw [roundAbs, hplace] at hdouble
  -- a whole number of last places, below all of them
  have hbelow : roundEven (r / 2 ^ (-53 : ℤ)) < 2 ^ 53 := by
    have hone : (roundEven (r / 2 ^ (-53 : ℤ)) : ℚ) * 2 ^ (-53 : ℤ) < 1 := by rwa [hdouble]
    have hq : (roundEven (r / 2 ^ (-53 : ℤ)) : ℚ) < 2 ^ 53 := by
      norm_num at hone ⊢
      linarith
    exact_mod_cast hq
  have hle : (roundEven (r / 2 ^ (-53 : ℤ)) : ℚ) ≤ 2 ^ 53 - 1 := by
    exact_mod_cast Int.le_sub_one_of_lt hbelow
  have := mul_le_mul_of_nonneg_right hle (two_zpow_pos (-53)).le
  rw [hdouble] at this
  norm_num at this hlarge
  linarith

/-- **A part of a whole number is rounded below it.** -/
theorem roundAbs_mul_lt {r : ℚ} {n : ℕ} (hr : 0 ≤ r) (hdouble : roundAbs r = r) (hlt : r < 1)
    (hn : 0 < n) : roundAbs (r * n) < n := by
  have hnpos : (0 : ℚ) < n := by exact_mod_cast hn
  have hpart : r * n ≤ (1 - 2 ^ (-53 : ℤ)) * n :=
    mul_le_mul_of_nonneg_right (le_of_lt_one hdouble hlt) hnpos.le
  have hbpos : (0 : ℚ) < (1 - 2 ^ (-53 : ℤ)) * n := mul_pos (by norm_num) hnpos
  refine (roundAbs_mono (mul_nonneg hr hnpos.le) hpart).trans_lt ?_
  obtain ⟨k, hlow, hhigh⟩ : ∃ k : ℕ, (2 : ℚ) ^ (k : ℤ) ≤ n ∧ (n : ℚ) < 2 ^ ((k : ℤ) + 1) := by
    refine ⟨Nat.log 2 n, ?_, ?_⟩
    · exact_mod_cast Nat.pow_log_le_self 2 hn.ne'
    · exact_mod_cast Nat.lt_pow_succ_log_self (by norm_num) n
  generalize hb : (1 - 2 ^ (-53 : ℤ)) * (n : ℚ) = b at hbpos ⊢
  have hsplit : b = n - n * 2 ^ (-53 : ℤ) := by
    rw [← hb]
    ring
  have hbn : b < n := by
    have := mul_pos hnpos (two_zpow_pos (-53))
    linarith
  rcases lt_or_ge b (2 ^ (k : ℤ)) with hbelow | habove
  · rcases hlow.eq_or_lt with hpower | hstrict
    · -- below a power of two the doubles are closer
      have hdyadic : b = ((2 ^ 53 - 1 : ℕ) : ℚ) * 2 ^ ((k : ℤ) - 53) := by
        rw [hsplit, ← hpower, sub_eq_add_neg (k : ℤ), zpow_add₀ two_ne_zero]
        norm_num
        ring
      rwa [roundAbs_of_dyadic hdyadic (by norm_num) (by omega)]
    · refine (roundAbs_le_zpow hbelow.le ?_).trans_lt hstrict
      have hlog := (Int.lt_zpow_iff_log_lt (b := 2) (x := (k : ℤ)) (by norm_num) hbpos).mp
        (by rwa [Nat.cast_ofNat])
      rw [place]
      omega
  · have hlog : Int.log 2 b = k := by
      have hge := (Int.zpow_le_iff_le_log (b := 2) (x := (k : ℤ)) (by norm_num) hbpos).mp
        (by rwa [Nat.cast_ofNat])
      have hlt := (Int.lt_zpow_iff_log_lt (b := 2) (x := (k : ℤ) + 1) (by norm_num) hbpos).mp
        (by exact_mod_cast hbn.trans hhigh)
      omega
    have hplace : place b = k - 52 := by
      rw [place, hlog]
      omega
    have hround : roundAbs b ≤ (b / 2 ^ ((k : ℤ) - 52) + 1 / 2) * 2 ^ ((k : ℤ) - 52) := by
      rw [roundAbs, hplace]
      exact mul_le_mul_of_nonneg_right (roundEven_le _) (two_zpow_pos _).le
    have hhalf : (2 : ℚ) ^ ((k : ℤ) - 52) / 2 = 2 ^ (k : ℤ) * 2 ^ (-53 : ℤ) := by
      rw [sub_eq_add_neg, zpow_add₀ two_ne_zero]
      norm_num
      ring
    have hpart : 2 ^ (k : ℤ) * (2 : ℚ) ^ (-53 : ℤ) < n * 2 ^ (-53 : ℤ) :=
      mul_lt_mul_of_pos_right (habove.trans_lt hbn) (two_zpow_pos _)
    calc roundAbs b ≤ (b / 2 ^ ((k : ℤ) - 52) + 1 / 2) * 2 ^ ((k : ℤ) - 52) := hround
      _ = b + 2 ^ ((k : ℤ) - 52) / 2 := by
        rw [add_mul, div_mul_cancel₀ _ (two_zpow_pos _).ne']
        ring
      _ < n := by
        rw [hhalf, hsplit]
        linarith

end Teamspeak.Binary64
