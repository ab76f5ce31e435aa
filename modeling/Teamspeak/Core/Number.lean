import Mathlib.Tactic.Ring
import Teamspeak.Client.Discovery.Address
import Teamspeak.Lib.Binary64

/-!
# Numbers in texts

`Number(s)`: a text is trimmed and read as a numeric literal, whose value is rounded to a double.

* `parseInt_decimal`, `parseInt_radix`: what `parseInt(s, 10)` makes of a literal.
* `uintOf_eq_iff`: where the two read the same id.
-/

namespace Teamspeak

open Client (trim)
open Binary64 (Double)

/-- A numeric literal: decimal, after `0x`, `0o` or `0b`, or `Infinity`. -/
inductive Literal
  | decimal (negative : Bool) (whole fraction : Str) (exponent : Int)
  | radix (base : Nat) (digits : Str)
  | infinity (negative : Bool)
  deriving DecidableEq

/-- The value of a hexadecimal digit. -/
def digitOf (c : UInt16) : Option Nat :=
  if Str.isDigit c then some (c.toNat - 48)
  else if 65 ≤ c.toNat ∧ c.toNat ≤ 70 then some (c.toNat - 55)
  else if 97 ≤ c.toNat ∧ c.toNat ≤ 102 then some (c.toNat - 87)
  else none

/-- The base that the letter after a `0` names. -/
def baseOf (c : UInt16) : Option Nat :=
  if c = unit 'x' ∨ c = unit 'X' then some 16
  else if c = unit 'o' ∨ c = unit 'O' then some 8
  else if c = unit 'b' ∨ c = unit 'B' then some 2
  else none

def readRadix : Str → Option Literal
  | zero :: letter :: digits =>
    if zero = unit '0' then
      (baseOf letter).bind fun base =>
        if digits ≠ [] ∧ digits.all fun c => (digitOf c).any (· < base) then
          some (.radix base digits)
        else none
    else none
  | _ => none

/-- Whether a text starts with a minus, and the text without its sign. -/
def signOf (s : Str) : Bool × Str :=
  (s.head? = some dash, if s.head? = some dash ∨ s.head? = some (unit '+') then s.tail else s)

/-- The exponent that ends a literal; there may be none. -/
def readExponent : Str → Option Int
  | [] => some 0
  | letter :: rest =>
    if letter = unit 'e' ∨ letter = unit 'E' then
      let (negative, digits) := signOf rest
      if digits ≠ [] ∧ digits.all Str.isDigit then
        some (if negative then -(Str.digitsValue digits : Int) else Str.digitsValue digits)
      else none
    else none

def readDecimal (negative : Bool) (s : Str) : Option Literal :=
  let whole := s.takeWhile Str.isDigit
  let rest := s.dropWhile Str.isDigit
  let point := rest.head? = some (unit '.')
  let fraction := if point then rest.tail.takeWhile Str.isDigit else []
  let rest := if point then rest.tail.dropWhile Str.isDigit else rest
  if whole = [] ∧ fraction = [] then none
  else (readExponent rest).map (.decimal negative whole fraction)

/-- The literal that a trimmed text is. -/
def readLiteral (s : Str) : Option Literal :=
  match readRadix s with
  | some l => some l
  | none =>
    let (negative, rest) := signOf s
    if rest = .of "Infinity" then some (.infinity negative) else readDecimal negative rest

def radixValue (base : Nat) (digits : Str) : Nat :=
  digits.foldl (fun n c => n * base + (digitOf c).getD 0) 0

/-- The size of a decimal literal, before it is rounded. -/
def decimalSize (whole fraction : Str) (exponent : Int) : ℚ :=
  Str.digitsValue (whole ++ fraction) * (10 : ℚ) ^ (exponent - fraction.length)

def Literal.value : Literal → Double
  | .decimal negative whole fraction exponent =>
    let size := decimalSize whole fraction exponent
    Binary64.round (if negative then -size else size)
  | .radix base digits => Binary64.round (radixValue base digits)
  | .infinity negative => .infinite negative

/-- `Number(s)`; `none` is `NaN`. -/
def numberOf (s : Str) : Option Double :=
  let s := trim s
  if s = [] then some (.finite 0) else (readLiteral s).map Literal.value

/-! ### Ids -/

/-- `num`: what a row has under a key as a number. -/
def numOf (raw : Option Str) : Double :=
  match raw with
  | none => .finite 0
  | some [] => .finite 0
  | some (c :: s) => (numberOf (c :: s)).getD (.finite 0)

/-- `Number.isInteger(value) && value >= 0 && value <= max ? value : 0`. -/
def Binary64.Double.uint (max : Nat) : Double → Nat
  | .finite value => if value.den = 1 ∧ 0 ≤ value ∧ value ≤ max then value.num.toNat else 0
  | .infinite _ => 0

/-- `uint`: an id no wider than `max`. -/
def uintOf (raw : Option Str) (max : Nat) : Nat := (numOf raw).uint max

def u16 : Nat := 0xffff

/-! ### Digits -/

theorem digitsValue_append (s t : Str) :
    Str.digitsValue (s ++ t) = Str.digitsValue s * 10 ^ t.length + Str.digitsValue t := by
  have hfold (t : Str) (n : Nat) : t.foldl (fun n c => n * 10 + (c.toNat - 48)) n =
      n * 10 ^ t.length + Str.digitsValue t := by
    induction t generalizing n with
    | nil => simp [Str.digitsValue]
    | cons c t ih =>
      have hcons : Str.digitsValue (c :: t) =
          (c.toNat - 48) * 10 ^ t.length + Str.digitsValue t := by
        rw [Str.digitsValue, List.foldl_cons, ih, Nat.zero_mul, Nat.zero_add]
      rw [List.foldl_cons, ih, hcons, List.length_cons, pow_succ]
      ring
  rw [Str.digitsValue, List.foldl_append, hfold]
  rfl

theorem digitsValue_lt {s : Str} (h : ∀ c ∈ s, Str.isDigit c = true) :
    Str.digitsValue s < 10 ^ s.length := by
  induction s using List.reverseRecOn with
  | nil => decide
  | append_singleton s c ih =>
    have hc := h c (List.mem_append_right _ (List.mem_singleton_self c))
    rw [Str.isDigit, decide_eq_true_eq] at hc
    have hs := ih fun d hd => h d (List.mem_append_left _ hd)
    rw [digitsValue_append, List.length_append, List.length_singleton, pow_succ]
    have hone : Str.digitsValue [c] = c.toNat - 48 := by simp [Str.digitsValue]
    rw [hone]
    omega

/-! ### What `parseInt` makes of a literal -/

/-- `parseInt` reads the digits after the sign. -/
theorem parseInt_eq (s : Str) :
    parseInt s =
      if ((signOf (s.dropWhile isWhiteSpace)).2.takeWhile Str.isDigit) = [] then none
      else some (if (signOf (s.dropWhile isWhiteSpace)).1 then
          -(Str.digitsValue ((signOf (s.dropWhile isWhiteSpace)).2.takeWhile Str.isDigit) : Int)
        else Str.digitsValue ((signOf (s.dropWhile isWhiteSpace)).2.takeWhile Str.isDigit)) := by
  simp [parseInt, signOf]

/-- What white space follows a text changes nothing. -/
theorem takeWhile_append_space {s space : Str} (h : ∀ c ∈ space, isWhiteSpace c = true) :
    (s ++ space).takeWhile Str.isDigit = s.takeWhile Str.isDigit := by
  induction s with
  | nil =>
    cases space with
    | nil => rfl
    | cons c space =>
      have hc : ¬ Str.isDigit c = true := fun hd => by
        have := Client.isWhiteSpace_of_isDigit hd
        rw [h c List.mem_cons_self] at this
        exact Bool.noConfusion this
      rw [List.nil_append, List.takeWhile_cons, if_neg hc, List.takeWhile_nil]
  | cons c s ih =>
    rw [List.cons_append, List.takeWhile_cons, List.takeWhile_cons, ih]

theorem signOf_cons (c : UInt16) (s : Str) :
    signOf (c :: s) = (decide (c = dash), if c = dash ∨ c = unit '+' then s else c :: s) := by
  simp [signOf]

theorem signOf_append {s : Str} (hs : s ≠ []) (t : Str) :
    signOf (s ++ t) = ((signOf s).1, (signOf s).2 ++ t) := by
  obtain ⟨c, s, rfl⟩ := List.exists_cons_of_ne_nil hs
  rw [List.cons_append, signOf_cons, signOf_cons]
  split_ifs <;> rfl

/-- `parseInt` sees the trimmed text. -/
theorem parseInt_trim {s : Str} (hs : trim s ≠ []) :
    parseInt s =
      if ((signOf (trim s)).2.takeWhile Str.isDigit) = [] then none
      else some (if (signOf (trim s)).1 then
          -(Str.digitsValue ((signOf (trim s)).2.takeWhile Str.isDigit) : Int)
        else Str.digitsValue ((signOf (trim s)).2.takeWhile Str.isDigit)) := by
  have hsplit : s.dropWhile isWhiteSpace =
      trim s ++ (s.dropWhile isWhiteSpace).rtakeWhile isWhiteSpace :=
    (List.rdropWhile_append_rtakeWhile ..).symm
  have hspace : ∀ c ∈ (s.dropWhile isWhiteSpace).rtakeWhile isWhiteSpace,
      isWhiteSpace c = true := fun c hc => List.mem_rtakeWhile_imp hc
  rw [parseInt_eq, hsplit, signOf_append hs, takeWhile_append_space hspace]

theorem mem_readRadix {s : Str} {l : Literal} (h : readRadix s = some l) :
    ∃ letter rest base, s = unit '0' :: letter :: rest ∧ baseOf letter = some base ∧
      l = .radix base rest := by
  unfold readRadix at h
  split at h
  · next zero letter digits =>
    split_ifs at h with hzero
    obtain ⟨base, hbase, h⟩ := Option.bind_eq_some_iff.mp h
    split_ifs at h
    exact ⟨letter, digits, base, by rw [hzero], hbase, (Option.some.inj h).symm⟩
  · exact absurd h (Option.some_ne_none _).symm

theorem mem_readDecimal {negative : Bool} {s : Str} {l : Literal}
    (h : readDecimal negative s = some l) :
    ∃ fraction exponent, l = .decimal negative (s.takeWhile Str.isDigit) fraction exponent ∧
      ∀ c ∈ fraction, Str.isDigit c = true := by
  unfold readDecimal at h
  dsimp only at h
  split_ifs at h with hpoint hnone hnone
  · obtain ⟨exponent, -, rfl⟩ := Option.map_eq_some_iff.mp h
    exact ⟨_, exponent, rfl, fun c hc => List.mem_takeWhile_imp hc⟩
  · obtain ⟨exponent, -, rfl⟩ := Option.map_eq_some_iff.mp h
    exact ⟨_, exponent, rfl, fun c hc => absurd hc List.not_mem_nil⟩

theorem ne_nil_of_readLiteral {s : Str} {l : Literal} (h : readLiteral s = some l) : s ≠ [] := by
  rintro rfl
  revert h
  decide +revert

/-- What a text is read as, by its parts. -/
theorem readLiteral_cases {s : Str} {l : Literal} (h : readLiteral s = some l) :
    (∃ letter rest base, s = unit '0' :: letter :: rest ∧ baseOf letter = some base ∧
      l = .radix base rest) ∨
    l = .infinity (signOf s).1 ∨
    ∃ fraction exponent,
      l = .decimal (signOf s).1 ((signOf s).2.takeWhile Str.isDigit) fraction exponent ∧
        ∀ c ∈ fraction, Str.isDigit c = true := by
  unfold readLiteral at h
  cases hradix : readRadix s with
  | some r =>
    rw [hradix] at h
    exact Or.inl (Option.some.inj h ▸ mem_readRadix hradix)
  | none =>
    rw [hradix] at h
    dsimp only at h
    split_ifs at h
    · exact Or.inr (Or.inl (Option.some.inj h).symm)
    · exact Or.inr (Or.inr (mem_readDecimal h))

theorem parseInt_decimal {s whole fraction : Str} {negative : Bool} {exponent : Int}
    (h : readLiteral (trim s) = some (.decimal negative whole fraction exponent)) :
    parseInt s = (if whole = [] then none
      else some (if negative then -(Str.digitsValue whole : Int) else Str.digitsValue whole)) ∧
        (∀ c ∈ whole, Str.isDigit c = true) ∧ ∀ c ∈ fraction, Str.isDigit c = true := by
  rw [parseInt_trim (ne_nil_of_readLiteral h)]
  rcases readLiteral_cases h with ⟨_, _, _, _, _, hl⟩ | hl | ⟨fraction', exponent', hl, hfraction⟩
  · cases hl
  · cases hl
  · cases hl
    exact ⟨rfl, fun c hc => List.mem_takeWhile_imp hc, hfraction⟩

theorem parseInt_radix {s digits : Str} {base : Nat}
    (h : readLiteral (trim s) = some (.radix base digits)) : parseInt s = some 0 := by
  rw [parseInt_trim (ne_nil_of_readLiteral h)]
  rcases readLiteral_cases h with ⟨letter, rest, base', hs, hbase, -⟩ | hl | ⟨_, _, hl, -⟩
  · have hletter : ¬ Str.isDigit letter = true := by
      intro hd
      unfold baseOf at hbase
      split_ifs at hbase with hx ho hb
      · rcases hx with rfl | rfl <;> exact absurd hd (by decide)
      · rcases ho with rfl | rfl <;> exact absurd hd (by decide)
      · rcases hb with rfl | rfl <;> exact absurd hd (by decide)
    have hsign : signOf (unit '0' :: letter :: rest) = (false, unit '0' :: letter :: rest) := by
      rw [signOf_cons, if_neg (by decide)]
      rfl
    have hdigits : (unit '0' :: letter :: rest).takeWhile Str.isDigit = [unit '0'] := by
      rw [List.takeWhile_cons, if_pos (by decide), List.takeWhile_cons, if_neg hletter]
    rw [hs, hsign]
    simp only [hdigits]
    decide
  · cases hl
  · cases hl

/-! ### Rounding an id -/

theorem roundAbs_natCast {n : Nat} (h : n < 2 ^ 53) : Binary64.roundAbs n = n :=
  Binary64.roundAbs_of_dyadic (n := n) (j := 0) (by simp) h (by decide)

theorem roundAbs_half {n : Nat} (hn : 1 ≤ n) (h : n < 2 ^ 52) :
    Binary64.roundAbs (n - 1 / 2) = n - 1 / 2 := by
  refine Binary64.roundAbs_of_dyadic (n := 2 * n - 1) (j := -1) ?_ (by omega) (by decide)
  rw [Nat.cast_sub (by omega), zpow_neg_one]
  push_cast
  ring

/-- A number that reads as an id other than 0 is above 0, and is rounded to the id. -/
theorem roundAbs_of_uint {q : ℚ} {max : Nat} (h : (Binary64.round q).uint max ≠ 0) :
    0 < q ∧ Binary64.round q = .finite (Binary64.roundAbs q) ∧
      Binary64.roundAbs q = (Binary64.round q).uint max ∧ (Binary64.round q).uint max ≤ max := by
  have hr : 0 ≤ Binary64.roundAbs |q| := by
    have := Binary64.roundAbs_mono le_rfl (abs_nonneg q)
    rwa [Binary64.roundAbs_zero] at this
  unfold Binary64.round at h ⊢
  dsimp only at h ⊢
  split_ifs at h ⊢ with hinf hneg
  · exact absurd rfl h
  · -- what is below 0 is rounded to 0 at the most
    unfold Binary64.Double.uint at h
    dsimp only at h
    split_ifs at h with hint
    · have hzero : -Binary64.roundAbs |q| = 0 := le_antisymm (neg_nonpos.mpr hr) hint.2.1
      rw [hzero] at h
      exact absurd rfl h
    · exact absurd rfl h
  · have hq : 0 ≤ q := not_lt.mp hneg
    rw [abs_of_nonneg hq] at h ⊢
    unfold Binary64.Double.uint at h ⊢
    dsimp only at h ⊢
    split_ifs at h ⊢ with hint
    · have hvalue : ((Binary64.roundAbs q).num.toNat : ℚ) = Binary64.roundAbs q := by
        have hnum : ((Binary64.roundAbs q).num : ℚ) = Binary64.roundAbs q :=
          Rat.den_eq_one_iff _ |>.mp hint.1
        have hnonneg : 0 ≤ (Binary64.roundAbs q).num := Rat.num_nonneg.mpr hint.2.1
        conv_rhs => rw [← hnum, ← Int.toNat_of_nonneg hnonneg]
        rfl
      refine ⟨lt_of_le_of_ne hq ?_, rfl, hvalue.symm, ?_⟩
      · rintro rfl
        rw [Binary64.roundAbs_zero] at h
        exact h rfl
      · exact_mod_cast hvalue.trans_le hint.2.2
    · exact absurd rfl h

/-- A decimal literal is its whole part and a part of one, moved by the exponent. -/
theorem decimalSize_eq {whole fraction : Str} (hf : ∀ c ∈ fraction, Str.isDigit c = true)
    (exponent : Int) :
    ∃ part : ℚ, 0 ≤ part ∧ part < 1 ∧
      decimalSize whole fraction exponent = (Str.digitsValue whole + part) * 10 ^ exponent := by
  have hpow : (0 : ℚ) < 10 ^ fraction.length := by positivity
  have hlt : (Str.digitsValue fraction : ℚ) < 10 ^ fraction.length := by
    exact_mod_cast digitsValue_lt hf
  refine ⟨Str.digitsValue fraction / 10 ^ fraction.length, by positivity, ?_, ?_⟩
  · rwa [div_lt_one hpow]
  · rw [decimalSize, digitsValue_append, zpow_sub₀ (by norm_num), zpow_natCast]
    push_cast
    field_simp

/-! ### Where the two agree -/

theorem literal_of_uint {s : Str} {max : Nat} (h : uintOf (some s) max ≠ 0) :
    ∃ l, readLiteral (trim s) = some l ∧ uintOf (some s) max = l.value.uint max := by
  have hzero : (Double.finite 0).uint max = 0 := by simp [Double.uint]
  cases s with
  | nil => exact absurd hzero h
  | cons c s =>
    rw [uintOf, numOf, numberOf] at h ⊢
    by_cases htrim : trim (c :: s) = []
    · rw [if_pos htrim] at h
      exact absurd hzero h
    rw [if_neg htrim] at h ⊢
    cases hl : readLiteral (trim (c :: s)) with
    | none =>
      rw [hl] at h
      exact absurd hzero h
    | some l => exact ⟨l, rfl, rfl⟩

theorem parseUint16_of_parseInt {s : Str} {n : Nat} (h : parseInt s = some (n : Int)) :
    parseUint16 s = if n ≤ u16 then n else 0 := by
  rw [parseUint16, h, u16]
  dsimp only
  split_ifs <;> omega

/-- The part after the point takes the number up to the next one when it is rounded. -/
def RoundsUp (whole fraction : Str) : Prop :=
  Binary64.round (decimalSize whole fraction 0) = .finite (Str.digitsValue whole + 1)

/-- A decimal literal without a minus, with digits before the point, with no exponent but 0, and
that is not rounded up. -/
def PlainNumber (s : Str) : Prop :=
  ∃ whole fraction, readLiteral (trim s) = some (.decimal false whole fraction 0) ∧ whole ≠ [] ∧
    ¬ RoundsUp whole fraction

/-- With no exponent a number is rounded to its whole part, or to the next. -/
theorem roundAbs_whole {d n : Nat} {part : ℚ} (hpart : 0 ≤ part) (hone : part < 1)
    (hn : n ≤ u16) (h : Binary64.roundAbs (d + part) = n) : d ≤ u16 ∧ (n = d ∨ n = d + 1) := by
  rw [u16] at *
  have hd : d ≤ 0xffff := by
    by_contra hlarge
    have hwhole : ((0x10000 : Nat) : ℚ) ≤ d := by exact_mod_cast (by omega : 0x10000 ≤ d)
    have hmono := Binary64.roundAbs_mono (a := ((0x10000 : Nat) : ℚ)) (b := d + part)
      (by positivity) (by linarith)
    rw [roundAbs_natCast (by norm_num), h] at hmono
    have : (0x10000 : Nat) ≤ n := by exact_mod_cast hmono
    omega
  have hlow := Binary64.roundAbs_mono (a := (d : ℚ)) (b := d + part) (by positivity) (by linarith)
  have hhigh := Binary64.roundAbs_mono (a := d + part) (b := ((d + 1 : Nat) : ℚ)) (by positivity)
    (by push_cast; linarith)
  rw [roundAbs_natCast (by omega), h] at hlow
  rw [roundAbs_natCast (by omega), h] at hhigh
  have hlow : d ≤ n := by exact_mod_cast hlow
  have hhigh : n ≤ d + 1 := by exact_mod_cast hhigh
  omega

/-- An exponent other than 0 moves a number away from its whole part. -/
theorem roundAbs_ne_of_exponent {d : Nat} {part : ℚ} {exponent : Int} (hd : 1 ≤ d) (hmax : d ≤ u16)
    (hpart : 0 ≤ part) (hone : part < 1) (he : exponent ≠ 0) :
    Binary64.roundAbs ((d + part) * 10 ^ exponent) ≠ d := by
  rw [u16] at hmax
  have hdq : (1 : ℚ) ≤ d := by exact_mod_cast hd
  intro h
  rcases lt_or_gt_of_ne he with hneg | hpos
  · -- it is a tenth at the most, and that is half a unit below
    have hpow : (10 : ℚ) ^ exponent ≤ 10 ^ (-1 : ℤ) :=
      zpow_le_zpow_right₀ (by norm_num) (by omega)
    have hle : (d + part) * 10 ^ exponent ≤ d - 1 / 2 := by
      rw [zpow_neg_one] at hpow
      have := mul_le_mul_of_nonneg_left hpow (by linarith : (0 : ℚ) ≤ d + part)
      linarith
    have hmono := Binary64.roundAbs_mono (by positivity) hle
    rw [h, roundAbs_half hd (by omega)] at hmono
    linarith
  · have hpow : (10 : ℚ) ^ (1 : ℤ) ≤ 10 ^ exponent :=
      zpow_le_zpow_right₀ (by norm_num) (by omega)
    have hle : ((d + 1 : Nat) : ℚ) ≤ (d + part) * 10 ^ exponent := by
      rw [zpow_one] at hpow
      have := mul_le_mul_of_nonneg_left hpow (by linarith : (0 : ℚ) ≤ d + part)
      push_cast
      linarith
    have hmono := Binary64.roundAbs_mono (by positivity) hle
    rw [roundAbs_natCast (by omega), h] at hmono
    push_cast at hmono
    linarith

/-- **Two ways to read an id.**  Of a text that `uint` reads as an id, `parseUint16` reads the same
exactly if it is a plain number. -/
theorem uintOf_eq_iff {s : Str} (h : uintOf (some s) u16 ≠ 0) :
    parseUint16 s = uintOf (some s) u16 ↔ PlainNumber s := by
  obtain ⟨l, hl, hvalue⟩ := literal_of_uint h
  cases l with
  | infinity negative => exact absurd hvalue h
  | radix base digits =>
    have hparse : parseUint16 s = 0 := parseUint16_of_parseInt (n := 0) (parseInt_radix hl)
    rw [hparse]
    refine iff_of_false h.symm ?_
    rintro ⟨whole, fraction, hl', -⟩
    cases hl.symm.trans hl'
  | decimal negative whole fraction exponent =>
    obtain ⟨hparse, hwhole, hfraction⟩ := parseInt_decimal hl
    obtain ⟨part, hpart, hone, hsize⟩ := @decimalSize_eq whole fraction hfraction exponent
    have hplain : PlainNumber s ↔
        negative = false ∧ exponent = 0 ∧ whole ≠ [] ∧ ¬ RoundsUp whole fraction := by
      constructor
      · rintro ⟨whole', fraction', hl', hne, hup⟩
        cases hl.symm.trans hl'
        exact ⟨rfl, rfl, hne, hup⟩
      · rintro ⟨rfl, rfl, hne, hup⟩
        exact ⟨whole, fraction, hl, hne, hup⟩
    rw [hplain]
    rw [hvalue, Literal.value] at h ⊢
    obtain ⟨hpos, hround, heq, hmax⟩ := roundAbs_of_uint h
    cases negative with
    | true =>
      rw [if_pos rfl, hsize] at hpos
      have : (0 : ℚ) ≤ (Str.digitsValue whole + part) * 10 ^ exponent := by positivity
      linarith
    | false =>
      rw [if_neg Bool.false_ne_true] at *
      generalize hn : (Binary64.round (decimalSize whole fraction exponent)).uint u16 = n at *
      by_cases hnil : whole = []
      · rw [if_pos hnil] at hparse
        rw [parseUint16, hparse]
        exact iff_of_false h.symm fun hand => hand.2.2.1 hnil
      rw [if_neg hnil] at hparse
      rw [parseUint16_of_parseInt hparse]
      by_cases he : exponent = 0
      · subst he
        rw [zpow_zero, mul_one] at hsize
        obtain ⟨hd, hn⟩ := roundAbs_whole hpart hone hmax (hsize ▸ heq)
        have hup : RoundsUp whole fraction ↔ n = Str.digitsValue whole + 1 := by
          rw [RoundsUp, hround, heq, Double.finite.injEq]
          exact_mod_cast Iff.rfl
        rw [if_pos hd, hup]
        simp only [hnil, ne_eq, not_false_eq_true, true_and]
        omega
      · refine iff_of_false (fun hsame => ?_) fun hand => he hand.2.1
        split_ifs at hsame with hd
        · rw [← hsame, hsize] at heq
          exact roundAbs_ne_of_exponent (by omega) hd hpart hone he heq
        · exact h hsame.symm

end Teamspeak
