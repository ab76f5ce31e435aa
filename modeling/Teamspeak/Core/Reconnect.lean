import Mathlib.Algebra.Order.Archimedean.Basic
import Mathlib.Data.Rat.Floor
import Mathlib.Tactic.FieldSimp
import Mathlib.Tactic.Linarith
import Mathlib.Tactic.NormNum
import Mathlib.Tactic.Positivity

/-!
# How long to wait before reconnecting

`reconnect.ts`, in exact arithmetic: the policy that options ask for, and the delay before an
attempt, a whole number of milliseconds.

* `resolveBackoffPolicy_sound`: what is true of a policy that is accepted.
* `backoff_iff`: its delays are above 0 and at most its maximum just when no delay of its own is
  below half a millisecond and none is rounded up past the maximum.
-/

namespace Teamspeak

/-- A number a caller gave: a finite one, or a `NaN`, an infinity or no number at all. -/
inductive Setting
  | finite (value : ℚ)
  | other
  deriving DecidableEq

/-- `options.backoff`; a field left out and one that is `undefined` are the same. -/
structure BackoffOptions where
  initialDelayMs : Option Setting := none
  maxDelayMs : Option Setting := none
  factor : Option Setting := none
  jitter : Option Setting := none
  maxAttempts : Option Setting := none

structure BackoffPolicy where
  initialDelayMs : ℚ
  maxDelayMs : ℚ
  factor : ℚ
  jitter : ℚ
  maxAttempts : ℚ
  deriving DecidableEq

def defaultBackoffPolicy : BackoffPolicy where
  initialDelayMs := 1000
  maxDelayMs := 60000
  factor := 2
  jitter := 1 / 5
  maxAttempts := 0

inductive BackoffField
  | initialDelayMs
  | maxDelayMs
  | factor
  | jitter
  | maxAttempts
  deriving DecidableEq, Repr

/-- What the `RangeError` says is expected of a field. -/
def BackoffField.expected : BackoffField → String
  | .initialDelayMs | .maxDelayMs => "a number of milliseconds above 0"
  | .factor => "a number from 1 up"
  | .jitter => "a number up to 1"
  | .maxAttempts => "a whole number, 0 or more"

/-- The test of a field. -/
def BackoffField.ok : BackoffField → ℚ → Bool
  | .initialDelayMs, v | .maxDelayMs, v => 0 < v
  | .factor, v => 1 ≤ v
  | .jitter, v => v ≤ 1
  | .maxAttempts, v => v.den = 1 ∧ 0 ≤ v

/-- Why options are refused. -/
inductive BackoffError
  | field (name : BackoffField) (expected : String)
  | belowInitial (maxDelayMs initialDelayMs : ℚ)
  deriving DecidableEq

/-- A field of the policy: the caller's value, or else the default, if it can work. -/
def requireNumber (name : BackoffField) (default : ℚ) (given : Option Setting) :
    Except BackoffError ℚ :=
  match given.getD (.finite default) with
  | .finite value => if name.ok value then .ok value else .error (.field name name.expected)
  | .other => .error (.field name name.expected)

def resolveBackoffPolicy (options : BackoffOptions) : Except BackoffError BackoffPolicy := do
  let initialDelayMs ← requireNumber .initialDelayMs defaultBackoffPolicy.initialDelayMs
    options.initialDelayMs
  let maxDelayMs ← requireNumber .maxDelayMs defaultBackoffPolicy.maxDelayMs options.maxDelayMs
  let factor ← requireNumber .factor defaultBackoffPolicy.factor options.factor
  let jitter ← requireNumber .jitter defaultBackoffPolicy.jitter options.jitter
  let maxAttempts ← requireNumber .maxAttempts defaultBackoffPolicy.maxAttempts options.maxAttempts
  if maxDelayMs < initialDelayMs then
    if options.maxDelayMs.isSome then .error (.belowInitial maxDelayMs initialDelayMs)
    else .ok { initialDelayMs, maxDelayMs := initialDelayMs, factor, jitter, maxAttempts }
  else .ok { initialDelayMs, maxDelayMs, factor, jitter, maxAttempts }

/-- `Math.round`. -/
def mathRound (x : ℚ) : Int := ⌊x + 1 / 2⌋

namespace BackoffPolicy

/-- The delay before the jitter: grown, and cut at the maximum. -/
def capped (policy : BackoffPolicy) (attempt : Nat) : ℚ :=
  min (policy.initialDelayMs * policy.factor ^ (attempt - 1)) policy.maxDelayMs

/-- The delay before an attempt, `random` being what the source of jitter gives. -/
def jitteredDelay (policy : BackoffPolicy) (attempt : Nat) (random : ℚ) : Int :=
  let capped := policy.capped attempt
  if policy.jitter ≤ 0 then mathRound capped
  else
    let spread := capped * min policy.jitter 1
    let delay := capped + (random * 2 - 1) * spread
    mathRound (max 0 (min delay policy.maxDelayMs))

end BackoffPolicy

/-! ### Rounding -/

theorem mathRound_pos {x : ℚ} : 0 < mathRound x ↔ 1 / 2 ≤ x := by
  rw [mathRound, Int.floor_pos]
  constructor <;> intro h <;> linarith

theorem mathRound_mono {x y : ℚ} (h : x ≤ y) : mathRound x ≤ mathRound y :=
  Int.floor_le_floor (by linarith)

/-- A number is rounded up past one that is no smaller just when only a fraction is in between. -/
theorem mathRound_le_iff {x m : ℚ} (h : x ≤ m) :
    (mathRound x : ℚ) ≤ m ↔ Int.fract m < 1 / 2 ∨ x < ⌊m⌋ + 1 / 2 := by
  have hsplit := Int.floor_add_fract m
  rw [← Int.le_floor, mathRound, ← Int.lt_add_one_iff, Int.floor_lt]
  push_cast
  constructor
  · intro hlt
    refine Or.inr ?_
    linarith
  · rintro (hfract | hlt)
    · linarith
    · linarith

/-! ### Policies that are accepted -/

/-- What `resolveBackoffPolicy` promises. -/
structure BackoffPolicy.Accepted (policy : BackoffPolicy) : Prop where
  initial_pos : 0 < policy.initialDelayMs
  initial_le : policy.initialDelayMs ≤ policy.maxDelayMs
  one_le_factor : 1 ≤ policy.factor
  jitter_le_one : policy.jitter ≤ 1

theorem ok_of_requireNumber {name : BackoffField} {default value : ℚ} {given : Option Setting}
    (h : requireNumber name default given = .ok value) : name.ok value = true := by
  rw [requireNumber] at h
  split at h
  · split at h
    · rename_i hok
      cases h
      exact hok
    · cases h
  · cases h

theorem bind_eq_ok {ε α β : Type} {x : Except ε α} {f : α → Except ε β} {b : β}
    (h : (x >>= f) = .ok b) : ∃ a, x = .ok a ∧ f a = .ok b := by
  cases x with
  | error e => cases h
  | ok a => exact ⟨a, rfl, h⟩

theorem resolveBackoffPolicy_sound {options : BackoffOptions} {policy : BackoffPolicy}
    (h : resolveBackoffPolicy options = .ok policy) : policy.Accepted := by
  rw [resolveBackoffPolicy] at h
  obtain ⟨initialDelayMs, hinitial, h⟩ := bind_eq_ok h
  obtain ⟨maxDelayMs, hmax, h⟩ := bind_eq_ok h
  obtain ⟨factor, hfactor, h⟩ := bind_eq_ok h
  obtain ⟨jitter, hjitter, h⟩ := bind_eq_ok h
  obtain ⟨maxAttempts, -, h⟩ := bind_eq_ok h
  have hinitial : 0 < initialDelayMs := of_decide_eq_true (ok_of_requireNumber hinitial)
  have hfactor : 1 ≤ factor := of_decide_eq_true (ok_of_requireNumber hfactor)
  have hjitter : jitter ≤ 1 := of_decide_eq_true (ok_of_requireNumber hjitter)
  split at h
  · split at h
    · cases h
    · cases h
      exact ⟨hinitial, le_rfl, hfactor, hjitter⟩
  · rename_i hle
    cases h
    exact ⟨hinitial, le_of_not_gt hle, hfactor, hjitter⟩

/-! ### The delay -/

namespace BackoffPolicy

variable {policy : BackoffPolicy}

/-- The delay before it is rounded. -/
def wanted (policy : BackoffPolicy) (attempt : Nat) (random : ℚ) : ℚ :=
  if policy.jitter ≤ 0 then policy.capped attempt
  else min (policy.capped attempt * (1 + (random * 2 - 1) * policy.jitter)) policy.maxDelayMs

theorem Accepted.initial_le_capped (h : policy.Accepted) (attempt : Nat) :
    policy.initialDelayMs ≤ policy.capped attempt :=
  le_min (le_mul_of_one_le_right (le_of_lt h.initial_pos) (one_le_pow₀ h.one_le_factor))
    h.initial_le

theorem Accepted.capped_pos (h : policy.Accepted) (attempt : Nat) : 0 < policy.capped attempt :=
  h.initial_pos.trans_le (h.initial_le_capped attempt)

theorem Accepted.capped_mono (h : policy.Accepted) {attempt attempt' : Nat}
    (hle : attempt ≤ attempt') : policy.capped attempt ≤ policy.capped attempt' :=
  min_le_min_right _ (mul_le_mul_of_nonneg_left
    (pow_le_pow_right₀ h.one_le_factor (Nat.sub_le_sub_right hle 1)) (le_of_lt h.initial_pos))

theorem capped_le (policy : BackoffPolicy) (attempt : Nat) :
    policy.capped attempt ≤ policy.maxDelayMs := min_le_right _ _

theorem wanted_le (policy : BackoffPolicy) (attempt : Nat) (random : ℚ) :
    policy.wanted attempt random ≤ policy.maxDelayMs := by
  rw [wanted]
  split
  · exact policy.capped_le attempt
  · exact min_le_right _ _

theorem Accepted.jitteredDelay_eq (h : policy.Accepted) (attempt : Nat) {random : ℚ}
    (hrandom : 0 ≤ random) :
    policy.jitteredDelay attempt random = mathRound (policy.wanted attempt random) := by
  rw [jitteredDelay, wanted]
  split
  · rfl
  · rename_i hjitter
    have hcapped := h.capped_pos attempt
    have hspread : policy.capped attempt + (random * 2 - 1) *
        (policy.capped attempt * min policy.jitter 1) =
          policy.capped attempt * (1 + (random * 2 - 1) * policy.jitter) := by
      rw [min_eq_left h.jitter_le_one]
      ring
    have hnonneg : 0 ≤ 1 + (random * 2 - 1) * policy.jitter := by
      have hone := h.jitter_le_one
      have hprod := mul_nonneg hrandom (le_of_lt (not_le.mp hjitter))
      linarith
    have hmax : 0 ≤ policy.maxDelayMs := le_of_lt (h.initial_pos.trans_le h.initial_le)
    dsimp only
    rw [hspread, max_eq_right (le_min (mul_nonneg (le_of_lt hcapped) hnonneg) hmax)]

/-! ### When the delays are what they are to be -/

/-- Every delay is above 0 and at most the maximum, and without jitter they grow until they
stay at the maximum, rounded as every delay is. -/
structure Works (policy : BackoffPolicy) : Prop where
  bounded : ∀ attempt, 1 ≤ attempt → ∀ random, 0 ≤ random → random < 1 →
    0 < policy.jitteredDelay attempt random ∧
      (policy.jitteredDelay attempt random : ℚ) ≤ policy.maxDelayMs
  grows : policy.jitter ≤ 0 → ∀ attempt attempt', 1 ≤ attempt → attempt ≤ attempt' →
    ∀ random random', 0 ≤ random → 0 ≤ random' →
      policy.jitteredDelay attempt random ≤ policy.jitteredDelay attempt' random' ∧
      (policy.jitteredDelay attempt random = mathRound policy.maxDelayMs →
        policy.jitteredDelay attempt' random' = mathRound policy.maxDelayMs)

/-- The smallest delay is half a millisecond at least, and none is rounded up past the
maximum: its fraction is below one half, or the delays stay below the half before it. -/
def FitsRounding (policy : BackoffPolicy) : Prop :=
  1 / 2 ≤ policy.initialDelayMs * (1 - max policy.jitter 0) ∧
    (Int.fract policy.maxDelayMs < 1 / 2 ∨
      policy.factor = 1 ∧
        if policy.jitter ≤ 0 then policy.initialDelayMs < ⌊policy.maxDelayMs⌋ + 1 / 2
        else policy.initialDelayMs * (1 + policy.jitter) ≤ ⌊policy.maxDelayMs⌋ + 1 / 2)

instance (policy : BackoffPolicy) : Decidable policy.FitsRounding :=
  inferInstanceAs (Decidable (_ ∧ _))

theorem Accepted.grows (h : policy.Accepted) (hjitter : policy.jitter ≤ 0) {attempt attempt' : Nat}
    (hle : attempt ≤ attempt') {random random' : ℚ} (hr : 0 ≤ random) (hr' : 0 ≤ random') :
    policy.jitteredDelay attempt random ≤ policy.jitteredDelay attempt' random' ∧
      (policy.jitteredDelay attempt random = mathRound policy.maxDelayMs →
        policy.jitteredDelay attempt' random' = mathRound policy.maxDelayMs) := by
  have hmono : policy.jitteredDelay attempt random ≤ policy.jitteredDelay attempt' random' := by
    rw [h.jitteredDelay_eq attempt hr, h.jitteredDelay_eq attempt' hr', wanted, wanted,
      if_pos hjitter, if_pos hjitter]
    exact mathRound_mono (h.capped_mono hle)
  refine ⟨hmono, fun heq => le_antisymm ?_ (heq ▸ hmono)⟩
  rw [h.jitteredDelay_eq attempt' hr']
  exact mathRound_mono (policy.wanted_le attempt' random')

/-- No delay is below the smallest, which is that of the first attempt. -/
theorem Accepted.half_le_wanted_iff (h : policy.Accepted) :
    (∀ attempt, 1 ≤ attempt → ∀ random, 0 ≤ random → random < 1 →
      1 / 2 ≤ policy.wanted attempt random) ↔
      1 / 2 ≤ policy.initialDelayMs * (1 - max policy.jitter 0) := by
  have hfirst : policy.capped 1 = policy.initialDelayMs := by
    rw [capped, Nat.sub_self, pow_zero, mul_one, min_eq_left h.initial_le]
  constructor
  · intro hall
    have hone := hall 1 le_rfl 0 le_rfl one_pos
    rw [wanted, hfirst] at hone
    split at hone
    · rename_i hjitter
      rw [max_eq_right hjitter, sub_zero, mul_one]
      exact hone
    · rename_i hjitter
      rw [max_eq_left (le_of_not_ge hjitter)]
      have := (le_min_iff.mp hone).1
      linarith
  · intro hhalf attempt _ random hrandom _
    have hcapped := h.initial_le_capped attempt
    rw [wanted]
    split
    · rename_i hjitter
      rw [max_eq_right hjitter, sub_zero, mul_one] at hhalf
      exact hhalf.trans hcapped
    · rename_i hjitter
      rw [max_eq_left (le_of_not_ge hjitter)] at hhalf
      have hpos := not_le.mp hjitter
      have hone := h.jitter_le_one
      have hleast : policy.initialDelayMs * (1 - policy.jitter) ≤
          policy.capped attempt * (1 + (random * 2 - 1) * policy.jitter) := by
        refine mul_le_mul hcapped ?_ (by linarith) (le_of_lt (h.capped_pos attempt))
        have := mul_nonneg hrandom (le_of_lt hpos)
        linarith
      refine le_min (hhalf.trans hleast) (hhalf.trans (le_trans ?_ h.initial_le))
      have := mul_pos h.initial_pos hpos
      linarith

/-- A delay that grows reaches the maximum. -/
theorem Accepted.exists_wanted_eq (h : policy.Accepted) (hfactor : policy.factor ≠ 1) :
    ∃ attempt, 1 ≤ attempt ∧ policy.wanted attempt (1 / 2) = policy.maxDelayMs := by
  have hgrows : 1 < policy.factor := lt_of_le_of_ne h.one_le_factor (Ne.symm hfactor)
  obtain ⟨n, hn⟩ := pow_unbounded_of_one_lt (policy.maxDelayMs / policy.initialDelayMs) hgrows
  have hcapped : policy.capped (n + 1) = policy.maxDelayMs := by
    refine min_eq_right ?_
    rw [Nat.add_sub_cancel, mul_comm]
    exact le_of_lt ((div_lt_iff₀ h.initial_pos).mp hn)
  refine ⟨n + 1, Nat.le_add_left 1 n, ?_⟩
  rw [wanted, hcapped]
  split
  · rfl
  · rw [div_mul_cancel₀ _ two_ne_zero, sub_self, zero_mul, add_zero, mul_one, min_self]

/-- A delay that does not grow comes as close as one likes to the first one with all of its
jitter added. -/
theorem Accepted.wanted_lt_iff_of_factor (h : policy.Accepted) (hfactor : policy.factor = 1)
    {limit : ℚ} (hlimit : limit ≤ policy.maxDelayMs) :
    (∀ attempt, 1 ≤ attempt → ∀ random, 0 ≤ random → random < 1 →
      policy.wanted attempt random < limit) ↔
      if policy.jitter ≤ 0 then policy.initialDelayMs < limit
      else policy.initialDelayMs * (1 + policy.jitter) ≤ limit := by
  have hcapped (attempt : Nat) : policy.capped attempt = policy.initialDelayMs := by
    rw [capped, hfactor, one_pow, mul_one, min_eq_left h.initial_le]
  have hpos := h.initial_pos
  by_cases hjitter : policy.jitter ≤ 0
  · rw [if_pos hjitter]
    constructor
    · intro hall
      have hone := hall 1 le_rfl 0 le_rfl one_pos
      rwa [wanted, if_pos hjitter, hcapped] at hone
    · intro hlt attempt _ random _ _
      rwa [wanted, if_pos hjitter, hcapped]
  · rw [if_neg hjitter]
    have hj := not_le.mp hjitter
    constructor
    · intro hall
      by_contra hover
      -- The random number that gives the limit, or the middle one if that is past it already.
      have hreach : ∃ random, 0 ≤ random ∧ random < 1 ∧
          limit ≤ policy.initialDelayMs * (1 + (random * 2 - 1) * policy.jitter) := by
        by_cases hsmall : limit ≤ policy.initialDelayMs
        · exact ⟨1 / 2, by norm_num, by norm_num, by linarith⟩
        have hgap : 0 < limit - policy.initialDelayMs := sub_pos.mpr (not_le.mp hsmall)
        have hshare : (limit - policy.initialDelayMs) /
            (policy.initialDelayMs * policy.jitter) < 1 := by
          rw [div_lt_one (mul_pos hpos hj)]
          linarith [not_le.mp hover]
        refine ⟨(1 + (limit - policy.initialDelayMs) / (policy.initialDelayMs * policy.jitter)) / 2,
          by positivity, by linarith, le_of_eq ?_⟩
        field_simp
        ring
      obtain ⟨random, hrandom, hrandom', hle⟩ := hreach
      have hlt := hall 1 le_rfl random hrandom hrandom'
      rw [wanted, if_neg hjitter, hcapped] at hlt
      exact absurd hlt (not_lt.mpr (le_min hle hlimit))
    · intro hle attempt _ random _ hrandom
      rw [wanted, if_neg hjitter, hcapped]
      refine (min_le_left _ _).trans_lt (lt_of_lt_of_le ?_ hle)
      refine mul_lt_mul_of_pos_left ?_ hpos
      have := mul_lt_mul_of_pos_right hrandom hj
      linarith

/-- Where the maximum itself would be rounded up, no delay comes to its half just when they do
not grow, and do not come to it by the jitter. -/
theorem Accepted.wanted_lt_iff (h : policy.Accepted)
    (hfract : ¬Int.fract policy.maxDelayMs < 1 / 2) :
    (∀ attempt, 1 ≤ attempt → ∀ random, 0 ≤ random → random < 1 →
      policy.wanted attempt random < ⌊policy.maxDelayMs⌋ + 1 / 2) ↔
      policy.factor = 1 ∧
        if policy.jitter ≤ 0 then policy.initialDelayMs < ⌊policy.maxDelayMs⌋ + 1 / 2
        else policy.initialDelayMs * (1 + policy.jitter) ≤ ⌊policy.maxDelayMs⌋ + 1 / 2 := by
  have hlimit : ⌊policy.maxDelayMs⌋ + 1 / 2 ≤ policy.maxDelayMs := by
    have := Int.floor_add_fract policy.maxDelayMs
    linarith [not_lt.mp hfract]
  by_cases hfactor : policy.factor = 1
  · rw [h.wanted_lt_iff_of_factor hfactor hlimit]
    exact ⟨fun hif => ⟨hfactor, hif⟩, And.right⟩
  · refine iff_of_false (fun hall => ?_) fun hboth => hfactor hboth.1
    obtain ⟨attempt, hone, heq⟩ := h.exists_wanted_eq hfactor
    exact absurd (heq ▸ hall attempt hone (1 / 2) (by norm_num) (by norm_num)) (not_lt.mpr hlimit)

/-- **The delays** of a policy that is accepted are above 0 and at most the maximum, for every
attempt and whatever the jitter, and grow without it until they stay at the maximum, just
when rounding takes none of them to 0 or past the maximum. -/
theorem backoff_iff {options : BackoffOptions} {policy : BackoffPolicy}
    (hoptions : resolveBackoffPolicy options = .ok policy) :
    policy.Works ↔ policy.FitsRounding := by
  have h := resolveBackoffPolicy_sound hoptions
  have hbounds : ∀ attempt random, 0 ≤ random →
      (0 < policy.jitteredDelay attempt random ∧
          (policy.jitteredDelay attempt random : ℚ) ≤ policy.maxDelayMs ↔
        1 / 2 ≤ policy.wanted attempt random ∧ (Int.fract policy.maxDelayMs < 1 / 2 ∨
          policy.wanted attempt random < ⌊policy.maxDelayMs⌋ + 1 / 2)) := by
    intro attempt random hr
    rw [h.jitteredDelay_eq attempt hr, mathRound_pos, mathRound_le_iff (policy.wanted_le _ _)]
  rw [FitsRounding, ← h.half_le_wanted_iff]
  constructor
  · intro hworks
    refine ⟨fun attempt hone random hr hr' =>
      ((hbounds attempt random hr).mp (hworks.bounded attempt hone random hr hr')).1, ?_⟩
    by_cases hfract : Int.fract policy.maxDelayMs < 1 / 2
    · exact Or.inl hfract
    refine Or.inr ((h.wanted_lt_iff hfract).mp fun attempt hone random hr hr' => ?_)
    exact ((hbounds attempt random hr).mp
      (hworks.bounded attempt hone random hr hr')).2.resolve_left hfract
  · rintro ⟨hhalf, hmax⟩
    refine ⟨fun attempt hone random hr hr' => (hbounds attempt random hr).mpr
      ⟨hhalf attempt hone random hr hr', ?_⟩,
      fun hjitter attempt attempt' _ hle random random' hr hr' => h.grows hjitter hle hr hr'⟩
    by_cases hfract : Int.fract policy.maxDelayMs < 1 / 2
    · exact Or.inl hfract
    exact Or.inr
      ((h.wanted_lt_iff hfract).mpr (hmax.resolve_left hfract) attempt hone random hr hr')

theorem backoff_default : defaultBackoffPolicy.Works :=
  (@backoff_iff {} defaultBackoffPolicy (by decide +kernel)).mpr (by decide +kernel)

/-- A delay of less than half a millisecond is none. -/
theorem backoff_none :
    ¬∀ options policy, resolveBackoffPolicy options = .ok policy → policy.Works := by
  intro h
  have hworks := h { initialDelayMs := some (.finite (2 / 5)), jitter := some (.finite 0) }
    { defaultBackoffPolicy with initialDelayMs := 2 / 5, jitter := 0 } (by decide +kernel)
  exact absurd (hworks.bounded 1 le_rfl 0 le_rfl one_pos).1 (by decide +kernel)

end BackoffPolicy

end Teamspeak
