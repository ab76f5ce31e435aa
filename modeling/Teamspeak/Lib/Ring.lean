import Mathlib.Logic.Function.Basic

/-!
# A ring of buckets

A function on the integers whose newest `n` values are kept in `n` buckets, each moment in the
bucket of its residue.

* `slot_inj`: no two of `n` moments in a row share a bucket.
* `Holds.write`: what is written for a moment of the ring is read there, and nowhere else.
* `Holds.advance`: newer moments take over the buckets of those that leave.
-/

namespace Teamspeak.Ring

variable {α : Type*} {n : Nat} {buckets buckets' : Nat → α} {newest newest' : Int} {f : Int → α}

/-- The bucket of a moment. -/
def slot (n : Nat) (k : Int) : Nat := (k % n).toNat

/-- The buckets hold the newest `n` values of `f`. -/
def Holds (n : Nat) (buckets : Nat → α) (newest : Int) (f : Int → α) : Prop :=
  ∀ k, newest - n < k → k ≤ newest → buckets (slot n k) = f k

theorem slot_inj (newest : Int) {j k : Int} (hj : newest - n < j) (hj' : j ≤ newest)
    (hk : newest - n < k) (hk' : k ≤ newest) (h : slot n j = slot n k) : j = k := by
  have hn : (n : Int) ≠ 0 := by omega
  have hmod : j % n = k % n := by
    have hnonneg := Int.emod_nonneg j hn
    have hnonneg' := Int.emod_nonneg k hn
    rw [slot, slot] at h
    omega
  have hdvd : (n : Int) ∣ j - k :=
    Int.dvd_of_emod_eq_zero (Int.emod_eq_emod_iff_emod_sub_eq_zero.mp hmod)
  have hsmall : (j - k).natAbs < (n : Int).natAbs := by omega
  have hzero := Int.eq_zero_of_dvd_of_natAbs_lt_natAbs hdvd hsmall
  omega

/-- The bucket `i` moments after a natural number. -/
theorem slot_natCast (n m : Nat) : slot n m = m % n := by
  rw [slot, ← Int.natCast_emod, Int.toNat_natCast]

theorem Holds.write (h : Holds n buckets newest f) {k : Int} (hk : newest - n < k)
    (hk' : k ≤ newest) (a : α) :
    Holds n (Function.update buckets (slot n k) a) newest (Function.update f k a) := by
  intro j hj hj'
  by_cases hjk : j = k
  · rw [hjk, Function.update_self, Function.update_self]
  · rw [Function.update_of_ne hjk, Function.update_of_ne, h j hj hj']
    exact fun hslot => hjk (slot_inj newest hj hj' hk hk' hslot)

theorem Holds.advance (h : Holds n buckets newest f) (hle : newest ≤ newest')
    (hkept : ∀ k, newest' - n < k → k ≤ newest → buckets' (slot n k) = buckets (slot n k))
    (hnew : ∀ k, newest' - n < k → newest < k → k ≤ newest' → buckets' (slot n k) = f k) :
    Holds n buckets' newest' f := by
  intro k hk hk'
  by_cases hold : k ≤ newest
  · rw [hkept k hk hold]
    exact h k (by omega) hold
  · exact hnew k hk (by omega) hk'

end Teamspeak.Ring
