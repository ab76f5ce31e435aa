import Mathlib.Algebra.BigOperators.Group.List.Basic
import Mathlib.Algebra.GroupWithZero.Nat

/-!
# Spending a budget along a list

`within size limit used xs` is the longest beginning of `xs` whose sizes, after what is
`used` already, stay within `limit`.

* `within_prefix`, `used_add_within_le`: it is a beginning, and stays within.
* `within_eq_self_iff`: it is all of the list just when all of it fits.
* `limit_lt_of_within`: what comes after it would not fit.
-/

namespace Teamspeak

variable {α : Type*} (size : α → Nat) (limit : Nat)

def within (used : Nat) : List α → List α
  | [] => []
  | x :: xs => if used + size x > limit then [] else x :: within (used + size x) xs

variable {size limit} {used : Nat} {xs : List α}

theorem within_prefix : within size limit used xs <+: xs := by
  induction xs generalizing used with
  | nil => exact List.prefix_rfl
  | cons x xs ih =>
    rw [within]
    split
    · exact List.nil_prefix
    · exact List.prefix_cons_inj x |>.mpr ih

theorem length_within_le : (within size limit used xs).length ≤ xs.length :=
  within_prefix.length_le

theorem getElem?_of_within {i : Nat} {x : α} (h : (within size limit used xs)[i]? = some x) :
    xs[i]? = some x := by
  obtain ⟨rest, hrest⟩ : within size limit used xs <+: xs := within_prefix
  rw [← hrest, List.getElem?_append_left (List.getElem?_eq_some_iff.mp h).1, h]

theorem take_length_within : xs.take (within size limit used xs).length =
    within size limit used xs :=
  (List.prefix_iff_eq_take.mp within_prefix).symm

theorem used_add_within_le (h : used ≤ limit) :
    used + ((within size limit used xs).map size).sum ≤ limit := by
  induction xs generalizing used with
  | nil => exact h
  | cons x xs ih =>
    rw [within]
    split
    · exact h
    · rename_i hfits
      have := ih (Nat.not_lt.mp hfits)
      rw [List.map_cons, List.sum_cons]
      omega

theorem within_eq_self_of_le (h : used + (xs.map size).sum ≤ limit) :
    within size limit used xs = xs := by
  induction xs generalizing used with
  | nil => rfl
  | cons x xs ih =>
    rw [List.map_cons, List.sum_cons] at h
    rw [within, if_neg (by omega), ih (by omega)]

/-- **A list fits just when all of it is kept.** -/
theorem within_eq_self_iff (h : used ≤ limit) :
    within size limit used xs = xs ↔ used + (xs.map size).sum ≤ limit := by
  refine ⟨fun hall => ?_, within_eq_self_of_le⟩
  have : used + ((within size limit used xs).map size).sum ≤ limit := used_add_within_le h
  rwa [hall] at this

/-- What follows the part that is kept does not fit after it. -/
theorem limit_lt_of_within {x : α} (hx : xs[(within size limit used xs).length]? = some x) :
    limit < used + ((within size limit used xs).map size).sum + size x := by
  induction xs generalizing used with
  | nil => cases hx
  | cons y xs ih =>
    rw [within] at hx ⊢
    split at hx
    · rename_i hfull
      obtain rfl := Option.some.inj hx
      rw [if_pos hfull]
      exact hfull
    · rename_i hfits
      rw [if_neg hfits, List.map_cons, List.sum_cons]
      rw [List.length_cons, List.getElem?_cons_succ] at hx
      have := ih hx
      omega

end Teamspeak
