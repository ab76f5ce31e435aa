import Mathlib.Order.Bounds.Basic
import Mathlib.Tactic.Ring

/-!
# Numbers seen through a modulus

A sender counts without end and sends only the count modulo `M`.  A receiver
that has got as far as `N` reads such an id as a distance: `ahead M N m` is how
far past `N` the next number written `m` lies, and `next M N m` is that number.

* `next_isLeast`: `next M N m` is the least number from `N` on written `m`.
* `ahead_mod`: a number less than `M` ahead is found again from its id.
* `behind_mod`: so is one less than `M` behind, on the other side.
* `carry_value`: a count kept as its remainder and the number of its wraps, which
  wraps in its turn, goes up by one.
-/

namespace Teamspeak.Cyclic

variable {M : Nat}

/-- How far past `N` the next number written `m` modulo `M` lies. -/
def ahead (M N m : Nat) : Nat := (m + (M - N % M)) % M

/-- The next number from `N` on written `m` modulo `M`. -/
def next (M N m : Nat) : Nat := N + ahead M N m

/-- How far before `N` the last number written `m` modulo `M` lies. -/
def behind (M N m : Nat) : Nat := (N % M + (M - m)) % M

theorem ahead_lt (hM : 0 < M) (N m : Nat) : ahead M N m < M := Nat.mod_lt _ hM

theorem ahead_eq {N m : Nat} (hm : m < M) :
    ahead M N m = if N % M ≤ m then m - N % M else m + M - N % M := by
  have hN : N % M < M := Nat.mod_lt _ (by omega)
  rw [ahead]
  by_cases h : N % M ≤ m
  · rw [if_pos h, show m + (M - N % M) = m - N % M + M by omega, Nat.add_mod_right,
      Nat.mod_eq_of_lt (by omega)]
  · rw [if_neg h, Nat.mod_eq_of_lt (by omega)]
    omega

theorem behind_eq {N m : Nat} (hm : m < M) :
    behind M N m = if m ≤ N % M then N % M - m else N % M + M - m := by
  have hN : N % M < M := Nat.mod_lt _ (by omega)
  rw [behind]
  by_cases h : m ≤ N % M
  · rw [if_pos h, show N % M + (M - m) = N % M - m + M by omega, Nat.add_mod_right,
      Nat.mod_eq_of_lt (by omega)]
  · rw [if_neg h, Nat.mod_eq_of_lt (by omega)]
    omega

/-- The quotient and the remainder of a number a known distance past `N`. -/
theorem add_div_mod {N k : Nat} (hM : 0 < M) (hk : k < M) :
    (N % M + k < M ∧ (N + k) % M = N % M + k ∧ (N + k) / M = N / M) ∨
      (M ≤ N % M + k ∧ (N + k) % M = N % M + k - M ∧ (N + k) / M = N / M + 1) := by
  have hsplit : M * (N / M) + N % M = N := Nat.div_add_mod N M
  have hN : N % M < M := Nat.mod_lt _ hM
  by_cases h : N % M + k < M
  · obtain ⟨hdiv, hmod⟩ := (Nat.div_mod_unique (a := N + k) (c := N % M + k) (d := N / M) hM).mpr
      ⟨by omega, h⟩
    exact Or.inl ⟨h, hmod, hdiv⟩
  · obtain ⟨hdiv, hmod⟩ :=
      (Nat.div_mod_unique (a := N + k) (c := N % M + k - M) (d := N / M + 1) hM).mpr
        ⟨by rw [Nat.mul_succ]; omega, by omega⟩
    exact Or.inr ⟨by omega, hmod, hdiv⟩

theorem next_mod {N m : Nat} (hm : m < M) : next M N m % M = m := by
  have hM : 0 < M := by omega
  have hlt := ahead_lt hM N m
  have he := ahead_eq (N := N) hm
  have hN : N % M < M := Nat.mod_lt _ hM
  rw [next]
  rcases add_div_mod (N := N) hM hlt with ⟨h, hmod, -⟩ | ⟨h, hmod, -⟩
  · rw [hmod]; split at he <;> omega
  · rw [hmod]; split at he <;> omega

/-- A number less than `M` ahead is found again from its id. -/
theorem ahead_mod {N A : Nat} (h₁ : N ≤ A) (h₂ : A < N + M) : ahead M N (A % M) = A - N := by
  have hM : 0 < M := by omega
  obtain ⟨k, rfl⟩ := Nat.exists_eq_add_of_le h₁
  rw [ahead_eq (Nat.mod_lt _ hM)]
  have hN : N % M < M := Nat.mod_lt _ hM
  rcases add_div_mod (N := N) hM (by omega : k < M) with ⟨h, hmod, -⟩ | ⟨h, hmod, -⟩
  · rw [hmod, if_pos (by omega)]; omega
  · rw [hmod, if_neg (by omega)]; omega

theorem next_of_mod {N A : Nat} (h₁ : N ≤ A) (h₂ : A < N + M) : next M N (A % M) = A := by
  rw [next, ahead_mod h₁ h₂]; omega

/-- A number less than `M` behind is found again from its id. -/
theorem behind_mod {N A : Nat} (h₁ : A ≤ N) (h₂ : N < A + M) : behind M N (A % M) = N - A := by
  have hM : 0 < M := by omega
  obtain ⟨k, rfl⟩ := Nat.exists_eq_add_of_le h₁
  rw [behind_eq (Nat.mod_lt _ hM)]
  have hA : A % M < M := Nat.mod_lt _ hM
  rcases add_div_mod (N := A) hM (by omega : k < M) with ⟨h, hmod, -⟩ | ⟨h, hmod, -⟩
  · rw [hmod, if_pos (by omega)]; omega
  · rw [hmod, if_neg (by omega)]; omega

/-- **`next M N m` is the least number from `N` on written `m`.** -/
theorem next_isLeast {N m : Nat} (hm : m < M) :
    IsLeast {A | N ≤ A ∧ A % M = m} (next M N m) := by
  refine ⟨⟨Nat.le_add_right _ _, next_mod hm⟩, ?_⟩
  rintro A ⟨hNA, rfl⟩
  by_cases h : A < N + M
  · exact (next_of_mod hNA h).le
  · have := ahead_lt (by omega : 0 < M) N (A % M)
    rw [next]; omega

theorem eq_next_of_isLeast {N m A : Nat} (hm : m < M)
    (h : IsLeast {A | N ≤ A ∧ A % M = m} A) : A = next M N m := h.unique (next_isLeast hm)

/-! ### Counting with a carry -/

/-- The wraps of a count after one more: one more wrap when the remainder comes to
zero, modulo `K`. -/
def carry (M K lo hi : Nat) : Nat := if (lo + 1) % M = 0 then (hi + 1) % K else hi

theorem carry_lt {K lo hi : Nat} (hhi : hi < K) : carry M K lo hi < K := by
  unfold carry
  split
  · exact Nat.mod_lt _ (by omega)
  · exact hhi

/-- **The count goes up by one**, until both parts wrap. -/
theorem carry_value {K lo hi : Nat} (hlo : lo < M) (hhi : hi < K) :
    carry M K lo hi * M + (lo + 1) % M = (hi * M + lo + 1) % (K * M) := by
  have hle : (hi + 1) * M ≤ K * M := Nat.mul_le_mul_right M hhi
  rw [Nat.succ_mul] at hle
  unfold carry
  rcases Nat.lt_or_ge (lo + 1) M with hlt | hge
  · rw [Nat.mod_eq_of_lt hlt, if_neg (Nat.succ_ne_zero lo), Nat.mod_eq_of_lt (by omega)]
    rfl
  · have hM : lo + 1 = M := by omega
    rw [hM, Nat.mod_self, if_pos rfl, Nat.add_zero, Nat.add_assoc, hM, ← Nat.succ_mul,
      Nat.mul_mod_mul_right]

end Teamspeak.Cyclic
