import Mathlib.Data.List.Perm.Basic

/-!
# A list put together from groups

A list taken apart by a key, each group put in some order of its own, and the groups put one
after another.

* `perm_flatMap_filter`: nothing is lost or repeated when every key is listed once.
* `filter_flatMap_key`: a key's group stands together in the result.
* `pairwise_key`: under keys in order the result is in the order of the keys.
-/

namespace Teamspeak.Grouped

variable {κ β : Type*} [DecidableEq κ] {f : β → κ} {keys : List κ} {group : κ → List β}

/-- The groups of all keys are the list. -/
theorem perm_flatMap_filter {l : List β} (hk : keys.Nodup) (hall : ∀ b ∈ l, f b ∈ keys) :
    (keys.flatMap fun k => l.filter fun b => f b = k).Perm l := by
  induction keys generalizing l with
  | nil =>
    have hl : l = [] := List.eq_nil_iff_forall_not_mem.mpr fun b hb =>
      List.not_mem_nil (hall b hb)
    rw [hl]
    rfl
  | cons k keys ih =>
    obtain ⟨hnot, hk⟩ := List.nodup_cons.mp hk
    rw [List.flatMap_cons]
    -- the other keys' groups are those of the rest of the list
    have hrest : (keys.flatMap fun k' => l.filter fun b => f b = k')
        = keys.flatMap fun k' => (l.filter fun b => ¬ f b = k).filter fun b => f b = k' := by
      refine List.flatMap_congr fun k' hk' => ?_
      rw [List.filter_filter]
      refine List.filter_congr fun b _ => ?_
      by_cases hb : f b = k'
      · have hne : k' ≠ k := fun he => hnot (he ▸ hk')
        simp [hb, hne]
      · simp [hb]
    rw [hrest]
    have hrestPerm := ih hk (l := l.filter fun b => ¬ f b = k) fun b hb => by
      obtain ⟨hb, hne⟩ := List.mem_filter.mp hb
      exact (List.mem_cons.mp (hall b hb)).resolve_left (by simpa using hne)
    refine (hrestPerm.append_left _).trans ?_
    simpa using List.filter_append_perm (fun b => decide (f b = k)) l

/-- What has a key stands in that key's group; a key not listed has nothing. -/
theorem filter_flatMap_key (hk : keys.Nodup) (hg : ∀ k ∈ keys, ∀ b ∈ group k, f b = k)
    {k : κ} (hmem : k ∉ keys → group k = []) :
    ((keys.flatMap group).filter fun b => f b = k) = group k := by
  induction keys with
  | nil => exact (hmem List.not_mem_nil).symm
  | cons k' keys ih =>
    obtain ⟨hnot, hk⟩ := List.nodup_cons.mp hk
    rw [List.flatMap_cons, List.filter_append]
    have hhead := hg k' List.mem_cons_self
    have htail : ∀ k ∈ keys, ∀ b ∈ group k, f b = k := fun k hk => hg k (List.mem_cons_of_mem _ hk)
    by_cases he : k = k'
    · subst he
      have hrest : ((keys.flatMap group).filter fun b => f b = k) = [] := by
        refine List.filter_eq_nil_iff.mpr fun b hb => ?_
        obtain ⟨k₂, hk₂, hb⟩ := List.mem_flatMap.mp hb
        have hne : k₂ ≠ k := fun he => hnot (he ▸ hk₂)
        simp [htail k₂ hk₂ b hb, hne]
      rw [hrest, List.append_nil]
      exact List.filter_eq_self.mpr fun b hb => by simp [hhead b hb]
    · have hnone : ((group k').filter fun b => f b = k) = [] :=
        List.filter_eq_nil_iff.mpr fun b hb => by simp [hhead b hb, Ne.symm he]
      rw [hnone, List.nil_append]
      exact ih hk htail fun hnot => hmem fun h => hnot ((List.mem_cons.mp h).resolve_left he)

omit [DecidableEq κ] in
theorem pairwise_key {R : κ → κ → Prop} (hrefl : ∀ k, R k k) (hk : keys.Pairwise R)
    (hg : ∀ k ∈ keys, ∀ b ∈ group k, f b = k) :
    (keys.flatMap group).Pairwise fun b c => R (f b) (f c) := by
  refine List.pairwise_flatMap.mpr ⟨fun k hk => ?_, ?_⟩
  · refine List.pairwise_of_forall_mem_list fun b hb c hc => ?_
    rw [hg k hk b hb, hg k hk c hc]
    exact hrefl k
  · refine hk.imp_of_mem fun hk₁ hk₂ h b hb c hc => ?_
    rw [hg _ hk₁ b hb, hg _ hk₂ c hc]
    exact h

end Teamspeak.Grouped
