import Mathlib.Data.List.Basic

/-!
# Logs

A log is a list of entries, the earliest first, that only grows at its end.
What is said of an entry is said of its place: of the entries before it or of
those since.

* `place_append`: a place of `l ++ l'` is a place of `l`, or one of `l'`.
* `Founded R l`: every entry is justified by those before it.  With an `R` that
  more entries before do not spoil, it is enough to justify the new entries by the
  old ones (`Founded.append`).
-/

namespace Teamspeak.Log

variable {ω : Type*} {R : List ω → ω → Prop} {l l' : List ω}

/-- A place of a longer log is one of the log before, or one of what was added. -/
theorem place_append {pre post : List ω} {o : ω} (h : l ++ l' = pre ++ o :: post) :
    (∃ mid, l = pre ++ o :: mid ∧ post = mid ++ l') ∨
      ∃ mid, l' = mid ++ o :: post ∧ pre = l ++ mid := by
  rcases List.append_eq_append_iff.mp h with ⟨mid, hpre, hl'⟩ | ⟨mid, hl, hmid⟩
  · exact Or.inr ⟨mid, hl', hpre⟩
  · cases mid with
    | nil => exact Or.inr ⟨[], hmid.symm, by rw [hl, List.append_nil, List.append_nil]⟩
    | cons a mid =>
      rw [List.cons_append, List.cons.injEq] at hmid
      obtain ⟨rfl, rfl⟩ := hmid
      exact Or.inl ⟨mid, hl, rfl⟩

/-- Every entry of the log stands in `R` to the entries before it. -/
def Founded (R : List ω → ω → Prop) (l : List ω) : Prop :=
  ∀ pre o post, l = pre ++ o :: post → R pre o

theorem Founded.nil : Founded R [] := by
  intro pre o post h
  exact absurd h.symm (List.append_ne_nil_of_right_ne_nil _ (List.cons_ne_nil _ _))

theorem Founded.of_append (h : Founded R (l ++ l')) : Founded R l := by
  intro pre o post hl
  apply h pre o (post ++ l')
  rw [hl, List.append_assoc, List.cons_append]

/-- New entries that the old ones justify keep a log founded. -/
theorem Founded.append (hR : ∀ l l' o, R l o → R (l ++ l') o) (h : Founded R l)
    (hnew : ∀ o ∈ l', R l o) : Founded R (l ++ l') := by
  intro pre o post hl
  rcases place_append hl with ⟨mid, hmid, -⟩ | ⟨mid, hmid, rfl⟩
  · exact h pre o mid hmid
  · apply hR
    apply hnew
    rw [hmid]
    exact List.mem_append_right _ List.mem_cons_self

end Teamspeak.Log
