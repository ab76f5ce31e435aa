import Mathlib.Data.List.Forall2

/-!
# Wildcards

Patterns in which one symbol stands for any run and another for any one symbol, and a piece of a
pattern without runs, which matches symbol by symbol.

* `Wild`: what a pattern matches.
* `wild_plain_append`: a plain piece matches what is as long.
* `wild_star_star`: of two runs with a plain piece between, where the piece was once found is as
  good as any later place.
-/

namespace Teamspeak

variable {α : Type*} (star any : α)

/-- What a pattern matches: `star` any run, `any` any one symbol, another symbol itself. -/
inductive Wild : List α → List α → Prop
  | nil : Wild [] []
  | run (skipped : List α) {p t : List α} (h : Wild p t) : Wild (star :: p) (skipped ++ t)
  | any (d : α) {p t : List α} (h : Wild p t) : Wild (any :: p) (d :: t)
  | same {c : α} (hs : c ≠ star) (ha : c ≠ any) {p t : List α} (h : Wild p t) :
      Wild (c :: p) (c :: t)

/-- A symbol that is not a run, and one it matches. -/
def Fits (c d : α) : Prop := c ≠ star ∧ (c = any ∨ c = d)

/-- A piece without runs, and text as long that it matches. -/
abbrev Plain : List α → List α → Prop := List.Forall₂ (Fits star any)

variable {star any} {p t : List α}

theorem wild_nil_iff : Wild star any [] t ↔ t = [] := by
  constructor
  · intro h
    cases h
    rfl
  · rintro rfl
    exact .nil

/-- With another symbol for `any`, a run is matched by a run only. -/
theorem wild_star_iff (hne : any ≠ star) :
    Wild star any (star :: p) t ↔ ∃ skipped rest, t = skipped ++ rest ∧ Wild star any p rest := by
  constructor
  · intro h
    cases h with
    | run skipped h => exact ⟨skipped, _, rfl, h⟩
    | any d h => exact absurd rfl hne
    | same hs _ _ => exact absurd rfl hs
  · rintro ⟨skipped, rest, rfl, h⟩
    exact .run skipped h

theorem wild_cons_iff {c d : α} (hc : c ≠ star) :
    Wild star any (c :: p) (d :: t) ↔ Fits star any c d ∧ Wild star any p t := by
  constructor
  · intro h
    generalize ht : d :: t = text at h
    cases h with
    | run => exact absurd rfl hc
    | any d h =>
      obtain ⟨-, rfl⟩ := List.cons.inj ht
      exact ⟨⟨hc, Or.inl rfl⟩, h⟩
    | same _ _ h =>
      obtain ⟨rfl, rfl⟩ := List.cons.inj ht
      exact ⟨⟨hc, Or.inr rfl⟩, h⟩
  · rintro ⟨⟨-, hfits⟩, h⟩
    by_cases ha : c = any
    · rw [ha]
      exact .any d h
    · rw [← hfits.resolve_left ha]
      exact .same hc ha h

theorem not_wild_cons_nil {c : α} (hc : c ≠ star) : ¬ Wild star any (c :: p) [] := by
  intro h
  generalize ht : ([] : List α) = t at h
  cases h with
  | run => exact hc rfl
  | any => cases ht
  | same => cases ht

theorem wild_to_nil_iff (hne : any ≠ star) : Wild star any p [] ↔ ∀ c ∈ p, c = star := by
  induction p with
  | nil => simp [wild_nil_iff]
  | cons c p ih =>
    by_cases hc : c = star
    · subst hc
      rw [wild_star_iff hne, List.forall_mem_cons, ← ih]
      constructor
      · rintro ⟨skipped, rest, hsplit, h⟩
        rw [(List.append_eq_nil_iff.mp hsplit.symm).2] at h
        exact ⟨rfl, h⟩
      · exact fun h => ⟨[], [], rfl, h.2⟩
    · exact ⟨fun h => absurd h (not_wild_cons_nil hc),
        fun h => absurd (h c List.mem_cons_self) hc⟩

theorem wild_star_append (hne : any ≠ star) (more : List α)
    (h : Wild star any (star :: p) t) : Wild star any (star :: p) (more ++ t) := by
  obtain ⟨skipped, rest, rfl, hrest⟩ := (wild_star_iff hne).mp h
  rw [← List.append_assoc]
  exact .run _ hrest

/-- A plain piece matches text of its own length, and leaves the rest. -/
theorem wild_plain_append {piece : List α} (hpiece : ∀ c ∈ piece, c ≠ star) :
    Wild star any (piece ++ p) t ↔
      ∃ found rest, t = found ++ rest ∧ Plain star any piece found ∧ Wild star any p rest := by
  induction piece generalizing t with
  | nil =>
    constructor
    · exact fun h => ⟨[], t, rfl, .nil, h⟩
    · rintro ⟨found, rest, rfl, hplain, h⟩
      cases hplain
      exact h
  | cons c piece ih =>
    obtain ⟨hc, hpiece⟩ := List.forall_mem_cons.mp hpiece
    cases t with
    | nil =>
      refine ⟨fun h => absurd h (not_wild_cons_nil hc), ?_⟩
      rintro ⟨found, rest, hsplit, hplain, -⟩
      rw [(List.append_eq_nil_iff.mp hsplit.symm).1] at hplain
      cases hplain
    | cons d t =>
      rw [List.cons_append, wild_cons_iff hc, ih hpiece]
      constructor
      · rintro ⟨hfits, found, rest, rfl, hplain, h⟩
        exact ⟨d :: found, rest, rfl, .cons hfits hplain, h⟩
      · rintro ⟨found, rest, hsplit, hplain, h⟩
        cases hplain with
        | cons hfits hplain =>
          obtain ⟨rfl, rfl⟩ := List.cons.inj hsplit
          exact ⟨hfits, _, rest, rfl, hplain, h⟩

theorem Plain.forall_ne {piece found : List α} (h : Plain star any piece found) :
    ∀ c ∈ piece, c ≠ star := by
  induction h with
  | nil => simp
  | cons hfits _ ih => exact List.forall_mem_cons.mpr ⟨hfits.1, ih⟩

/-- **The first place is as good as any.**  Once a plain piece between two runs has been found,
nothing is lost by matching the rest from there. -/
theorem wild_star_star (hne : any ≠ star) {piece found : List α}
    (hplain : Plain star any piece found) :
    Wild star any (star :: (piece ++ star :: p)) (found ++ t) ↔ Wild star any (star :: p) t := by
  constructor
  · intro h
    obtain ⟨skipped, rest, hsplit, h⟩ := (wild_star_iff hne).mp h
    obtain ⟨found', rest', rfl, hplain', h⟩ := (wild_plain_append hplain.forall_ne).mp h
    -- what is left after the later place is a tail of what is left after the first
    have hlength : found.length ≤ (skipped ++ found').length := by
      rw [List.length_append, ← hplain.length_eq, hplain'.length_eq]
      exact Nat.le_add_left _ _
    rw [← List.append_assoc] at hsplit
    obtain ⟨more, hmore⟩ : ∃ more, t = more ++ rest' := by
      have hdrop := congrArg (List.drop found.length) hsplit
      rw [List.drop_left, List.drop_append_of_le_length hlength] at hdrop
      exact ⟨_, hdrop⟩
    rw [hmore]
    exact wild_star_append hne more h
  · intro h
    exact .run [] ((wild_plain_append hplain.forall_ne).mpr ⟨found, t, rfl, hplain, h⟩)

/-- A run whose piece does not go on here takes in one symbol more. -/
theorem wild_star_retry (hne : any ≠ star) {piece found : List α} {e : α} {text : List α}
    (hplain : Plain star any piece found) (htext : e :: text = found ++ t)
    (hno : ¬ Wild star any p t) :
    Wild star any (star :: (piece ++ p)) (e :: text) ↔
      Wild star any (star :: (piece ++ p)) text := by
  constructor
  · intro h
    obtain ⟨skipped, rest, hsplit, hpiece⟩ := (wild_star_iff hne).mp h
    cases skipped with
    | nil =>
      rw [List.nil_append, htext] at hsplit
      rw [← hsplit] at hpiece
      obtain ⟨found', rest', hrest, hplain', hp⟩ := (wild_plain_append hplain.forall_ne).mp hpiece
      have hlength : found.length = found'.length :=
        hplain.length_eq.symm.trans hplain'.length_eq
      obtain ⟨-, rfl⟩ := List.append_inj hrest hlength
      exact absurd hp hno
    | cons d skipped =>
      obtain ⟨-, rfl⟩ := List.cons.inj hsplit
      exact .run skipped hpiece
  · exact wild_star_append hne [e]

/-- At the end of the text a run has taken in as much as it can. -/
theorem wild_star_end (hne : any ≠ star) {piece found : List α}
    (hplain : Plain star any piece found) :
    Wild star any (star :: (piece ++ p)) found ↔ Wild star any p [] := by
  constructor
  · intro h
    obtain ⟨skipped, rest, hsplit, h⟩ := (wild_star_iff hne).mp h
    obtain ⟨found', rest', rfl, hplain', h⟩ := (wild_plain_append hplain.forall_ne).mp h
    have hlength := congrArg List.length hsplit
    rw [List.length_append, List.length_append, ← hplain.length_eq, hplain'.length_eq] at hlength
    rwa [List.eq_nil_of_length_eq_zero (show rest'.length = 0 by omega)] at h
  · intro h
    exact .run [] ((wild_plain_append hplain.forall_ne).mpr
      ⟨found, [], (List.append_nil _).symm, hplain, h⟩)

/-- A pattern of neither symbol matches itself. -/
theorem wild_literal_iff (hp : ∀ c ∈ p, c ≠ star ∧ c ≠ any) : Wild star any p t ↔ p = t := by
  induction p generalizing t with
  | nil => rw [wild_nil_iff, eq_comm]
  | cons c p ih =>
    obtain ⟨⟨hs, ha⟩, hp⟩ := List.forall_mem_cons.mp hp
    cases t with
    | nil => exact iff_of_false (not_wild_cons_nil hs) (List.cons_ne_nil _ _)
    | cons d t => rw [wild_cons_iff hs, ih hp, List.cons.injEq, Fits, or_iff_right ha,
        and_iff_right hs]

end Teamspeak
