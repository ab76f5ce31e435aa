import Mathlib.Data.List.Induction
import Teamspeak.Lib.Log

/-!
# Entries that take turns

Some entries of a log open something, and some close it.  `Shut opens closes l` says that
since the last opening there was a closing, and `Turns opens closes l` that every opening
finds the log before it shut.

* `Turns.concat`: one more entry.
* `Turns.between`: between two openings there is a closing.
* `Turns.count_le_one`: where nothing closes, at most one opens.
* `turns_filterMap`: what is read off a log takes turns just when the log does.
* `count_eq_one`: if each finds the other before it, then one closing, no more and no less,
  is between an opening and the next.
-/

namespace Teamspeak.Log

variable {ω : Type*} {R : List ω → ω → Prop} {opens closes : ω → Bool} {l l' : List ω} {o : ω}

/-- New entries that are justified where they stand. -/
theorem Founded.append_of_place (h : Founded R l)
    (hnew : ∀ mid o post, l' = mid ++ o :: post → R (l ++ mid) o) : Founded R (l ++ l') := by
  intro pre o post hl
  rcases place_append hl with ⟨mid, hmid, -⟩ | ⟨mid, hmid, rfl⟩
  · exact h pre o mid hmid
  · exact hnew mid o post hmid

theorem Founded.concat (h : Founded R l) (ho : R l o) : Founded R (l ++ [o]) := by
  apply h.append_of_place
  intro mid p post hl
  rw [List.singleton_eq_append_iff] at hl
  rcases hl with ⟨rfl, hp⟩ | ⟨-, hp⟩
  · rw [List.cons.injEq] at hp
    rw [hp.1, List.append_nil]
    exact ho
  · cases hp

/-- Of an entry that is there once there is no other. -/
theorem eq_of_countP_le_one {f : ω → Bool} (h : l.countP f ≤ 1) {o p : ω} (ho : o ∈ l) (hp : p ∈ l)
    (hfo : f o) (hfp : f p) : o = p := by
  have hfound : ∀ q ∈ l, f q → q ∈ l.filter f := fun q hq hfq => List.mem_filter.mpr ⟨hq, hfq⟩
  rw [List.countP_eq_length_filter] at h
  have ho' := hfound o ho hfo
  have hp' := hfound p hp hfp
  generalize l.filter f = found at h ho' hp'
  cases found with
  | nil => cases ho'
  | cons q found =>
    have hnil : found = [] := by simpa using h
    rw [hnil, List.mem_singleton] at ho' hp'
    rw [ho', hp']

/-- Since the last opening there was a closing. -/
def Shut (opens closes : ω → Bool) (l : List ω) : Prop :=
  ∀ pre o post, l = pre ++ o :: post → opens o → ∃ p ∈ post, closes p

theorem Shut.nil : Shut opens closes [] := by
  intro pre o post h
  exact absurd h.symm (List.append_ne_nil_of_right_ne_nil _ (List.cons_ne_nil _ _))

theorem Shut.append (h : Shut opens closes l) (hl' : ∀ o ∈ l', opens o = false) :
    Shut opens closes (l ++ l') := by
  intro pre o post hsplit ho
  rcases place_append hsplit with ⟨mid, hmid, rfl⟩ | ⟨mid, hmid, -⟩
  · obtain ⟨p, hp, hcloses⟩ := h pre o mid hmid ho
    exact ⟨p, List.mem_append_left _ hp, hcloses⟩
  · rw [hl' o (hmid ▸ List.mem_append_right _ List.mem_cons_self)] at ho
    cases ho

/-- A closing that opens nothing shuts the log. -/
theorem Shut.of_closes (hopens : opens o = false) (hcloses : closes o) :
    Shut opens closes (l ++ [o]) := by
  intro pre p post hsplit hp
  rcases place_append hsplit with ⟨mid, -, rfl⟩ | ⟨mid, hmid, -⟩
  · exact ⟨o, List.mem_append_right _ List.mem_cons_self, hcloses⟩
  · have : p ∈ [o] := hmid ▸ List.mem_append_right _ List.mem_cons_self
    rw [List.mem_singleton.mp this, hopens] at hp
    cases hp

/-- A log that is shut ends with a closing, or with what opens nothing on one that is shut. -/
theorem shut_concat :
    Shut opens closes (l ++ [o]) ↔ opens o = false ∧ (closes o ∨ Shut opens closes l) := by
  constructor
  · intro h
    have hopens : opens o = false := by
      rw [Bool.eq_false_iff]
      intro ho
      obtain ⟨p, hp, -⟩ := h l o [] rfl ho
      cases hp
    refine ⟨hopens, or_iff_not_imp_left.mpr fun hcloses => ?_⟩
    intro pre p post hl hp
    obtain ⟨q, hq, hqcloses⟩ := h pre p (post ++ [o]) (by rw [hl, List.append_assoc, List.cons_append])
      hp
    rcases List.mem_append.mp hq with hq | hq
    · exact ⟨q, hq, hqcloses⟩
    · rw [List.mem_singleton.mp hq] at hqcloses
      exact absurd hqcloses hcloses
  · rintro ⟨hopens, hcloses | h⟩
    · exact Shut.of_closes hopens hcloses
    · exact h.append fun p hp => List.mem_singleton.mp hp ▸ hopens

/-- Every opening finds the log before it shut. -/
def Turns (opens closes : ω → Bool) (l : List ω) : Prop :=
  Founded (fun pre o => opens o → Shut opens closes pre) l

theorem Turns.concat (h : Turns opens closes l) (ho : opens o → Shut opens closes l) :
    Turns opens closes (l ++ [o]) := Founded.concat h ho

theorem Turns.append (h : Turns opens closes l) (hl' : ∀ o ∈ l', opens o = false) :
    Turns opens closes (l ++ l') := by
  intro pre o post hsplit ho
  rcases place_append hsplit with ⟨mid, hmid, -⟩ | ⟨mid, hmid, -⟩
  · exact h pre o mid hmid ho
  · rw [hl' o (hmid ▸ List.mem_append_right _ List.mem_cons_self)] at ho
    cases ho

theorem turns_concat :
    Turns opens closes (l ++ [o]) ↔ Turns opens closes l ∧ (opens o → Shut opens closes l) :=
  ⟨fun h => ⟨Founded.of_append h, h l o [] rfl⟩, fun h => h.1.concat h.2⟩

section FilterMap

variable {α : Type*} {f : α → Option ω}

/-- What is read off a log is shut just when the log is, by what is read off its entries. -/
theorem shut_filterMap (as : List α) : Shut opens closes (as.filterMap f) ↔
    Shut (fun a => (f a).any opens) (fun a => (f a).any closes) as := by
  induction as using List.reverseRecOn with
  | nil => exact iff_of_true Shut.nil Shut.nil
  | append_singleton as a ih =>
    rw [List.filterMap_append, shut_concat, ← ih]
    cases hf : f a with
    | none => simp [hf]
    | some o =>
      rw [List.filterMap_cons_some hf, List.filterMap_nil, shut_concat, Option.any_some,
        Option.any_some]

theorem turns_filterMap (as : List α) : Turns opens closes (as.filterMap f) ↔
    Turns (fun a => (f a).any opens) (fun a => (f a).any closes) as := by
  induction as using List.reverseRecOn with
  | nil => exact iff_of_true Founded.nil Founded.nil
  | append_singleton as a ih =>
    rw [List.filterMap_append, turns_concat, ← ih, ← shut_filterMap]
    cases hf : f a with
    | none => simp [hf]
    | some o =>
      rw [List.filterMap_cons_some hf, List.filterMap_nil, turns_concat, Option.any_some]

end FilterMap

/-- Between two openings there is a closing. -/
theorem Turns.between (h : Turns opens closes l) (pre mid post : List ω) {o p : ω}
    (hl : l = pre ++ o :: (mid ++ p :: post)) (ho : opens o) (hp : opens p) :
    ∃ q ∈ mid, closes q :=
  h (pre ++ o :: mid) p post (by rw [hl, List.append_assoc, List.cons_append]) hp pre o mid rfl ho

/-- Where nothing closes, at most one opens. -/
theorem Turns.count_le_one (h : Turns opens closes l) (pre mid post : List ω)
    (hl : l = pre ++ mid ++ post) (hmid : ∀ q ∈ mid, closes q = false) :
    mid.countP opens ≤ 1 := by
  by_contra hmany
  have hpos : 0 < mid.countP opens := by omega
  obtain ⟨o, ho, hopens⟩ := List.countP_pos_iff.mp hpos
  obtain ⟨as, bs, rfl⟩ := List.append_of_mem ho
  rw [List.countP_append, List.countP_cons_of_pos hopens] at hmany
  -- Of the others that open, one is before it or one is after it.
  have hother : 0 < as.countP opens ∨ 0 < bs.countP opens := by omega
  rcases hother with hother | hother
  · obtain ⟨p, hp, hpopens⟩ := List.countP_pos_iff.mp hother
    obtain ⟨cs, ds, rfl⟩ := List.append_of_mem hp
    obtain ⟨q, hq, hcloses⟩ := h.between (pre ++ cs) ds (bs ++ post) (by simp [hl]) hpopens hopens
    rw [hmid q (by simp [hq])] at hcloses
    cases hcloses
  · obtain ⟨p, hp, hpopens⟩ := List.countP_pos_iff.mp hother
    obtain ⟨cs, ds, rfl⟩ := List.append_of_mem hp
    obtain ⟨q, hq, hcloses⟩ := h.between (pre ++ as) cs (ds ++ post) (by simp [hl]) hopens hpopens
    rw [hmid q (by simp [hq])] at hcloses
    cases hcloses

/-- Between an opening and the next there is one closing. -/
theorem count_eq_one (h : Turns opens closes l) (h' : Turns closes opens l)
    (pre mid post : List ω) {o p : ω} (hl : l = pre ++ o :: (mid ++ p :: post)) (ho : opens o)
    (hp : opens p) (hmid : ∀ q ∈ mid, opens q = false) : mid.countP closes = 1 := by
  apply Nat.le_antisymm
  · exact h'.count_le_one (pre ++ [o]) mid (p :: post) (by simp [hl]) hmid
  · obtain ⟨q, hq, hcloses⟩ := h.between pre mid post hl ho hp
    exact List.countP_pos_iff.mpr ⟨q, hq, hcloses⟩

end Teamspeak.Log
