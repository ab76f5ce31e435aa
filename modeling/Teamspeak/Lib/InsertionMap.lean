import Mathlib.Data.List.Nodup
import Mathlib.Data.List.Perm.Subperm
import Mathlib.Algebra.BigOperators.Group.List.Basic
import Mathlib.Algebra.Order.BigOperators.Group.List
import Mathlib.Tactic.Ring

/-!
# Maps that remember insertion order

An `InsertionMap` is a finite map iterated in the order its keys were first
set, as the maps of most scripting languages are: setting a key that is already
held replaces its value where it stands, and a key deleted and set again goes to
the end.  Each key is held once, which the structure carries as `nodup`.

* `mem_entries`: the entries are exactly what `get?` finds.
* `get?_set`, `get?_delete`: what an update does to a lookup.
* `push`: lists under keys (`get?_foldl_push`).
* `setAll`: many entries set in turn, a later one over an earlier
  (`get?_setAll_overlay`).
* `total`: a sum over the entries, with what `delete` and `set` do to it
  (`total_delete_add`, `total_set_of_none`).
* `perm_of_get?`, `perm_set`: the entries but for their order.
* `length_le_size`: distinct keys that are all held number at most `size`.
-/

namespace Teamspeak

/-- A finite map iterated in the order its keys were first set. -/
structure InsertionMap (κ α : Type*) where
  entries : List (κ × α)
  nodup : (entries.map Prod.fst).Nodup

namespace InsertionMap

variable {κ α : Type*} [DecidableEq κ]

def empty : InsertionMap κ α := ⟨[], List.nodup_nil⟩

def get? (m : InsertionMap κ α) (k : κ) : Option α :=
  (m.entries.find? fun e => e.1 = k).map Prod.snd

def has (m : InsertionMap κ α) (k : κ) : Bool := (m.get? k).isSome

def size (m : InsertionMap κ α) : Nat := m.entries.length

/-- Put `a` under `k`: in place of what is there, or at the end. -/
def setEntries (k : κ) (a : α) : List (κ × α) → List (κ × α)
  | [] => [(k, a)]
  | e :: es => if e.1 = k then (k, a) :: es else e :: setEntries k a es

theorem fst_mem_setEntries {k : κ} {a : α} {l : List (κ × α)} {k' : κ}
    (h : k' ∈ (setEntries k a l).map Prod.fst) : k' = k ∨ k' ∈ l.map Prod.fst := by
  induction l with
  | nil => simpa [setEntries] using h
  | cons e es ih =>
    rw [setEntries] at h
    by_cases he : e.1 = k
    · rw [if_pos he] at h
      rcases List.mem_cons.mp h with h | h
      · exact Or.inl h
      · exact Or.inr (List.mem_cons_of_mem _ h)
    · rw [if_neg he] at h
      rcases List.mem_cons.mp h with h | h
      · exact Or.inr (h ▸ List.mem_cons_self)
      · exact (ih h).imp_right (List.mem_cons_of_mem _)

theorem nodup_setEntries (k : κ) (a : α) {l : List (κ × α)} (h : (l.map Prod.fst).Nodup) :
    ((setEntries k a l).map Prod.fst).Nodup := by
  induction l with
  | nil => simp [setEntries]
  | cons e es ih =>
    rw [List.map_cons, List.nodup_cons] at h
    rw [setEntries]
    by_cases he : e.1 = k
    · rw [if_pos he, List.map_cons, List.nodup_cons, ← he]
      exact h
    · rw [if_neg he, List.map_cons, List.nodup_cons]
      refine ⟨fun hm => ?_, ih h.2⟩
      rcases fst_mem_setEntries hm with hk | hk
      · exact he hk
      · exact h.1 hk

def set (m : InsertionMap κ α) (k : κ) (a : α) : InsertionMap κ α :=
  ⟨setEntries k a m.entries, nodup_setEntries k a m.nodup⟩

def delete (m : InsertionMap κ α) (k : κ) : InsertionMap κ α :=
  ⟨m.entries.filter fun e => e.1 ≠ k, m.nodup.sublist (List.filter_sublist.map _)⟩

/-! ### Lookups -/

@[simp] theorem get?_empty (k : κ) : (empty : InsertionMap κ α).get? k = none := rfl

theorem mem_entries {m : InsertionMap κ α} {k : κ} {a : α} :
    (k, a) ∈ m.entries ↔ m.get? k = some a := by
  obtain ⟨l, hl⟩ := m
  simp only [get?]
  induction l with
  | nil => simp
  | cons e es ih =>
    rw [List.map_cons, List.nodup_cons] at hl
    rw [List.mem_cons, List.find?_cons]
    by_cases he : e.1 = k
    · simp only [he, decide_true, Option.map_some, Option.some.injEq]
      constructor
      · rintro (h | h)
        · rw [← h]
        · exact absurd (List.mem_map_of_mem h) (he ▸ hl.1)
      · rintro rfl
        exact Or.inl (Prod.ext he.symm rfl)
    · simp only [he, decide_false]
      rw [← ih hl.2]
      constructor
      · rintro (h | h)
        · exact absurd (congrArg Prod.fst h).symm he
        · exact h
      · exact Or.inr

theorem get?_eq_none {m : InsertionMap κ α} {k : κ} :
    m.get? k = none ↔ k ∉ m.entries.map Prod.fst := by
  rw [get?, Option.map_eq_none_iff, List.find?_eq_none]
  simp only [decide_eq_true_eq, List.mem_map, Prod.exists, exists_and_right, exists_eq_right,
    not_exists, Prod.forall]
  exact ⟨fun h a ha => h k a ha rfl, fun h k' a ha hk => h a (hk ▸ ha)⟩

theorem has_iff {m : InsertionMap κ α} {k : κ} : m.has k = true ↔ ∃ a, m.get? k = some a := by
  rw [has, Option.isSome_iff_exists]

theorem has_eq_false {m : InsertionMap κ α} {k : κ} : m.has k = false ↔ m.get? k = none := by
  rw [has, Option.isSome_eq_false_iff, Option.isNone_iff_eq_none]

theorem find?_setEntries (k k' : κ) (a : α) (l : List (κ × α)) :
    ((setEntries k a l).find? fun e => e.1 = k').map Prod.snd =
      if k = k' then some a else (l.find? fun e => e.1 = k').map Prod.snd := by
  induction l with
  | nil => by_cases h : k = k' <;> simp [setEntries, h]
  | cons e es ih =>
    rw [setEntries]
    by_cases he : e.1 = k
    · rw [if_pos he]
      by_cases hk : k = k' <;> simp [he, hk]
    · rw [if_neg he, List.find?_cons, List.find?_cons]
      by_cases hk : e.1 = k'
      · have : k ≠ k' := fun h => he (hk.trans h.symm)
        simp [hk, this]
      · simpa [hk] using ih

theorem get?_set (m : InsertionMap κ α) (k k' : κ) (a : α) :
    (m.set k a).get? k' = if k = k' then some a else m.get? k' :=
  find?_setEntries k k' a m.entries

@[simp] theorem get?_set_self (m : InsertionMap κ α) (k : κ) (a : α) :
    (m.set k a).get? k = some a := by rw [get?_set, if_pos rfl]

theorem get?_set_ne (m : InsertionMap κ α) {k k' : κ} (a : α) (h : k ≠ k') :
    (m.set k a).get? k' = m.get? k' := by rw [get?_set, if_neg h]

theorem get?_delete (m : InsertionMap κ α) (k k' : κ) :
    (m.delete k).get? k' = if k = k' then none else m.get? k' := by
  by_cases h : k = k'
  · subst h
    rw [if_pos rfl, get?_eq_none]
    simp [delete]
  · rw [if_neg h]
    cases hg : m.get? k' with
    | none =>
      rw [get?_eq_none] at hg ⊢
      exact fun hm => hg ((List.filter_sublist.map _).subset hm)
    | some a =>
      rw [← mem_entries] at hg ⊢
      exact List.mem_filter.mpr ⟨hg, by simpa using fun e => h e.symm⟩

@[simp] theorem get?_delete_self (m : InsertionMap κ α) (k : κ) : (m.delete k).get? k = none := by
  rw [get?_delete, if_pos rfl]

theorem get?_delete_ne (m : InsertionMap κ α) {k k' : κ} (h : k ≠ k') :
    (m.delete k).get? k' = m.get? k' := by rw [get?_delete, if_neg h]

theorem delete_of_none {m : InsertionMap κ α} {k : κ} (h : m.get? k = none) : m.delete k = m := by
  obtain ⟨l, hl⟩ := m
  rw [get?_eq_none] at h
  simp only [delete, mk.injEq, List.filter_eq_self]
  intro e he
  have hne : e.1 ≠ k := by
    rintro rfl
    exact h (List.mem_map_of_mem he)
  simpa using hne

/-! ### Entries but for their order -/

theorem perm_filter_ne {k : κ} {a : α} {l : List (κ × α)} (hl : (l.map Prod.fst).Nodup)
    (h : (k, a) ∈ l) : l.Perm ((k, a) :: l.filter fun e => e.1 ≠ k) := by
  induction l with
  | nil => simp at h
  | cons e es ih =>
    rw [List.map_cons, List.nodup_cons] at hl
    rcases List.mem_cons.mp h with rfl | hm
    · have hes : es.filter (fun e => e.1 ≠ k) = es := by
        rw [List.filter_eq_self]
        intro e he
        have hm : e.1 ∈ es.map Prod.fst := List.mem_map_of_mem he
        have hne : e.1 ≠ k := fun hk => hl.1 (hk ▸ hm)
        simpa using hne
      rw [List.filter_cons_of_neg (by simp), hes]
    · have hk : k ∈ es.map Prod.fst := List.mem_map_of_mem (f := Prod.fst) hm
      have hne : e.1 ≠ k := fun he => hl.1 (he ▸ hk)
      rw [List.filter_cons_of_pos (by simpa using hne)]
      exact ((ih hl.2 hm).cons e).trans (List.Perm.swap _ _ _)

theorem perm_of_get? {m : InsertionMap κ α} {k : κ} {a : α} (h : m.get? k = some a) :
    m.entries.Perm ((k, a) :: (m.delete k).entries) :=
  perm_filter_ne m.nodup (mem_entries.mpr h)

theorem delete_set (m : InsertionMap κ α) (k : κ) (a : α) :
    ((m.set k a).delete k).entries = (m.delete k).entries := by
  obtain ⟨l, hl⟩ := m
  show (setEntries k a l).filter _ = l.filter _
  clear hl
  induction l with
  | nil => simp [setEntries]
  | cons e es ih =>
    rw [setEntries]
    by_cases he : e.1 = k
    · simp [he]
    · rw [if_neg he, List.filter_cons, List.filter_cons, ih]

theorem perm_set (m : InsertionMap κ α) (k : κ) (a : α) :
    (m.set k a).entries.Perm ((k, a) :: (m.delete k).entries) := by
  have h := perm_of_get? (get?_set_self m k a)
  rwa [delete_set] at h

/-- A key that is held keeps its place. -/
theorem entries_set {m : InsertionMap κ α} {k : κ} {b : α} (h : m.get? k = some b) (a : α) :
    (m.set k a).entries = m.entries.map fun e => if e.1 = k then (k, a) else e := by
  obtain ⟨l, hl⟩ := m
  have hmem : (k, b) ∈ l := mem_entries.mpr h
  clear h
  show setEntries k a l = _
  induction l with
  | nil => exact absurd hmem List.not_mem_nil
  | cons e es ih =>
    rw [List.map_cons, List.nodup_cons] at hl
    rw [setEntries, List.map_cons]
    by_cases he : e.1 = k
    · rw [if_pos he, if_pos he]
      congr 1
      symm
      refine (List.map_congr_left ?_).trans (List.map_id _)
      intro e' he'
      have hm : e'.1 ∈ es.map Prod.fst := List.mem_map_of_mem he'
      have hne : e'.1 ≠ k := fun hk => hl.1 (by rw [he, ← hk]; exact hm)
      rw [if_neg hne]
      rfl
    · rw [if_neg he, if_neg he, ih hl.2]
      rcases List.mem_cons.mp hmem with rfl | hmem
      · exact absurd rfl he
      · exact hmem

/-- A new key goes to the end. -/
theorem entries_set_of_none {m : InsertionMap κ α} {k : κ} (h : m.get? k = none) (a : α) :
    (m.set k a).entries = m.entries ++ [(k, a)] := by
  obtain ⟨l, hl⟩ := m
  replace h : k ∉ l.map Prod.fst := get?_eq_none.mp h
  show setEntries k a l = l ++ _
  clear hl
  induction l with
  | nil => rfl
  | cons e es ih =>
    rw [List.map_cons, List.mem_cons, not_or] at h
    rw [setEntries, if_neg (fun he => h.1 he.symm), ih h.2, List.cons_append]

theorem get?_of_find? {m : InsertionMap κ α} {f : κ × α → Bool} {k : κ} {a : α}
    (h : m.entries.find? f = some (k, a)) : m.get? k = some a ∧ f (k, a) = true :=
  ⟨mem_entries.mp (List.mem_of_find?_eq_some h), List.find?_some h⟩

/-! ### Lists under keys -/

/-- Add to the end of the list under `k`. -/
def push {β : Type*} (m : InsertionMap κ (List β)) (k : κ) (b : β) : InsertionMap κ (List β) :=
  m.set k ((m.get? k).getD [] ++ [b])

/-- Pushing each of a list's elements under its key groups them. -/
theorem get?_foldl_push {β : Type*} (f : β → κ) (l : List β) (m : InsertionMap κ (List β)) (k : κ) :
    ((l.foldl (fun m b => m.push (f b) b) m).get? k).getD [] =
      (m.get? k).getD [] ++ l.filter fun b => f b = k := by
  induction l generalizing m with
  | nil => simp
  | cons b l ih =>
    rw [List.foldl_cons, ih, push, get?_set, List.filter_cons]
    by_cases hk : f b = k
    · simp [hk]
    · simp [hk]

/-! ### Many at once -/

/-- Set each of a list's entries, in turn. -/
def setAll (m : InsertionMap κ α) (l : List (κ × α)) : InsertionMap κ α :=
  l.foldl (fun m e => m.set e.1 e.2) m

@[simp] theorem setAll_nil (m : InsertionMap κ α) : m.setAll [] = m := rfl

theorem setAll_cons (m : InsertionMap κ α) (e : κ × α) (l : List (κ × α)) :
    m.setAll (e :: l) = (m.set e.1 e.2).setAll l := rfl

theorem setAll_append (m : InsertionMap κ α) (l l' : List (κ × α)) :
    m.setAll (l ++ l') = (m.setAll l).setAll l' := List.foldl_append

theorem get?_setAll_of_not_mem {m : InsertionMap κ α} {l : List (κ × α)} {k : κ}
    (h : k ∉ l.map Prod.fst) : (m.setAll l).get? k = m.get? k := by
  induction l generalizing m with
  | nil => rfl
  | cons e l ih =>
    rw [List.map_cons, List.mem_cons, not_or] at h
    rw [setAll_cons, ih h.2, get?_set_ne _ _ fun he => h.1 he.symm]

/-- A key in the list is looked up there, whatever was held before. -/
theorem get?_setAll_of_mem {m m' : InsertionMap κ α} {l : List (κ × α)} {k : κ}
    (h : k ∈ l.map Prod.fst) : (m.setAll l).get? k = (m'.setAll l).get? k := by
  induction l generalizing m m' with
  | nil => exact absurd h List.not_mem_nil
  | cons e l ih =>
    rw [setAll_cons, setAll_cons]
    by_cases hl : k ∈ l.map Prod.fst
    · exact ih hl
    · have he : k = e.1 := (List.mem_cons.mp h).resolve_right hl
      rw [get?_setAll_of_not_mem hl, get?_setAll_of_not_mem hl, he, get?_set_self, get?_set_self]

theorem get?_setAll_congr {m m' : InsertionMap κ α} (h : ∀ k, m.get? k = m'.get? k)
    (l : List (κ × α)) (k : κ) : (m.setAll l).get? k = (m'.setAll l).get? k := by
  by_cases hk : k ∈ l.map Prod.fst
  · exact get?_setAll_of_mem hk
  · rw [get?_setAll_of_not_mem hk, get?_setAll_of_not_mem hk, h]

theorem has_setAll {m : InsertionMap κ α} {l : List (κ × α)} {k : κ} :
    (m.setAll l).has k = true ↔ m.has k = true ∨ k ∈ l.map Prod.fst := by
  induction l generalizing m with
  | nil => simp
  | cons e l ih =>
    rw [setAll_cons, ih, List.map_cons, List.mem_cons, has, get?_set]
    by_cases he : e.1 = k
    · simp [he]
    · rw [if_neg he]
      have hne : k ≠ e.1 := fun hk => he hk.symm
      simp [has, hne]

/-- A list set over a map is looked up first. -/
theorem get?_setAll (m : InsertionMap κ α) (l : List (κ × α)) (k : κ) :
    (m.setAll l).get? k = ((empty.setAll l).get? k).or (m.get? k) := by
  by_cases hk : k ∈ l.map Prod.fst
  · rw [@get?_setAll_of_mem _ _ _ m empty l k hk]
    obtain ⟨a, ha⟩ := has_iff.mp (@has_setAll _ _ _ empty l k |>.mpr (Or.inr hk))
    rw [ha, Option.some_or]
  · rw [get?_setAll_of_not_mem hk, get?_setAll_of_not_mem hk, get?_empty, Option.none_or]

/-- Setting a list with its values changed changes the values. -/
theorem get?_setAll_map {β : Type*} (f : α → β) {m : InsertionMap κ α} {m' : InsertionMap κ β}
    (h : ∀ k, m'.get? k = (m.get? k).map f) (l : List (κ × α)) (k : κ) :
    (m'.setAll (l.map fun e => (e.1, f e.2))).get? k = ((m.setAll l).get? k).map f := by
  induction l generalizing m m' with
  | nil => exact h k
  | cons e l ih =>
    rw [List.map_cons, setAll_cons, setAll_cons]
    refine ih fun k' => ?_
    rw [get?_set, get?_set, h]
    split <;> rfl

theorem setEntries_append {k : κ} (a : α) {base : List (κ × α)} (h : k ∉ base.map Prod.fst)
    (l : List (κ × α)) : setEntries k a (base ++ l) = base ++ setEntries k a l := by
  induction base with
  | nil => rfl
  | cons e base ih =>
    rw [List.map_cons, List.mem_cons, not_or] at h
    rw [List.cons_append, setEntries, if_neg fun he => h.1 he.symm, ih h.2, List.cons_append]

/-- A list of other keys is set after what there is. -/
theorem entries_setAll_append {m m' : InsertionMap κ α} {base l : List (κ × α)}
    (hm : m.entries = base ++ m'.entries) (h : ∀ e ∈ l, e.1 ∉ base.map Prod.fst) :
    (m.setAll l).entries = base ++ (m'.setAll l).entries := by
  induction l generalizing m m' with
  | nil => exact hm
  | cons e l ih =>
    rw [List.forall_mem_cons] at h
    rw [setAll_cons, setAll_cons]
    refine ih ?_ h.2
    show setEntries _ _ m.entries = _
    rw [hm]
    exact setEntries_append _ h.1 _

/-- Entries with distinct keys are kept as they are. -/
theorem entries_setAll_of_nodup {l : List (κ × α)} (hl : (l.map Prod.fst).Nodup) :
    (empty.setAll l).entries = l := by
  have hall : ∀ (l : List (κ × α)) (m : InsertionMap κ α),
      (l.map Prod.fst).Nodup → (∀ e ∈ l, m.get? e.1 = none) →
        (m.setAll l).entries = m.entries ++ l := by
    intro l
    induction l with
    | nil => exact fun m _ _ => (List.append_nil _).symm
    | cons e l ih =>
      intro m hl hm
      rw [List.map_cons, List.nodup_cons] at hl
      rw [List.forall_mem_cons] at hm
      rw [setAll_cons, ih _ hl.2, entries_set_of_none hm.1, List.append_assoc, List.singleton_append]
      intro e' he'
      have hne : e.1 ≠ e'.1 := fun heq => hl.1 (heq ▸ List.mem_map_of_mem he')
      rw [get?_set_ne _ _ hne]
      exact hm.2 e' he'
  exact hall l empty hl fun _ _ => rfl

/-- Entries with distinct keys are all found. -/
theorem get?_setAll_of_nodup {m : InsertionMap κ α} {l : List (κ × α)}
    (hl : (l.map Prod.fst).Nodup) {k : κ} {a : α} (h : (k, a) ∈ l) :
    (m.setAll l).get? k = some a := by
  induction l generalizing m with
  | nil => exact absurd h List.not_mem_nil
  | cons e l ih =>
    rw [List.map_cons, List.nodup_cons] at hl
    rw [setAll_cons]
    rcases List.mem_cons.mp h with rfl | h
    · rw [get?_setAll_of_not_mem hl.1, get?_set_self]
    · exact ih hl.2 h

/-- The entries that a list does not name, and then the list. -/
def overlay (m : InsertionMap κ α) (l : List (κ × α)) : List (κ × α) :=
  (m.entries.filter fun e => e.1 ∉ l.map Prod.fst) ++ l

/-- An overlay says what setting the list over what there was does. -/
theorem get?_setAll_overlay (m : InsertionMap κ α) (l : List (κ × α)) (k : κ) :
    (empty.setAll (m.overlay l)).get? k = (m.setAll l).get? k := by
  rw [overlay, setAll_append]
  by_cases hk : k ∈ l.map Prod.fst
  · exact get?_setAll_of_mem hk
  · rw [get?_setAll_of_not_mem hk, get?_setAll_of_not_mem hk]
    have hnodup : ((m.entries.filter fun e => e.1 ∉ l.map Prod.fst).map Prod.fst).Nodup :=
      m.nodup.sublist (List.filter_sublist.map _)
    cases hm : m.get? k with
    | none =>
      rw [get?_setAll_of_not_mem, get?_empty]
      intro hmem
      exact get?_eq_none.mp hm ((List.filter_sublist.map _).subset hmem)
    | some a =>
      apply get?_setAll_of_nodup hnodup
      exact List.mem_filter.mpr ⟨mem_entries.mpr hm, by simpa using hk⟩

/-! ### Sizes and sums -/

/-- The sum of `f` over the entries. -/
def total (m : InsertionMap κ α) (f : κ → α → Nat) : Nat :=
  (m.entries.map fun e => f e.1 e.2).sum

omit [DecidableEq κ] in
@[simp] theorem total_empty (f : κ → α → Nat) : (empty : InsertionMap κ α).total f = 0 := rfl

theorem total_le_total {m : InsertionMap κ α} {f g : κ → α → Nat}
    (h : ∀ k a, m.get? k = some a → f k a ≤ g k a) : m.total f ≤ m.total g :=
  List.sum_le_sum fun e he => h e.1 e.2 (mem_entries.mp he)

omit [DecidableEq κ] in
theorem sum_filter_ne_zero (f : κ × α → Nat) (l : List (κ × α)) :
    ((l.filter fun e => f e ≠ 0).map f).sum = (l.map f).sum := by
  induction l with
  | nil => rfl
  | cons e es ih =>
    by_cases he : f e = 0
    · rw [List.filter_cons_of_neg (by simpa using he), ih, List.map_cons, List.sum_cons, he,
        Nat.zero_add]
    · rw [List.filter_cons_of_pos (by simpa using he), List.map_cons, List.sum_cons, ih,
        List.map_cons, List.sum_cons]

/-- A sum over fewer entries, or of smaller terms, is no larger. -/
theorem total_le_of_subset {m m' : InsertionMap κ α} {f g : κ → α → Nat}
    (h : ∀ k a, m.get? k = some a → f k a = 0 ∨ m'.get? k = some a ∧ f k a ≤ g k a) :
    m.total f ≤ m'.total g := by
  have hmem : ∀ e ∈ m.entries.filter (fun e => f e.1 e.2 ≠ 0),
      e ∈ m'.entries ∧ f e.1 e.2 ≤ g e.1 e.2 := by
    intro e he
    obtain ⟨hm, hne⟩ := List.mem_filter.mp he
    rcases h e.1 e.2 (mem_entries.mp hm) with h₀ | ⟨hget, hle⟩
    · exact absurd h₀ (by simpa using hne)
    · exact ⟨mem_entries.mpr hget, hle⟩
  obtain ⟨l, hperm, hsub⟩ := (List.subperm_of_subset (m.nodup.of_map.filter _)
    fun e he => (hmem e he).1 : (m.entries.filter fun e => f e.1 e.2 ≠ 0).Subperm m'.entries)
  calc m.total f
      = ((m.entries.filter fun e => f e.1 e.2 ≠ 0).map fun e => f e.1 e.2).sum :=
        (sum_filter_ne_zero (fun e => f e.1 e.2) m.entries).symm
    _ ≤ ((m.entries.filter fun e => f e.1 e.2 ≠ 0).map fun e => g e.1 e.2).sum :=
        List.sum_le_sum fun e he => (hmem e he).2
    _ = (l.map fun e => g e.1 e.2).sum := ((hperm.map _).sum_eq).symm
    _ ≤ m'.total g := (hsub.map _).sum_le_sum fun _ _ => Nat.zero_le _

theorem sum_setEntries {k : κ} (a : α) (f : κ → α → Nat) {l : List (κ × α)}
    (h : k ∉ l.map Prod.fst) :
    ((setEntries k a l).map fun e => f e.1 e.2).sum = (l.map fun e => f e.1 e.2).sum + f k a := by
  induction l with
  | nil => simp [setEntries]
  | cons e es ih =>
    rw [List.map_cons, List.mem_cons, not_or] at h
    rw [setEntries, if_neg (fun he => h.1 he.symm), List.map_cons, List.sum_cons, ih h.2,
      List.map_cons, List.sum_cons]
    ring

theorem total_set_of_none {m : InsertionMap κ α} {k : κ} (a : α) (f : κ → α → Nat)
    (h : m.get? k = none) : (m.set k a).total f = m.total f + f k a :=
  sum_setEntries a f (get?_eq_none.mp h)

theorem sum_filter_ne (f : κ → α → Nat) {k : κ} {a : α} {l : List (κ × α)}
    (hl : (l.map Prod.fst).Nodup) (h : (k, a) ∈ l) :
    ((l.filter fun e => e.1 ≠ k).map fun e => f e.1 e.2).sum + f k a =
      (l.map fun e => f e.1 e.2).sum := by
  induction l with
  | nil => simp at h
  | cons e es ih =>
    rw [List.map_cons, List.nodup_cons] at hl
    rcases List.mem_cons.mp h with rfl | hm
    · have hes : es.filter (fun e => e.1 ≠ k) = es := by
        rw [List.filter_eq_self]
        intro e he
        have hm : e.1 ∈ es.map Prod.fst := List.mem_map_of_mem he
        have hne : e.1 ≠ k := fun hk => hl.1 (hk ▸ hm)
        simpa using hne
      rw [List.filter_cons_of_neg (by simp), hes, List.map_cons, List.sum_cons, Nat.add_comm]
    · have hk : k ∈ es.map Prod.fst := List.mem_map_of_mem (f := Prod.fst) hm
      have hne : e.1 ≠ k := fun he => hl.1 (he ▸ hk)
      rw [List.filter_cons_of_pos (by simpa using hne), List.map_cons, List.sum_cons, List.map_cons,
        List.sum_cons, Nat.add_assoc, ih hl.2 hm]

theorem total_delete_add {m : InsertionMap κ α} {k : κ} {a : α} (f : κ → α → Nat)
    (h : m.get? k = some a) : (m.delete k).total f + f k a = m.total f :=
  sum_filter_ne f m.nodup (mem_entries.mpr h)

/-- Distinct keys that are all held number at most `size`. -/
theorem length_le_size {m : InsertionMap κ α} {ks : List κ} (hd : ks.Nodup)
    (h : ∀ k ∈ ks, m.has k = true) : ks.length ≤ m.size := by
  have hs : ks ⊆ m.entries.map Prod.fst := by
    intro k hk
    obtain ⟨a, ha⟩ := has_iff.mp (h k hk)
    exact List.mem_map_of_mem (mem_entries.mpr ha)
  simpa [size] using (List.subperm_of_subset hd hs).length_le

end InsertionMap

end Teamspeak
