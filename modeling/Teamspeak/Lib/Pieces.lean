import Mathlib.Data.List.TakeWhile

/-!
# Lists cut after marked items

A list read up to its marked items falls into pieces, one for each of them, and what
comes after the last.  Read in parts, what a part leaves over goes before the next.

* `pieces_append`: the pieces of a list read in two parts.
* `pieces_open`: what is read before the first mark belongs to the first piece.
-/

namespace Teamspeak

variable {α : Type*} (mark : α → Bool)

/-- The pieces that marked items end, without these, and what is left. -/
def pieces : List α → List (List α) × List α
  | [] => ([], [])
  | a :: l =>
    if mark a then ([] :: (pieces l).1, (pieces l).2)
    else
      match (pieces l).1 with
      | [] => ([], a :: (pieces l).2)
      | piece :: rest => ((a :: piece) :: rest, (pieces l).2)

variable {mark}

@[simp] theorem pieces_nil : pieces mark [] = ([], []) := rfl

theorem pieces_marked {a : α} (ha : mark a = true) (l : List α) :
    pieces mark (a :: l) = ([] :: (pieces mark l).1, (pieces mark l).2) := if_pos ha

/-- What is read before a mark goes to the first piece, or to what is left. -/
theorem pieces_open {l : List α} (hl : ∀ a ∈ l, mark a = false) (m : List α) :
    pieces mark (l ++ m) =
      match (pieces mark m).1 with
      | [] => ([], l ++ (pieces mark m).2)
      | piece :: rest => ((l ++ piece) :: rest, (pieces mark m).2) := by
  induction l with
  | nil =>
    rw [List.nil_append]
    cases hm : (pieces mark m).1 with
    | nil => exact Prod.ext hm rfl
    | cons piece rest => exact Prod.ext hm rfl
  | cons a l ih =>
    have hrest := ih fun b hb => hl b (List.mem_cons_of_mem _ hb)
    have ha := Bool.eq_false_iff.mp (hl a List.mem_cons_self)
    rw [List.cons_append, pieces, if_neg ha, hrest]
    cases (pieces mark m).1 with
    | nil => rfl
    | cons piece rest => rfl

theorem pieces_of_open {l : List α} (hl : ∀ a ∈ l, mark a = false) : pieces mark l = ([], l) := by
  have h := pieces_open hl []
  rw [List.append_nil] at h
  rw [h]
  exact congrArg (Prod.mk []) (List.append_nil l)

/-- Nothing is marked in what is left. -/
theorem open_of_pieces (l : List α) : ∀ a ∈ (pieces mark l).2, mark a = false := by
  induction l with
  | nil => exact fun a ha => absurd ha List.not_mem_nil
  | cons b l ih =>
    rw [pieces]
    split
    · exact ih
    · rename_i hb
      split
      · rintro a ha
        rcases List.mem_cons.mp ha with rfl | ha
        · exact Bool.eq_false_iff.mpr hb
        · exact ih a ha
      · exact ih

/-- **Reading in parts**: what the first part leaves over goes before the second. -/
theorem pieces_append (l m : List α) :
    pieces mark (l ++ m) =
      ((pieces mark l).1 ++ (pieces mark ((pieces mark l).2 ++ m)).1,
        (pieces mark ((pieces mark l).2 ++ m)).2) := by
  induction l with
  | nil => rfl
  | cons a l ih =>
    by_cases ha : mark a = true
    · rw [List.cons_append, pieces_marked ha, pieces_marked ha, ih]
      rfl
    · rw [List.cons_append, pieces, if_neg ha, pieces, if_neg ha, ih]
      cases hl : (pieces mark l).1 with
      | cons piece rest => rfl
      | nil =>
        have hopen : ∀ b ∈ [a], mark b = false := fun b hb => by
          rw [List.mem_singleton.mp hb]
          exact Bool.eq_false_iff.mpr ha
        have hcons := pieces_open hopen ((pieces mark l).2 ++ m)
        rw [List.singleton_append] at hcons
        show _ = ([] ++ (pieces mark (a :: ((pieces mark l).2 ++ m))).1,
          (pieces mark (a :: ((pieces mark l).2 ++ m))).2)
        rw [hcons, List.nil_append, List.nil_append]
        cases (pieces mark ((pieces mark l).2 ++ m)).1 with
        | nil => rfl
        | cons piece rest => rfl

end Teamspeak
