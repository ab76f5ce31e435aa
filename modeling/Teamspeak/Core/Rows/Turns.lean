import Teamspeak.Core.Rows
import Teamspeak.Lib.Budget

/-!
# The rows of a line, in closed form

The loop of `splitCommandRows` carries a budget, the fields of the row before and
whether rows still inherit.  What it makes of a line can be said without it: rows
inherit as long as all of them stay within one limit (`inheriting`), the rest hold their
own tokens alone (`rowTokens`), and what passes the other limit is left out.

* `splitCommandRows_of_not_mem`: a line without `|` is its one row.
* `splitCommandRows_eq`: the rows of any other line.
-/

namespace Teamspeak

/-! ### Tokens -/

/-- The parts of a line that are not empty. -/
def partsOf (line : Str) : List Str := ((restOf line).splitOn pipe).filter fun part => part ≠ []

/-- The tokens of each part. -/
def ownTokens (line : Str) : List (List Str) := (partsOf line).map tokensOf

/-- The tokens of each row, were it to inherit always. -/
def inheritedTokens (previous : List Str) : List (List Str) → List (List Str)
  | [] => []
  | tokens :: rest =>
    resolveRow previous tokens ::
      inheritedTokens (lastPerField (resolveRow previous tokens)) rest

/-- A row as it is written. -/
def rowOfTokens (pre : Str) (tokens : List Str) : Str := pre ++ joinSpace tokens

def rowLength (pre : Str) (tokens : List Str) : Nat := (rowOfTokens pre tokens).length

/-- How many rows inherit, `used` being spent already. -/
def inheritingFrom (pre : Str) (limits : RowLimits) (used : Nat) (previous : List Str)
    (own : List (List Str)) : Nat :=
  (within (rowLength pre) limits.inherit used (inheritedTokens previous own)).length

/-- How many rows of a line inherit. -/
def inheriting (line : Str) : Nat :=
  inheritingFrom (rowPrefix line) (rowLimits line.length) 0 [] (ownTokens line)

/-- The tokens of each row, the rows that are left out among them. -/
def rowTokens (line : Str) : List (List Str) :=
  (inheritedTokens [] (ownTokens line)).take (inheriting line) ++
    (ownTokens line).drop (inheriting line)

/-- The rows that are kept. -/
def keptRowTokens (line : Str) : List (List Str) :=
  within (rowLength (rowPrefix line)) (rowLimits line.length).drop 0 (rowTokens line)

@[simp] theorem length_inheritedTokens (previous : List Str) (own : List (List Str)) :
    (inheritedTokens previous own).length = own.length := by
  induction own generalizing previous with
  | nil => rfl
  | cons tokens own ih => rw [inheritedTokens, List.length_cons, ih, List.length_cons]

theorem inheriting_le (line : Str) : inheriting line ≤ (ownTokens line).length := by
  have : inheriting line ≤ (inheritedTokens [] (ownTokens line)).length := length_within_le
  rwa [length_inheritedTokens] at this

theorem length_rowTokens (line : Str) : (rowTokens line).length = (partsOf line).length := by
  have := inheriting_le line
  rw [rowTokens, List.length_append, List.length_take, List.length_drop, length_inheritedTokens,
    Nat.min_eq_left this, Nat.add_sub_cancel' this, ownTokens, List.length_map]

/-! ### The loop -/

section

variable {pre : Str} {limits : RowLimits} {used : Nat} {previous : List Str} {parts : List Str}

/-- Once rows inherit no more, each holds its own tokens. -/
theorem rowsOf_plain : rowsOf pre limits { used, previous, inheriting := false } parts =
    (within (rowLength pre) limits.drop used
      ((parts.filter fun part => part ≠ []).map tokensOf)).map (rowOfTokens pre) := by
  induction parts generalizing used with
  | nil => rfl
  | cons part parts ih =>
    rw [rowsOf]
    by_cases hpart : part = []
    · rw [if_pos hpart, List.filter_cons_of_neg (by simpa using hpart)]
      exact ih
    · rw [if_neg hpart, List.filter_cons_of_pos (by simpa using hpart), List.map_cons, within]
      have hrow : nextRow pre limits { used, previous, inheriting := false } (tokensOf part) =
          (rowOfTokens pre (tokensOf part), { used, previous, inheriting := false }) :=
        if_neg Bool.false_ne_true
      rw [hrow]
      show (if _ then _ else _) = _
      by_cases hdrop : used + (rowOfTokens pre (tokensOf part)).length > limits.drop
      · rw [if_pos hdrop, if_pos (by exact hdrop)]
        rfl
      · rw [if_neg hdrop, if_neg (by exact hdrop), List.map_cons]
        exact congrArg _ ih

/-- The rows inherit for as long as they stay within their limit. -/
theorem rowsOf_inheriting : ∀ {used : Nat} {previous : List Str} {own : List (List Str)},
    own = (parts.filter fun part => part ≠ []).map tokensOf →
    rowsOf pre limits { used, previous } parts =
      (within (rowLength pre) limits.drop used
        ((inheritedTokens previous own).take (inheritingFrom pre limits used previous own) ++
          own.drop (inheritingFrom pre limits used previous own))).map (rowOfTokens pre) := by
  induction parts with
  | nil =>
    rintro used previous own rfl
    rfl
  | cons part parts ih =>
    intro used previous own hown
    rw [rowsOf]
    by_cases hpart : part = []
    · rw [if_pos hpart]
      rw [List.filter_cons_of_neg (by simpa using hpart)] at hown
      exact ih hown
    rw [if_neg hpart]
    rw [List.filter_cons_of_pos (by simpa using hpart), List.map_cons] at hown
    set tokens := tokensOf part
    by_cases hfits : used + (rowOfTokens pre (resolveRow previous tokens)).length ≤ limits.inherit
    · have hrow : nextRow pre limits { used, previous } tokens =
          (rowOfTokens pre (resolveRow previous tokens),
            { used, previous := lastPerField (resolveRow previous tokens) }) := by
        unfold nextRow
        rw [if_pos rfl]
        exact if_pos hfits
      have hcount : inheritingFrom pre limits used previous own =
          inheritingFrom pre limits (used + rowLength pre (resolveRow previous tokens))
            (lastPerField (resolveRow previous tokens))
            ((parts.filter fun part => part ≠ []).map tokensOf) + 1 := by
        rw [hown, inheritingFrom, inheritedTokens, within, if_neg (by exact Nat.not_lt.mpr hfits)]
        rfl
      rw [hrow, hcount, hown, inheritedTokens, List.take_succ_cons, List.drop_succ_cons,
        List.cons_append, within]
      show (if _ then _ else _) = _
      by_cases hdrop : used + (rowOfTokens pre (resolveRow previous tokens)).length > limits.drop
      · rw [if_pos hdrop, if_pos (by exact hdrop)]
        rfl
      · rw [if_neg hdrop, if_neg (by exact hdrop), List.map_cons]
        exact congrArg _ (ih rfl)
    · have hrow : nextRow pre limits { used, previous } tokens =
          (rowOfTokens pre tokens, { used, previous := [], inheriting := false }) := by
        unfold nextRow
        rw [if_pos rfl]
        exact if_neg hfits
      have hcount : inheritingFrom pre limits used previous own = 0 := by
        rw [hown, inheritingFrom, inheritedTokens, within,
          if_pos (by exact Nat.not_le.mp hfits)]
        rfl
      rw [hrow, hcount, hown, List.take_zero, List.drop_zero, List.nil_append, within]
      show (if _ then _ else _) = _
      by_cases hdrop : used + (rowOfTokens pre tokens).length > limits.drop
      · rw [if_pos hdrop, if_pos (by exact hdrop)]
        rfl
      · rw [if_neg hdrop, if_neg (by exact hdrop), List.map_cons]
        exact congrArg _ rowsOf_plain

end

/-- **The rows of a line with a pipe.** -/
theorem splitCommandRows_eq {line : Str} (hpipe : pipe ∈ restOf line) :
    splitCommandRows line =
      if keptRowTokens line = [] then [line]
      else (keptRowTokens line).map (rowOfTokens (rowPrefix line)) := by
  have hrows : rowsOf (rowPrefix line) (rowLimits line.length) {} ((restOf line).splitOn pipe) =
      (keptRowTokens line).map (rowOfTokens (rowPrefix line)) := rowsOf_inheriting rfl
  rw [splitCommandRows, if_neg (not_not.mpr hpipe)]
  dsimp only
  rw [hrows]
  simp only [List.map_eq_nil_iff]

theorem splitCommandRows_of_not_mem {line : Str} (hpipe : pipe ∉ restOf line) :
    splitCommandRows line = [line] := if_pos hpipe

end Teamspeak
