import Teamspeak.Core.Rows.Turns

/-!
# How much the rows of a line hold

The rows of a line together stay within a limit that grows with the line, and the limit
below which rows inherit is there to leave room under it.  For a line of under 1041
characters the two can be one, and then the rows that no longer inherit have no room
left.

* `rowBudget_iff`: which lines lose no row that they should not.
* `rowsTotal_le_of_long`: a line long enough is one of them.
-/

namespace Teamspeak

/-- How many characters the rows of a line hold together, those left out among them. -/
def rowsTotal (line : Str) : Nat := ((rowTokens line).map (rowLength (rowPrefix line))).sum

/-- What is promised of the rows of every line. -/
structure WithinRowBudget (line : Str) : Prop where
  some_row : 1 ≤ (splitCommandRows line).length
  rows_le : (splitCommandRows line).length ≤ max 1 (partsOf line).length
  total_le :
    ((splitCommandRows line).map List.length).sum ≤
        min (2 * max (4 * line.length) (64 * 1024)) (64 * line.length) ∨
      splitCommandRows line = [line]
  /-- Only a line with a name drops rows. -/
  keeps_rows : headName line = [] → (partsOf line).length ≤ (splitCommandRows line).length

/-! ### Lengths -/

theorem length_joinSpace_cons (token : Str) {tokens : List Str} (h : tokens ≠ []) :
    (joinSpace (token :: tokens)).length = token.length + 1 + (joinSpace tokens).length := by
  rw [joinSpace, joinSpace, List.intercalate_cons_of_ne_nil h, List.length_append,
    List.length_append, List.length_singleton]

theorem length_joinSpace_filter (p : Str → Bool) (tokens : List Str) :
    (joinSpace (tokens.filter p)).length ≤ (joinSpace tokens).length := by
  induction tokens with
  | nil => exact le_rfl
  | cons token tokens ih =>
    by_cases hall : tokens = []
    · subst hall
      cases hp : p token with
      | true => rw [List.filter_cons_of_pos hp, List.filter_nil]
      | false =>
        rw [List.filter_cons_of_neg (by simp [hp])]
        exact Nat.zero_le _
    have hcons := length_joinSpace_cons token hall
    by_cases hp : p token = true
    · rw [List.filter_cons_of_pos hp]
      by_cases hnil : tokens.filter p = []
      · rw [hnil, hcons, joinSpace, List.intercalate_singleton]
        omega
      · rw [length_joinSpace_cons token hnil, hcons]
        omega
    · rw [List.filter_cons_of_neg hp, hcons]
      omega

theorem joinSpace_splitOn (part : Str) : joinSpace (part.splitOn space) = part :=
  List.intercalate_splitOn space

/-- The tokens of a part are no longer than the part. -/
theorem length_joinSpace_tokensOf (part : Str) : (joinSpace (tokensOf part)).length ≤ part.length := by
  calc (joinSpace (tokensOf part)).length
      ≤ (joinSpace (part.splitOn space)).length := length_joinSpace_filter _ _
    _ = part.length := by rw [joinSpace_splitOn]

theorem sum_length_le_intercalate (sep : Str) (parts : List Str) :
    (parts.map List.length).sum ≤ (sep.intercalate parts).length := by
  induction parts with
  | nil => exact Nat.zero_le _
  | cons part parts ih =>
    rcases parts with _ | ⟨p, parts⟩
    · rw [List.intercalate_singleton, List.map_singleton, List.sum_singleton]
    · rw [List.intercalate_cons_cons, List.map_cons, List.sum_cons, List.length_append,
        List.length_append]
      omega

theorem length_restOf_le (line : Str) : (restOf line).length ≤ line.length := by
  unfold restOf
  split
  · exact le_rfl
  · split
    · exact Nat.zero_le _
    · rw [List.length_drop]
      exact Nat.sub_le _ _

/-- The parts of a line hold no more than the line. -/
theorem sum_partsOf_le (line : Str) : ((partsOf line).map List.length).sum ≤ line.length := by
  have hfilter : ((partsOf line).map List.length).sum ≤
      (((restOf line).splitOn pipe).map List.length).sum :=
    (List.filter_sublist.map List.length).sum_le_sum fun n _ => Nat.zero_le n
  have hjoin := sum_length_le_intercalate [pipe] ((restOf line).splitOn pipe)
  rw [List.intercalate_splitOn] at hjoin
  exact hfilter.trans (hjoin.trans (length_restOf_le line))

theorem rowPrefix_of_nameless {line : Str} (h : headName line = []) : rowPrefix line = [] :=
  if_pos h

theorem restOf_of_nameless {line : Str} (h : headName line = []) : restOf line = line := if_pos h

theorem length_le_drop (n : Nat) : n ≤ (rowLimits n).drop := by
  have hgrowth : rowGrowth = 4 := rfl
  have hmax : maxRowAmplification = 64 := rfl
  simp only [rowLimits, hgrowth, hmax]
  omega

/-- What the rows of a nameless line hold of their own is no more than the line. -/
theorem sum_ownTokens_le {line : Str} (h : headName line = []) :
    ((ownTokens line).map (rowLength (rowPrefix line))).sum ≤ line.length := by
  rw [ownTokens, List.map_map, rowPrefix_of_nameless h]
  refine (List.sum_le_sum (g := List.length) fun part _ => ?_).trans (sum_partsOf_le line)
  exact length_joinSpace_tokensOf part

theorem resolveRow_nil (tokens : List Str) : resolveRow [] tokens = tokens := List.nil_append _

/-- The only row of a nameless line is not longer than the line. -/
theorem rowsTotal_le_of_one {line : Str} (h : headName line = [])
    (hone : (partsOf line).length ≤ 1) : rowsTotal line ≤ line.length := by
  have hown := sum_ownTokens_le h
  have htokens : rowTokens line = ownTokens line := by
    have hinherited : inheritedTokens [] (ownTokens line) = ownTokens line := by
      rw [ownTokens]
      rcases hparts : partsOf line with _ | ⟨part, _ | ⟨part', parts⟩⟩
      · rfl
      · rw [List.map_singleton, inheritedTokens, resolveRow_nil, inheritedTokens]
      · rw [hparts] at hone
        exact absurd hone (by simp)
    rw [rowTokens, hinherited, List.take_append_drop]
  rw [rowsTotal, htokens]
  exact hown

/-! ### The budget -/

theorem keptRowTokens_length_le (line : Str) :
    (keptRowTokens line).length ≤ (partsOf line).length :=
  length_within_le.trans (length_rowTokens line).le

theorem sum_map_rowOfTokens (pre : Str) (rows : List (List Str)) :
    ((rows.map (rowOfTokens pre)).map List.length).sum = (rows.map (rowLength pre)).sum := by
  rw [List.map_map]
  rfl

theorem keptRowTokens_eq_iff (line : Str) :
    keptRowTokens line = rowTokens line ↔ rowsTotal line ≤ (rowLimits line.length).drop := by
  rw [keptRowTokens, within_eq_self_iff (Nat.zero_le _), Nat.zero_add, rowsTotal]

/-- A nameless line keeps all its rows just when they stay within the limit. -/
theorem keeps_rows_iff {line : Str} (h : headName line = []) :
    (partsOf line).length ≤ (splitCommandRows line).length ↔
      rowsTotal line ≤ (rowLimits line.length).drop := by
  by_cases hone : (partsOf line).length ≤ 1
  · refine iff_of_true (hone.trans ?_) ((rowsTotal_le_of_one h hone).trans (length_le_drop _))
    unfold splitCommandRows
    split
    · exact le_rfl
    · dsimp only
      split
      · exact le_rfl
      · rename_i hne
        exact List.length_pos_iff.mpr hne
  have hpipe : pipe ∈ restOf line := by
    by_contra hpipe
    refine hone ?_
    rw [partsOf, List.splitOn_eq_singleton hpipe]
    exact List.length_filter_le _ _
  rw [splitCommandRows_eq hpipe, ← keptRowTokens_eq_iff]
  split
  · rename_i hnil
    refine iff_of_false hone fun hall => hone ?_
    rw [← length_rowTokens, ← hall, hnil]
    exact Nat.zero_le 1
  · rw [List.length_map, ← length_rowTokens]
    refine ⟨fun hle => ?_, fun hall => by rw [hall]⟩
    exact within_prefix.eq_of_length_le hle

/-- **A line keeps to its budget unless it has no name and its rows pass the limit.** -/
theorem rowBudget_iff (line : Str) :
    WithinRowBudget line ↔ (headName line = [] → rowsTotal line ≤ (rowLimits line.length).drop) := by
  refine ⟨fun h hname => (keeps_rows_iff hname).mp (h.keeps_rows hname), fun h => ?_⟩
  have hkeeps : headName line = [] → (partsOf line).length ≤ (splitCommandRows line).length :=
    fun hname => (keeps_rows_iff hname).mpr (h hname)
  by_cases hpipe : pipe ∈ restOf line
  · by_cases hnil : keptRowTokens line = []
    · have hrows : splitCommandRows line = [line] := by
        rw [splitCommandRows_eq hpipe, if_pos hnil]
      exact ⟨by rw [hrows]; rfl, by rw [hrows]; exact Nat.le_max_left _ _, Or.inr hrows, hkeeps⟩
    · have hrows : splitCommandRows line =
          (keptRowTokens line).map (rowOfTokens (rowPrefix line)) := by
        rw [splitCommandRows_eq hpipe, if_neg hnil]
      refine ⟨?_, ?_, Or.inl ?_, hkeeps⟩
      · rw [hrows, List.length_map]
        exact List.length_pos_iff.mpr hnil
      · rw [hrows, List.length_map]
        exact (keptRowTokens_length_le line).trans (Nat.le_max_right _ _)
      · rw [hrows, sum_map_rowOfTokens]
        have hle : 0 + ((keptRowTokens line).map (rowLength (rowPrefix line))).sum ≤
            (rowLimits line.length).drop := used_add_within_le (Nat.zero_le _)
        rw [Nat.zero_add] at hle
        exact hle
  · have hrows := splitCommandRows_of_not_mem hpipe
    exact ⟨by rw [hrows]; rfl, by rw [hrows]; exact Nat.le_max_left _ _, Or.inr hrows, hkeeps⟩

/-- `a=xx…x` and 138 rows `b`. -/
def shortLine : Str :=
  .of "a=" ++ List.replicate 233 (unit 'x') ++ (List.replicate 138 (Str.of "|b")).flatten

/-- The last of them is lost. -/
theorem rowBudget_shortLine : ¬ WithinRowBudget shortLine := by
  intro h
  exact absurd (h.keeps_rows (by decide +kernel)) (by decide +kernel)

/-- What the rows of a line of 1041 characters hold, if it has no name, is within the
limit: what they inherit takes at most half of it. -/
theorem rowsTotal_le_of_long {line : Str} (h : headName line = []) (hlong : 1041 ≤ line.length) :
    rowsTotal line ≤ (rowLimits line.length).drop := by
  have hinherited : 0 + ((within (rowLength (rowPrefix line)) (rowLimits line.length).inherit 0
      (inheritedTokens [] (ownTokens line))).map (rowLength (rowPrefix line))).sum ≤
      (rowLimits line.length).inherit := used_add_within_le (Nat.zero_le _)
  have hown : (((ownTokens line).drop (inheriting line)).map (rowLength (rowPrefix line))).sum ≤
      line.length := by
    refine le_trans ?_ (sum_ownTokens_le h)
    exact ((List.drop_sublist _ _).map _).sum_le_sum fun n _ => Nat.zero_le n
  have hsum : rowsTotal line ≤ (rowLimits line.length).inherit + line.length := by
    rw [rowsTotal, rowTokens, List.map_append, List.sum_append]
    rw [Nat.zero_add, ← take_length_within] at hinherited
    exact Nat.add_le_add hinherited hown
  have hgrowth : rowGrowth = 4 := rfl
  have hmin : minRowBudget = 65536 := rfl
  have hmax : maxRowAmplification = 64 := rfl
  refine hsum.trans ?_
  simp only [rowLimits, hgrowth, hmin, hmax]
  omega

end Teamspeak
