import Teamspeak.Core.Command

/-!
# The rows of a line

`splitCommandRows` of `helpers.ts`: a line of several rows is split at its pipes.
A row carries the fields of the row before that it does not name itself, for as
long as the rows together stay within a limit.

* `rowsOf`: the loop over the parts of a line.
* `inheritedRows`: the rows as they would be with no limit (`rowsOf_eq`).
-/

namespace Teamspeak

def fieldName (token : Str) : Str :=
  match token.idxOf? equalSign with
  | some (i + 1) => token.take (i + 1)
  | _ => token

/-- `part.split(" ").filter(Boolean)`. -/
def tokensOf (part : Str) : List Str := (part.splitOn space).filter fun token => token ≠ []

/-- The fields of the previous row that the row does not name, then the row's own
tokens. -/
def resolveRow (previous tokens : List Str) : List Str :=
  (previous.filter fun token => fieldName token ∉ tokens.map fieldName) ++ tokens

/-- The last token of each field, in the order the fields first appear. -/
def lastPerField (tokens : List Str) : List Str :=
  (tokens.foldl (fun kept token => kept.set (fieldName token) token)
    (InsertionMap.empty : InsertionMap Str Str)).entries.map Prod.snd

def minRowBudget : Nat := 64 * 1024
def rowGrowth : Nat := 4
def maxRowAmplification : Nat := 64

structure RowLimits where
  inherit : Nat
  drop : Nat

/-- How many characters the rows of a line of `n` may hold together before they
stop inheriting fields, and before they stop. -/
def rowLimits (n : Nat) : RowLimits :=
  let inherit := max (rowGrowth * n) minRowBudget
  let drop := min (2 * inherit) (maxRowAmplification * n)
  { inherit := min inherit drop, drop }

/-- What the loop of `splitCommandRows` carries. -/
structure RowState where
  used : Nat := 0
  previous : List Str := []
  inheriting : Bool := true

/-- One turn of the loop, on a part that is not empty: the row it makes, and the
state it leaves but for `used`. -/
def nextRow (pre : Str) (limits : RowLimits) (st : RowState) (tokens : List Str) :
    Str × RowState :=
  if st.inheriting then
    let resolved := resolveRow st.previous tokens
    let inherited := pre ++ joinSpace resolved
    if st.used + inherited.length ≤ limits.inherit then
      (inherited, { st with previous := lastPerField resolved })
    else (pre ++ joinSpace tokens, { st with inheriting := false, previous := [] })
  else (pre ++ joinSpace tokens, st)

/-- The loop of `splitCommandRows` over the parts that are left. -/
def rowsOf (pre : Str) (limits : RowLimits) (st : RowState) : List Str → List Str
  | [] => []
  | part :: parts =>
    if part = [] then rowsOf pre limits st parts
    else
      let (row, st) := nextRow pre limits st (tokensOf part)
      if st.used + row.length > limits.drop then []
      else row :: rowsOf pre limits { st with used := st.used + row.length } parts

/-- The command name a line starts with, or `[]`. -/
def headName (line : Str) : Str :=
  let head := match line.idxOf? space with
    | none => line
    | some spaceIdx => line.take spaceIdx
  if isCommandName head then head else []

/-- What follows the name. -/
def restOf (line : Str) : Str :=
  if headName line = [] then line
  else
    match line.idxOf? space with
    | none => []
    | some spaceIdx => line.drop (spaceIdx + 1)

/-- What every row of a line starts with. -/
def rowPrefix (line : Str) : Str :=
  if headName line = [] then [] else headName line ++ [space]

/-- Expand a pipe-separated line into its rows. -/
def splitCommandRows (line : Str) : List Str :=
  if pipe ∉ restOf line then [line]
  else
    let rows := rowsOf (rowPrefix line) (rowLimits line.length) {} ((restOf line).splitOn pipe)
    if rows = [] then [line] else rows

/-! ### Without a limit -/

/-- The rows of a line as they would be if they always inherited. -/
def inheritedRows (pre : Str) (previous : List Str) : List Str → List Str
  | [] => []
  | part :: parts =>
    if part = [] then inheritedRows pre previous parts
    else
      (pre ++ joinSpace (resolveRow previous (tokensOf part))) ::
        inheritedRows pre (lastPerField (resolveRow previous (tokensOf part))) parts

/-- The rows of a line, each with all it inherits, stay together within the limit
up to which rows inherit. -/
def fitsRowBudget (line : Str) : Prop :=
  (inheritedRows (rowPrefix line) [] ((restOf line).splitOn pipe)).flatten.length ≤
    (rowLimits line.length).inherit

instance (line : Str) : Decidable (fitsRowBudget line) :=
  inferInstanceAs (Decidable (_ ≤ _))

theorem rowLimits_inherit_le (n : Nat) : (rowLimits n).inherit ≤ (rowLimits n).drop :=
  Nat.min_le_right _ _

/-- Within the limit the loop gives every row with all it inherits. -/
theorem rowsOf_eq {pre : Str} {limits : RowLimits} (hlimits : limits.inherit ≤ limits.drop)
    {used : Nat} {previous : List Str} {parts : List Str}
    (hfits : used + (inheritedRows pre previous parts).flatten.length ≤ limits.inherit) :
    rowsOf pre limits { used, previous } parts = inheritedRows pre previous parts := by
  induction parts generalizing used previous with
  | nil => rfl
  | cons part parts ih =>
    rw [rowsOf, inheritedRows]
    by_cases hpart : part = []
    · rw [if_pos hpart, if_pos hpart]
      rw [inheritedRows, if_pos hpart] at hfits
      exact ih hfits
    · rw [if_neg hpart, if_neg hpart]
      rw [inheritedRows, if_neg hpart, List.flatten_cons, List.length_append] at hfits
      -- the row fits, so it inherits, and what is left fits after it
      have hfit : used + (pre ++ joinSpace (resolveRow previous (tokensOf part))).length ≤
          limits.inherit := by omega
      have hrow : nextRow pre limits { used, previous } (tokensOf part) =
          (pre ++ joinSpace (resolveRow previous (tokensOf part)),
            { used, previous := lastPerField (resolveRow previous (tokensOf part)) }) := by
        unfold nextRow
        rw [if_pos rfl]
        exact if_pos hfit
      rw [hrow]
      show (if _ then _ else _) = _
      rw [if_neg (Nat.not_lt.mpr (hfit.trans hlimits))]
      congr 1
      have hleft : used + (pre ++ joinSpace (resolveRow previous (tokensOf part))).length +
          (inheritedRows pre (lastPerField (resolveRow previous (tokensOf part)))
            parts).flatten.length ≤ limits.inherit := by omega
      exact ih hleft

end Teamspeak
