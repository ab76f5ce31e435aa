import Mathlib.Data.List.Induction
import Teamspeak.Core.Rows.Fields

/-!
# What rows hold over

The words a row inherits, said of the parts before it: of each part, the last word of
each field that no later part names (`heldOver`).  So a row that inherits begins with a
word of the earliest part that has one left.

* `rowWords`: the words of a row.
* `getElem?_rowTokens`: they are what the loop makes of it.
-/

namespace Teamspeak

/-- The words of a part that none of `later` names. -/
def unnamed (later : List (List Str)) (tokens : List Str) : List Str :=
  (lastPerField tokens).filter fun token => ∀ named ∈ later, fieldName token ∉ named.map fieldName

/-- The words that the parts before a row hold over to it. -/
def heldOver : List (List Str) → List Str
  | [] => []
  | tokens :: later => unnamed later tokens ++ heldOver later

/-- The words of row `i` of a line. -/
def rowWords (line : Str) (i : Nat) : List Str :=
  let tokens := (ownTokens line).getD i []
  if i < inheriting line then resolveRow (heldOver ((ownTokens line).take i)) tokens else tokens

/-! ### Holding over -/

theorem unnamed_concat (later : List (List Str)) (tokens named : List Str) :
    unnamed (later ++ [named]) tokens =
      (unnamed later tokens).filter fun token => fieldName token ∉ named.map fieldName := by
  rw [unnamed, unnamed, List.filter_filter]
  refine List.filter_congr fun token _ => ?_
  rw [← Bool.decide_and, decide_eq_decide]
  simp only [List.mem_append, List.mem_singleton, or_imp, forall_and, forall_eq]
  exact and_comm

theorem unnamed_nil (tokens : List Str) : unnamed [] tokens = lastPerField tokens :=
  List.filter_eq_self.mpr fun _ _ => decide_eq_true fun _ h => absurd h List.not_mem_nil

/-- One more part takes its fields from what is held over, and adds its words. -/
theorem heldOver_concat (past : List (List Str)) (named : List Str) :
    heldOver (past ++ [named]) =
      ((heldOver past).filter fun token => fieldName token ∉ named.map fieldName) ++
        lastPerField named := by
  induction past with
  | nil =>
    show unnamed [] named ++ [] = lastPerField named
    rw [List.append_nil, unnamed_nil]
  | cons tokens past ih =>
    rw [List.cons_append, heldOver, heldOver, unnamed_concat, ih, List.filter_append,
      List.append_assoc]

theorem nodup_lastPerField (tokens : List Str) : ((lastPerField tokens).map fieldName).Nodup := by
  have hfields : (lastPerField tokens).map fieldName = (fields tokens).entries.map Prod.fst := by
    rw [lastPerField_eq, List.map_map]
    exact List.map_congr_left fun e he => fieldName_of_mem_entries he
  rw [hfields]
  exact (fields tokens).nodup

theorem map_fieldName_snd {tokens : List Str} :
    (tokens.map fun token => (fieldName token, token)).map Prod.fst = tokens.map fieldName := by
  rw [List.map_map]
  rfl

/-- What follows words of other fields keeps its own fields after them. -/
theorem lastPerField_append {previous tokens : List Str} (hnodup : (previous.map fieldName).Nodup)
    (hother : ∀ token ∈ tokens, fieldName token ∉ previous.map fieldName) :
    lastPerField (previous ++ tokens) = previous ++ lastPerField tokens := by
  have hprevious : (fields previous).entries =
      (previous.map fun token => (fieldName token, token)) ++
        (.empty : InsertionMap Str Str).entries := by
    rw [fields, InsertionMap.entries_setAll_of_nodup (by rwa [map_fieldName_snd])]
    exact (List.append_nil _).symm
  have happend : (fields (previous ++ tokens)).entries =
      (previous.map fun token => (fieldName token, token)) ++ (fields tokens).entries := by
    rw [fields, List.map_append, InsertionMap.setAll_append]
    refine InsertionMap.entries_setAll_append hprevious fun e he => ?_
    obtain ⟨token, htoken, rfl⟩ := List.mem_map.mp he
    rw [map_fieldName_snd]
    exact hother token htoken
  rw [lastPerField_eq, lastPerField_eq, happend, List.map_append, List.map_map]
  exact congrArg (· ++ _) (List.map_id previous)

theorem nodup_heldOver (past : List (List Str)) : ((heldOver past).map fieldName).Nodup := by
  have hheld : ∃ tokens, heldOver past = lastPerField tokens := by
    induction past using List.reverseRecOn with
    | nil => exact ⟨[], rfl⟩
    | append_singleton past named ih =>
      obtain ⟨tokens, htokens⟩ := ih
      refine ⟨resolveRow (heldOver past) named, ?_⟩
      rw [heldOver_concat, resolveRow, lastPerField_append]
      · rw [htokens]
        exact (nodup_lastPerField tokens).sublist (List.filter_sublist.map _)
      · intro token htoken hmem
        obtain ⟨other, hother, hfield⟩ := List.mem_map.mp hmem
        have := List.of_mem_filter hother
        rw [decide_eq_true_iff] at this
        exact this (hfield ▸ List.mem_map_of_mem htoken)
  obtain ⟨tokens, htokens⟩ := hheld
  rw [htokens]
  exact nodup_lastPerField tokens

/-- What a row leaves to the next is what is held over with its part among them. -/
theorem lastPerField_resolveRow (past : List (List Str)) (named : List Str) :
    lastPerField (resolveRow (heldOver past) named) = heldOver (past ++ [named]) := by
  rw [heldOver_concat, resolveRow, lastPerField_append]
  · exact (nodup_heldOver past).sublist (List.filter_sublist.map _)
  · intro token htoken hmem
    obtain ⟨other, hother, hfield⟩ := List.mem_map.mp hmem
    have := List.of_mem_filter hother
    rw [decide_eq_true_iff] at this
    exact this (hfield ▸ List.mem_map_of_mem htoken)

theorem getElem?_inheritedTokens (past own : List (List Str)) (i : Nat) :
    (inheritedTokens (heldOver past) own)[i]? =
      own[i]?.map fun tokens => resolveRow (heldOver (past ++ own.take i)) tokens := by
  induction own generalizing past i with
  | nil => rfl
  | cons tokens own ih =>
    rw [inheritedTokens, lastPerField_resolveRow]
    cases i with
    | zero => rw [List.take_zero, List.append_nil]; rfl
    | succ i =>
      rw [List.getElem?_cons_succ, List.getElem?_cons_succ, ih, List.take_succ_cons,
        List.append_assoc, List.singleton_append]

/-- **The words of each row.** -/
theorem getElem?_rowTokens {line : Str} {i : Nat} (hi : i < (partsOf line).length) :
    (rowTokens line)[i]? = some (rowWords line i) := by
  have hlen : i < (ownTokens line).length := by rwa [ownTokens, List.length_map]
  have hown : (ownTokens line)[i]? = some ((ownTokens line).getD i []) := by
    rw [List.getD_eq_getElem?_getD, List.getElem?_eq_getElem hlen]
    rfl
  rw [rowWords]
  by_cases hinherits : i < inheriting line
  · have hget := getElem?_inheritedTokens [] (ownTokens line) i
    rw [List.nil_append, hown, Option.map_some] at hget
    rw [if_pos hinherits, getElem?_rowTokens_of_lt hinherits]
    exact hget
  · rw [if_neg hinherits, getElem?_rowTokens_of_le (Nat.not_lt.mp hinherits), hown]

end Teamspeak
