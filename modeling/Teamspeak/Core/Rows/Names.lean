import Teamspeak.Core.Rows.Budget
import Teamspeak.Core.Rows.Held

/-!
# Names

The splitter looks for a command name in the first word of the line as it stands, and so
keeps it on every row.  The parser looks for one in the first word of every row, from its
first printable character on.  The two agree on every row of a line with a name.  A row
of a line without one can begin with a word that the line does not begin with: one of the
earliest part that has a field left, or of its own.

* `parseCommand_eq`, `map_name_parseCommand`: what is read, from the words alone.
* `leadingWord`: the word that comes to the front of some parts.
* `names_agree_iff`: the lines on which the two agree.
-/

namespace Teamspeak

/-- What is read from a text of `words`, past what it skips: nothing from an empty text,
and from one whose first word is all unprintable and is followed by a space. -/
def readWords : List Str → Option (List Str)
  | [] => none
  | [word] => if word = [] then none else some [skipUnprintable word]
  | word :: rest => if word.any isPrintable then some (skipUnprintable word :: rest) else none

/-- The command that words are read as, the first of which is not empty. -/
def commandOfWords (words : List Str) : Command :=
  let name := if isCommandName (words.headD []) then words.headD [] else []
  { name, params := (words.drop (if name = [] then 0 else 1)).foldl readToken .empty }

theorem isPrintable_space : isPrintable space = true := by decide

theorem skipUnprintable_append {word : Str} (h : word.any isPrintable = true) (rest : Str) :
    skipUnprintable (word ++ rest) = skipUnprintable word ++ rest := by
  obtain ⟨c, hc, hprintable⟩ := List.any_eq_true.mp h
  obtain ⟨i, hi⟩ := Option.isSome_iff_exists.mp
    (List.findIdx?_isSome.trans h : (word.findIdx? isPrintable).isSome = true)
  have hlt : i < word.length := (List.findIdx?_eq_some_iff_getElem.mp hi).1
  rw [skipUnprintable, skipUnprintable, List.findIdx?_append, hi, Option.some_or, Option.getD_some,
    List.drop_append_of_le_length hlt.le]

theorem skipUnprintable_of_none {word : Str} (h : word.any isPrintable = false) :
    skipUnprintable word = word := by
  have hnone : word.findIdx? isPrintable = none := by
    rw [← Option.not_isSome_iff_eq_none, List.findIdx?_isSome, h]
    exact Bool.false_ne_true
  rw [skipUnprintable, hnone]
  rfl

/-- Past a word that is all unprintable, the text is read from the space on. -/
theorem skipUnprintable_space {word : Str} (h : word.any isPrintable = false) (rest : Str) :
    skipUnprintable (word ++ space :: rest) = space :: rest := by
  have hnone : word.findIdx? isPrintable = none := by
    rw [← Option.not_isSome_iff_eq_none, List.findIdx?_isSome, h]
    exact Bool.false_ne_true
  rw [skipUnprintable, List.findIdx?_append, hnone, Option.none_or, List.findIdx?_cons,
    isPrintable_space, if_pos rfl, Option.map_some, Option.getD_some, Nat.zero_add, List.drop_left]

/-- What is left of a text after its unprintable characters has its words, but for the
first. -/
theorem parseCommand_of_words {s : Str} {words : List Str} (hs : s ≠ [])
    (hsplit : (skipUnprintable s).splitOn space = words) :
    parseCommand s = if words.headD [] = [] then none else some (commandOfWords words) := by
  rw [parseCommand, if_neg hs]
  dsimp only
  rw [hsplit]
  rfl

theorem splitOn_append_space {word : Str} (h : space ∉ word) (rest : Str) :
    (word ++ space :: rest).splitOn space = word :: rest.splitOn space :=
  List.splitOn_append_cons_self_of_not_mem h rest

theorem not_mem_skipUnprintable {word : Str} (h : space ∉ word) :
    space ∉ skipUnprintable word := fun hmem => h (List.mem_of_mem_drop hmem)

theorem skipUnprintable_ne_nil {word : Str} (h : word ≠ []) : skipUnprintable word ≠ [] := by
  cases hprintable : word.any isPrintable with
  | false => rwa [skipUnprintable_of_none hprintable]
  | true =>
    intro hnil
    obtain ⟨i, hi⟩ := Option.isSome_iff_exists.mp
      (List.findIdx?_isSome.trans hprintable : (word.findIdx? isPrintable).isSome = true)
    have hlt : i < word.length := (List.findIdx?_eq_some_iff_getElem.mp hi).1
    rw [skipUnprintable, hi, Option.getD_some, List.drop_eq_nil_iff] at hnil
    omega

/-- **A text is read from its words.** -/
theorem parseCommand_eq (s : Str) :
    parseCommand s = (readWords (s.splitOn space)).map commandOfWords := by
  by_cases hs : s = []
  · subst hs
    rfl
  obtain ⟨word, rest, hsplit⟩ := List.exists_cons_of_ne_nil (List.splitOn_ne_nil space s)
  have hword : space ∉ word := not_mem_of_mem_splitOn (hsplit ▸ List.mem_cons_self)
  have hjoin : [space].intercalate (s.splitOn space) = s := List.intercalate_splitOn space
  rw [hsplit] at hjoin
  rw [hsplit]
  rcases rest with _ | ⟨next, rest⟩
  · rw [List.intercalate_singleton] at hjoin
    subst hjoin
    have hskip : (skipUnprintable word).splitOn space = [skipUnprintable word] :=
      List.splitOn_eq_singleton (not_mem_skipUnprintable hword)
    rw [parseCommand_of_words hs hskip, List.headD_cons, if_neg (skipUnprintable_ne_nil hs),
      readWords, if_neg hs, Option.map_some]
  · have hrest : ([space].intercalate (next :: rest)).splitOn space = next :: rest :=
      splitOn_joinSpace (List.cons_ne_nil _ _) fun token htoken =>
        not_mem_of_mem_splitOn (hsplit ▸ List.mem_cons_of_mem _ htoken)
    rw [List.intercalate_cons_cons, List.append_assoc, List.singleton_append] at hjoin
    rw [readWords]
    · cases hprintable : word.any isPrintable with
      | true =>
        have hne : word ≠ [] := by
          rintro rfl
          cases hprintable
        have hskip : (skipUnprintable (word ++ space :: [space].intercalate (next :: rest))).splitOn
            space = skipUnprintable word :: next :: rest := by
          rw [skipUnprintable_append hprintable,
            splitOn_append_space (not_mem_skipUnprintable hword), hrest]
        rw [if_pos rfl, ← hjoin, parseCommand_of_words (by simp) hskip, List.headD_cons,
          if_neg (skipUnprintable_ne_nil hne), Option.map_some]
      | false =>
        have hskip : (skipUnprintable (word ++ space :: [space].intercalate (next :: rest))).splitOn
            space = [] :: next :: rest := by
          have hcut := splitOn_append_space List.not_mem_nil ([space].intercalate (next :: rest))
          rw [skipUnprintable_space hprintable]
          rwa [hrest] at hcut
        rw [if_neg Bool.false_ne_true, ← hjoin, parseCommand_of_words (by simp) hskip,
          List.headD_cons, if_pos rfl, Option.map_none]
    · exact fun h => by cases h

theorem space_not_mem_rowTokens (line : Str) :
    ∀ tokens ∈ rowTokens line, ∀ token ∈ tokens, space ∉ token := by
  refine forall_mem_rowTokens fun tokens htokens token hmem => ?_
  obtain ⟨part, -, rfl⟩ := List.mem_map.mp htokens
  exact (space_not_mem_tokensOf hmem).1

theorem getElem?_keptRowTokens {line : Str} {i : Nat} (hi : i < (keptRowTokens line).length) :
    (keptRowTokens line)[i]? = some (rowWords line i) := by
  have hget := getElem?_rowTokens (hi.trans_le (keptRowTokens_length_le line))
  have htokens := List.getElem?_eq_getElem hi
  rw [← hget, getElem?_of_within htokens, htokens]

/-! ### The word at the front -/

end Teamspeak
